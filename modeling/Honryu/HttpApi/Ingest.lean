import Honryu.Lifecycle.ControlPlane

/-!
The ingest route: who may push measurements for an execution, and which cluster
they are taken to come from.

There are two kinds of credentials. The deployment has one token for its own fleet, and
every registered cluster has one of its own, of which only a hash is stored. What a push says
of its cluster is not looked at.
-/

namespace Honryu.HttpApi

open Lifecycle (Execution)
open Metrics (Batch)

/-! ### The handler -/

structure Refusal where
  status : ℕ
  message : String
  deriving DecidableEq

def invalidCredentials : Refusal := ⟨401, "invalid ingest credentials"⟩

def notForThisExecution : Refusal := ⟨403, "ingest token is not valid for this execution"⟩

inductive PortError
  | notFound
  | unavailable
  deriving DecidableEq

structure Cluster where
  name : String
  deriving DecidableEq

/-- What the handler is given: the token of the deployment, and two ports, neither of which
has to be there. -/
structure Deps where
  ingestToken : String
  clusterByIngestTokenHash : Option (String → Except PortError Cluster)
  getExecution : Option (ℤ → Except PortError Execution)
  hashToken : String → String

/-- `strings.CutPrefix`. -/
def cutPrefix (s start : String) : Option String :=
  (start.toList.isPrefixOf? s.toList).map String.ofList

/-- `checkIngestCredentials` returns the batch with the cluster that was authenticated. -/
def checkIngestCredentials (deps : Deps) (authorization : String) (batch : Batch) :
    Except Refusal Batch :=
  match cutPrefix authorization "Bearer " with
  | none => .error invalidCredentials
  | some presented =>
      if deps.ingestToken ≠ "" ∧ presented = deps.ingestToken then
        .ok { batch with cluster := "" }
      else
        match deps.clusterByIngestTokenHash, deps.getExecution with
        | some clusterByIngestTokenHash, some getExecution =>
            match clusterByIngestTokenHash (deps.hashToken presented) with
            | .error _ => .error invalidCredentials
            | .ok cluster =>
                match getExecution batch.executionId with
                | .error _ => .error notForThisExecution
                | .ok exe =>
                    if exe.cluster ≠ cluster.name ∧ cluster.name ∉ exe.fanOutTargets then
                      .error notForThisExecution
                    else .ok { batch with cluster := cluster.name }
        | _, _ => .error invalidCredentials

/-- `ingest` returns what it passes on to the metric service. A body that is no batch is
`none`. -/
def ingest (deps : Deps) (authorization : String) (body : Option Batch) : Except Refusal Batch :=
  match body with
  | none => .error ⟨400, "malformed batch"⟩
  | some batch =>
      if batch.executionId ≤ 0 then .error ⟨400, "batch does not name an execution"⟩
      else checkIngestCredentials deps authorization batch

/-! ### Credentials -/

inductive Credential
  | ofFleet
  | ofCluster (cluster : Cluster)
  deriving DecidableEq

def Credential.origin : Credential → String
  | .ofFleet => ""
  | .ofCluster cluster => cluster.name

namespace Deps

variable (deps : Deps)

def clusterOf (presented : String) : Option Cluster :=
  deps.clusterByIngestTokenHash.bind fun lookup => (lookup (deps.hashToken presented)).toOption

def execution (executionId : ℤ) : Option Execution :=
  deps.getExecution.bind fun lookup => (lookup executionId).toOption

def credential (authorization : String) : Option Credential :=
  (cutPrefix authorization "Bearer ").bind fun presented =>
    if deps.ingestToken ≠ "" ∧ presented = deps.ingestToken then some .ofFleet
    else (deps.clusterOf presented).map .ofCluster

def Speaks (executionId : ℤ) : Credential → Prop
  | .ofFleet => True
  | .ofCluster cluster =>
      ∃ exe, deps.execution executionId = some exe ∧
        (exe.cluster = cluster.name ∨ cluster.name ∈ exe.fanOutTargets)

end Deps

variable {deps : Deps} {authorization : String} {batch admitted : Batch}

theorem checkIngestCredentials_eq_ok :
    checkIngestCredentials deps authorization batch = .ok admitted ↔
      ∃ credential, deps.credential authorization = some credential ∧
        deps.Speaks batch.executionId credential ∧
          admitted = { batch with cluster := credential.origin } := by
  unfold checkIngestCredentials Deps.credential
  cases cutPrefix authorization "Bearer " with
  | none => simp
  | some presented =>
      by_cases hfleet : deps.ingestToken ≠ "" ∧ presented = deps.ingestToken
      · simp [hfleet, Deps.Speaks, Credential.origin, eq_comm]
      · simp only [hfleet, if_false, Option.bind_some]
        unfold Deps.clusterOf Deps.Speaks Deps.execution
        cases deps.clusterByIngestTokenHash with
        | none => simp
        | some lookup =>
            cases hcluster : lookup (deps.hashToken presented) with
            | error e =>
                cases deps.getExecution <;> simp [hcluster, Except.toOption]
            | ok cluster =>
                cases deps.getExecution with
                | none => simp [hcluster, Except.toOption]
                | some getExecution =>
                    cases hexe : getExecution batch.executionId with
                    | error e => simp [hcluster, hexe, Except.toOption]
                    | ok exe =>
                        have hrefused : (exe.cluster ≠ cluster.name ∧ cluster.name ∉ exe.fanOutTargets) ↔
                            ¬(exe.cluster = cluster.name ∨ cluster.name ∈ exe.fanOutTargets) :=
                          not_or.symm
                        by_cases hscope : exe.cluster = cluster.name ∨ cluster.name ∈ exe.fanOutTargets
                        · simp [hcluster, hexe, Except.toOption, hrefused, hscope, Credential.origin,
                            eq_comm (a := admitted), -not_or]
                        · simp [hcluster, hexe, Except.toOption, hrefused, hscope, -not_or]

/-! ### What a cluster may speak for -/

/-- A cluster's token is good for the clusters that the execution runs on, and what it pushes
is taken to come from this cluster. -/
structure ScopedToOrigins (deps : Deps) (authorization : String) (body : Option Batch) : Prop where
  origin : ∀ admitted cluster, ingest deps authorization body = .ok admitted →
    deps.credential authorization = some (.ofCluster cluster) →
      ∃ exe, deps.execution admitted.executionId = some exe ∧ cluster.name ∈ exe.clusters
  attributed : ∀ admitted, ingest deps authorization body = .ok admitted →
    ∃ batch credential, body = some batch ∧ deps.credential authorization = some credential ∧
      admitted = { batch with cluster := credential.origin }

/-- The token is not that of a cluster which an execution only has left over: a fan-out does
not run on its own cluster, unless this is one of its targets. -/
def NotLeftOver (deps : Deps) (authorization : String) (body : Option Batch) : Prop :=
  ∀ batch cluster exe, body = some batch → 0 < batch.executionId →
    deps.credential authorization = some (.ofCluster cluster) →
      deps.execution batch.executionId = some exe → exe.isFanOut = true →
        exe.cluster = cluster.name → exe.cluster ∈ exe.fanOutTargets

theorem ingest_eq_ok {body : Option Batch} :
    ingest deps authorization body = .ok admitted ↔
      ∃ batch credential, body = some batch ∧ 0 < batch.executionId ∧
        deps.credential authorization = some credential ∧
          deps.Speaks batch.executionId credential ∧
            admitted = { batch with cluster := credential.origin } := by
  cases body with
  | none => simp [ingest]
  | some batch =>
      by_cases hid : batch.executionId ≤ 0
      · simp [ingest, hid, not_lt.mpr hid]
      · simp [ingest, hid, not_le.mp hid, checkIngestCredentials_eq_ok]

theorem mem_clusters_iff {exe : Execution} {cluster : String} :
    cluster ∈ exe.clusters ↔
      (exe.cluster = cluster ∨ cluster ∈ exe.fanOutTargets) ∧
        (exe.isFanOut = true → exe.cluster = cluster → exe.cluster ∈ exe.fanOutTargets) := by
  by_cases hfan : exe.fanOutTargets = []
  · simp [Execution.clusters, Execution.isFanOut, hfan, eq_comm]
  · simp only [Execution.clusters, Execution.isFanOut, hfan, ne_eq, not_false_eq_true, decide_true,
      if_true, forall_const]
    refine ⟨fun h => ⟨.inr h, fun heq => heq ▸ h⟩, fun h => h.1.elim (fun heq => ?_) id⟩
    exact heq ▸ h.2 heq

/-- Credentials are scoped to the clusters an execution runs on as long as no token is
presented of a cluster that the execution has left over. -/
theorem scopedToOrigins_iff (deps : Deps) (authorization : String) (body : Option Batch) :
    ScopedToOrigins deps authorization body ↔ NotLeftOver deps authorization body := by
  constructor
  · rintro ⟨horigin, -⟩ batch cluster exe hbody hid hcredential hexe hfan hleft
    obtain ⟨exe', hexe', hmem⟩ := horigin { batch with cluster := cluster.name } cluster
      (ingest_eq_ok.mpr
        ⟨batch, .ofCluster cluster, hbody, hid, hcredential, ⟨exe, hexe, .inl hleft⟩, rfl⟩) hcredential
    obtain rfl : exe = exe' := Option.some_inj.mp (hexe.symm.trans hexe')
    exact (mem_clusters_iff.mp hmem).2 hfan hleft
  · intro hleft
    refine ⟨fun admitted cluster hok hcredential => ?_, fun admitted hok => ?_⟩
    · obtain ⟨batch, credential, hbody, hid, hcredential', hspeaks, rfl⟩ := ingest_eq_ok.mp hok
      obtain rfl : Credential.ofCluster cluster = credential :=
        Option.some_inj.mp (hcredential.symm.trans hcredential')
      obtain ⟨exe, hexe, hscope⟩ := hspeaks
      exact ⟨exe, hexe, mem_clusters_iff.mpr
        ⟨hscope, hleft batch cluster exe hbody hid hcredential hexe⟩⟩
    · obtain ⟨batch, credential, hbody, -, hcredential, -, rfl⟩ := ingest_eq_ok.mp hok
      exact ⟨batch, credential, hbody, hcredential, rfl⟩

def leftOver : Execution :=
  { executionId := 1, cluster := "eu", fanOutTargets := ["us"], profile := [] }

def tokensAsNames (exe : Execution) : Deps :=
  { ingestToken := "", hashToken := id
    clusterByIngestTokenHash := some fun hash => .ok ⟨hash⟩
    getExecution := some fun _ => .ok exe }

def pushed : Batch :=
  { executionId := 1, scenarioId := 1, runId := 0, shardIndex := 0, streamId := "s", intervals := []
    cluster := "us", final := false, exitCode := none }

theorem not_scopedToOrigins_leftOver :
    ¬ScopedToOrigins (tokensAsNames leftOver) "Bearer eu" (some pushed) := by
  intro h
  obtain ⟨exe, hexe, hmem⟩ := h.origin { pushed with cluster := "eu" } ⟨"eu"⟩
    (by decide +kernel) (by decide +kernel)
  cases hexe
  exact absurd hmem (by decide)

end Honryu.HttpApi
