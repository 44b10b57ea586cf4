import Honryu.Lib.Text
import Honryu.LoadProfile.Shard
import Honryu.Metrics.Interval
import Honryu.Progress.SqlLedger

/-!
The control plane's side of an execution's life: deploying, triggering,
stopping, and taking in what the pods push.

The model is of one execution. What the operations ask of other parts of the
system (the freeze of a campaign, the scenarios' files, the pods that are ready,
the quota, the storage of a scenario's mark) is given to them as a view, so that
every answer is covered. The storage calls of the life cycle itself succeed.
-/

namespace Honryu.Lifecycle

open Metrics Progress

/-! ### Executions and phases -/

structure Execution where
  executionId : ℤ
  cluster : String
  fanOutTargets : List String
  profile : List LoadProfile.Entry

structure FanOutTargetDuplicate where
  target : String
  deriving DecidableEq

/-- One target of the loop of `NormalizeFanOutTargets`. -/
def addFanOutTarget (out : List String) (t : String) :
    Except FanOutTargetDuplicate (List String) :=
  let t := Text.trimSpace t
  if t = "" then .ok out else if t ∈ out then .error ⟨t⟩ else .ok (out ++ [t])

/-- `NormalizeFanOutTargets` trims each target, drops the empty ones, and refuses
duplicates. -/
def normalizeFanOutTargets (targets : List String) : Except FanOutTargetDuplicate (List String) :=
  targets.foldlM addFanOutTarget []

namespace Execution

variable (exe : Execution)

def isFanOut : Bool := exe.fanOutTargets ≠ []

/-- `Clusters`: every cluster the execution's engines live on. -/
def clusters : List String := if exe.isFanOut then exe.fanOutTargets else [exe.cluster]

def totalEngines : ℤ := (exe.profile.map (·.engines)).sum

theorem clusters_ne_nil : exe.clusters ≠ [] := by
  rw [clusters, isFanOut]
  split
  case isTrue h => simpa using h
  case isFalse => exact List.cons_ne_nil _ _

end Execution

inductive Phase
  | idle
  | deployed
  | running
  deriving DecidableEq

inductive TransitionError
  | noScenarios
  | notDeployed
  | enginesNotReady
  | alreadyRunning
  | notRunning
  deriving DecidableEq

def derivePhase (enginesDeployed : ℤ) (running : Bool) : Phase :=
  if running then .running else if 0 < enginesDeployed then .deployed else .idle

def canDeploy (phase : Phase) : Except TransitionError Unit :=
  if phase = .running then .error .alreadyRunning else .ok ()

def canTrigger (phase : Phase) (exe : Execution) (enginesReady : ℤ) :
    Except TransitionError Unit :=
  if exe.profile = [] then .error .noScenarios
  else
    match phase with
    | .idle => .error .notDeployed
    | .running => .error .alreadyRunning
    | .deployed =>
        if enginesReady < exe.totalEngines then .error .enginesNotReady else .ok ()

def canStop (phase : Phase) : Except TransitionError Unit :=
  if phase ≠ .running then .error .notRunning else .ok ()

/-! ### What is stored -/

structure RunRecord where
  started : ℕ
  ended : Option ℕ
  deriving DecidableEq

/-- `OrphanCompletion` is a shard's final batch that found no open run. -/
structure OrphanCompletion where
  scenarioId : ℤ
  shardIndex : ℤ
  exitCode : Option ℤ
  finishedAt : ℕ
  deriving DecidableEq

/-- `orphansCoverProfile`: the orphaned completions name every shard of every
entry. -/
def orphansCoverProfile (orphans : List OrphanCompletion) (profile : List LoadProfile.Entry) : Bool :=
  (profile.all fun e => (List.range e.engines.toNat).all fun i =>
    orphans.any fun oc => oc.scenarioId = e.scenarioId ∧ oc.shardIndex = i) && profile ≠ []

/-- What is stored of an execution: the marker of its open run, the run history
and the next run's id, the orphaned completions by scenario and shard, and the
progress of its runs. -/
structure Plane where
  current : Option ℤ
  nextRun : ℤ
  history : TallyMap ℤ RunRecord
  orphans : TallyMap (ℤ ×ₗ ℤ) OrphanCompletion
  progress : Repository

namespace Plane

def new : Plane :=
  { current := none, nextRun := 1, history := ∅, orphans := ∅, progress := .new }

/-- `StartRun` opens a run, unless one is open. -/
def startRun (p : Plane) (now : ℕ) : Option Plane :=
  if p.current.isSome then none
  else
    some
      { p with
        current := some p.nextRun, nextRun := p.nextRun + 1
        history := p.history.insert p.nextRun { started := now, ended := none } }

/-- `StopRun` closes the open run, if there is one. -/
def stopRun (p : Plane) (now : ℕ) : Plane :=
  match p.current with
  | none => p
  | some runId =>
      { p with
        current := none
        history := p.history.updateRow runId fun r => { r with ended := some now } }

def recordOrphanCompletion (p : Plane) (oc : OrphanCompletion) : Plane :=
  { p with orphans := p.orphans.insert (toLex (oc.scenarioId, oc.shardIndex)) oc }

/-- `OrphanCompletions` lists the orphaned completions. -/
def orphanCompletions (p : Plane) : List OrphanCompletion := p.orphans.toList.map (·.2)

/-! ### Taking in a push -/

/-- `closeRun` closes a run if the marker still names it. -/
def closeRun (p : Plane) (now : ℕ) (runId : ℤ) : Plane :=
  if p.current = some runId then p.stopRun now else p

/-- `finalize`, once the report is stored: it discards the working state and
closes the run. -/
def finalize (p : Plane) (now : ℕ) (runId : ℤ) : Plane :=
  { p with progress := p.progress.discard runId }.closeRun now runId

/-- `allShardsFinished`: as many shards have finished as the load profile calls
for, on every target of a fan-out. -/
def allShardsFinished (exe : Execution) (p : Plane) (runId : ℤ) : Bool :=
  let finished : ℤ := (p.progress.shardStates runId).countP (·.finished)
  let planned := exe.totalEngines
  if planned = 0 then false
  else (if exe.isFanOut then planned * exe.fanOutTargets.length else planned) ≤ finished

inductive IngestError
  | noActiveRun
  | staleRun (batchRun currentRun : ℤ)
  | progress (e : ProgressError)
  deriving DecidableEq

/-- `Ingest` absorbs one engine pod's measurements. -/
def ingest (exe : Execution) (v : Visit) (now : ℕ) (p : Plane) (batch : Batch) :
    Plane × Option IngestError :=
  match p.current with
  | none =>
      let p := if batch.final then
        p.recordOrphanCompletion
          { scenarioId := batch.scenarioId, shardIndex := batch.shardIndex,
            exitCode := batch.exitCode, finishedAt := now }
        else p
      (p, some .noActiveRun)
  | some runId =>
      -- a batch that names no run is taken for the current one
      if batch.runId ≠ 0 ∧ batch.runId ≠ runId then
        (p, some (.staleRun batch.runId runId))
      else
        -- `Absorb` validates the batch again, to the same end
        match p.progress.absorb v (.ofBatch runId batch) with
        | .error e => (p, some (.progress e))
        | .ok progress =>
            let p := { p with progress }
            if batch.final ∧ p.allShardsFinished exe runId then (p.finalize now runId, none)
            else (p, none)

/-! ### Deploying, triggering, stopping -/

inductive DeployError
  | transition (e : TransitionError)
  | notPrepared
  | provision
  deriving DecidableEq

/-- `Deploy` up to the pods: it is refused while a run is open, it fails if the
engine's image or a trace identity cannot be had, and it clears the orphaned
completions before any pod is made. -/
def deploy (exe : Execution) (prepared : Bool) (p : Plane) : Except DeployError Plane := do
  if exe.profile = [] then throw (.transition .noScenarios)
  (canDeploy (derivePhase 0 p.current.isSome)).mapError .transition
  if prepared = false then throw .notPrepared
  return { p with orphans := ∅ }

/-- What `Trigger` asks of other parts: the campaign that freezes the execution,
whether the scenarios have their files, the engines ready on a cluster, whether
the quota admits the run, and which scenarios can be marked as running. -/
structure TriggerView where
  frozen : Option String
  testFiles : Bool
  poolSize : String → ℤ
  admitted : Bool
  marked : ℤ → Bool

inductive TriggerError
  | campaignFrozen (campaign : String)
  | noTestFile
  | clusterNotReady (cluster : String) (poolSize wanted : ℤ)
  | transition (e : TransitionError)
  | enginesFinished (orphaned : ℕ)
  | overQuota
  | runActive
  | triggerErrors (scenarios : List ℤ)
  deriving DecidableEq

/-- `requireEveryClusterReady`: every target of a fan-out has the engines of the
whole profile. -/
def requireEveryClusterReady (exe : Execution) (view : TriggerView) : Except TriggerError Unit :=
  match exe.fanOutTargets.find? fun c => view.poolSize c < exe.totalEngines with
  | some c => .error (.clusterNotReady c (view.poolSize c) exe.totalEngines)
  | none => .ok ()

/-- What `Trigger` checks before it looks at the engines that have finished. -/
def triggerChecks (exe : Execution) (view : TriggerView) (p : Plane) :
    Except TriggerError Unit :=
  match view.frozen with
  | some campaign => .error (.campaignFrozen campaign)
  | none =>
      if view.testFiles = false then .error .noTestFile
      else
        let poolSize := (exe.clusters.map view.poolSize).sum
        match if exe.isFanOut then requireEveryClusterReady exe view else .ok () with
        | .error e => .error e
        | .ok () =>
            (canTrigger (derivePhase poolSize p.current.isSome) exe poolSize).mapError .transition

/-- `Trigger` starts a run. If no scenario can be marked as running, the run is
closed again. -/
def trigger (exe : Execution) (view : TriggerView) (now : ℕ) (p : Plane) :
    Plane × Option TriggerError :=
  match triggerChecks exe view p with
  | .error e => (p, some e)
  | .ok () =>
      if p.orphans.size ≠ 0 then (p, some (.enginesFinished p.orphans.size))
      else if view.admitted = false then (p, some .overQuota)
      else
        match p.startRun now with
        | none => (p, some .runActive)
        | some p =>
            let failed := (exe.profile.map (·.scenarioId)).filter fun id => !view.marked id
            -- the run is closed again only if no scenario could be marked
            if failed = [] then (p, none)
            else if failed.length = exe.profile.length then
              (p.stopRun now, some (.triggerErrors failed))
            else (p, some (.triggerErrors failed))

/-- `Stop` ends the open run: its report is finalised, and the marker cleared.
The pods stay. -/
def stop (now : ℕ) (p : Plane) : Except TransitionError Plane := do
  canStop (derivePhase 0 p.current.isSome)
  let p := match p.current with
    | some runId => p.finalize now runId
    | none => p
  return p.stopRun now

end Plane

end Honryu.Lifecycle
