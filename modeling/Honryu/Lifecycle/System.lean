import Honryu.Lifecycle.ControlPlane
import Honryu.Sidecar.Start

/-!
An execution, its control plane and its pods.

Deploying replaces pods, but a pod that was replaced, or whose run was stopped,
goes on pushing for as long as it lives. A pod's final push says that its engine
has run its load, which it does once.
-/

namespace Honryu.Lifecycle

open Metrics Progress

/-! ### Pods -/

structure Pod where
  scenarioId : ℤ
  shardIndex : ℤ
  cluster : String
  deployedAt : ℕ
  deriving DecidableEq

structure DeployCall where
  scenarioId : ℤ
  cluster : String
  indexes : List ℤ
  deriving DecidableEq

def deployScenario (now : ℕ) (pods : List Pod) (call : DeployCall) : List Pod :=
  (pods.filter fun pod => ¬(pod.scenarioId = call.scenarioId ∧ pod.cluster = call.cluster)) ++
    call.indexes.map fun shardIndex =>
      { scenarioId := call.scenarioId, shardIndex, cluster := call.cluster, deployedAt := now }

/-- The calls of `Deploy` for some entries, up to the first that cannot be
planned. -/
def deployCalls (clusters : List String) : List LoadProfile.Entry → List DeployCall
  | [] => []
  | e :: entries =>
      match LoadProfile.plan e e.engines with
      | .error _ => []
      | .ok shards =>
          (clusters.map fun cluster =>
              { scenarioId := e.scenarioId, cluster, indexes := shards.map (·.index) }) ++
            deployCalls clusters entries

def Execution.provisions (exe : Execution) : List DeployCall := deployCalls exe.clusters exe.profile

def provision (now : ℕ) (pods : List Pod) (calls : List DeployCall) : List Pod :=
  calls.foldl (deployScenario now) pods

/-! ### The system -/

/-- A final push of a pod: when it was sent, and whether it arrived while no run
was open. -/
structure FinalPush where
  pod : Pod
  time : ℕ
  orphaned : Bool
  deriving DecidableEq

structure Absorbed where
  pod : Pod
  runId : ℤ
  intervals : List Interval
  final : Bool
  deriving DecidableEq

/-- The pods that are deployed now, all pods that were ever made, and the
control plane. The final pushes, what was absorbed and the time of the last clean
deploy are recorded beside them; no step looks at the record. -/
structure System where
  clock : ℕ
  plane : Plane
  pods : List Pod
  made : List Pod
  finals : List FinalPush
  absorbed : List Absorbed
  clearedAt : ℕ

/-- What can happen. A deploy makes as many scheduler calls as succeed. A push is
made by the sidecar of a pod in some state, and may be lost. -/
inductive Event
  | deploy (prepared : Bool) (provisioned : ℕ)
  | trigger (view : Plane.TriggerView)
  | stop
  | push (pod : Pod) (sidecar : Sidecar.State) (final arrives : Bool)

/-- What does not change: the execution, the address pods push to, how a line of
a stream is decoded, and the order maps are visited in. -/
structure Setting where
  exe : Execution
  ingestUrl : String
  decode : List UInt8 → Option Interval
  visit : Visit

namespace Setting

variable (cfg : Setting)

/-- The batch that reaches `Ingest` for a push of a pod's sidecar, its cluster
being the one the pod authenticates as. -/
def batch (pod : Pod) (sidecar : Sidecar.State) (final : Bool) : Option Batch :=
  match Sidecar.configFrom cfg.decode
    (Sidecar.sidecarScript cfg.ingestUrl cfg.exe.executionId pod.scenarioId pod.shardIndex) with
  | .error _ => none
  | .ok config => (Sidecar.push config sidecar final).map ({ · with cluster := pod.cluster })

theorem runId_batch {pod : Pod} {sidecar : Sidecar.State} {final : Bool} {batch : Batch}
    (h : cfg.batch pod sidecar final = some batch) : batch.runId = 0 := by
  rw [Setting.batch, Sidecar.configFrom_sidecarScript] at h
  split at h
  · cases h
  case h_2 config hconfig =>
    split at hconfig
    · cases hconfig
    · cases hconfig
      obtain ⟨sent, hsent, rfl⟩ := Option.map_eq_some_iff.mp h
      unfold Sidecar.push at hsent
      split at hsent
      · cases hsent
      · cases hsent
        rfl

end Setting

namespace System

def new : System :=
  { clock := 0, plane := .new, pods := [], made := [], finals := [], absorbed := [],
    clearedAt := 0 }

def deploy (cfg : Setting) (s : System) (prepared : Bool) (provisioned : ℕ) : System :=
  match s.plane.deploy cfg.exe prepared with
  | .error _ => s
  | .ok plane =>
      let calls := cfg.exe.provisions.take provisioned
      { s with
        plane, pods := provision s.clock s.pods calls
        made := s.made ++ provision s.clock [] calls
        clearedAt := s.clock }

def trigger (cfg : Setting) (s : System) (view : Plane.TriggerView) : System :=
  { s with plane := (s.plane.trigger cfg.exe view s.clock).1 }

def stop (s : System) : System :=
  match s.plane.stop s.clock with
  | .error _ => s
  | .ok plane => { s with plane }

def fresh (s : System) (runId : ℤ) (batch : Batch) : List Interval :=
  (s.plane.progress.ledger runId).fresh (.ofBatch runId batch)

def absorbs (cfg : Setting) (s : System) (batch : Batch) : Option ℤ :=
  match (s.plane.ingest cfg.exe cfg.visit s.clock batch).2 with
  | none => s.plane.current
  | some _ => none

def noteFinal (s : System) (pod : Pod) (arrives : Bool) : System :=
  { s with
    finals := s.finals ++ [{ pod, time := s.clock, orphaned := arrives && s.plane.current.isNone }] }

def receive (cfg : Setting) (s : System) (pod : Pod) (batch : Batch) : System :=
  { s with
    plane := (s.plane.ingest cfg.exe cfg.visit s.clock batch).1
    absorbed := s.absorbed ++ ((s.absorbs cfg batch).map fun runId =>
      { pod, runId, intervals := s.fresh runId batch, final := batch.final }).toList }

def send (cfg : Setting) (s : System) (pod : Pod) (batch : Batch) (arrives : Bool) : System :=
  let s := if batch.final then s.noteFinal pod arrives else s
  if arrives then s.receive cfg pod batch else s

def push (cfg : Setting) (s : System) (pod : Pod) (sidecar : Sidecar.State)
    (final arrives : Bool) : System :=
  match cfg.batch pod sidecar final with
  | none => s
  | some batch => if pod ∈ s.made then s.send cfg pod batch arrives else s

def perform (cfg : Setting) (s : System) : Event → System
  | .deploy prepared provisioned => s.deploy cfg prepared provisioned
  | .trigger view => s.trigger cfg view
  | .stop => s.stop
  | .push pod sidecar final arrives => s.push cfg pod sidecar final arrives

def step (cfg : Setting) (s : System) (e : Event) : System :=
  { s.perform cfg e with clock := s.clock + 1 }

def run (cfg : Setting) (events : List Event) : System := events.foldl (step cfg) new

end System

/-! ### A small setting -/

def oneUser (engines : ℤ) : LoadProfile.Entry :=
  { name := "", scenarioId := 1, concurrency := 1, rampup := 0, engines, throughput := 0
    duration := 60, csvSplit := false, mode := .advanced, steps := 0 }

def oneEngine : Setting where
  exe := { executionId := 1, cluster := "", fanOutTargets := [], profile := [oneUser 1] }
  ingestUrl := "http://honryu/api/ingest"
  decode _ := none
  visit := .sorted

def readyView : Plane.TriggerView :=
  { frozen := none, testFiles := true, poolSize := fun _ => 1, admitted := true,
    marked := fun _ => true }

def engineOf (deployedAt : ℕ) : Pod :=
  { scenarioId := 1, shardIndex := 0, cluster := "", deployedAt }

end Honryu.Lifecycle
