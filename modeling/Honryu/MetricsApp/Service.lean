import Honryu.Lifecycle.ControlPlane
import Honryu.Report.Requested

/-!
The metric service of a control-plane process: what it does with the pushes of an
execution's pods, and the reports it stores.

Beside the progress of a run, which is stored, the process keeps two things in its
memory: the keys of the rows it has seen, and how many samples came from each
cluster. What the service passes on to the live view is left out.
-/

namespace Honryu.MetricsApp

open Metrics Progress Report
open Lifecycle (Execution OrphanCompletion Plane TransitionError)

/-! ### Rows that were seen -/

/-- `intervalKey`: which pod, which second, which request. -/
def intervalKey (b : Batch) (iv : Interval) : String :=
  b.cluster ++ "|" ++ toString b.shardIndex ++ "|" ++ toString b.scenarioId ++ "|" ++
    toString iv.timestamp ++ "|" ++ iv.label

/-- `mark` records a key, and says whether it is new. -/
def mark (seen : List String) (key : String) : List String × Bool :=
  if key ∈ seen then (seen, false) else (key :: seen, true)

/-! ### Samples by cluster -/

/-- `clusterCounts` is one cluster's share of a run's measurements. -/
@[ext] structure ClusterCounts where
  samples : ℤ
  failed : ℤ
  deriving DecidableEq

/-- `clusterTally`: by run, then by cluster. -/
abbrev ClusterTally := TallyMap ℤ (TallyMap String ClusterCounts)

/-- `clusterTally.add` folds one interval into its cluster's share of a run. -/
def ClusterTally.add (t : ClusterTally) (runId : ℤ) (cluster : String) (iv : Interval) :
    ClusterTally :=
  let counts := (t[runId]?).getD ∅
  let cur := (counts[cluster]?).getD { samples := 0, failed := 0 }
  t.insert runId (counts.insert cluster
    { samples := cur.samples + iv.samples, failed := cur.failed + iv.failed })

/-- `ClusterResult` is one cluster's share of a fan-out run. -/
structure ClusterResult where
  cluster : String
  outcome : Taurus.Outcome
  samples : ℤ
  failed : ℤ
  deriving DecidableEq

/-- `snapshot` lists a run's counts by the name of the cluster. The rows of a
report carry the outcome of the run. -/
def ClusterTally.snapshot (v : Visit) (t : ClusterTally) (runId : ℤ) (outcome : Taurus.Outcome) :
    List ClusterResult :=
  match t[runId]? with
  | none => []
  | some counts =>
      ((v.keys counts).insertionSort (· ≤ ·)).map fun name =>
        let cur := counts.getD name { samples := 0, failed := 0 }
        { cluster := name, outcome, samples := cur.samples, failed := cur.failed }

def hasNamedCluster (rows : List ClusterResult) : Bool := rows.any fun r => r.cluster ≠ ""

structure SplitReport extends Report where
  clusterResults : List ClusterResult
  deriving DecidableEq

/-! ### The service -/

/-- What does not change: the execution, the engine it names, the correlation ids
of its runs, and the order maps are visited in. -/
structure Config where
  exe : Execution
  engine : Taurus.Executor
  correlationId : ℤ → String
  visit : Visit

structure Service where
  plane : Plane
  reports : TallyMap ℤ SplitReport
  seen : List String
  clusterTally : ClusterTally

/-- `SaveReport`: the first report of a run is the one that survives. -/
def saveReport (reports : TallyMap ℤ SplitReport) (report : SplitReport) :
    TallyMap ℤ SplitReport :=
  if (reports[report.runId]?).isSome then reports else reports.insert report.runId report

namespace Service

variable (cfg : Config) (now : ℕ) (s : Service)

/-- What a report says about a run besides its measurements. A run that is
finalised has a history row. -/
def runMeta (runId : ℤ) (outcome : Taurus.Outcome) : Meta :=
  { executionId := cfg.exe.executionId
    -- only unambiguous if there is exactly one
    scenarioId := match cfg.exe.profile with
      | [e] => e.scenarioId
      | _ => 0
    runId, engine := cfg.engine, cluster := cfg.exe.cluster
    correlationId := cfg.correlationId runId
    startedAt := (s.plane.history[runId]?).elim 0 fun r => r.started
    endedAt := now, requested := requestedLoad cfg.exe.profile, outcome }

def buildReport (runId : ℤ) (outcome : Taurus.Outcome) : SplitReport :=
  let rep := (restore (s.plane.progress.snapshot runId)).report cfg.visit
    (s.runMeta cfg now runId outcome)
  let rows := s.clusterTally.snapshot cfg.visit runId rep.outcome
  { rep with clusterResults := if hasNamedCluster rows then rows else [] }

/-- `finalize` stores the report of a run, discards its working state and closes
the run. -/
def finalize (runId : ℤ) (outcome : Taurus.Outcome) : Service :=
  { s with
    reports := saveReport s.reports (s.buildReport cfg now runId outcome)
    plane := s.plane.finalize now runId }

/-- `finalizeCompleted`: every shard has finished on its own. A shard without an
exit code counts as one with a code bzt does not have. -/
def finalizeCompleted (runId : ℤ) : Service :=
  s.finalize cfg now runId
    (Taurus.combineOutcomes ((s.plane.progress.shardStates runId).map (·.exitCode.getD (-1))))

def stopOutcome (runId : ℤ) : Taurus.Outcome :=
  let codes := ((s.plane.progress.shardStates runId).filter (·.finished)).filterMap (·.exitCode)
  Taurus.worstOutcome (.aborted :: codes.map Taurus.outcomeFromExitCode)

/-- `FinalizeOrphaned`: the run's engines finished without it. -/
def finalizeOrphaned (runId : ℤ) (orphans : List OrphanCompletion) : Service :=
  s.finalize cfg now runId (Taurus.worstOutcome
    (.aborted :: orphans.map fun oc => Taurus.outcomeFromExitCode (oc.exitCode.getD (-1))))

/-! ### Taking in a push -/

/-- One row of the loop in `Ingest`. -/
def recordRow (runId : ℤ) (batch : Batch) (s : Service) (iv : Interval) : Service :=
  match mark s.seen (intervalKey batch iv) with
  | (_, false) => s
  | (seen, true) => { s with seen, clusterTally := s.clusterTally.add runId batch.cluster iv }

def recordRows (runId : ℤ) (batch : Batch) : Service :=
  batch.intervals.foldl (recordRow runId batch) s

/-- `Ingest` absorbs one engine pod's measurements. -/
def ingest (batch : Batch) : Service × Option Plane.IngestError :=
  match s.plane.current with
  | none =>
      let plane := if batch.final then
        s.plane.recordOrphanCompletion
          { scenarioId := batch.scenarioId, shardIndex := batch.shardIndex,
            exitCode := batch.exitCode, finishedAt := now }
        else s.plane
      ({ s with plane }, some .noActiveRun)
  | some runId =>
      if batch.runId ≠ 0 ∧ batch.runId ≠ runId then
        (s, some (.staleRun batch.runId runId))
      else
        match (ProgressBatch.ofBatch runId batch).validate with
        | .error e => (s, some (.progress e))
        | .ok () =>
            let s := s.recordRows runId batch
            match s.plane.progress.absorb cfg.visit (.ofBatch runId batch) with
            | .error e => (s, some (.progress e))
            | .ok progress =>
                let s := { s with plane := { s.plane with progress } }
                if batch.final ∧ s.plane.allShardsFinished cfg.exe runId then
                  let s := s.finalizeCompleted cfg now runId
                  -- the run is over, and what was remembered of it goes
                  ({ s with seen := [], clusterTally := s.clusterTally.erase runId }, none)
                else (s, none)

/-! ### Ending a run -/

/-- `teardown` finalises the open run and closes it, as `ReconcileAbandoned` does with
a run that has no pods left. -/
def teardown : Service :=
  let s := match s.plane.current with
    | some runId => s.finalize cfg now runId (s.stopOutcome runId)
    | none => s
  { s with plane := s.plane.stopRun now }

def stop : Except TransitionError Service := do
  Lifecycle.canStop (Lifecycle.derivePhase 0 s.plane.current.isSome)
  return s.teardown cfg now

/-- `Purge` tears down the run, if there is one, and forgets the rows. -/
def purge : Service := { s.teardown cfg now with seen := [] }

/-- `Reconcile` closes a run whose engines have all finished without it. -/
def reconcile : Service :=
  match s.plane.current with
  | some runId =>
      let orphans := s.plane.orphanCompletions
      if orphans.isEmpty || !Lifecycle.orphansCoverProfile orphans cfg.exe.profile then s
      else
        let s := s.finalizeOrphaned cfg now runId orphans
        { s with plane := s.plane.stopRun now }
  | none => s

/-! ### A process -/

inductive Event
  | deploy (prepared : Bool)
  | trigger (view : Plane.TriggerView)
  | ingest (batch : Batch)
  | stop
  | purge
  | reconcile

def perform : Event → Service
  | .deploy prepared =>
      match s.plane.deploy cfg.exe prepared with
      | .error _ => s
      | .ok plane => { s with plane }
  | .trigger view => { s with plane := (s.plane.trigger cfg.exe view now).1 }
  | .ingest batch => (s.ingest cfg now batch).1
  | .stop =>
      match s.stop cfg now with
      | .error _ => s
      | .ok s => s
  | .purge => s.purge cfg now
  | .reconcile => s.reconcile cfg now

def run (events : List (ℕ × Event)) : Service :=
  events.foldl (fun s e => s.perform cfg e.1 e.2) s

def boot (plane : Plane) (reports : TallyMap ℤ SplitReport) : Service :=
  { plane, reports, seen := [], clusterTally := ∅ }

end Service

end Honryu.MetricsApp
