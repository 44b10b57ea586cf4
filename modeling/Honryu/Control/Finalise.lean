import Honryu.Control.Store

/-!
How a run is finalised: by the push that completes it, or by whoever ends it.
-/

namespace Honryu.Control

open Lifecycle Metrics Progress
open Report (Meta Snapshot restore requestedLoad)

variable (cfg : Config)

/-! ### Closing a run -/

/-- `StopRun` reads the marker, stamps the history, and deletes the marker of the
execution. -/
def stopRun (executionId : ℤ) (onBehalf : Option ℤ) : Proc Unit := do
  match ← query (.currentRun executionId .toKnow) with
  | none => return ()
  | some runId =>
      query (.endHistory executionId runId)
      query (.deleteRun executionId onBehalf)

/-- `closeRun` closes a run if the marker still names it. -/
def closeRun (executionId runId : ℤ) (onBehalf : Option ℤ) : Proc Unit := do
  let current ← query (.currentRun executionId .toClose)
  if current = some runId then stopRun executionId onBehalf else return ()

/-! ### Reports -/

/-- What a report says about a run besides its measurements. -/
def runMeta (exe : SizedExecution) (profile : List LoadProfile.Entry) (history : HistoryRow)
    (runId endedAt : ℤ) (outcome : Taurus.Outcome) : Meta :=
  { executionId := exe.executionId
    -- only unambiguous if there is exactly one
    scenarioId := match profile with
      | [e] => e.scenarioId
      | _ => 0
    runId, engine := cfg.engine exe.executionId, cluster := exe.cluster
    correlationId := history.correlationId, startedAt := history.started, endedAt
    requested := requestedLoad profile, outcome }

def buildReport (snapshot : Snapshot) (m : Meta) : Report.Report :=
  (restore snapshot).report cfg.visit m

/-- `Discard` deletes the working state of a run, table by table. -/
def discardAll (runId : ℤ) : Proc Unit := do
  query (.discard .labels runId)
  query (.discard .seconds runId)
  query (.discard .signatures runId)
  query (.discard .shards runId)

def grade (runId : ℤ) (stored : Except Failure Report.Report) : Proc Unit :=
  if !stored.isOk && cfg.grader then query (.evaluateRun runId) else return ()

/-- `finalize` stores the report of a run, has it graded if there was none before,
discards the working state, and closes the run. -/
def finalize (executionId runId : ℤ) (outcome : Taurus.Outcome) (onBehalf : Option ℤ) :
    Proc Unit := do
  let stored ← Call.attempt (query (.getReport runId))
  let snapshot ← query (.snapshot runId)
  let profile ← query (.loadProfileFor executionId)
  let history ← query (.runHistory runId)
  let exe ← query (.getExecution executionId)
  let endedAt ← query .now
  let report := buildReport cfg snapshot (runMeta cfg exe profile history runId endedAt outcome)
  query (.saveReport report onBehalf)
  grade cfg runId stored
  discardAll runId
  bestEffort (.touchActivity executionId)
  closeRun executionId runId onBehalf

def stopOutcome (states : List ShardState) : Taurus.Outcome :=
  let codes := (states.filter (·.finished)).filterMap (·.exitCode)
  Taurus.worstOutcome (.aborted :: codes.map Taurus.outcomeFromExitCode)

/-- `Finalize`, for a run that is ended on purpose. -/
def finalizeStopped (executionId runId : ℤ) (onBehalf : Option ℤ) : Proc Unit := do
  let states ← query (.shardStates runId)
  finalize cfg executionId runId (stopOutcome states) onBehalf

/-- `FinalizeOrphaned`, for a run whose engines finished without it. -/
def finalizeOrphaned (executionId runId : ℤ) (orphans : List OrphanCompletion) : Proc Unit :=
  finalize cfg executionId runId
    (Taurus.worstOutcome
      (.aborted :: orphans.map fun oc => Taurus.outcomeFromExitCode (oc.exitCode.getD (-1))))
    (some runId)

/-- `finalizeCompleted`, for a run whose shards have all finished on their own. -/
def finalizeCompleted (executionId runId : ℤ) : Proc Unit := do
  let states ← query (.shardStates runId)
  finalize cfg executionId runId (Taurus.combineOutcomes (states.map (·.exitCode.getD (-1))))
    (some runId)

/-! ### Taking in a push -/

/-- `allShardsFinished`. -/
def allShardsFinished (executionId runId : ℤ) : Proc Bool := do
  let states ← query (.shardStates runId)
  let finished : ℤ := states.countP (·.finished)
  let profile ← query (.loadProfileFor executionId)
  let planned : ℤ := (profile.map (·.engines)).sum
  if planned = 0 then return false
  else
    let exe ← query (.getExecution executionId)
    return decide
      ((if exe.isFanOut then planned * exe.fanOutTargets.length else planned) ≤ finished)

/-- A push that finds no open run. If it is the last one of its shard, that is recorded. -/
def recordOrphan (batch : Batch) : Proc Unit :=
  if batch.final then do
    let finishedAt ← query .now
    query (.recordOrphanCompletion batch.executionId
      { scenarioId := batch.scenarioId, shardIndex := batch.shardIndex
        exitCode := batch.exitCode, finishedAt := finishedAt.toNat })
  else return ()

/-- What follows the last push of a shard: if it was the last shard, the run is
finalised. -/
def complete (batch : Batch) (runId : ℤ) : Proc Unit :=
  if batch.final then do
    let done ← allShardsFinished batch.executionId runId
    if done then finalizeCompleted cfg batch.executionId runId else return ()
  else return ()

/-- `Ingest` absorbs one engine pod's measurements. -/
def ingest (batch : Batch) : Proc Unit := do
  match ← query (.currentRun batch.executionId .toKnow) with
  | none =>
      recordOrphan batch
      Call.fail (.ingest .noActiveRun)
  | some runId =>
      -- a batch that names no run is taken for the current one
      if batch.runId ≠ 0 ∧ batch.runId ≠ runId then
        Call.fail (.ingest (.staleRun batch.runId runId))
      else
        query (.absorb (.ofBatch runId batch))
        complete cfg batch runId

end Honryu.Control
