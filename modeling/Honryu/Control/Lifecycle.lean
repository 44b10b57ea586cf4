import Honryu.Control.Finalise

/-!
The calls of the life cycle, and the quota service that they and the schedules call.
-/

namespace Honryu.Control

open Lifecycle Quota

variable (cfg : Config)

/-! ### Stopping -/

/-- `ClearScenarioRunning` for every scenario. -/
def clearScenarios (executionId : ℤ) : List LoadProfile.Entry → Proc Unit
  | [] => return ()
  | e :: rest => do
      query (.clearScenarioRunning executionId e.scenarioId)
      clearScenarios executionId rest

/-- `teardown` clears what there is of a run: the marks of its scenarios, its launch, the
reservations of the execution, and after the report the marker. -/
def teardown (executionId : ℤ) (onBehalf : Option ℤ) : Proc Unit := do
  bestEffort (.touchActivity executionId)
  let scenarios ← query (.loadProfileFor executionId)
  clearScenarios executionId scenarios
  bestEffort (.finishLaunch executionId (LoadProfile.virtualUsers scenarios))
  bestEffort (.releaseReservations executionId)
  match ← Call.attempt (query (.currentRun executionId .toKnow)) with
  | .ok (some runId) => do
      let _ ← Call.attempt (finalizeStopped cfg executionId runId onBehalf)
      stopRun executionId onBehalf
  | _ => stopRun executionId onBehalf

/-- `Stop` ends the open run. -/
def stop (executionId : ℤ) : Proc Unit := do
  let current ← query (.currentRun executionId .toClose)
  match canStop (derivePhase 0 current.isSome) with
  | .error e => Call.fail (.transition e)
  | .ok () => teardown cfg executionId current

/-! ### Reserving -/

/-- The executions of overdue reservations that are still running. -/
def overrunning (now : ℤ) : List Reservation → Proc (List Reservation)
  | [] => return []
  | r :: rest =>
      if ¬r.endTime < now then overrunning now rest
      else do
        let current ← query (.currentRun r.executionId .toKnow)
        let overrun ← overrunning now rest
        return if current.isSome then r :: overrun else overrun

/-- `usedCapacity`. -/
def usedCapacity (q : Request) : Proc (ℤ × List Reservation) := do
  let existing ← query (.reservationsInWindow q.1.tenantId q.1.cluster q.1.startTime q.1.endTime)
  let all ← query (.reservationsForTenant q.1.tenantId q.1.cluster)
  let now ← query .now
  let overrun ← overrunning now all
  return (engines existing + engines overrun, overrun)

/-- The loop of `reclaimOverrun`. -/
def reclaim (needed : ℤ) : ℤ → List Reservation → Proc ℤ
  | freed, [] => return freed
  | freed, r :: rest =>
      if needed ≤ freed then return freed
      else do
        stop cfg r.executionId
        reclaim needed (freed + r.engineCount) rest

/-- What is used once it has been tried to reclaim. Nothing is reclaimed for a request
that fits, or that does not start yet. -/
def usedAfterReclaim (q : Request) (ceiling used : ℤ) (overrun : List Reservation) : Proc ℤ := do
  if used + q.1.engineCount ≤ ceiling then return used
  else
    let now ← query .now
    if now < q.1.startTime then return used
    else
      let freed ← reclaim cfg (used + q.1.engineCount - ceiling) 0
        (overrun.insertionSort fun r r' => r.endTime ≤ r'.endTime)
      return used - freed

/-- What `Reserve` does under the lock of the tenant. -/
def reserveLocked (q : Request) : Proc Reservation := do
  let quota ← query (.getQuota q.1.tenantId q.1.cluster)
  let (used, overrun) ← usedCapacity q
  let used ← usedAfterReclaim cfg q quota.effective used overrun
  if quota.effective < used + q.1.engineCount then
    Call.fail (.reserve (.overQuota (overQuota q used quota.effective)))
  else
    let id ← query (.createReservation q)
    return { q.1 with id }

/-- `Reserve` admits a new reservation if it fits the ceiling. -/
def reserve (r : Reservation) : Proc Reservation :=
  match h : r.validate with
  | .error e => Call.fail (.reserve (.invalid e))
  | .ok () => do
      query (.lockTenant r.tenantId r.cluster)
      let result ← Call.attempt (reserveLocked cfg ⟨r, h⟩)
      bestEffort (.unlockTenant r.tenantId r.cluster)
      Call.ofResult result

/-! ### Triggering -/

/-- `ensureTestFiles`. -/
def ensureTestFiles : List LoadProfile.Entry → Proc Unit
  | [] => return ()
  | e :: rest => do
      if ← query (.testFile e.scenarioId) then ensureTestFiles rest
      else Call.fail (.trigger .noTestFile)

/-- `executionStatusAcross`: the engines on all clusters. -/
def executionStatusAcross (executionId : ℤ) : List String → Proc ℤ
  | [] => return 0
  | cluster :: rest => do
      let poolSize ← query (.executionStatus cluster executionId)
      let others ← executionStatusAcross executionId rest
      return poolSize + others

/-- `requireEveryClusterReady`. -/
def requireEveryClusterReady (executionId wanted : ℤ) : List String → Proc Unit
  | [] => return ()
  | cluster :: rest => do
      let poolSize ← query (.executionStatus cluster executionId)
      if poolSize < wanted then Call.fail (.trigger (.clusterNotReady cluster poolSize wanted))
      else requireEveryClusterReady executionId wanted rest

def requireReady (executionId : ℤ) (exe : SizedExecution) : Proc Unit :=
  if exe.isFanOut then
    requireEveryClusterReady executionId exe.totalEngines exe.fanOutTargets
  else return ()

/-- What `Trigger` checks before it reserves anything. -/
def triggerChecks (executionId : ℤ) : Proc SizedExecution := do
  let exe ← query (.getExecution executionId)
  match ← query (.isFrozen executionId) with
  | some campaign => Call.fail (.trigger (.campaignFrozen campaign))
  | none =>
      let scenarios ← query (.loadProfileFor executionId)
      ensureTestFiles scenarios
      let current ← query (.currentRun executionId .toKnow)
      let poolSize ← executionStatusAcross executionId exe.clusters
      requireReady executionId exe
      match canTrigger (derivePhase poolSize current.isSome) exe.toExecution poolSize with
      | .error e => Call.fail (.trigger (.transition e))
      | .ok () =>
          let orphans ← query (.orphanCompletions executionId)
          if orphans.isEmpty then return exe
          else Call.fail (.trigger (.enginesFinished orphans.length))

/-- The loop over the clusters. If one of them does not admit the run, what the
execution has reserved is released. -/
def reserveAll (executionId : ℤ) : List Reservation → Proc Unit
  | [] => return ()
  | r :: rest => do
      match ← Call.attempt (reserve cfg r) with
      | .ok _ => reserveAll executionId rest
      | .error e => do
          bestEffort (.releaseReservations executionId)
          Call.fail e

def reserveSized (executionId : ℤ) : Except SizeError (List Reservation) → Proc Unit
  | .error e => Call.fail (.size e)
  | .ok requests => reserveAll cfg executionId requests

/-- What `Trigger` reserves. -/
def reserveRun (executionId : ℤ) (exe : SizedExecution) : Proc Unit :=
  if exe.tenantId.isNone then return ()
  else do
    let start ← query .now
    reserveSized cfg executionId (triggerReservations cfg.parseQuantity exe start)

/-- `StartRun` inserts the marker and then the history row. -/
def startRun (executionId : ℤ) (correlationId : String) : Proc ℤ := do
  let runId ← query (.insertRun executionId)
  query (.insertHistory runId executionId correlationId)
  return runId

/-- `MarkScenarioRunning` for every scenario, and those for which it failed. -/
def markScenarios (executionId : ℤ) : List LoadProfile.Entry → Proc (List ℤ)
  | [] => return []
  | e :: rest => do
      let marked ← Call.attempt (query (.markScenarioRunning executionId e.scenarioId))
      let failed ← markScenarios executionId rest
      return if marked.isOk then failed else e.scenarioId :: failed

def rollBack (executionId : ℤ) (exe : SizedExecution) (failed : List ℤ) : Proc Unit :=
  if failed.length = exe.profile.length then do
    let _ ← Call.attempt (stopRun executionId none)
    return ()
  else return ()

/-- `fanOutEngines`: the engines that are deployed on all clusters. -/
def fanOutEngines (exe : SizedExecution) : ℤ :=
  if exe.isFanOut then exe.totalEngines * exe.fanOutTargets.length else exe.totalEngines

/-- A launch is opened for the owner of the project. Whether this succeeds is ignored. -/
def recordLaunch (executionId : ℤ) (exe : SizedExecution) : Proc Unit := do
  match ← Call.attempt (query (.getProject executionId)) with
  | .ok owner =>
      bestEffort (.startLaunch executionId owner (fanOutEngines exe)
        (LoadProfile.virtualUsers exe.profile))
  | .error _ => return ()

/-- What `Trigger` does once the capacity is reserved. -/
def openRun (executionId : ℤ) (exe : SizedExecution) : Proc Unit := do
  let correlationId ← query (.getPendingCorrelationId executionId)
  let _ ← startRun executionId correlationId
  bestEffort (.touchActivity executionId)
  let failed ← markScenarios executionId exe.profile
  rollBack executionId exe failed
  if failed.isEmpty then recordLaunch executionId exe
  else Call.fail (.trigger (.triggerErrors failed))

/-- `Trigger` starts a run. -/
def trigger (executionId : ℤ) : Proc Unit := do
  let exe ← triggerChecks executionId
  reserveRun cfg executionId exe
  openRun executionId exe

/-! ### Deploying, purging, reaping -/

def deployScenarios (executionId : ℤ) (clusters : List String) (scenarioId : ℤ) : Proc Unit :=
  match clusters with
  | [] => return ()
  | cluster :: rest => do
      query (.deployScenario cluster executionId scenarioId)
      deployScenarios executionId rest scenarioId

def deployAll (executionId : ℤ) (clusters : List String) : List LoadProfile.Entry → Proc Unit
  | [] => return ()
  | e :: rest => do
      deployScenarios executionId clusters e.scenarioId
      deployAll executionId clusters rest

/-- `Deploy` provisions the engines of an execution. -/
def deploy (executionId : ℤ) : Proc Unit := do
  let exe ← query (.getExecution executionId)
  let scenarios ← query (.loadProfileFor executionId)
  if scenarios.isEmpty then Call.fail .noScenarios
  else
    let current ← query (.currentRun executionId .toKnow)
    match canDeploy (derivePhase 0 current.isSome) with
    | .error e => Call.fail (.transition e)
    | .ok () =>
        let traceId ← query (.prepare executionId)
        query (.setPendingCorrelationId executionId traceId)
        query (.clearOrphanCompletions executionId)
        query (.touchActivity executionId)
        deployAll executionId exe.clusters scenarios

/-- `teardownAndCapture` ends what run an execution still has, or clears up after the
last one it had. -/
def teardownAndCapture (executionId : ℤ) : Proc Unit := do
  match ← query (.currentRun executionId .toClose) with
  | some runId => teardown cfg executionId (some runId)
  | none =>
      match ← Call.attempt (query (.lastRun executionId)) with
      | .ok last => teardown cfg executionId (some last.runId)
      | .error _ => return ()

def purgeClusters (executionId : ℤ) : List String → Proc Unit
  | [] => return ()
  | cluster :: rest => do
      query (.purgeExecution cluster executionId)
      purgeClusters executionId rest

/-- `Purge` ends the run and removes the engines. -/
def purge (executionId : ℤ) : Proc Unit := do
  let exe ← query (.getExecution executionId)
  teardownAndCapture cfg executionId
  purgeClusters executionId exe.clusters

/-- `reapIfIdle` says whether it has reaped the execution. -/
def reapIfIdle (executionId : ℤ) (cluster : String) (deployedAt now ttl : ℤ) : Proc Bool := do
  let last ← query (.getLastActivity executionId)
  if now - last.getD deployedAt < ttl then return false
  else
    let current ← query (.currentRun executionId .toKnow)
    if current.isSome then return false
    else
      let calibrating ← query (.calibrating executionId)
      if calibrating then return false
      else
        teardownAndCapture cfg executionId
        query (.purgeExecution cluster executionId)
        query (.clearOrphanCompletions executionId)
        return true

/-- What `ReapIdle` has come to: the executions it has seen, those it has reaped, and the first
failure. -/
structure Reaping where
  seen : List ℤ
  reaped : List ℤ
  failure : Option Failure

/-- One cluster of `ReapIdle`: what is deployed there and has not been seen yet. A failure
does not stop the rest. -/
def reapEach (cluster : String) (now ttl : ℤ) : List (ℤ × ℤ) → Reaping → Proc Reaping
  | [], acc => return acc
  | (executionId, deployedAt) :: rest, acc =>
      if executionId ∈ acc.seen then reapEach cluster now ttl rest acc
      else do
        match ← Call.attempt (reapIfIdle cfg executionId cluster deployedAt now ttl) with
        | .ok done =>
            reapEach cluster now ttl rest
              { acc with
                seen := executionId :: acc.seen
                reaped := if done then acc.reaped ++ [executionId] else acc.reaped }
        | .error e =>
            reapEach cluster now ttl rest
              { acc with seen := executionId :: acc.seen, failure := acc.failure.or (some e) }

def reapClusters (now ttl : ℤ) : List String → Reaping → Proc (List ℤ × Option Failure)
  | [], acc => return (acc.reaped.insertionSort (· ≤ ·), acc.failure)
  | cluster :: rest, acc => do
      match ← Call.attempt (query (.deployedExecutions cluster)) with
      | .error e => return (acc.reaped, some e)
      | .ok deployed =>
          let acc ← reapEach cfg cluster now ttl deployed acc
          reapClusters now ttl rest acc

/-- `ReapIdle` tears down the engines of executions that have been idle. It returns those that
it has reaped, and an error. -/
def reapIdle (ttl : ℤ) (clusters : List String) : Proc (List ℤ × Option Failure) :=
  if ttl ≤ 0 then return ([], none)
  else do
    let now ← query .now
    reapClusters cfg now ttl clusters { seen := [], reaped := [], failure := none }

/-! ### Reconciling -/

def reconcileEach : List HistoryRow → Proc Unit
  | [] => return ()
  | open' :: rest => do
      let orphans ← query (.orphanCompletions open'.executionId)
      if orphans.isEmpty then reconcileEach rest
      else
        let profile ← query (.loadProfileFor open'.executionId)
        if !orphansCoverProfile orphans profile then reconcileEach rest
        else
          finalizeOrphaned cfg open'.executionId open'.runId orphans
          stopRun open'.executionId (some open'.runId)
          reconcileEach rest

/-- `Reconcile` closes the runs whose engines finished without them. -/
def reconcile : Proc Unit := do
  let runs ← query .openRuns
  reconcileEach cfg runs

/-- One run of `ReconcileAbandoned`. A run that has a report is only closed. One whose
engines are gone is finalised before it is closed. -/
def reconcileOne (open' : HistoryRow) : Proc Unit := do
  match ← Call.attempt (query (.getReport open'.runId)) with
  | .ok _ => stopRun open'.executionId (some open'.runId)
  | .error .notFound =>
      match ← Call.attempt (query (.getExecution open'.executionId)) with
      | .error .notFound => return ()
      | .error e => Call.fail e
      | .ok exe =>
          let _ ← query (.loadProfileFor open'.executionId)
          let poolSize ← executionStatusAcross open'.executionId exe.clusters
          if 0 < poolSize then return ()
          else
            finalizeStopped cfg open'.executionId open'.runId (some open'.runId)
            stopRun open'.executionId (some open'.runId)
  | .error e => Call.fail e

def reconcileAbandonedEach (after : ℤ) : List HistoryRow → Proc Unit
  | [] => return ()
  | open' :: rest => do
      let now ← query .now
      if now - open'.started < after then reconcileAbandonedEach after rest
      else
        reconcileOne cfg open'
        reconcileAbandonedEach after rest

/-- `ReconcileAbandoned` closes old runs that nothing else will close. -/
def reconcileAbandoned (after : ℤ) : Proc Unit :=
  if after ≤ 0 then return ()
  else do
    let runs ← query .openRuns
    reconcileAbandonedEach cfg after runs

end Honryu.Control
