import Honryu.Lib.Pool
import Honryu.MetricsApp.Service
import Honryu.Quota.Capacity
import Honryu.Schedules.Sizing
import Honryu.Usage.Launch

/-!
The database of the control plane, and what the services ask of it and of the
scheduler.

A question is one statement or one transaction, which either happens as a whole or fails.
Where the source has several statements one after the other, there are several
questions.
-/

namespace Honryu.Control

open Lifecycle Metrics Progress Quota Schedules
open Report (Report Snapshot)

/-! ### Tables -/

/-- A row of `execution_run_history`. -/
structure HistoryRow where
  runId : ℤ
  executionId : ℤ
  started : ℤ
  ended : Option ℤ
  correlationId : String
  deriving DecidableEq

inductive OccurrenceStatus
  | reserved
  | rejected
  | fired
  | completed
  deriving DecidableEq

/-- A row of `schedule_occurrence`. -/
structure Occurrence where
  id : ℤ
  scheduleId : ℤ
  fireTime : ℤ
  status : OccurrenceStatus
  reservationId : Option ℤ
  deriving DecidableEq

/-- The database. `marker` is `execution_run`, which has one row for an execution that
is running, and `marks` is `running_scenario`. -/
structure Store (p : Precision) where
  clock : ℤ
  marker : ℤ → Option ℤ
  nextRun : ℤ
  history : List HistoryRow
  marks : List (ℤ × ℤ)
  pendingCorrelationId : ℤ → String
  lastActivity : ℤ → Option ℤ
  orphans : ℤ → List OrphanCompletion
  ledger : Ledger p
  tenantLocks : List (ℤ × String)
  schedules : List Schedule
  nextSchedule : ℤ
  occurrences : List Occurrence
  nextOccurrence : ℤ
  scheduleLocks : List ℤ
  lastHorizonExtension : Option ℤ
  progress : Repository
  reports : ℤ → Option Report
  graded : List ℤ
  usage : Usage.Launches

/-- What the services are set up with, and what does not change: the executions with
their load profiles and the owners of their projects, the quotas, and what the libraries
make of a text. -/
structure Config where
  execution : ℤ → Option SizedExecution
  execution_id : ∀ executionId exe, execution executionId = some exe → exe.executionId = executionId
  engine : ℤ → Taurus.Executor
  owner : ℤ → Option String
  deployContext : String
  quota : ℤ → String → QuotaRow
  parseQuantity : String → Option Quantity
  parseCron : String → Option Cron
  visit : Visit
  grader : Bool

def Config.profile (cfg : Config) (executionId : ℤ) : List LoadProfile.Entry :=
  (cfg.execution executionId).elim [] (·.profile)

/-! ### Questions -/

/-- Why the marker of a run is read. The answer does not depend on it. One who reads it
to close a run goes by the answer from then on. -/
inductive Reading
  | toKnow
  | toClose
  deriving DecidableEq

/-- The tables `Discard` deletes from. -/
inductive ProgressTable
  | labels
  | seconds
  | signatures
  | shards
  deriving DecidableEq

inductive Op
  | now
  -- executions, campaigns, scenarios
  | getExecution (executionId : ℤ)
  | isFrozen (executionId : ℤ)
  | loadProfileFor (executionId : ℤ)
  | testFile (scenarioId : ℤ)
  | calibrating (executionId : ℤ)
  | prepare (executionId : ℤ)
  -- the project of an execution
  | getProject (executionId : ℤ)
  -- usage
  | startLaunch (executionId : ℤ) (owner : String) (engines vu : ℤ)
  | finishLaunch (executionId vu : ℤ)
  -- the scheduler
  | executionStatus (cluster : String) (executionId : ℤ)
  | deployScenario (cluster : String) (executionId scenarioId : ℤ)
  | purgeExecution (cluster : String) (executionId : ℤ)
  | deployedExecutions (cluster : String)
  -- runs
  | currentRun (executionId : ℤ) (reading : Reading)
  | insertRun (executionId : ℤ)
  | insertHistory (runId executionId : ℤ) (correlationId : String)
  | endHistory (executionId runId : ℤ)
  -- the run on whose behalf a marker is deleted or a report is written is given with it
  | deleteRun (executionId : ℤ) (onBehalf : Option ℤ)
  | openRuns
  | runHistory (runId : ℤ)
  | lastRun (executionId : ℤ)
  | markScenarioRunning (executionId scenarioId : ℤ)
  | clearScenarioRunning (executionId scenarioId : ℤ)
  | getPendingCorrelationId (executionId : ℤ)
  | setPendingCorrelationId (executionId : ℤ) (correlationId : String)
  | touchActivity (executionId : ℤ)
  | getLastActivity (executionId : ℤ)
  | orphanCompletions (executionId : ℤ)
  | recordOrphanCompletion (executionId : ℤ) (completion : OrphanCompletion)
  | clearOrphanCompletions (executionId : ℤ)
  -- quota
  | lockTenant (tenantId : ℤ) (cluster : String)
  | unlockTenant (tenantId : ℤ) (cluster : String)
  | getQuota (tenantId : ℤ) (cluster : String)
  | reservationsInWindow (tenantId : ℤ) (cluster : String) (startTime endTime : ℤ)
  | reservationsForTenant (tenantId : ℤ) (cluster : String)
  | createReservation (request : Request)
  | deleteReservation (id : ℤ)
  | releaseReservations (executionId : ℤ)
  -- schedules
  | createSchedule (sc : Schedule)
  | getSchedule (id : ℤ)
  | listActiveRecurringSchedules
  | occurrencesForSchedule (scheduleId : ℤ)
  | createOccurrence (occurrence : Occurrence)
  | claimDueOccurrence (now : ℤ)
  | deleteSchedule (id : ℤ)
  | lockSchedule (id : ℤ)
  | unlockSchedule (id : ℤ)
  | recordHorizonExtension (t : ℤ)
  -- measurements and reports
  | absorb (batch : ProgressBatch)
  | shardStates (runId : ℤ)
  | snapshot (runId : ℤ)
  | getReport (runId : ℤ)
  | saveReport (report : Report) (onBehalf : Option ℤ)
  | evaluateRun (runId : ℤ)
  | discard (table : ProgressTable) (runId : ℤ)

@[reducible] def Answer : Op → Type
  | .now => ℤ
  | .getExecution _ => SizedExecution
  | .isFrozen _ => Option String
  | .loadProfileFor _ => List LoadProfile.Entry
  | .testFile _ => Bool
  | .calibrating _ => Bool
  | .prepare _ => String
  | .getProject _ => String
  | .executionStatus _ _ => ℤ
  | .deployedExecutions _ => List (ℤ × ℤ)
  | .currentRun _ _ => Option ℤ
  | .insertRun _ => ℤ
  | .openRuns => List HistoryRow
  | .runHistory _ => HistoryRow
  | .lastRun _ => HistoryRow
  | .getPendingCorrelationId _ => String
  | .getLastActivity _ => Option ℤ
  | .orphanCompletions _ => List OrphanCompletion
  | .getQuota _ _ => QuotaRow
  | .reservationsInWindow _ _ _ _ => List Reservation
  | .reservationsForTenant _ _ => List Reservation
  | .createReservation _ => ℤ
  | .createSchedule _ => ℤ
  | .getSchedule _ => Schedule
  | .listActiveRecurringSchedules => List Schedule
  | .occurrencesForSchedule _ => List Occurrence
  | .createOccurrence _ => ℤ
  | .claimDueOccurrence _ => Option Occurrence
  | .shardStates _ => List ShardState
  | .snapshot _ => Snapshot
  | .getReport _ => Report
  | _ => Unit

inductive Failure
  | unavailable
  | notFound
  | lockTimeout
  | noScenarios
  | launchActive
  | reserve (e : ReserveError)
  | size (e : SizeError)
  | transition (e : TransitionError)
  | trigger (e : Plane.TriggerError)
  | ingest (e : Plane.IngestError)
  | schedule (e : ScheduleError)
  | horizon (failed : List ℤ) (recorded : Bool)
  deriving DecidableEq

abbrev Proc (α : Type) := Call Answer Failure α

abbrev query (o : Op) : Proc (Answer o) := Call.need o

abbrev bestEffort (o : Op) : Proc Unit := Call.besides o

/-! ### Answers -/

/-- What is outside of the database, as it is when a question is answered: campaigns,
files, pods, and whether an engine's image and a trace identity can be had. -/
structure View where
  frozen : ℤ → Option String
  testFile : ℤ → Bool
  calibrating : ℤ → Bool
  prepared : Option String
  poolSize : String → ℤ → ℤ
  deployed : String → List (ℤ × ℤ)

section Answers

variable {p : Precision} (cfg : Config)

/-- `OpenRuns`: the markers that have a history row, the oldest first. -/
def Store.openRuns (s : Store p) : List HistoryRow :=
  (s.history.filter fun h => s.marker h.executionId = some h.runId).insertionSort
    fun x y => x.started < y.started ∨ x.started = y.started ∧ x.runId ≤ y.runId

/-- `LastRun`: the run of an execution that was started last. -/
def Store.lastRun (s : Store p) (executionId : ℤ) : Option HistoryRow :=
  ((s.history.filter fun h => h.executionId = executionId).insertionSort
    fun x y => y.started < x.started ∨ x.started = y.started ∧ y.runId ≤ x.runId).head?

def Store.occurrencesOf (s : Store p) (scheduleId : ℤ) : List Occurrence :=
  (s.occurrences.filter fun o => o.scheduleId = scheduleId).insertionSort
    fun x y => x.fireTime ≤ y.fireTime

/-- The occurrence that is claimed: of those that are reserved and due, the earliest. -/
def Store.due (s : Store p) (now : ℤ) : Option Occurrence :=
  ((s.occurrences.filter fun o => o.status = .reserved ∧ o.fireTime ≤ now).insertionSort
    fun x y => x.fireTime ≤ y.fireTime).head?

def found {α : Type} : Option α → Except Failure α
  | some a => .ok a
  | none => .error .notFound

theorem found_eq_ok {α : Type} {x : Option α} {a : α} : found x = .ok a ↔ x = some a := by
  cases x with
  | none => exact ⟨nofun, nofun⟩
  | some b => exact ⟨fun h => congrArg some (Except.ok.inj h), fun h => by cases h; rfl⟩

def reply (view : View) (s : Store p) : (o : Op) → Except Failure (Answer o)
  | .now => .ok s.clock
  | .getExecution executionId => found (cfg.execution executionId)
  | .isFrozen executionId => .ok (view.frozen executionId)
  | .loadProfileFor executionId => .ok (cfg.profile executionId)
  | .testFile scenarioId => .ok (view.testFile scenarioId)
  | .calibrating executionId => .ok (view.calibrating executionId)
  | .prepare _ => found view.prepared
  | .getProject executionId => found (cfg.owner executionId)
  | .startLaunch executionId _ _ _ =>
      if (s.usage.active executionId).isSome then .error .launchActive else .ok ()
  | .finishLaunch _ _ => .ok ()
  | .executionStatus cluster executionId => .ok (view.poolSize cluster executionId)
  | .deployScenario _ _ _ => .ok ()
  | .purgeExecution _ _ => .ok ()
  | .deployedExecutions cluster => .ok (view.deployed cluster)
  | .currentRun executionId _ => .ok (s.marker executionId)
  | .insertRun executionId =>
      if (s.marker executionId).isSome then .error (.trigger .runActive) else .ok s.nextRun
  | .insertHistory _ _ _ => .ok ()
  | .endHistory _ _ => .ok ()
  | .deleteRun _ _ => .ok ()
  | .openRuns => .ok s.openRuns
  | .runHistory runId => found (s.history.find? fun h => h.runId = runId)
  | .lastRun executionId => found (s.lastRun executionId)
  | .markScenarioRunning _ _ => .ok ()
  | .clearScenarioRunning _ _ => .ok ()
  | .getPendingCorrelationId executionId =>
      if (cfg.execution executionId).isSome then .ok (s.pendingCorrelationId executionId)
      else .error .notFound
  | .setPendingCorrelationId _ _ => .ok ()
  | .touchActivity _ => .ok ()
  | .getLastActivity executionId => .ok (s.lastActivity executionId)
  | .orphanCompletions executionId => .ok (s.orphans executionId)
  | .recordOrphanCompletion _ _ => .ok ()
  | .clearOrphanCompletions _ => .ok ()
  | .lockTenant tenantId cluster =>
      if (tenantId, cluster) ∈ s.tenantLocks then .error .lockTimeout else .ok ()
  | .unlockTenant _ _ => .ok ()
  | .getQuota tenantId cluster => .ok (cfg.quota tenantId cluster)
  | .reservationsInWindow tenantId cluster startTime endTime =>
      .ok (s.ledger.inWindow tenantId cluster startTime endTime)
  | .reservationsForTenant tenantId cluster => .ok (s.ledger.forTenant tenantId cluster)
  | .createReservation _ => .ok s.ledger.nextId
  | .deleteReservation id =>
      if id ∈ s.ledger.rows.map (·.id) then .ok () else .error .notFound
  | .releaseReservations _ => .ok ()
  | .createSchedule _ => .ok s.nextSchedule
  | .getSchedule id => found (s.schedules.find? fun sc => sc.id = id)
  | .listActiveRecurringSchedules =>
      .ok (s.schedules.filter fun sc => sc.kind = .recurring ∧ sc.active)
  | .occurrencesForSchedule scheduleId => .ok (s.occurrencesOf scheduleId)
  | .createOccurrence _ => .ok s.nextOccurrence
  | .claimDueOccurrence now => .ok ((s.due now).map fun o => { o with status := .fired })
  | .deleteSchedule id =>
      if id ∈ s.schedules.map (·.id) then .ok () else .error .notFound
  | .lockSchedule id => if id ∈ s.scheduleLocks then .error .lockTimeout else .ok ()
  | .unlockSchedule _ => .ok ()
  | .recordHorizonExtension _ => .ok ()
  | .absorb batch =>
      match batch.validate with
      | .ok () => .ok ()
      | .error e => .error (.ingest (.progress e))
  | .shardStates runId => .ok (s.progress.shardStates runId)
  | .snapshot runId => .ok (s.progress.snapshot runId)
  | .getReport runId => found (s.reports runId)
  | .saveReport _ _ => .ok ()
  | .evaluateRun _ => .ok ()
  | .discard _ _ => .ok ()

/-! ### Effects -/

def fire (occurrenceId : ℤ) (occs : List Occurrence) : List Occurrence :=
  occs.map fun x => if x.id = occurrenceId then { x with status := .fired } else x

/-- What a `DELETE` of the working state leaves of a run's tables. -/
def discardTable (table : ProgressTable) (t : RunTables) : RunTables :=
  match table with
  | .labels => { t with labels := .empty }
  | .seconds => { t with seconds := ∅ }
  | .signatures => { t with signatures := ∅ }
  | .shards => { t with shards := ∅ }

def effect (s : Store p) : Op → Store p
  | .startLaunch executionId owner engines vu =>
      { s with usage := s.usage.start s.clock executionId cfg.deployContext owner engines vu }
  | .finishLaunch executionId vu => { s with usage := s.usage.finish s.clock executionId vu }
  | .insertRun executionId =>
      { s with
        marker := if (s.marker executionId).isSome then s.marker
          else Function.update s.marker executionId (some s.nextRun)
        nextRun := if (s.marker executionId).isSome then s.nextRun else s.nextRun + 1 }
  | .insertHistory runId executionId correlationId =>
      { s with
        history := s.history ++
          [{ runId, executionId, started := s.clock, ended := none, correlationId }] }
  | .endHistory executionId runId =>
      { s with
        history := s.history.map fun h =>
          if h.executionId = executionId ∧ h.runId = runId then { h with ended := some s.clock }
          else h }
  | .deleteRun executionId _ => { s with marker := Function.update s.marker executionId none }
  | .markScenarioRunning executionId scenarioId =>
      { s with
        marks := if (executionId, scenarioId) ∈ s.marks then s.marks
          else s.marks ++ [(executionId, scenarioId)] }
  | .clearScenarioRunning executionId scenarioId =>
      { s with marks := s.marks.filter fun m => m ≠ (executionId, scenarioId) }
  | .setPendingCorrelationId executionId correlationId =>
      { s with
        pendingCorrelationId := Function.update s.pendingCorrelationId executionId correlationId }
  | .touchActivity executionId =>
      { s with
        lastActivity := if (cfg.execution executionId).isSome then
            Function.update s.lastActivity executionId (some s.clock)
          else s.lastActivity }
  | .recordOrphanCompletion executionId oc =>
      { s with
        orphans := Function.update s.orphans executionId
          ((s.orphans executionId).filter (fun x =>
            ¬(x.scenarioId = oc.scenarioId ∧ x.shardIndex = oc.shardIndex)) ++ [oc]) }
  | .clearOrphanCompletions executionId =>
      { s with orphans := Function.update s.orphans executionId [] }
  | .lockTenant tenantId cluster =>
      { s with
        tenantLocks := if (tenantId, cluster) ∈ s.tenantLocks then s.tenantLocks
          else (tenantId, cluster) :: s.tenantLocks }
  | .unlockTenant tenantId cluster =>
      { s with tenantLocks := s.tenantLocks.filter fun l => l ≠ (tenantId, cluster) }
  | .createReservation q => { s with ledger := s.ledger.create q.1 q.positive }
  | .deleteReservation id => { s with ledger := s.ledger.keep fun r => r.id ≠ id }
  | .releaseReservations executionId => { s with ledger := s.ledger.release executionId }
  | .createSchedule sc =>
      { s with
        schedules := s.schedules ++ [{ sc with id := s.nextSchedule }]
        nextSchedule := s.nextSchedule + 1 }
  | .createOccurrence o =>
      { s with
        occurrences := s.occurrences ++ [{ o with id := s.nextOccurrence }]
        nextOccurrence := s.nextOccurrence + 1 }
  | .claimDueOccurrence now =>
      { s with
        occurrences := match s.due now with
          | none => s.occurrences
          | some o => fire o.id s.occurrences }
  | .deleteSchedule id =>
      { s with
        occurrences := if id ∈ s.schedules.map (·.id) then
            s.occurrences.filter fun o => o.scheduleId ≠ id
          else s.occurrences
        schedules := s.schedules.filter fun sc => sc.id ≠ id }
  | .lockSchedule id =>
      { s with
        scheduleLocks := if id ∈ s.scheduleLocks then s.scheduleLocks else id :: s.scheduleLocks }
  | .unlockSchedule id => { s with scheduleLocks := s.scheduleLocks.filter fun l => l ≠ id }
  | .recordHorizonExtension t => { s with lastHorizonExtension := some t }
  | .absorb batch => { s with progress := s.progress.apply cfg.visit batch }
  | .saveReport report _ =>
      { s with
        reports := if (s.reports report.runId).isSome then s.reports
          else Function.update s.reports report.runId (some report) }
  | .evaluateRun runId => { s with graded := runId :: s.graded }
  | .discard table runId =>
      { s with
        progress := ⟨Function.update s.progress.run runId
          (discardTable table (s.progress.run runId))⟩ }
  | _ => s

def failure : Op → Option Failure
  | .now => none
  | .unlockTenant _ _ => none
  | .unlockSchedule _ => none
  | _ => some .unavailable

def server : Server Answer Failure (Store p) View where
  perform view o s := (reply cfg view s o, effect cfg s o)
  failure := failure

end Answers

/-- A new database. -/
def Store.new {p : Precision} : Store p :=
  { clock := 0, marker := fun _ => none, nextRun := 1, history := [], marks := []
    pendingCorrelationId := fun _ => "", lastActivity := fun _ => none, orphans := fun _ => []
    ledger := .empty, tenantLocks := [], schedules := [], nextSchedule := 1, occurrences := []
    nextOccurrence := 1, scheduleLocks := [], lastHorizonExtension := none, progress := .new
    reports := fun _ => none, graded := [], usage := .none }

def View.ready (poolSize : ℤ) : View :=
  { frozen := fun _ => none, testFile := fun _ => true, calibrating := fun _ => false
    prepared := some "", poolSize := fun _ _ => poolSize, deployed := fun _ => [] }

def Store.elapse {p : Precision} (s : Store p) (d : ℕ) : Store p := { s with clock := s.clock + d }

/-! ### A small set-up -/

def smallExecution : SizedExecution :=
  { executionId := 1, cluster := "eu", fanOutTargets := [], profile := [minuteEntry]
    tenantId := some 1, cpu := "", memory := "" }

def smallConfig : Config :=
  { execution := fun executionId => if executionId = 1 then some smallExecution else none
    execution_id := by
      intro executionId exe h
      split at h
      · cases h
        exact Eq.symm ‹_›
      · cases h
    engine := fun _ => ⟨"jmeter"⟩, owner := fun _ => some "team", deployContext := "default"
    quota := fun _ _ => noRow, parseQuantity := fun _ => none
    parseCron := fun _ => none, visit := .sorted, grader := true }

def lastPush (shardIndex : ℤ) : Batch :=
  { executionId := 1, scenarioId := 1, runId := 1, shardIndex, streamId := "a", intervals := []
    cluster := "eu", final := true, exitCode := some 0 }

def carriedOut {κ : Type} (i : ℕ) (kind : κ) (questions : ℕ) : List (Turn View κ ℕ) :=
  .start i kind :: List.replicate questions (.go i (.ready 2) false)

end Honryu.Control
