import Honryu.Calibration.Criterion
import Honryu.Calibration.Step
import Honryu.Lib.Alone
import Honryu.Lib.Keyed
import Honryu.Lib.Pool

/-!
The calls of the calibration service.

A search is triggered for an execution, and then it is advanced by one step at a time. A replica
that advances a search first claims its job: the row says since when, and nobody else claims it
until the lease is over. The step itself is a run of the execution like any other, and the report
on it is what the search goes by.

The calls ask one store. It has the tables of the service, and what the life cycle of an execution
comes to as seen from here: what its engines were deployed with, its open run, and the reports.
Deploying, triggering and stopping are each one question.
-/

namespace Honryu.Calibration

open Call
open LoadProfile (Entry)
open Report (Report)

/-! ### What is stored -/

/-- `leaseFor`, in nanoseconds. -/
def leaseFor : ℤ := 30 * 60 * 10 ^ 9

inductive Failure
  | storage
  | notFound
  | executionNotCalibration
  | noScenarios
  | spec (e : SpecError)
  | step (e : StepError)
  | alreadyRunning
  | notDeployed
  | enginesNotReady
  | neverTriggerable
  | stepRunNotStarted
  | neverSettled
  | notRunning
  | environmentImpaired
  deriving DecidableEq

/-- What is read of an execution. It `calibrates` if it is a `KindCalibrateEngine`. -/
structure Execution where
  calibrates : Bool
  engine : Taurus.Executor
  cpu : String
  memory : String
  deriving DecidableEq

/-- What `CalibrationBoundsFor` returns. -/
structure Bounds where
  seedQPS : ℚ
  maxQPS : ℚ
  maxSteps : ℤ
  holdSeconds : ℤ
  deriving DecidableEq

/-- `CalibrationJob` is the persisted state of a search. -/
structure CalibrationJob where
  id : ℤ
  executionId : ℤ
  scenarioId : ℤ
  phase : Phase
  stepCount : ℤ
  bracketLoRequested : ℚ
  bracketLoAchieved : ℚ
  bracketHiRequested : ℚ
  nextRequestedQPS : ℚ
  result : Option Result
  failureReason : Option Failure
  deriving DecidableEq

/-- A row of `calibration_job`. -/
structure JobRow where
  job : CalibrationJob
  claimedAt : Option ℤ
  deriving DecidableEq

structure Key where
  scenarioId : ℤ
  engine : Taurus.Executor
  cpu : String
  memory : String
  deriving DecidableEq

structure CapacityProfile where
  key : Key
  perPodQPS : ℚ
  saturatedBy : SaturatedBy
  scenarioFingerprint : String
  calibratedAt : ℤ
  jobId : ℤ
  deriving DecidableEq

structure Run (Content : Type) where
  executionId : ℤ
  contents : List Content
  deriving DecidableEq

/-- The jobs are in the order of their ids. Of the capacity profiles every one is kept that was
stored; a later one replaces an earlier one under the same key. -/
structure Store (Content : Type) where
  clock : ℤ
  jobs : List JobRow
  nextJob : ℤ
  steps : ℤ → List Step
  executions : ℤ → Option Execution
  criteria : ℤ → List String
  bounds : ℤ → Option Bounds
  loadProfiles : ℤ → List Entry
  scenarios : ℤ → Option Content
  engines : ℤ → Option (List Content)
  marker : ℤ → Option ℤ
  runs : ℤ → Option (Run Content)
  nextRun : ℤ
  reports : ℤ → Option Report
  profiles : List CapacityProfile

/-! ### Questions -/

inductive Question
  | now
  | sleep (duration : ℤ)
  | claimNextStep (now : ℤ)
  | getExecution (executionId : ℤ)
  | criteriaFor (executionId : ℤ)
  | calibrationBoundsFor (executionId : ℤ)
  | loadProfileFor (executionId : ℤ)
  | createCalibrationJob (executionId scenarioId : ℤ)
  | storeLoadProfile (executionId : ℤ) (entries : List Entry)
  | deploy (executionId : ℤ)
  | trigger (executionId : ℤ)
  | currentRun (executionId : ℤ)
  | getReport (runId : ℤ)
  | stop (executionId : ℤ)
  | touchActivity (executionId : ℤ)
  | recordStep (jobId : ℤ) (step : Step) (updated : CalibrationJob)
  | stepsFor (jobId : ℤ)
  | markFailed (jobId : ℤ) (reason : Failure)
  | scenarioFingerprint (scenarioId : ℤ)
  | upsertCapacityProfile (profile : CapacityProfile)

@[reducible] def Answer : Question → Type
  | .now => ℤ
  | .claimNextStep _ => Option CalibrationJob
  | .getExecution _ => Execution
  | .criteriaFor _ => List String
  | .calibrationBoundsFor _ => Bounds
  | .loadProfileFor _ => List Entry
  | .createCalibrationJob _ _ => ℤ
  | .currentRun _ => Option ℤ
  | .getReport _ => Report
  | .stepsFor _ => List Step
  | .scenarioFingerprint _ => String
  | .sleep _ | .storeLoadProfile _ _ | .deploy _ | .trigger _ | .stop _ | .touchActivity _
  | .recordStep _ _ _ | .markFailed _ _ | .upsertCapacityProfile _ => Unit

abbrev Proc (α : Type) := Call Answer Failure α

abbrev query (q : Question) : Proc (Answer q) := Call.need q

abbrev bestEffort (q : Question) : Proc Unit := Call.besides q

/-! ### Triggering a search -/

/-- `SpecFor` puts the spec of an execution together. -/
def specFor (executionId : ℤ) : Proc Spec := do
  let exe ← query (.getExecution executionId)
  let criteria ← query (.criteriaFor executionId)
  let bounds ← query (.calibrationBoundsFor executionId)
  return { criterion := ", ".intercalate criteria, cpu := exe.cpu, memory := exe.memory
           seedQPS := bounds.seedQPS, maxQPS := bounds.maxQPS, maxSteps := bounds.maxSteps
           holdSeconds := bounds.holdSeconds }

/-- `Trigger` creates a job for the search of an execution. -/
def trigger (executionId : ℤ) : Proc ℤ := do
  let exe ← query (.getExecution executionId)
  if exe.calibrates = false then Call.fail .executionNotCalibration
  else
    let spec ← specFor executionId
    match spec.validate with
    | .error e => Call.fail (.spec e)
    | .ok () =>
        match ← query (.loadProfileFor executionId) with
        | [entry] => query (.createCalibrationJob executionId entry.scenarioId)
        | entries => Call.fail (.step (.scenarioNotConfigured entries.length))

/-! ### Running a step -/

def pollInterval : ℤ := 2 * 10 ^ 9

def triggerReadyTimeout : ℤ := 2 * 60 * 10 ^ 9

def stepReportTimeout : ℤ := 5 * 60 * 10 ^ 9

/-- How often a loop can poll: it is over its deadline once it has slept this often. -/
def pollsWithin (timeout : ℤ) : ℕ := (timeout / pollInterval).toNat + 1

def pollAgain {α : Type} (deadline : ℤ) (timedOut : Failure) (again : Proc α) : Proc α := do
  let now ← query .now
  if deadline < now then Call.fail timedOut
  else
    query (.sleep pollInterval)
    again

/-- The loop of `triggerWhenReady`. -/
def triggerUntil (executionId deadline : ℤ) : ℕ → Proc Unit
  | 0 => Call.fail .neverTriggerable
  | polls + 1 => do
      match ← Call.attempt (query (.trigger executionId)) with
      | .ok () => return ()
      | .error .notDeployed | .error .enginesNotReady =>
          pollAgain deadline .neverTriggerable (triggerUntil executionId deadline polls)
      | .error e => Call.fail e

/-- `triggerWhenReady` triggers the run once the pod is ready. -/
def triggerWhenReady (executionId : ℤ) : Proc Unit := do
  let now ← query .now
  triggerUntil executionId (now + triggerReadyTimeout) (pollsWithin triggerReadyTimeout + 1)

/-- The loop of `awaitReport`. -/
def reportUntil (runId deadline : ℤ) : ℕ → Proc Report
  | 0 => Call.fail .neverSettled
  | polls + 1 => do
      match ← Call.attempt (query (.getReport runId)) with
      | .ok rpt => return rpt
      | .error .notFound => pollAgain deadline .neverSettled (reportUntil runId deadline polls)
      | .error e => Call.fail e

/-- `awaitReport` waits for the settled report of a run. -/
def awaitReport (runId : ℤ) : Proc Report := do
  let now ← query .now
  reportUntil runId (now + stepReportTimeout) (pollsWithin stepReportTimeout + 1)

/-- The run of a step is measured and stopped. That it has ended by itself is as good. -/
def measureRun (executionId runId : ℤ) : Proc Report := do
  let rpt ← Call.attempt (awaitReport runId)
  match ← Call.attempt (query (.stop executionId)) with
  | .ok () | .error .notRunning => do
      bestEffort (.touchActivity executionId)
      Call.ofResult rpt
  | .error e => Call.fail e

/-- `RunStep` rewrites the load profile of an execution for a step, deploys and triggers it, and
returns the settled report. -/
def runStep (executionId : ℤ) (requestedQPS : ℚ) (holdSeconds : ℤ) (latencyHintSec : ℚ) :
    Proc Report :=
  if requestedQPS ≤ 0 then Call.fail (.step (.requestedQPSInvalid requestedQPS))
  else do
    let entries ← query (.loadProfileFor executionId)
    match stepProfile entries requestedQPS holdSeconds latencyHintSec with
    | .error e => Call.fail (.step e)
    | .ok step => do
        query (.storeLoadProfile executionId [step])
        query (.deploy executionId)
        triggerWhenReady executionId
        match ← query (.currentRun executionId) with
        | none => Call.fail .stepRunNotStarted
        | some runId => measureRun executionId runId

/-! ### Advancing a search -/

/-- `observedLatencySeconds`. -/
def observedLatencySeconds (rpt : Report) : ℚ := rpt.latency[(95 : ℚ)]?.getD 0

/-- `runClassifiedStep` runs a step, and classifies its report. -/
def runClassifiedStep (executionId : ℤ) (requestedQPS : ℚ) (spec : Spec) (latencyHintSec : ℚ) :
    Proc (Step × ℚ) := do
  let rpt ← runStep executionId requestedQPS spec.holdSeconds latencyHintSec
  return ({ requestedQPS, achievedQPS := rpt.achieved.throughput
            classification := classify spec.criterion rpt }, observedLatencySeconds rpt)

/-- The step of a search. An engine that was short is given a second try, which counts. -/
def takeStep (executionId : ℤ) (requestedQPS : ℚ) (spec : Spec) : Proc Step := do
  let (step, latencySec) ← runClassifiedStep executionId requestedQPS spec 0
  if step.classification = .engineSaturated then
    let (step, _) ← runClassifiedStep executionId requestedQPS spec latencySec
    return step
  else return step

/-- `startOrResume`: where the search stands, and the rate of its step. -/
def startOrResume (spec : Spec) (persisted : CalibrationJob) : Job × ℚ :=
  if persisted.phase = .pending then ((start spec).1, (start spec).2.nextRequestedQPS)
  else
    ({ spec, phase := persisted.phase, stepCount := persisted.stepCount
       bracketLoRequested := persisted.bracketLoRequested
       bracketLoAchieved := persisted.bracketLoAchieved
       bracketHiRequested := persisted.bracketHiRequested
       result := persisted.result }, persisted.nextRequestedQPS)

/-- `applyDomainJob`. -/
def applyDomainJob (persisted : CalibrationJob) (job : Job) (action : Action) : CalibrationJob :=
  { persisted with
    phase := job.phase
    stepCount := job.stepCount
    bracketLoRequested := job.bracketLoRequested
    bracketLoAchieved := job.bracketLoAchieved
    bracketHiRequested := job.bracketHiRequested
    result := job.result
    nextRequestedQPS := action.nextRequestedQPS }

def blamesEngine (result : Option Result) : Bool :=
  result.any fun r => r.saturatedBy = .engine

/-- `environmentImpaired`: the engine is blamed, and no step was clean. -/
def environmentImpaired (jobId : ℤ) (done : Job) : Proc Bool :=
  if blamesEngine done.result = false then return false
  else do
    let steps ← query (.stepsFor jobId)
    return steps.all fun step => step.classification ≠ .clean

/-- `fail` marks the job as failed, and returns the error in any case. -/
def failJob {α : Type} (jobId : ℤ) (reason : Failure) : Proc α := do
  bestEffort (.markFailed jobId reason)
  Call.fail reason

/-- `writeProfile` records the outcome of a search that has ended. One that has ended has a
result. -/
def writeProfile (job : CalibrationJob) (result : Result) (now : ℤ) : Proc Unit := do
  let exe ← query (.getExecution job.executionId)
  match ← query (.loadProfileFor job.executionId) with
  | [entry] => do
      let fingerprint ← query (.scenarioFingerprint entry.scenarioId)
      query (.upsertCapacityProfile
        { key := { scenarioId := entry.scenarioId, engine := exe.engine, cpu := exe.cpu
                   memory := exe.memory }
          perPodQPS := result.perPodQPS, saturatedBy := result.saturatedBy
          scenarioFingerprint := fingerprint, calibratedAt := now, jobId := job.id })
  | entries => Call.fail (.step (.scenarioNotConfigured entries.length))

/-- What `AdvanceOne` does once the search has ended. -/
def finishSearch (persisted : CalibrationJob) (done : Job) (now : ℤ) : Proc Unit := do
  if ← environmentImpaired persisted.id done then failJob persisted.id .environmentImpaired
  else
    match done.result with
    | some result => writeProfile persisted result now
    -- not reached: a search that is done has a result
    | none => return ()

/-- What `AdvanceOne` does with the step that was taken. -/
def concludeStep (persisted : CalibrationJob) (job : Job) (step : Step) (now : ℤ) : Proc Unit := do
  let updated := next job step
  query (.recordStep persisted.id step (applyDomainJob persisted updated.1 updated.2))
  if updated.1.phase ≠ .done then return ()
  else finishSearch persisted updated.1 now

/-- What `AdvanceOne` does with the job it has claimed. -/
def advanceClaimed (persisted : CalibrationJob) (now : ℤ) : Proc Unit := do
  match ← Call.attempt (specFor persisted.executionId) with
  | .error e => failJob persisted.id e
  | .ok spec =>
      let started := startOrResume spec persisted
      match ← Call.attempt (takeStep persisted.executionId started.2 spec) with
      | .error e => failJob persisted.id e
      | .ok step => concludeStep persisted started.1 step now

/-- `AdvanceOne` claims a job that is due, and advances its search by a step. -/
def advanceOne (now : ℤ) : Proc Unit := do
  match ← query (.claimNextStep now) with
  | none => return ()
  | some persisted => advanceClaimed persisted now

inductive Task
  | advance
  | trigger (executionId : ℤ)
  deriving DecidableEq

def Task.body : Task → Proc Unit
  | .advance => do
      let now ← query .now
      advanceOne now
  | .trigger executionId => do
      let _ ← Calibration.trigger executionId
      return ()

/-! ### What the calls ask -/

def Looking : Question → Prop
  | .getExecution _ | .criteriaFor _ | .calibrationBoundsFor _ | .loadProfileFor _ | .stepsFor _
  | .scenarioFingerprint _ => True
  | _ => False

def Triggering (q : Question) : Prop := Looking q ∨ ∃ e k, q = .createCalibrationJob e k

def WaitingOf (executionId : ℤ) : Question → Prop
  | .trigger e | .currentRun e | .stop e => e = executionId
  | .sleep duration => duration = pollInterval
  | .now | .getReport _ | .touchActivity _ => True
  | _ => False

def RunningOf (executionId : ℤ) : Question → Prop
  | .storeLoadProfile e _ | .deploy e => e = executionId
  | .loadProfileFor _ => True
  | q => WaitingOf executionId q

section Asks

variable {executionId : ℤ}

theorem asks_specFor : (specFor executionId).Asks Looking :=
  .need trivial fun _ => .need trivial fun _ => .need trivial fun _ => trivial

theorem asks_trigger : (trigger executionId).Asks Triggering := by
  refine .need (.inl trivial) fun exe => ?_
  split
  · trivial
  · refine .bind (asks_specFor.mono fun _ => .inl) fun spec => ?_
    split
    · trivial
    · refine .need (.inl trivial) fun entries => ?_
      split
      · exact asks_need.mpr (.inr ⟨_, _, rfl⟩)
      · trivial

theorem asks_pollAgain {α : Type} {deadline : ℤ} {timedOut : Failure} {again : Proc α}
    (h : again.Asks (WaitingOf executionId)) :
    (pollAgain deadline timedOut again).Asks (WaitingOf executionId) := by
  refine .need trivial fun now => ?_
  split
  · trivial
  · exact .need rfl fun _ => h

theorem asks_triggerUntil (deadline : ℤ) (polls : ℕ) :
    (triggerUntil executionId deadline polls).Asks (WaitingOf executionId) := by
  induction polls with
  | zero => trivial
  | succ polls ih =>
      refine .bind (.attempt (asks_need.mpr rfl)) fun r => ?_
      split
      · trivial
      · exact asks_pollAgain ih
      · exact asks_pollAgain ih
      · trivial

theorem asks_triggerWhenReady : (triggerWhenReady executionId).Asks (WaitingOf executionId) :=
  .need trivial fun _ => asks_triggerUntil _ _

theorem asks_reportUntil (runId deadline : ℤ) (polls : ℕ) :
    (reportUntil runId deadline polls).Asks (WaitingOf executionId) := by
  induction polls with
  | zero => trivial
  | succ polls ih =>
      refine .bind (.attempt (asks_need.mpr trivial)) fun r => ?_
      split
      · trivial
      · exact asks_pollAgain ih
      · trivial

theorem asks_measureRun (runId : ℤ) :
    (measureRun executionId runId).Asks (WaitingOf executionId) := by
  have hawait : (awaitReport runId).Asks (WaitingOf executionId) :=
    .need trivial fun _ => asks_reportUntil _ _ _
  refine .bind (.attempt hawait) fun rpt => ?_
  refine .bind (.attempt (asks_need.mpr rfl)) fun r => ?_
  split
  · exact .besides trivial (asks_ofResult _)
  · exact .besides trivial (asks_ofResult _)
  · trivial

theorem WaitingOf.running {q : Question} (h : WaitingOf executionId q) : RunningOf executionId q := by
  cases q with
  | storeLoadProfile | deploy | loadProfileFor => cases h
  | _ => exact h

theorem asks_runStep (requestedQPS : ℚ) (holdSeconds : ℤ) (latencyHintSec : ℚ) :
    (runStep executionId requestedQPS holdSeconds latencyHintSec).Asks (RunningOf executionId) := by
  unfold runStep
  split
  · trivial
  · refine .need trivial fun entries => ?_
    split
    · trivial
    · refine .need rfl fun _ => .need rfl fun _ => ?_
      refine .bind (asks_triggerWhenReady.mono fun _ => WaitingOf.running) fun _ => ?_
      refine .need rfl fun current => ?_
      split
      · trivial
      · exact (asks_measureRun _).mono fun _ => WaitingOf.running

theorem asks_takeStep (requestedQPS : ℚ) (spec : Spec) :
    (takeStep executionId requestedQPS spec).Asks (RunningOf executionId) := by
  have hstep : ∀ latencySec,
      (runClassifiedStep executionId requestedQPS spec latencySec).Asks (RunningOf executionId) :=
    fun latencySec => .bind (asks_runStep _ _ _) fun _ => trivial
  refine .bind (hstep 0) fun measured => ?_
  change Call.Asks _ (if measured.1.classification = _ then _ else _)
  split
  · exact .bind (hstep _) fun _ => trivial
  · trivial

end Asks

/-! ### What the questions do -/

/-- What has come about by the time a question is answered: how long it took, which executions
have had the report on their run settled, and whether the pods of a run are ready. -/
structure Moment where
  elapsed : ℕ
  settled : ℤ → Option Report
  ready : Bool

/-- The row with what a job has of its search, and without a claim. -/
def JobRow.recorded (row : JobRow) (updated : CalibrationJob) : JobRow :=
  { job :=
      { row.job with
        phase := updated.phase
        stepCount := updated.stepCount
        bracketLoRequested := updated.bracketLoRequested
        bracketLoAchieved := updated.bracketLoAchieved
        bracketHiRequested := updated.bracketHiRequested
        nextRequestedQPS := updated.nextRequestedQPS
        result := updated.result }
    claimedAt := none }

def JobRow.failedWith (row : JobRow) (reason : Failure) : JobRow :=
  { job := { row.job with phase := .failed, failureReason := some reason }, claimedAt := none }

namespace Store

variable {Content : Type} (s : Store Content)

/-- A run is over once its report is settled. -/
def pass (m : Moment) : Store Content :=
  { s with
    clock := s.clock + m.elapsed
    marker := fun e => if (m.settled e).isSome then none else s.marker e
    reports := fun runId =>
      match s.runs runId with
      | some r => if s.marker r.executionId = some runId then
          (m.settled r.executionId).or (s.reports runId) else s.reports runId
      | none => s.reports runId }

/-- A job can be claimed: its search has not ended, and nobody has a lease on it. -/
def claimable (now : ℤ) (row : JobRow) : Bool :=
  (row.job.phase = .pending ∨ row.job.phase = .bracketing ∨ row.job.phase = .bisecting) ∧
    (row.claimedAt = none ∨ row.claimedAt.any (· < now - leaseFor))

/-- The row that `ClaimNextStep` locks. -/
def due (now : ℤ) : Option JobRow := s.jobs.find? (claimable now)

def updateJob (jobId : ℤ) (f : JobRow → JobRow) : Store Content :=
  { s with jobs := s.jobs.map fun row => if row.job.id = jobId then f row else row }

def claim (jobId now : ℤ) : Store Content :=
  s.updateJob jobId fun row => { row with claimedAt := some now }

/-- `RecordStep` appends the step, replaces what the row has of the search, and clears the
claim. -/
def record (jobId : ℤ) (step : Step) (updated : CalibrationJob) : Store Content :=
  { s.updateJob jobId (·.recorded updated) with
    steps := Function.update s.steps jobId (s.steps jobId ++ [step]) }

/-- `MarkFailed` ends a job, and clears the claim. -/
def markFailed (jobId : ℤ) (reason : Failure) : Store Content :=
  s.updateJob jobId (·.failedWith reason)

def insertJob (executionId scenarioId : ℤ) : Store Content :=
  { s with
    jobs := s.jobs ++
      [{ job :=
           { id := s.nextJob, executionId, scenarioId, phase := .pending, stepCount := 0
             bracketLoRequested := 0, bracketLoAchieved := 0, bracketHiRequested := 0
             nextRequestedQPS := 0, result := none, failureReason := none }
         claimedAt := none }]
    nextJob := s.nextJob + 1 }

def hasJob (jobId : ℤ) : Bool := s.jobs.any fun row => row.job.id = jobId

/-- What would be deployed for an execution: the contents of the scenarios of its load profile. -/
def contentsFor (executionId : ℤ) : Option (List Content) :=
  (s.loadProfiles executionId).mapM fun entry => s.scenarios entry.scenarioId

def deployed (executionId : ℤ) (contents : List Content) : Store Content :=
  { s with engines := Function.update s.engines executionId (some contents) }

def openRun (executionId : ℤ) (contents : List Content) : Store Content :=
  { s with
    marker := Function.update s.marker executionId (some s.nextRun)
    runs := Function.update s.runs s.nextRun (some { executionId, contents })
    nextRun := s.nextRun + 1 }

def closeRun (executionId : ℤ) : Store Content :=
  { s with marker := Function.update s.marker executionId none }

end Store

def orNotFound {α : Type} : Option α → Except Failure α
  | some a => .ok a
  | none => .error .notFound

section Server

variable {Content : Type} (fingerprint : Content → String)

/-- What `Deploy` deploys. It is refused while a run is open. -/
def deployable (s : Store Content) (executionId : ℤ) : Except Failure (List Content) :=
  if s.executions executionId = none then .error .notFound
  else if s.loadProfiles executionId = [] then .error .noScenarios
  else if s.marker executionId ≠ none then .error .alreadyRunning
  else orNotFound (s.contentsFor executionId)

/-- What `Trigger` starts a run of. It is refused while a run is open, and until the engines are
ready. -/
def triggerable (ready : Bool) (s : Store Content) (executionId : ℤ) :
    Except Failure (List Content) :=
  if s.marker executionId ≠ none then .error .alreadyRunning
  else
    match s.engines executionId with
    | none => .error .notDeployed
    | some contents => if ready then .ok contents else .error .enginesNotReady

/-- What a question is answered. -/
def reply (ready : Bool) (s : Store Content) : (q : Question) → Except Failure (Answer q)
  | .now => .ok s.clock
  | .claimNextStep now => .ok ((s.due now).map (·.job))
  | .getExecution e => orNotFound (s.executions e)
  | .criteriaFor e => .ok (s.criteria e)
  | .calibrationBoundsFor e => orNotFound (s.bounds e)
  | .loadProfileFor e => .ok (s.loadProfiles e)
  | .createCalibrationJob _ _ => .ok s.nextJob
  | .deploy e => (deployable s e).map fun _ => ()
  | .trigger e => (triggerable ready s e).map fun _ => ()
  | .currentRun e => .ok (s.marker e)
  | .getReport runId => orNotFound (s.reports runId)
  | .stop e => if s.marker e = none then .error .notRunning else .ok ()
  | .stepsFor jobId => .ok (s.steps jobId)
  | .recordStep jobId _ _ | .markFailed jobId _ =>
      if s.hasJob jobId then .ok () else .error .notFound
  | .scenarioFingerprint k => orNotFound ((s.scenarios k).map fingerprint)
  | .sleep _ | .storeLoadProfile _ _ | .touchActivity _ | .upsertCapacityProfile _ => .ok ()

/-- What a question changes. -/
def effect (ready : Bool) (s : Store Content) : Question → Store Content
  | .sleep duration => { s with clock := s.clock + duration }
  | .claimNextStep now =>
      match s.due now with
      | none => s
      | some row => s.claim row.job.id now
  | .createCalibrationJob e k => s.insertJob e k
  | .storeLoadProfile e entries =>
      { s with loadProfiles := Function.update s.loadProfiles e entries }
  | .deploy e =>
      match deployable s e with
      | .ok contents => s.deployed e contents
      | .error _ => s
  | .trigger e =>
      match triggerable ready s e with
      | .ok contents => s.openRun e contents
      | .error _ => s
  | .stop e => s.closeRun e
  | .recordStep jobId step updated => if s.hasJob jobId then s.record jobId step updated else s
  | .markFailed jobId reason => s.markFailed jobId reason
  | .upsertCapacityProfile profile => { s with profiles := profile :: s.profiles }
  | _ => s

def failureOf : Question → Option Failure
  | .now | .sleep _ => none
  | _ => some .storage

def server : Server Answer Failure (Store Content) Moment where
  perform m q s := (reply fingerprint m.ready (s.pass m) q, effect m.ready (s.pass m) q)
  failure := failureOf

structure Edit (Content : Type) where
  scenarioId : ℤ
  content : Option Content

def Store.edit (s : Store Content) (e : Edit Content) : Store Content :=
  { s with scenarios := Function.update s.scenarios e.scenarioId e.content }

/-! ### The rows of the jobs -/

def JobRow.unfinished (row : JobRow) : Prop :=
  row.job.phase = .pending ∨ row.job.phase = .bracketing ∨ row.job.phase = .bisecting

instance (row : JobRow) : Decidable row.unfinished := inferInstanceAs (Decidable (_ ∨ _))

theorem JobRow.unfinished.not_done {row : JobRow} (h : row.unfinished) : row.job.phase ≠ .done := by
  rcases h with h | h | h <;> rw [h] <;> decide

structure Store.DistinctJobs (s : Store Content) : Prop where
  nodup : (s.jobs.map (·.job.id)).Nodup
  lt : ∀ row ∈ s.jobs, row.job.id < s.nextJob

def Question.sparesJobs : Question → Prop
  | .claimNextStep _ | .createCalibrationJob _ _ | .recordStep _ _ _ | .markFailed _ _ => False
  | _ => True

section Rows

variable {s : Store Content} {ready : Bool} {q : Question} {row : JobRow} {jobId : ℤ}

theorem effect_of_looking (hq : Looking q) : effect ready s q = s := by
  cases q with
  | getExecution | criteriaFor | calibrationBoundsFor | loadProfileFor | stepsFor
  | scenarioFingerprint => rfl
  | _ => cases hq

theorem effect_of_sparesJobs (hq : q.sparesJobs) :
    (effect ready s q).jobs = s.jobs ∧ (effect ready s q).nextJob = s.nextJob ∧
      (effect ready s q).steps = s.steps := by
  unfold effect
  split
  case h_2 | h_3 | h_8 | h_9 => cases hq
  case h_5 | h_6 => split <;> exact ⟨rfl, rfl, rfl⟩
  all_goals exact ⟨rfl, rfl, rfl⟩

theorem claimable_iff {now : ℤ} :
    Store.claimable now row = true ↔
      row.unfinished ∧ ∀ t ∈ row.claimedAt, t + leaseFor < now := by
  rw [Store.claimable, decide_eq_true_iff, JobRow.unfinished]
  refine and_congr_right fun _ => ?_
  cases row.claimedAt with
  | none => simp
  | some t => simp [lt_sub_iff_add_lt]

theorem due_eq_some {now : ℤ} (h : s.due now = some row) :
    row ∈ s.jobs ∧ Store.claimable now row = true :=
  ⟨List.mem_of_find?_eq_some h, List.find?_some h⟩

theorem mem_updateJob {f : JobRow → JobRow} :
    row ∈ (s.updateJob jobId f).jobs ↔
      (∃ old ∈ s.jobs, old.job.id = jobId ∧ f old = row) ∨ row ∈ s.jobs ∧ row.job.id ≠ jobId := by
  constructor
  · intro h
    obtain ⟨old, hold, hrow⟩ := List.mem_map.mp h
    split at hrow
    · exact .inl ⟨old, hold, ‹_›, hrow⟩
    · exact .inr ⟨hrow ▸ hold, hrow ▸ ‹_›⟩
  · rintro (⟨old, hold, hid, hrow⟩ | ⟨hold, hid⟩)
    · exact List.mem_map.mpr ⟨old, hold, by rw [if_pos hid, hrow]⟩
    · exact List.mem_map.mpr ⟨row, hold, by rw [if_neg hid]⟩

theorem Store.DistinctJobs.eq_of_id_eq (h : s.DistinctJobs) {row' : JobRow} (hrow : row ∈ s.jobs)
    (hrow' : row' ∈ s.jobs) (hid : row.job.id = row'.job.id) : row = row' :=
  List.inj_on_of_nodup_map h.nodup hrow hrow' hid

theorem Store.DistinctJobs.updateJob (h : s.DistinctJobs) {f : JobRow → JobRow}
    (hf : ∀ row, (f row).job.id = row.job.id) : (s.updateJob jobId f).DistinctJobs := by
  have hids : (s.updateJob jobId f).jobs.map (·.job.id) = s.jobs.map (·.job.id) :=
    Keyed.map_key_modify hf _
  refine ⟨hids ▸ h.nodup, fun row hrow => ?_⟩
  have hmem : row.job.id ∈ s.jobs.map (·.job.id) := hids ▸ List.mem_map_of_mem hrow
  obtain ⟨old, hold, hid⟩ := List.mem_map.mp hmem
  exact hid ▸ h.lt old hold

theorem Store.DistinctJobs.insertJob (h : s.DistinctJobs) (executionId scenarioId : ℤ) :
    (s.insertJob executionId scenarioId).DistinctJobs := by
  refine ⟨?_, fun row hrow => ?_⟩
  · rw [Store.insertJob, List.map_append, List.map_singleton, ← List.concat_eq_append]
    refine h.nodup.concat fun hmem => ?_
    obtain ⟨old, hold, hid⟩ := List.mem_map.mp hmem
    exact (h.lt old hold).ne hid
  · rcases List.mem_append.mp hrow with hrow | hrow
    · exact (h.lt row hrow).trans (lt_add_one _)
    · obtain rfl := List.mem_singleton.mp hrow
      exact lt_add_one _

end Rows

end Server

/-! ### A small store -/

def calm : Moment := { elapsed := 0, settled := fun _ => none, ready := true }

/-- A store with some jobs, in which every execution has the same scenario and the same spec. -/
def storeWith (jobs : List JobRow) : Store String :=
  { clock := 0, jobs, nextJob := jobs.length + 1, steps := fun _ => []
    executions := fun _ =>
      some { calibrates := true, engine := ⟨"jmeter"⟩, cpu := "1", memory := "1Gi" }
    criteria := fun _ => ["failures>5%"]
    bounds := fun _ => some { seedQPS := 10, maxQPS := 10000, maxSteps := 20, holdSeconds := 30 }
    loadProfiles := fun _ => [Search.baseEntry], scenarios := fun _ => some "plan"
    engines := fun _ => none, marker := fun _ => none, runs := fun _ => none, nextRun := 1
    reports := fun _ => none, profiles := [] }

end Honryu.Calibration
