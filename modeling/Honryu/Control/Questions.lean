import Honryu.Control.Schedules

/-!
What the calls ask.
-/

namespace Honryu.Control

open Call Lifecycle Quota

/-- What is asked to look at something. It changes nothing. -/
def Looking : Op → Prop
  | .now | .getExecution _ | .isFrozen _ | .loadProfileFor _ | .testFile _ | .calibrating _
  | .executionStatus _ _ | .deployedExecutions _ | .currentRun _ .toKnow | .getQuota _ _
  | .orphanCompletions _ | .getLastActivity _ | .reservationsInWindow _ _ _ _
  | .reservationsForTenant _ _ | .getReport _ | .snapshot _ | .shardStates _ | .runHistory _
  | .lastRun _ => True
  | _ => False

def Surveying : Op → Prop
  | .testFile _ | .executionStatus _ _ => True
  | _ => False

def Ending : Op → Prop
  | .currentRun _ _ | .touchActivity _ | .clearScenarioRunning _ _ | .releaseReservations _
  | .saveReport _ _ | .evaluateRun _ | .discard _ _ | .endHistory _ _ | .deleteRun _ _
  | .purgeExecution _ _ | .clearOrphanCompletions _ | .finishLaunch _ _ => True
  | o => Looking o

def EndingOf (executionId : ℤ) : Op → Prop
  | .clearScenarioRunning e _ | .releaseReservations e | .endHistory e _ | .deleteRun e _
  | .currentRun e _ | .getExecution e | .finishLaunch e _ => e = executionId
  | o => Ending o

def SettlingOf (runId : ℤ) : Op → Prop
  | .evaluateRun r | .discard _ r => r = runId
  | _ => False

def ClearingOf (executionId : ℤ) : Op → Prop
  | .clearScenarioRunning e _ => e = executionId
  | _ => False

def ClosingOf (executionId : ℤ) : Op → Prop
  | .currentRun e _ | .endHistory e _ | .deleteRun e _ => e = executionId
  | _ => False

/-- What is asked to finalise a run. -/
def FinalisingOf (executionId : ℤ) : Op → Prop
  | .getReport _ | .shardStates _ | .snapshot _ | .loadProfileFor _ | .runHistory _ | .now
  | .saveReport _ _ | .evaluateRun _ | .discard _ _ | .touchActivity _ => True
  | .getExecution e | .currentRun e _ | .endHistory e _ | .deleteRun e _ => e = executionId
  | _ => False

def FinalisingRun (executionId runId : ℤ) : Op → Prop
  | .saveReport report _ => report.runId = runId
  | .evaluateRun r | .discard _ r => r = runId
  | o => FinalisingOf executionId o

def RemovingOf (executionId : ℤ) : Op → Prop
  | .purgeExecution _ e => e = executionId
  | _ => False

def ProvidingFor (executionId : ℤ) : Op → Prop
  | .getExecution _ | .loadProfileFor _ | .currentRun _ .toKnow | .prepare _ => True
  | .setPendingCorrelationId e _ | .clearOrphanCompletions e | .touchActivity e
  | .deployScenario _ e _ => e = executionId
  | _ => False

def Opening : Op → Prop
  | .getPendingCorrelationId _ | .insertRun _ | .insertHistory _ _ _ | .touchActivity _
  | .markScenarioRunning _ _ | .currentRun _ .toKnow | .endHistory _ _ | .deleteRun _ _
  | .getProject _ | .startLaunch _ _ _ _ => True
  | _ => False

def MarkingOf (executionId : ℤ) : Op → Prop
  | .markScenarioRunning e _ => e = executionId
  | _ => False

def Accounting : Op → Prop
  | .getProject _ | .startLaunch _ _ _ _ => True
  | _ => False

theorem MarkingOf.opening {executionId : ℤ} {o : Op} (h : MarkingOf executionId o) : Opening o := by
  cases o <;> trivial

theorem Accounting.opening {o : Op} (h : Accounting o) : Opening o := by
  cases o <;> trivial

theorem Surveying.looking {o : Op} (h : Surveying o) : Looking o := by
  cases o <;> trivial

theorem SettlingOf.finalisingRun {executionId runId : ℤ} {o : Op} (h : SettlingOf runId o) :
    FinalisingRun executionId runId o := by
  cases o <;> first | exact h.elim | exact h

theorem FinalisingRun.finalisingOf {executionId runId : ℤ} {o : Op}
    (h : FinalisingRun executionId runId o) : FinalisingOf executionId o := by
  cases o <;> first | exact h | trivial

theorem ClosingOf.finalisingOf {executionId : ℤ} {o : Op} (h : ClosingOf executionId o) :
    FinalisingOf executionId o := by
  cases o <;> first | exact h.elim | exact h

theorem ClosingOf.finalisingRun {executionId runId : ℤ} {o : Op} (h : ClosingOf executionId o) :
    FinalisingRun executionId runId o := by
  cases o <;> first | exact h.elim | exact h

theorem ClearingOf.endingOf {executionId : ℤ} {o : Op} (h : ClearingOf executionId o) :
    EndingOf executionId o := by
  cases o <;> first | exact h.elim | exact h

theorem FinalisingOf.endingOf {executionId : ℤ} {o : Op} (h : FinalisingOf executionId o) :
    EndingOf executionId o := by
  cases o <;> first | exact h.elim | exact h

theorem EndingOf.ending {executionId : ℤ} {o : Op} (h : EndingOf executionId o) : Ending o := by
  cases o <;> trivial

variable (cfg : Config)

/-! ### Looking -/

theorem asks_overrunning (now : ℤ) (all : List Reservation) : (overrunning now all).Asks Looking := by
  induction all with
  | nil => trivial
  | cons r rest ih =>
      rw [overrunning]
      split
      · exact ih
      · exact .need trivial fun _ => .bind ih fun _ => trivial

theorem asks_usedCapacity (q : Request) : (usedCapacity q).Asks Looking :=
  .need trivial fun _ => .need trivial fun _ => .need trivial fun _ =>
    .bind (asks_overrunning _ _) fun _ => trivial

theorem asks_ensureTestFiles (scenarios : List LoadProfile.Entry) :
    (ensureTestFiles scenarios).Asks Surveying := by
  induction scenarios with
  | nil => trivial
  | cons e rest ih =>
      refine .need trivial fun present => ?_
      cases present with
      | true => exact ih
      | false => trivial

theorem asks_executionStatusAcross (executionId : ℤ) (clusters : List String) :
    (executionStatusAcross executionId clusters).Asks Surveying := by
  induction clusters with
  | nil => trivial
  | cons cluster rest ih => exact .need trivial fun _ => .bind ih fun _ => trivial

theorem asks_requireEveryClusterReady (executionId wanted : ℤ) (clusters : List String) :
    (requireEveryClusterReady executionId wanted clusters).Asks Surveying := by
  induction clusters with
  | nil => trivial
  | cons cluster rest ih =>
      refine .need trivial fun poolSize => ?_
      split
      · trivial
      · exact ih

theorem asks_requireReady (executionId : ℤ) (exe : SizedExecution) :
    (requireReady executionId exe).Asks Surveying := by
  unfold requireReady
  split
  · exact asks_requireEveryClusterReady _ _ _
  · trivial

/-- A run can only be opened if there is none, and there is something to run. -/
theorem canTrigger_ok {poolSize : ℤ} {running : Bool} {exe : Execution}
    (h : canTrigger (derivePhase poolSize running) exe poolSize = .ok ()) :
    running = false ∧ exe.profile ≠ [] := by
  unfold canTrigger at h
  split at h
  · cases h
  · rename_i hprofile
    cases running with
    | false => exact ⟨rfl, hprofile⟩
    | true => cases h

theorem asks_triggerChecks (executionId : ℤ) : (triggerChecks executionId).Asks Looking := by
  refine .need trivial fun exe => .need trivial fun frozen => ?_
  cases frozen with
  | some campaign => trivial
  | none =>
      have hlooking : ∀ o, Surveying o → Looking o := fun _ => Surveying.looking
      refine .need trivial fun scenarios => .bind ((asks_ensureTestFiles _).mono hlooking) fun _ =>
        .need trivial fun current =>
        .bind ((asks_executionStatusAcross _ _).mono hlooking) fun poolSize =>
        .bind ((asks_requireReady _ _).mono hlooking) fun _ => ?_
      split
      · trivial
      · refine .need trivial fun orphans => ?_
        split <;> trivial

/-! ### Ending a run -/

theorem asks_stopRun (executionId : ℤ) (onBehalf : Option ℤ) :
    (stopRun executionId onBehalf).Asks (ClosingOf executionId) := by
  refine .need rfl fun current => ?_
  cases current with
  | none => trivial
  | some runId => exact .need rfl fun _ => asks_need.mpr rfl

theorem asks_closeRun (executionId runId : ℤ) (onBehalf : Option ℤ) :
    (closeRun executionId runId onBehalf).Asks (ClosingOf executionId) := by
  refine .need rfl fun current => ?_
  split
  · exact asks_stopRun _ _
  · trivial

theorem asks_grade (runId : ℤ) (stored : Except Failure Report.Report) :
    (grade cfg runId stored).Asks (SettlingOf runId) := by
  unfold grade
  split
  · exact asks_need.mpr rfl
  · trivial

theorem asks_discardAll (runId : ℤ) : (discardAll runId).Asks (SettlingOf runId) :=
  .need rfl fun _ => .need rfl fun _ => .need rfl fun _ => asks_need.mpr rfl

theorem asks_finalize_run (executionId runId : ℤ) (outcome : Taurus.Outcome)
    (onBehalf : Option ℤ) :
    (finalize cfg executionId runId outcome onBehalf).Asks (FinalisingRun executionId runId) :=
  .bind (.attempt (asks_need.mpr trivial)) fun _ => .need trivial fun _ => .need trivial fun _ =>
    .need trivial fun _ => .need rfl fun _ => .need trivial fun _ => .need rfl fun _ =>
    .bind ((asks_grade cfg _ _).mono fun _ => SettlingOf.finalisingRun) fun _ =>
    .bind ((asks_discardAll _).mono fun _ => SettlingOf.finalisingRun) fun _ =>
    .besides trivial ((asks_closeRun _ _ _).mono fun _ => ClosingOf.finalisingRun)

theorem asks_finalize (executionId runId : ℤ) (outcome : Taurus.Outcome) (onBehalf : Option ℤ) :
    (finalize cfg executionId runId outcome onBehalf).Asks (FinalisingOf executionId) :=
  (asks_finalize_run cfg _ _ _ _).mono fun _ => FinalisingRun.finalisingOf

theorem asks_finalizeStopped (executionId runId : ℤ) (onBehalf : Option ℤ) :
    (finalizeStopped cfg executionId runId onBehalf).Asks (FinalisingOf executionId) :=
  .need trivial fun _ => asks_finalize cfg _ _ _ _

theorem asks_finalizeCompleted (executionId runId : ℤ) :
    (finalizeCompleted cfg executionId runId).Asks (FinalisingOf executionId) :=
  .need trivial fun _ => asks_finalize cfg _ _ _ _

/-! ### Taking in pushes, and reconciling -/

section Recovering

variable {p : Op → Prop} (hlook : ∀ o, Looking o → p o)
include hlook

theorem asks_recordOrphan (batch : Metrics.Batch)
    (hrecord : ∀ oc, p (.recordOrphanCompletion batch.executionId oc)) :
    (recordOrphan batch).Asks p := by
  unfold recordOrphan
  split
  · exact .need (hlook _ trivial) fun _ => asks_need.mpr (hrecord _)
  · trivial

theorem asks_allShardsFinished (executionId runId : ℤ) :
    (allShardsFinished executionId runId).Asks p := by
  refine .need (hlook _ trivial) fun states => .need (hlook _ trivial) fun profile => ?_
  dsimp only
  split
  · trivial
  · exact .need (hlook _ trivial) fun _ => trivial

theorem asks_complete (batch : Metrics.Batch) (runId : ℤ)
    (hfinal : ∀ o, FinalisingRun batch.executionId runId o → p o) :
    (complete cfg batch runId).Asks p := by
  unfold complete
  split
  · refine .bind (asks_allShardsFinished hlook _ _) fun done => ?_
    split
    · exact .need (hlook _ trivial) fun _ => (asks_finalize_run cfg _ _ _ _).mono hfinal
    · trivial
  · trivial

theorem asks_reconcileEach (rows : List HistoryRow)
    (hfinal : ∀ row ∈ rows, ∀ o, FinalisingRun row.executionId row.runId o → p o) :
    (reconcileEach cfg rows).Asks p := by
  induction rows with
  | nil => trivial
  | cons row rest ih =>
      obtain ⟨hrow, hrest⟩ := List.forall_mem_cons.mp hfinal
      refine .need (hlook _ trivial) fun orphans => ?_
      split
      · exact ih hrest
      · refine .need (hlook _ trivial) fun profile => ?_
        split
        · exact ih hrest
        · exact .bind ((asks_finalize_run cfg _ _ _ _).mono hrow) fun _ =>
            .bind ((asks_stopRun _ _).mono fun o ho => hrow o ho.finalisingRun) fun _ => ih hrest

theorem asks_reconcileOne (row : HistoryRow)
    (hfinal : ∀ o, FinalisingRun row.executionId row.runId o → p o) :
    (reconcileOne cfg row).Asks p := by
  have hstop := (asks_stopRun row.executionId (some row.runId)).mono fun o ho =>
    hfinal o ho.finalisingRun
  refine .bind (.attempt (asks_need.mpr (hlook _ trivial))) fun stored => ?_
  cases stored with
  | ok report => exact hstop
  | error e =>
      cases e with
      | notFound =>
          refine .bind (.attempt (asks_need.mpr (hlook _ trivial))) fun exe => ?_
          cases exe with
          | error e => cases e <;> trivial
          | ok exe =>
              refine .need (hlook _ trivial) fun _ =>
                .bind ((asks_executionStatusAcross _ _).mono fun o ho => hlook o ho.looking)
                  fun poolSize => ?_
              split
              · trivial
              · exact .bind (.need (hlook _ trivial) fun _ =>
                  (asks_finalize_run cfg _ _ _ _).mono hfinal) fun _ => hstop
      | _ => trivial

theorem asks_reconcileAbandonedEach (after : ℤ) (rows : List HistoryRow)
    (hfinal : ∀ row ∈ rows, ∀ o, FinalisingRun row.executionId row.runId o → p o) :
    (reconcileAbandonedEach cfg after rows).Asks p := by
  induction rows with
  | nil => trivial
  | cons row rest ih =>
      obtain ⟨hrow, hrest⟩ := List.forall_mem_cons.mp hfinal
      refine .need (hlook _ trivial) fun now => ?_
      split
      · exact ih hrest
      · exact .bind (asks_reconcileOne cfg hlook row hrow) fun _ => ih hrest

end Recovering

/-! ### Tearing down -/

theorem asks_clearScenarios (executionId : ℤ) (scenarios : List LoadProfile.Entry) :
    (clearScenarios executionId scenarios).Asks (ClearingOf executionId) := by
  induction scenarios with
  | nil => trivial
  | cons e rest ih => exact .need rfl fun _ => ih

theorem asks_teardown (executionId : ℤ) (onBehalf : Option ℤ) :
    (teardown cfg executionId onBehalf).Asks (EndingOf executionId) := by
  have hfinal : ∀ o, FinalisingOf executionId o → EndingOf executionId o := fun _ =>
    FinalisingOf.endingOf
  have hstop := (asks_stopRun executionId onBehalf).mono fun o ho => hfinal o ho.finalisingOf
  refine .besides trivial (.need trivial fun scenarios =>
    .bind ((asks_clearScenarios _ _).mono fun _ => ClearingOf.endingOf) fun _ =>
    .besides rfl (.besides rfl (.bind (.attempt (asks_need.mpr rfl)) fun current => ?_)))
  split
  · exact .bind (.attempt ((asks_finalizeStopped cfg _ _ _).mono hfinal)) fun _ => hstop
  · exact hstop

theorem asks_stop (executionId : ℤ) : (stop cfg executionId).Asks (EndingOf executionId) := by
  refine .need rfl fun current => ?_
  split
  · trivial
  · exact asks_teardown cfg _ _

theorem asks_reclaim {p : Op → Prop} (needed freed : ℤ) {overrun : List Reservation}
    (h : ∀ r ∈ overrun, ∀ o, EndingOf r.executionId o → p o) :
    (reclaim cfg needed freed overrun).Asks p := by
  induction overrun generalizing freed with
  | nil => trivial
  | cons r rest ih =>
      obtain ⟨hr, hrest⟩ := List.forall_mem_cons.mp h
      rw [reclaim]
      split
      · trivial
      · exact .bind ((asks_stop cfg _).mono hr) fun _ => ih _ hrest

theorem asks_usedAfterReclaim {p : Op → Prop} (q : Request) (ceiling used : ℤ)
    {overrun : List Reservation} (hnow : p .now)
    (h : ∀ r ∈ overrun, ∀ o, EndingOf r.executionId o → p o) :
    (usedAfterReclaim cfg q ceiling used overrun).Asks p := by
  unfold usedAfterReclaim
  split
  · trivial
  · refine .need hnow fun now => ?_
    split
    · trivial
    · refine .bind (asks_reclaim cfg _ _ fun r hr => h r ?_) fun _ => trivial
      exact (List.perm_insertionSort _ _).mem_iff.mp hr

theorem asks_teardownAndCapture (executionId : ℤ) :
    (teardownAndCapture cfg executionId).Asks (EndingOf executionId) := by
  refine .need rfl fun current => ?_
  cases current with
  | some runId => exact asks_teardown cfg _ _
  | none =>
      refine .bind (.attempt (asks_need.mpr trivial)) fun last => ?_
      cases last with
      | ok last => exact asks_teardown cfg _ _
      | error e => trivial

theorem asks_purgeClusters (executionId : ℤ) (clusters : List String) :
    (purgeClusters executionId clusters).Asks (RemovingOf executionId) := by
  induction clusters with
  | nil => trivial
  | cons cluster rest ih => exact .need rfl fun _ => ih

theorem asks_purge (executionId : ℤ) : (purge cfg executionId).Asks Ending :=
  .need trivial fun _ =>
    .bind ((asks_teardownAndCapture cfg _).mono fun _ => EndingOf.ending) fun _ =>
    (asks_purgeClusters _ _).mono fun o ho => by cases o <;> first | exact ho.elim | trivial

theorem asks_reapIfIdle (executionId : ℤ) (cluster : String) (deployedAt now ttl : ℤ) :
    (reapIfIdle cfg executionId cluster deployedAt now ttl).Asks Ending := by
  refine .need trivial fun last => ?_
  split
  · trivial
  · refine .need trivial fun current => ?_
    split
    · trivial
    · refine .need trivial fun calibrating => ?_
      split
      · trivial
      · exact .bind ((asks_teardownAndCapture cfg _).mono fun _ => EndingOf.ending) fun _ =>
          .need trivial fun _ => .need trivial fun _ => trivial

theorem asks_reapEach (cluster : String) (now ttl : ℤ) (deployed : List (ℤ × ℤ)) (acc : Reaping) :
    (reapEach cfg cluster now ttl deployed acc).Asks Ending := by
  induction deployed generalizing acc with
  | nil => trivial
  | cons x rest ih =>
      rw [reapEach]
      split
      · exact ih _
      · refine .bind (.attempt (asks_reapIfIdle cfg _ _ _ _ _)) fun reaped => ?_
        cases reaped with
        | ok _ => exact ih _
        | error e => exact ih _

theorem asks_reapClusters (now ttl : ℤ) (clusters : List String) (acc : Reaping) :
    (reapClusters cfg now ttl clusters acc).Asks Ending := by
  induction clusters generalizing acc with
  | nil => trivial
  | cons cluster rest ih =>
      refine .bind (.attempt (asks_need.mpr trivial)) fun deployed => ?_
      cases deployed with
      | error e => trivial
      | ok deployed => exact .bind (asks_reapEach cfg _ _ _ _ _) fun _ => ih _

theorem asks_reapIdle (ttl : ℤ) (clusters : List String) :
    (reapIdle cfg ttl clusters).Asks Ending := by
  unfold reapIdle
  split
  · trivial
  · exact .need trivial fun _ => asks_reapClusters cfg _ _ _ _

/-! ### Deploying -/

theorem asks_deployAll (executionId : ℤ) (clusters : List String)
    (scenarios : List LoadProfile.Entry) :
    (deployAll executionId clusters scenarios).Asks (ProvidingFor executionId) := by
  have hscenarios : ∀ scenarioId,
      (deployScenarios executionId clusters scenarioId).Asks (ProvidingFor executionId) := by
    intro scenarioId
    induction clusters with
    | nil => trivial
    | cons cluster rest ih => exact .need rfl fun _ => ih
  induction scenarios with
  | nil => trivial
  | cons e rest ih => exact .bind (hscenarios _) fun _ => ih

theorem asks_deploy (executionId : ℤ) : (deploy executionId).Asks (ProvidingFor executionId) := by
  refine .need trivial fun exe => .need trivial fun scenarios => ?_
  split
  · trivial
  · refine .need trivial fun current => ?_
    split
    · trivial
    · exact .need trivial fun _ => .need rfl fun _ => .need rfl fun _ => .need rfl fun _ =>
        asks_deployAll _ _ _

/-! ### Opening a run -/

theorem asks_markScenarios (executionId : ℤ) (scenarios : List LoadProfile.Entry) :
    (markScenarios executionId scenarios).Asks (MarkingOf executionId) := by
  induction scenarios with
  | nil => trivial
  | cons e rest ih =>
      exact .bind (.attempt (asks_need.mpr rfl)) fun _ => .bind ih fun _ => trivial

theorem asks_rollBack (executionId : ℤ) (exe : SizedExecution) (failed : List ℤ) :
    (rollBack executionId exe failed).Asks Opening := by
  unfold rollBack
  split
  · refine .bind (.attempt (.need trivial fun current => ?_)) fun _ => trivial
    cases current with
    | none => trivial
    | some runId => exact .need trivial fun _ => asks_need.mpr trivial
  · trivial

theorem asks_recordLaunch (executionId : ℤ) (exe : SizedExecution) :
    (recordLaunch executionId exe).Asks Accounting := by
  refine .bind (.attempt (asks_need.mpr trivial)) fun owner => ?_
  cases owner with
  | ok owner => exact asks_besides.mpr trivial
  | error e => trivial

theorem asks_openRun (executionId : ℤ) (exe : SizedExecution) :
    (openRun executionId exe).Asks Opening := by
  refine .need trivial fun correlationId =>
    .bind (.need trivial fun runId => .need trivial fun _ => trivial) fun _ =>
    .besides trivial (.bind ((asks_markScenarios _ _).mono fun _ => MarkingOf.opening) fun failed =>
    .bind (asks_rollBack _ _ _) fun _ => ?_)
  split
  · exact (asks_recordLaunch _ _).mono fun _ => Accounting.opening
  · trivial

end Honryu.Control
