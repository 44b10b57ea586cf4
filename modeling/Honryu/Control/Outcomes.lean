import Honryu.Control.Markers
import Honryu.Taurus.RollUp

/-!
Which outcome a run has in the end.

A run may be finalised by several calls at once: by the push that completes it, by one who ends it,
and by one who finds that its engines finished without it. The first report that is saved is kept.
Its outcome is what the exit codes come to that this call has read, whatever the others have read.
-/

namespace Honryu.Control

open Call Lifecycle Metrics Progress Quota Taurus
open Report (Report)

variable {p : Precision} (cfg : Config)

/-! ### What a call has seen -/

/-- What is noted of a call: as whom it finalises runs, and what it has read last of the shards of
a run and of the completions that an execution had without a run. It is `lost` once it has been
given another execution than the one it has asked for. -/
structure Seen where
  finaliser : Finaliser
  shards : ℤ → List ShardState
  orphans : ℤ → List OrphanCompletion
  lost : Bool

namespace Seen

def nothing (finaliser : Finaliser) : Seen :=
  { finaliser, shards := fun _ => [], orphans := fun _ => [], lost := false }

def learn : (o : Op) → Except Failure (Answer o) → Seen → Seen
  | .shardStates runId, .ok states, g => { g with shards := Function.update g.shards runId states }
  | .orphanCompletions e, .ok orphans, g => { g with orphans := Function.update g.orphans e orphans }
  | .getExecution e, .ok exe, g => if exe.executionId = e then g else { g with lost := true }
  | _, _, g => g

/-- The exit codes that the call has seen, of a run of an execution. A shard that has not finished
has no exit code. One whose run has completed is expected to have one. -/
def codes (g : Seen) (executionId runId : ℤ) : List (Option ℤ) :=
  match g.finaliser with
  | .completed => (g.shards runId).map (·.exitCode)
  | .stopped => ((g.shards runId).filter (·.finished)).map (·.exitCode)
  | .orphaned => (g.orphans executionId).map (·.exitCode)

def Supports (g : Seen) (executionId runId : ℤ) (outcome : Outcome) : Prop :=
  outcome = g.finaliser.rollUp (g.codes executionId runId).toFinset

def Allowed (g : Seen) : Op → Prop
  | .saveReport report _ => g.Supports report.executionId report.runId report.outcome
  | _ => True

end Seen

def outcomeConduct : Conduct Answer Failure Seen where
  lost := Seen.lost
  allowed := Seen.Allowed
  learn o r g := g.learn o r

/-! ### The calls go by what they have seen -/

def Unsaving : Op → Prop
  | .saveReport _ _ => False
  | _ => True

section Follows

variable {α β : Type} {f : Finaliser} {g : Seen} {executionId runId : ℤ}

theorem finaliser_learn (o : Op) (r : Except Failure (Answer o)) (g : Seen) :
    (g.learn o r).finaliser = g.finaliser := by
  unfold Seen.learn
  split
  · rfl
  · rfl
  · split <;> rfl
  · rfl

def GoesOn (f : Finaliser) (c : Proc α) : Prop := outcomeConduct.Keeps (·.finaliser = f) c

theorem goesOn_ret (a : α) : GoesOn f (.ret a) := Conduct.keeps_ret a

theorem goesOn_fail (e : Failure) : GoesOn f (.fail e : Proc α) := Conduct.keeps_fail e

theorem GoesOn.bind {c : Proc α} {d : α → Proc β} (hc : GoesOn f c) (hd : ∀ a, GoesOn f (d a)) :
    GoesOn f (c >>= d) := Conduct.Keeps.bind hc hd

theorem GoesOn.attempt_bind {c : Proc α} {d : Except Failure α → Proc β} (hc : GoesOn f c)
    (hd : ∀ r, GoesOn f (d r)) : GoesOn f (c.attempt >>= d) := Conduct.Keeps.attempt_bind hc hd

theorem goesOn_of_asks {c : Proc α} (hc : c.Asks Unsaving) : GoesOn f c := by
  refine Conduct.Keeps.of_asks hc fun o g ho hg => ⟨?_, fun r => .inr ?_⟩
  · cases o <;> first | exact ho.elim | trivial
  · exact (finaliser_learn o r g).trans hg

theorem GoesOn.query {o : Op} {c : Answer o → Proc α} (ho : Unsaving o) (hc : ∀ a, GoesOn f (c a)) :
    GoesOn f (Control.query o >>= c) :=
  .bind (goesOn_of_asks (asks_need.mpr ho)) hc

theorem GoesOn.besides {o : Op} {c : Unit → Proc α} (ho : Unsaving o) (hc : GoesOn f (c ())) :
    GoesOn f (bestEffort o >>= c) :=
  .bind (goesOn_of_asks (asks_besides.mpr ho)) fun _ => hc

theorem GoesOn.tried {o : Op} {c : Except Failure (Answer o) → Proc α} (ho : Unsaving o)
    (hc : ∀ r, GoesOn f (c r)) : GoesOn f (Call.attempt (Control.query o) >>= c) :=
  .attempt_bind (goesOn_of_asks (asks_need.mpr ho)) hc

theorem SettlingOf.unsaving {runId : ℤ} {o : Op} (h : SettlingOf runId o) : Unsaving o := by
  cases o <;> first | exact h.elim | trivial

theorem ClearingOf.unsaving {o : Op} (h : ClearingOf executionId o) : Unsaving o := by
  cases o <;> first | exact h.elim | trivial

theorem ClosingOf.unsaving {o : Op} (h : ClosingOf executionId o) : Unsaving o := by
  cases o <;> first | exact h.elim | trivial

theorem Looking.unsaving {o : Op} (h : Looking o) : Unsaving o := by
  cases o <;> first | exact h.elim | trivial

theorem goesOn_stopRun (onBehalf : Option ℤ) : GoesOn f (stopRun executionId onBehalf) :=
  goesOn_of_asks ((asks_stopRun _ _).mono fun _ => ClosingOf.unsaving)

def Unseeing : Op → Prop
  | .saveReport _ _ | .shardStates _ | .orphanCompletions _ | .getExecution _ => False
  | _ => True

theorem follows_unseeing {o : Op} {next : Except Failure (Answer o) → Proc α}
    {done : Except Failure α → Seen → Prop} (ho : Unseeing o)
    (hnext : ∀ r, outcomeConduct.Follows (next r) g done) :
    outcomeConduct.Follows (.ask o next) g done := by
  have hsame : ∀ r, g.learn o r = g := by
    intro r
    cases o <;> first | exact ho.elim | rfl
  refine .aside ?_ hsame hnext
  cases o <;> first | exact ho.elim | trivial

theorem follows_unseeing_need {o : Op} {c : Answer o → Proc α} (ho : Unseeing o)
    (hg : g.finaliser = f)
    (hc : ∀ a, outcomeConduct.Follows (c a) g fun _ g' => g'.finaliser = f) :
    outcomeConduct.Follows (Control.query o >>= c) g fun _ g' => g'.finaliser = f := by
  refine follows_unseeing ho fun r => ?_
  cases r with
  | ok a => exact hc a
  | error e => exact .inr hg

/-- A run is finalised with an outcome that what was seen comes to. -/
theorem follows_finalize {outcome : Outcome} (onBehalf : Option ℤ) (hg : g.finaliser = f)
    (hsupports : g.Supports executionId runId outcome) :
    outcomeConduct.Follows (finalize cfg executionId runId outcome onBehalf) g
      fun _ g' => g'.finaliser = f := by
  have hafter : ∀ stored, GoesOn f (grade cfg runId stored >>= fun _ => discardAll runId >>= fun _ =>
      bestEffort (.touchActivity executionId) >>= fun _ => closeRun executionId runId onBehalf) :=
    fun stored =>
      .bind (goesOn_of_asks ((asks_grade cfg _ _).mono fun _ => SettlingOf.unsaving)) fun _ =>
      .bind (goesOn_of_asks ((asks_discardAll _).mono fun _ => SettlingOf.unsaving)) fun _ =>
      .besides trivial (goesOn_of_asks ((asks_closeRun _ _ _).mono fun _ => ClosingOf.unsaving))
  have hstored : outcomeConduct.Follows (Control.query (.getReport runId)) g fun _ g' => g' = g :=
    follows_unseeing trivial fun r => by cases r <;> exact .inr rfl
  refine hstored.attempt_bind fun stored g' hsame => ?_
  subst hsame
  refine follows_unseeing_need trivial hg fun snapshot =>
    follows_unseeing_need trivial hg fun profile =>
    follows_unseeing_need trivial hg fun history => .need trivial (fun exe => ?_) fun _ => .inr hg
  by_cases hexe : exe.executionId = executionId
  · have hsame : outcomeConduct.learn (.getExecution executionId) (.ok exe) g' = g' := if_pos hexe
    rw [hsame]
    refine follows_unseeing_need trivial hg fun endedAt =>
      .need ?_ (fun _ => hafter stored g' hg) fun _ => .inr hg
    change g'.Supports exe.executionId runId outcome
    rwa [hexe]
  · exact .of_lost (by simp [outcomeConduct, Seen.learn, hexe])

theorem goesOn_finalizeStopped (onBehalf : Option ℤ) :
    GoesOn .stopped (finalizeStopped cfg executionId runId onBehalf) := by
  intro g hg
  refine .need trivial (fun states => follows_finalize cfg onBehalf hg ?_) fun _ => .inr hg
  have hcodes : ((g.learn (.shardStates runId) (.ok states)).codes executionId runId) =
      (states.filter (·.finished)).map (·.exitCode) := by
    simp [Seen.codes, Seen.learn, hg]
  have hknown : (states.filter (·.finished)).filterMap (·.exitCode) =
      ((states.filter (·.finished)).map (·.exitCode)).filterMap id := by
    rw [List.filterMap_map, Function.id_comp]
  change stopOutcome states = (g.learn (.shardStates runId) (.ok states)).finaliser.rollUp
    ((g.learn (.shardStates runId) (.ok states)).codes executionId runId).toFinset
  rw [hcodes, stopOutcome, hknown, worstOutcome_stopped, finaliser_learn, hg]

theorem goesOn_finalizeCompleted : GoesOn .completed (finalizeCompleted cfg executionId runId) := by
  intro g hg
  refine .need trivial (fun states => follows_finalize cfg (some runId) hg ?_) fun _ => .inr hg
  have hcodes : ((g.learn (.shardStates runId) (.ok states)).codes executionId runId) =
      states.map (·.exitCode) := by
    simp [Seen.codes, Seen.learn, hg]
  have hmap : states.map (·.exitCode.getD (-1)) = (states.map (·.exitCode)).map (·.getD (-1)) := by
    rw [List.map_map]
    rfl
  change combineOutcomes _ = (g.learn (.shardStates runId) (.ok states)).finaliser.rollUp
    ((g.learn (.shardStates runId) (.ok states)).codes executionId runId).toFinset
  rw [hcodes, hmap, combineOutcomes_eq, finaliser_learn, hg]

/-- One who has read the completions that an execution had without a run. -/
theorem follows_finalizeOrphaned {orphans : List OrphanCompletion} (hg : g.finaliser = .orphaned)
    (horphans : g.orphans executionId = orphans) :
    outcomeConduct.Follows (finalizeOrphaned cfg executionId runId orphans) g
      fun _ g' => g'.finaliser = .orphaned := by
  refine follows_finalize cfg (some runId) hg ?_
  have hmap : (orphans.map fun oc => outcomeFromExitCode (oc.exitCode.getD (-1))) =
      (orphans.map (·.exitCode)).map fun code => outcomeFromExitCode (code.getD (-1)) := by
    rw [List.map_map]
    rfl
  rw [Seen.Supports, hmap, worstOutcome_orphaned, hg, Seen.codes, hg, horphans]

/-! ### Ending a run -/

theorem goesOn_teardown (onBehalf : Option ℤ) : GoesOn .stopped (teardown cfg executionId onBehalf) := by
  refine .besides trivial (.query trivial fun scenarios =>
    .bind (goesOn_of_asks ((asks_clearScenarios _ _).mono fun _ => ClearingOf.unsaving)) fun _ =>
    .besides trivial (.besides trivial (.tried trivial fun current => ?_)))
  split
  · exact .attempt_bind (goesOn_finalizeStopped cfg onBehalf) fun _ => goesOn_stopRun onBehalf
  · exact goesOn_stopRun onBehalf

theorem goesOn_stop : GoesOn .stopped (stop cfg executionId) := by
  refine .query trivial fun current => ?_
  split
  · exact goesOn_fail _
  · exact goesOn_teardown cfg current

theorem goesOn_teardownAndCapture : GoesOn .stopped (teardownAndCapture cfg executionId) := by
  refine .query trivial fun current => ?_
  cases current with
  | some runId => exact goesOn_teardown cfg _
  | none =>
      refine .tried trivial fun last => ?_
      cases last with
      | ok last => exact goesOn_teardown cfg _
      | error e => exact goesOn_ret ()

theorem goesOn_purge : GoesOn .stopped (purge cfg executionId) :=
  .query trivial fun exe => .bind (goesOn_teardownAndCapture cfg) fun _ =>
    goesOn_of_asks ((asks_purgeClusters _ _).mono fun o ho => by
      cases o <;> first | exact ho.elim | trivial)

/-! ### Reconciling -/

theorem goesOn_reconcileEach (rows : List HistoryRow) : GoesOn .orphaned (reconcileEach cfg rows) := by
  induction rows with
  | nil => exact goesOn_ret ()
  | cons row rest ih =>
      intro g hg
      refine .need trivial (fun orphans => ?_) fun _ => .inr hg
      have hg' : (g.learn (.orphanCompletions row.executionId) (.ok orphans)).finaliser = .orphaned :=
        hg
      split
      · exact ih _ hg'
      · refine follows_unseeing_need trivial hg' fun profile => ?_
        split
        · exact ih _ hg'
        · have hread : (g.learn (.orphanCompletions row.executionId) (.ok orphans)).orphans
              row.executionId = orphans := Function.update_self ..
          exact (follows_finalizeOrphaned cfg hg' hread).bind
            (fun _ g₁ h₁ => ((goesOn_stopRun _).bind fun _ => ih) g₁ h₁) fun _ _ h => h

theorem goesOn_reconcileOne (row : HistoryRow) : GoesOn .stopped (reconcileOne cfg row) := by
  refine .tried trivial fun stored => ?_
  cases stored with
  | ok report => exact goesOn_stopRun _
  | error e =>
      cases e with
      | notFound =>
          refine .tried trivial fun exe => ?_
          cases exe with
          | error e => cases e <;> exact fun _ h => .inr h
          | ok exe =>
              have hstatus : (executionStatusAcross row.executionId exe.clusters).Asks Unsaving :=
                (asks_executionStatusAcross _ _).mono fun _ ho => ho.looking.unsaving
              refine .query trivial fun _ => .bind (goesOn_of_asks hstatus) fun poolSize => ?_
              split
              · exact goesOn_ret ()
              · exact .bind (goesOn_finalizeStopped cfg _) fun _ => goesOn_stopRun _
      | _ => exact goesOn_fail _

theorem goesOn_reconcileAbandoned (after : ℤ) :
    GoesOn .stopped (reconcileAbandoned cfg after) := by
  have heach : ∀ rows, GoesOn .stopped (reconcileAbandonedEach cfg after rows) := by
    intro rows
    induction rows with
    | nil => exact goesOn_ret ()
    | cons row rest ih =>
        refine .query trivial fun now => ?_
        split
        · exact ih
        · exact .bind (goesOn_reconcileOne cfg row) fun _ => ih
  unfold reconcileAbandoned
  split
  · exact goesOn_ret ()
  · exact .query trivial fun rows => heach rows

/-! ### Taking in a push, and opening a run -/

theorem goesOn_ingest (batch : Batch) : GoesOn .completed (ingest cfg batch) := by
  refine .query trivial fun current => ?_
  cases current with
  | none =>
      refine .bind (goesOn_of_asks ?_) fun _ => goesOn_fail _
      unfold recordOrphan
      split
      · exact .need trivial fun _ => asks_need.mpr trivial
      · trivial
  | some runId =>
      dsimp only
      split
      · exact goesOn_fail _
      · refine .query trivial fun _ => ?_
        unfold complete
        split
        · refine .bind (goesOn_of_asks ?_) fun done => ?_
          · refine .need trivial fun states => .need trivial fun profile => ?_
            dsimp only
            split
            · trivial
            · exact .need trivial fun _ => trivial
          · split
            · exact goesOn_finalizeCompleted cfg
            · exact goesOn_ret ()
        · exact goesOn_ret ()

theorem goesOn_reclaim (needed freed : ℤ) (overrun : List Reservation) :
    GoesOn .stopped (reclaim cfg needed freed overrun) := by
  induction overrun generalizing freed with
  | nil => exact goesOn_ret _
  | cons r rest ih =>
      rw [reclaim]
      split
      · exact goesOn_ret _
      · exact .bind (goesOn_stop cfg) fun _ => ih _

theorem goesOn_reserve (r : Reservation) : GoesOn .stopped (reserve cfg r) := by
  unfold reserve
  split
  · exact goesOn_fail _
  · refine .query trivial fun _ => .attempt_bind (.query trivial fun quota =>
      .bind (goesOn_of_asks ((asks_usedCapacity _).mono fun _ => Looking.unsaving)) fun x =>
      .bind ?_ fun used => ?_) fun result => .besides trivial ?_
    · unfold usedAfterReclaim
      split
      · exact goesOn_ret _
      · refine .query trivial fun now => ?_
        split
        · exact goesOn_ret _
        · exact .bind (goesOn_reclaim cfg _ _ _) fun _ => goesOn_ret _
    · split
      · exact goesOn_fail _
      · exact .query trivial fun _ => goesOn_ret _
    · exact goesOn_of_asks (asks_ofResult result)

theorem goesOn_reserveRun (exe : SizedExecution) :
    GoesOn .stopped (reserveRun cfg executionId exe) := by
  have hall : ∀ requests, GoesOn .stopped (reserveAll cfg executionId requests) := by
    intro requests
    induction requests with
    | nil => exact goesOn_ret ()
    | cons r rest ih =>
        refine .attempt_bind (goesOn_reserve cfg r) fun result => ?_
        cases result with
        | ok x => exact ih
        | error e => exact .besides trivial (goesOn_fail e)
  unfold reserveRun
  split
  · exact goesOn_ret ()
  · refine .query trivial fun start => ?_
    unfold reserveSized
    split
    · exact goesOn_fail _
    · exact hall _

theorem goesOn_trigger : GoesOn .stopped (trigger cfg executionId) := by
  refine .bind (goesOn_of_asks ((asks_triggerChecks _).mono fun _ => Looking.unsaving)) fun exe =>
    .bind (goesOn_reserveRun cfg exe) fun _ => goesOn_of_asks ((asks_openRun _ _).mono fun o ho => ?_)
  cases o <;> first | exact ho.elim | trivial

theorem goesOn_deploy : GoesOn .stopped (deploy executionId) := by
  refine goesOn_of_asks ((asks_deploy _).mono fun o ho => ?_)
  cases o <;> first | exact ho.elim | trivial

end Follows

/-! ### Finalising side by side -/

/-- As whom a call finalises runs. One who triggers a run may have to end others. -/
def RunCall.finaliser : RunCall → Finaliser
  | .ingest _ => .completed
  | .reconcile => .orphaned
  | _ => .stopped

theorem goesOn_runCall (call : RunCall) : GoesOn call.finaliser (call.body cfg) := by
  cases call with
  | ingest batch => exact goesOn_ingest cfg batch
  | stop executionId => exact goesOn_stop cfg
  | purge executionId => exact goesOn_purge cfg
  | reconcile => exact .query trivial fun rows => goesOn_reconcileEach cfg rows
  | reconcileAbandoned after => exact goesOn_reconcileAbandoned cfg after
  | deploy executionId => exact goesOn_deploy
  | trigger executionId => exact goesOn_trigger cfg

def finalisers : Traffic Answer Failure Unit (Store p) View RunCall Seen ℕ where
  server := server cfg
  body := RunCall.body cfg
  blank := .nothing .stopped
  opening call := .nothing call.finaliser
  note := outcomeConduct.note
  outside d s := s.elapse d

/-- The outcome of a report is what the exit codes come to that a call has seen, whatever order they
are in. It is not passed unless the run has completed and every shard has exited with zero, and it
is as severe as each of the codes. -/
structure Evidenced (g : Seen) (report : Report) : Prop where
  rolledUp : report.outcome =
    g.finaliser.rollUp (g.codes report.executionId report.runId).toFinset
  passed : report.outcome = .passed →
    g.finaliser = .completed ∧ ∀ code ∈ g.codes report.executionId report.runId, code = some 0
  severe : ∀ code ∈ g.codes report.executionId report.runId,
    g.finaliser.weight code ≤ report.outcome.severity

/-- A report that is stored stays, and one that was not there before goes by what the call has seen
that saves it. -/
def FirstEvidence (q : Pool Answer Failure Unit (Store p) Seen) (t : Turn View RunCall ℕ) : Prop :=
  ∀ runId report,
    (q.state.reports runId = some report →
      ((finalisers cfg).step q t).state.reports runId = some report) ∧
    (q.state.reports runId = none →
      ((finalisers cfg).step q t).state.reports runId = some report →
        report.runId = runId ∧ ∃ i, t.caller = some i ∧ Evidenced (q.notes i) report)

theorem Seen.Supports.evidenced {g : Seen} {report : Report}
    (h : g.Supports report.executionId report.runId report.outcome) : Evidenced g report := by
  refine ⟨h, fun hpassed => ?_, fun code hcode => ?_⟩
  · obtain ⟨hcompleted, hzero⟩ := of_rollUp_eq_passed (h.symm.trans hpassed)
    exact ⟨hcompleted, fun code hcode => hzero code (List.mem_toFinset.mpr hcode)⟩
  · rw [h]
    exact weight_le_severity_rollUp (List.mem_toFinset.mpr hcode)

section Run

variable {cfg} {s : Store p} {g : Seen}

theorem lost_learn_reply (view : View) (o : Op) (h : g.lost = false) :
    (g.learn o (reply cfg view s o)).lost = false := by
  cases o with
  | getExecution e =>
      simp only [reply]
      cases hexe : cfg.execution e with
      | none => exact h
      | some exe =>
          have hid : exe.executionId = e := cfg.execution_id e exe hexe
          simpa [found, Seen.learn, hid] using h
  | _ =>
      unfold Seen.learn
      split
      · exact h
      · exact h
      · split <;> simp_all
      · exact h

theorem learn_error (o : Op) (e : Failure) : g.learn o (.error e) = g := by
  cases o <;> rfl

def NoneLost (notes : ℕ → Seen) : Prop := ∀ i, (notes i).lost = false

theorem NoneLost.update {notes : ℕ → Seen} (h : NoneLost notes) {i : ℕ} (hg : g.lost = false) :
    NoneLost (Function.update notes i g) :=
  (Function.forall_update_iff notes fun _ g => g.lost = false).mpr ⟨hg, fun j _ => h j⟩

theorem preserves_noneLost :
    (finalisers (p := p) cfg).Preserves outcomeConduct.rule
      (fun g => outcomeConduct.lost g = true ∨ True) (fun _ _ => True) (fun _ => NoneLost) where
  body call := (goesOn_runCall cfg call _ rfl).mono fun _ _ _ => trivial
  opening q i call h _ _ := h.update rfl
  closing s notes i h _ := h.update rfl
  performed q i o view fails h _ _ _ _ := by
    have hnote : (finalisers (p := p) cfg).note o (reply cfg view q.state o) (q.notes i) =
        (q.notes i).learn o (reply cfg view q.state o) := Conduct.note_of_not_lost (h i) o _
    exact h.update ((congrArg Seen.lost hnote).trans (lost_learn_reply view o (h i)))
  failed q i o view e h _ _ _ _ := by
    have hnote : (finalisers (p := p) cfg).note o (.error e) (q.notes i) = q.notes i :=
      (Conduct.note_of_not_lost (h i) o _).trans (learn_error o e)
    exact h.update ((congrArg Seen.lost hnote).trans (h i))
  outside q d h _ := h

end Run

theorem firstEvidence_of_same {q : Pool Answer Failure Unit (Store p) Seen} {t : Turn View RunCall ℕ}
    (h : ((finalisers cfg).step q t).state.reports = q.state.reports) : FirstEvidence cfg q t := by
  intro runId report
  rw [h]
  exact ⟨id, fun hnone hsome => nomatch hnone.symm.trans hsome⟩

theorem firstEvidence_saveReport {q : Pool Answer Failure Unit (Store p) Seen} {i : ℕ} {view : View}
    {fails : Bool} {report : Report} (onBehalf : Option ℤ)
    (h : ((finalisers cfg).step q (.go i view fails)).state =
      effect cfg q.state (.saveReport report onBehalf))
    (hallowed : (q.notes i).Supports report.executionId report.runId report.outcome) :
    FirstEvidence cfg q (.go i view fails) := by
  cases hthere : q.state.reports report.runId with
  | some old => exact firstEvidence_of_same cfg (by rw [h]; simp [effect, hthere])
  | none =>
      have hreports : ((finalisers cfg).step q (.go i view fails)).state.reports =
          Function.update q.state.reports report.runId (some report) := by
        rw [h]
        simp [effect, hthere]
      intro runId report'
      rw [hreports]
      by_cases hrun : runId = report.runId
      · rw [hrun, Function.update_self]
        refine ⟨fun hold => absurd (hthere.symm.trans hold) (by simp), fun _ hnew => ?_⟩
        cases hnew
        exact ⟨rfl, i, rfl, hallowed.evidenced⟩
      · rw [Function.update_of_ne hrun]
        exact ⟨id, fun hnone hsome => absurd (hnone.symm.trans hsome) (by simp)⟩

/-- However the calls interleave that finalise a run, the report that is stored first is kept, and
its outcome is what the exit codes come to that the call has seen which has stored it. -/
theorem firstEvidence_run (s : Store p) (turns : List (Turn View RunCall ℕ)) :
    (finalisers cfg).Along (FirstEvidence cfg) ((finalisers cfg).quiet s) turns := by
  refine preserves_noneLost.along (fun q t htidy hlost _ => ?_) (fun _ => rfl)
    (Traffic.along_of_forall _ (fun _ _ => trivial) _ _)
  cases t with
  | start i call => exact firstEvidence_of_same cfg (by rw [Traffic.state_step_start])
  | outside d => exact firstEvidence_of_same cfg rfl
  | go i view fails =>
      cases hasks : Traffic.asks q i with
      | none => exact firstEvidence_of_same cfg (by rw [Traffic.step_go_of_not_asking hasks])
      | some o =>
          have hallowed : (q.notes i).Allowed o :=
            Conduct.rule.allowed (htidy.rule_of_asks hasks) (hlost i)
          have hstate : ((finalisers cfg).step q (.go i view fails)).state =
              ((server cfg).answer view fails o q.state).2 := Traffic.state_step_go hasks
          rcases (server cfg).answer_cases view fails o q.state with ⟨-, heq⟩ | ⟨-, e, -, heq⟩
          · rw [heq] at hstate
            cases o with
            | saveReport report onBehalf => exact firstEvidence_saveReport cfg onBehalf hstate hallowed
            | _ => exact firstEvidence_of_same cfg (by rw [hstate]; rfl)
          · exact firstEvidence_of_same cfg (by rw [hstate, heq])

end Honryu.Control
