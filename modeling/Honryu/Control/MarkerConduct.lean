import Honryu.Control.Questions
import Honryu.Lib.Conduct

/-!
How runs are closed.

Whoever closes a run has read the marker of its execution, or has found it among the open
runs, and goes by that from then on. What it does after that it does on behalf of this run.
-/

namespace Honryu.Control

open Call Lifecycle Metrics Quota

variable (cfg : Config)

/-! ### What is known of a call -/

/-- What is noted of a call: the markers it has read to close a run, as they were. It is
`lost` once it has found another run where it went by one of them. -/
structure Watching where
  watched : List (ℤ × Option ℤ)
  lost : Bool

namespace Watching

def fresh : Watching := { watched := [], lost := false }

def Unexpected (g : Watching) (executionId runId : ℤ) : Prop :=
  ∃ w ∈ g.watched, w.1 = executionId ∧ w.2 ≠ some runId

instance (g : Watching) (executionId runId : ℤ) : Decidable (g.Unexpected executionId runId) :=
  inferInstanceAs (Decidable (∃ w ∈ g.watched, _))

def learn : (o : Op) → Except Failure (Answer o) → Watching → Watching
  | .currentRun e .toClose, .ok current, g => { g with watched := (e, current) :: g.watched }
  | .currentRun e .toKnow, .ok (some runId), g =>
      if g.Unexpected e runId then { g with lost := true } else g
  | .openRuns, .ok rows, g =>
      { g with watched := rows.map (fun h => (h.executionId, some h.runId)) ++ g.watched }
  | _, _, g => g

/-- A marker is deleted on behalf of a run that it was seen to name. A report is written on
behalf of the run it is of. -/
def Allowed (g : Watching) : Op → Prop
  | .deleteRun e (some runId) => (e, some runId) ∈ g.watched
  | .saveReport report (some runId) => report.runId = runId
  | _ => True

def Extends (g g' : Watching) : Prop := ∀ w ∈ g.watched, w ∈ g'.watched

theorem Extends.refl (g : Watching) : g.Extends g := fun _ => id

theorem Extends.trans {g g' g'' : Watching} (h : g.Extends g') (h' : g'.Extends g'') :
    g.Extends g'' := fun w hw => h' w (h w hw)

theorem extends_learn (o : Op) (r : Except Failure (Answer o)) (g : Watching) :
    g.Extends (g.learn o r) := by
  unfold learn
  split
  · exact fun _ => List.mem_cons_of_mem _
  · split <;> exact .refl g
  · exact fun _ => List.mem_append_right _
  · exact .refl g

/-- The call may act on behalf of a run: it goes by it, or goes by there being none. -/
def Licensed (g : Watching) (executionId : ℤ) (onBehalf : Option ℤ) : Prop :=
  ∀ runId, onBehalf = some runId →
    (executionId, some runId) ∈ g.watched ∨ (executionId, none) ∈ g.watched

theorem Licensed.mono {g g' : Watching} {executionId : ℤ} {onBehalf : Option ℤ}
    (h : g.Licensed executionId onBehalf) (hg : g.Extends g') : g'.Licensed executionId onBehalf :=
  fun runId hrun => (h runId hrun).imp (hg _) (hg _)

/-- If what it finds is not unexpected, it is the run it acts on behalf of. -/
theorem Licensed.eq {g : Watching} {executionId runId runId' : ℤ}
    (h : g.Licensed executionId (some runId)) (hfound : ¬g.Unexpected executionId runId') :
    runId = runId' ∧ (executionId, some runId) ∈ g.watched := by
  rcases h runId rfl with hmem | hmem
  · refine ⟨?_, hmem⟩
    by_contra hne
    exact hfound ⟨_, hmem, rfl, fun heq => hne (Option.some_inj.mp heq)⟩
  · exact absurd ⟨_, hmem, rfl, nofun⟩ hfound

end Watching

def watchConduct : Conduct Answer Failure Watching where
  lost := Watching.lost
  allowed := Watching.Allowed
  learn o r g := g.learn o r

def Minds {α : Type} (c : Proc α) (g : Watching) : Prop :=
  watchConduct.Follows c g fun _ g' => g.Extends g'

section Minds

variable {α β : Type} {g : Watching}

theorem Minds.of_lost {c : Proc α} (h : g.lost = true) : Minds c g := Conduct.Follows.of_lost h

theorem Minds.bind {c : Proc α} {f : α → Proc β} (hc : Minds c g)
    (hf : ∀ a g', g.Extends g' → Minds (f a) g') : Minds (c >>= f) g :=
  Conduct.Follows.bind hc (fun a g' h => (hf a g' h).mono fun _ _ => h.trans) fun _ _ h => h

theorem Minds.attempt_bind {c : Proc α} {f : Except Failure α → Proc β} (hc : Minds c g)
    (hf : ∀ r g', g.Extends g' → Minds (f r) g') : Minds (c.attempt >>= f) g :=
  Conduct.Follows.attempt_bind hc fun r g' h => (hf r g' h).mono fun _ _ => h.trans

theorem Minds.ask {o : Op} {next : Except Failure (Answer o) → Proc β} (ho : g.Allowed o)
    (hnext : ∀ r, Minds (next r) (g.learn o r)) : Minds (.ask o next) g :=
  Conduct.Follows.ask ho fun r => (hnext r).mono fun _ _ =>
    (Watching.extends_learn o r g).trans

theorem minds_ret (a : α) : Minds (.ret a : Proc α) g := .inr (.refl g)

theorem minds_fail (e : Failure) : Minds (.fail e : Proc α) g := .inr (.refl g)

theorem Minds.need {o : Op} {f : Answer o → Proc β} (ho : g.Allowed o)
    (hf : ∀ a, Minds (f a) (g.learn o (.ok a))) : Minds (query o >>= f) g := by
  refine .ask ho fun r => ?_
  cases r with
  | ok a => exact hf a
  | error e => exact minds_fail e

def Unwatched : Op → Prop
  | .currentRun _ .toClose | .openRuns | .deleteRun _ (some _) | .saveReport _ (some _) => False
  | _ => True

theorem Unwatched.same {o : Op} (h : Unwatched o) (g : Watching) :
    g.Allowed o ∧ ∀ r, (g.learn o r).lost = true ∨ g.learn o r = g := by
  cases o with
  | currentRun e reading =>
      cases reading with
      | toClose => exact h.elim
      | toKnow =>
          refine ⟨trivial, fun r => ?_⟩
          rcases r with _ | (_ | runId)
          · exact .inr rfl
          · exact .inr rfl
          · by_cases hfound : g.Unexpected e runId
            · exact .inl (by simp [Watching.learn, hfound])
            · exact .inr (by simp [Watching.learn, hfound])
  | openRuns => exact h.elim
  | deleteRun e onBehalf =>
      cases onBehalf with
      | none => exact ⟨trivial, fun r => .inr rfl⟩
      | some runId => exact h.elim
  | saveReport report onBehalf =>
      cases onBehalf with
      | none => exact ⟨trivial, fun r => .inr rfl⟩
      | some runId => exact h.elim
  | _ => exact ⟨trivial, fun r => .inr rfl⟩

theorem SettlingOf.unwatched {runId : ℤ} {o : Op} (h : SettlingOf runId o) : Unwatched o := by
  cases o <;> first | exact h.elim | trivial

theorem ClearingOf.unwatched {executionId : ℤ} {o : Op} (h : ClearingOf executionId o) :
    Unwatched o := by
  cases o <;> first | exact h.elim | trivial

theorem Minds.aside {o : Op} {next : Except Failure (Answer o) → Proc β} (ho : Unwatched o)
    (hnext : ∀ r, Minds (next r) g) : Minds (.ask o next) g := by
  refine .ask (ho.same g).1 fun r => ?_
  rcases (ho.same g).2 r with hlost | hsame
  · exact .of_lost hlost
  · rw [hsame]
    exact hnext r

theorem Minds.query {o : Op} {f : Answer o → Proc β} (ho : Unwatched o)
    (hf : ∀ a, Minds (f a) g) : Minds (query o >>= f) g := by
  refine .aside ho fun r => ?_
  cases r with
  | ok a => exact hf a
  | error e => exact minds_fail e

theorem Minds.besides {o : Op} {f : Unit → Proc β} (ho : Unwatched o) (hf : Minds (f ()) g) :
    Minds (bestEffort o >>= f) g :=
  .aside ho fun _ => hf

theorem Minds.tried {o : Op} {f : Except Failure (Answer o) → Proc β} (ho : Unwatched o)
    (hf : ∀ r, Minds (f r) g) : Minds (Call.attempt (Control.query o) >>= f) g := by
  refine .aside ho fun r => ?_
  cases r with
  | ok a => exact hf (.ok a)
  | error e => exact hf (.error e)

theorem Minds.of_asks {c : Proc α} (hc : c.Asks Unwatched) : Minds c g := by
  have hsame : watchConduct.Follows c g fun _ g' => g' = g := by
    refine .of_asks (· = g) hc (fun o g' ho h => ?_) rfl
    subst h
    exact ho.same g'
  exact hsame.mono fun _ _ h => h ▸ .refl g

end Minds

/-! ### Closing a run -/

section Closing

variable {g : Watching} {executionId runId : ℤ} {onBehalf : Option ℤ}

/-- One who looks at the marker and finds a run finds the one it acts on behalf of. -/
theorem Minds.current_ask {α : Type} {next : Except Failure (Option ℤ) → Proc α}
    (hlicensed : g.Licensed executionId onBehalf)
    (hfound : ∀ runId, (∀ r, onBehalf = some r → r = runId ∧ (executionId, some r) ∈ g.watched) →
      Minds (next (.ok (some runId))) g)
    (hnone : Minds (next (.ok none)) g) (herror : ∀ e, Minds (next (.error e)) g) :
    Minds (.ask (.currentRun executionId .toKnow) next) g := by
  refine .ask trivial fun r => ?_
  rcases r with e | (_ | runId)
  · exact herror e
  · exact hnone
  · by_cases hunexpected : g.Unexpected executionId runId
    · exact .of_lost (by simp [Watching.learn, hunexpected])
    · have hsame : g.learn (.currentRun executionId .toKnow) (.ok (some runId)) = g := by
        simp [Watching.learn, hunexpected]
      rw [hsame]
      refine hfound runId fun r hr => ?_
      subst hr
      exact hlicensed.eq hunexpected

theorem Minds.current_need {α : Type} {f : Option ℤ → Proc α}
    (hlicensed : g.Licensed executionId onBehalf)
    (hfound : ∀ runId, (∀ r, onBehalf = some r → r = runId ∧ (executionId, some r) ∈ g.watched) →
      Minds (f (some runId)) g)
    (hnone : Minds (f none) g) : Minds (Control.query (.currentRun executionId .toKnow) >>= f) g :=
  .current_ask hlicensed hfound hnone minds_fail

theorem Minds.current_tried {α : Type} {f : Except Failure (Option ℤ) → Proc α}
    (hlicensed : g.Licensed executionId onBehalf)
    (hfound : ∀ runId, (∀ r, onBehalf = some r → r = runId ∧ (executionId, some r) ∈ g.watched) →
      Minds (f (.ok (some runId))) g)
    (hnone : Minds (f (.ok none)) g) (herror : ∀ e, Minds (f (.error e)) g) :
    Minds (Call.attempt (Control.query (.currentRun executionId .toKnow)) >>= f) g :=
  .current_ask hlicensed hfound hnone herror

theorem minds_stopRun (hlicensed : g.Licensed executionId onBehalf) :
    Minds (stopRun executionId onBehalf) g := by
  refine .current_need hlicensed (fun runId hrun => ?_) (minds_ret ())
  refine .query trivial fun _ => .ask ?_ fun r => ?_
  · cases onBehalf with
    | none => trivial
    | some r => exact (hrun r rfl).2
  · cases r with
    | ok _ => exact minds_ret ()
    | error e => exact minds_fail e

/-- A run may be closed by one who acts on behalf of it, as it looks at the marker once
more. -/
theorem minds_closeRun (hown : ∀ r, onBehalf = some r → r = runId) :
    Minds (closeRun executionId runId onBehalf) g := by
  refine .need trivial fun current => ?_
  split
  · rename_i hcurrent
    refine minds_stopRun fun r hr => .inl ?_
    rw [hown r hr]
    exact hcurrent ▸ List.mem_cons_self
  · exact minds_ret ()

theorem minds_finalize {outcome : Taurus.Outcome} (hown : ∀ r, onBehalf = some r → r = runId) :
    Minds (finalize cfg executionId runId outcome onBehalf) g := by
  refine .tried trivial fun stored => .query trivial fun snapshot => .query trivial fun profile =>
    .query trivial fun history => .query trivial fun exe => .query trivial fun endedAt => ?_
  refine .need ?_ fun _ => ?_
  · cases onBehalf with
    | none => trivial
    | some r => exact (hown r rfl).symm
  · exact .bind (.of_asks ((asks_grade cfg _ _).mono fun _ => SettlingOf.unwatched)) fun _ _ _ =>
      .bind (.of_asks ((asks_discardAll _).mono fun _ => SettlingOf.unwatched)) fun _ _ _ =>
      .besides trivial (minds_closeRun hown)

theorem minds_teardown (hlicensed : g.Licensed executionId onBehalf) :
    Minds (teardown cfg executionId onBehalf) g := by
  refine .besides trivial (.query trivial fun scenarios =>
    .bind (.of_asks ((asks_clearScenarios _ _).mono fun _ => ClearingOf.unwatched)) fun _ g₁ h₁ =>
    .besides trivial (.besides trivial ?_))
  have hlicensed₁ := hlicensed.mono h₁
  refine .current_tried hlicensed₁ (fun runId hrun => ?_) (minds_stopRun hlicensed₁)
    fun e => minds_stopRun hlicensed₁
  refine .attempt_bind ?_ fun _ g₂ h₂ => minds_stopRun (hlicensed₁.mono h₂)
  exact .query trivial fun states => minds_finalize cfg fun r hr => (hrun r hr).1

theorem licensed_current (g : Watching) (executionId : ℤ) (current : Option ℤ) :
    (g.learn (.currentRun executionId .toClose) (.ok current)).Licensed executionId current := by
  rintro runId rfl
  exact .inl List.mem_cons_self

theorem minds_stop : Minds (stop cfg executionId) g := by
  refine .need trivial fun current => ?_
  split
  · exact minds_fail _
  · exact minds_teardown cfg (licensed_current g executionId current)

theorem minds_teardownAndCapture : Minds (teardownAndCapture cfg executionId) g := by
  refine .need trivial fun current => ?_
  cases current with
  | some runId => exact minds_teardown cfg (licensed_current g executionId (some runId))
  | none =>
      -- whoever clears up after the last run goes by there being none
      refine .tried trivial fun last => ?_
      cases last with
      | ok last => exact minds_teardown cfg fun r _ => .inr List.mem_cons_self
      | error e => exact minds_ret ()

theorem minds_purge : Minds (purge cfg executionId) g :=
  .query trivial fun exe => .bind (minds_teardownAndCapture cfg) fun _ _ _ =>
    .of_asks ((asks_purgeClusters _ _).mono fun o ho => by
      cases o <;> first | exact ho.elim | trivial)

end Closing

/-! ### Reconciling -/

section Reconciling

variable {g : Watching}

def Watching.GoesBy (g : Watching) (rows : List HistoryRow) : Prop :=
  ∀ h ∈ rows, (h.executionId, some h.runId) ∈ g.watched

theorem Watching.GoesBy.licensed {row : HistoryRow}
    (h : (row.executionId, some row.runId) ∈ g.watched) :
    g.Licensed row.executionId (some row.runId) := by
  rintro r hr
  cases hr
  exact .inl h

theorem minds_reconcileEach {rows : List HistoryRow} (hrows : g.GoesBy rows) :
    Minds (reconcileEach cfg rows) g := by
  induction rows generalizing g with
  | nil => exact minds_ret ()
  | cons row rest ih =>
      obtain ⟨hrow, hrest⟩ := List.forall_mem_cons.mp hrows
      refine .query trivial fun orphans => ?_
      split
      · exact ih hrest
      · refine .query trivial fun profile => ?_
        split
        · exact ih hrest
        · refine .bind (minds_finalize cfg fun r hr => Option.some_inj.mp hr.symm) fun _ g₁ h₁ => ?_
          refine .bind (minds_stopRun (Watching.GoesBy.licensed (h₁ _ hrow))) fun _ g₂ h₂ => ?_
          exact ih fun h hh => h₂ _ (h₁ _ (hrest h hh))

theorem goesBy_openRuns (g : Watching) (rows : List HistoryRow) :
    (g.learn .openRuns (.ok rows)).GoesBy rows := fun _ hh =>
  List.mem_append_left _ (List.mem_map_of_mem hh)

theorem minds_reconcile : Minds (reconcile cfg) g :=
  .need trivial fun rows => minds_reconcileEach cfg (goesBy_openRuns g rows)

theorem minds_reconcileOne {row : HistoryRow}
    (hrow : (row.executionId, some row.runId) ∈ g.watched) : Minds (reconcileOne cfg row) g := by
  refine .tried trivial fun stored => ?_
  cases stored with
  | ok report => exact minds_stopRun (Watching.GoesBy.licensed hrow)
  | error e =>
      cases e with
      | notFound =>
          refine .tried trivial fun exe => ?_
          cases exe with
          | error e => cases e <;> exact .inr (.refl g)
          | ok exe =>
              have hstatus : (executionStatusAcross row.executionId exe.clusters).Asks Unwatched :=
                (asks_executionStatusAcross _ _).mono fun o ho => by
                  cases o <;> first | exact ho.elim | trivial
              refine .query trivial fun _ => .bind (.of_asks hstatus) fun poolSize g₁ h₁ => ?_
              split
              · exact minds_ret ()
              · refine .bind (.query trivial fun states =>
                  minds_finalize cfg fun r hr => Option.some_inj.mp hr.symm) fun _ g₂ h₂ => ?_
                exact minds_stopRun (Watching.GoesBy.licensed (h₂ _ (h₁ _ hrow)))
      | _ => exact minds_fail _

theorem minds_reconcileAbandonedEach (after : ℤ) {rows : List HistoryRow} (hrows : g.GoesBy rows) :
    Minds (reconcileAbandonedEach cfg after rows) g := by
  induction rows generalizing g with
  | nil => exact minds_ret ()
  | cons row rest ih =>
      obtain ⟨hrow, hrest⟩ := List.forall_mem_cons.mp hrows
      refine .query trivial fun now => ?_
      split
      · exact ih hrest
      · exact .bind (minds_reconcileOne cfg hrow) fun _ g₁ h₁ => ih fun h hh => h₁ _ (hrest h hh)

theorem minds_reconcileAbandoned (after : ℤ) : Minds (reconcileAbandoned cfg after) g := by
  unfold reconcileAbandoned
  split
  · exact minds_ret ()
  · exact .need trivial fun rows => minds_reconcileAbandonedEach cfg after (goesBy_openRuns g rows)

end Reconciling

/-! ### Taking in a push, deploying and triggering -/

section Others

variable {g : Watching}

theorem minds_ingest (batch : Batch) : Minds (ingest cfg batch) g := by
  refine .query trivial fun current => ?_
  cases current with
  | none =>
    refine .bind (.of_asks ?_) fun _ _ _ => minds_fail _
    unfold recordOrphan
    split
    · exact .need trivial fun _ => asks_need.mpr trivial
    · trivial
  | some runId =>
    dsimp only
    split
    · exact minds_fail _
    · refine .query trivial fun _ => ?_
      unfold complete
      split
      · refine .bind (.of_asks ?_) fun done g₁ h₁ => ?_
        · refine .need trivial fun states => .need trivial fun profile => ?_
          dsimp only
          split
          · trivial
          · exact .need trivial fun _ => trivial
        · split
          · exact .query trivial fun states =>
              minds_finalize cfg fun r hr => Option.some_inj.mp hr.symm
          · exact minds_ret ()
      · exact minds_ret ()

theorem minds_deploy (executionId : ℤ) : Minds (deploy executionId) g := by
  refine .of_asks ((asks_deploy executionId).mono fun o ho => ?_)
  cases o with
  | currentRun e reading => cases reading <;> first | exact ho.elim | trivial
  | _ => first | exact ho.elim | trivial

theorem Looking.unwatched {o : Op} (h : Looking o) : Unwatched o := by
  cases o with
  | currentRun e reading => cases reading <;> first | exact h.elim | trivial
  | _ => first | exact h.elim | trivial

theorem minds_reclaim (needed freed : ℤ) (overrun : List Reservation) :
    Minds (reclaim cfg needed freed overrun) g := by
  induction overrun generalizing freed g with
  | nil => exact minds_ret _
  | cons r rest ih =>
      rw [reclaim]
      split
      · exact minds_ret _
      · exact .bind (minds_stop cfg) fun _ _ _ => ih _

theorem minds_reserve (r : Reservation) : Minds (reserve cfg r) g := by
  unfold reserve
  split
  · exact minds_fail _
  · refine .query trivial fun _ => .attempt_bind ?_ fun result g₁ _ => .besides trivial ?_
    · refine .query trivial fun quota =>
        .bind (.of_asks ((asks_usedCapacity _).mono fun _ => Looking.unwatched)) fun x g₁ _ =>
        .bind ?_ fun used g₂ _ => ?_
      · unfold usedAfterReclaim
        split
        · exact minds_ret _
        · refine .query trivial fun now => ?_
          split
          · exact minds_ret _
          · exact .bind (minds_reclaim cfg _ _ _) fun _ _ _ => minds_ret _
      · split
        · exact minds_fail _
        · exact .query trivial fun _ => minds_ret _
    · cases result with
      | ok x => exact minds_ret x
      | error e => exact minds_fail e

theorem minds_reserveRun (executionId : ℤ) (exe : SizedExecution) :
    Minds (reserveRun cfg executionId exe) g := by
  have hall : ∀ (requests : List Reservation) (g : Watching),
      Minds (reserveAll cfg executionId requests) g := by
    intro requests
    induction requests with
    | nil => exact fun _ => minds_ret ()
    | cons r rest ih =>
        refine fun g => .attempt_bind (minds_reserve cfg r) fun result g₁ _ => ?_
        cases result with
        | ok x => exact ih g₁
        | error e => exact .besides trivial (minds_fail e)
  unfold reserveRun
  split
  · exact minds_ret ()
  · refine .query trivial fun start => ?_
    unfold reserveSized
    split
    · exact minds_fail _
    · exact hall _ g

theorem minds_openRun (executionId : ℤ) (exe : SizedExecution) :
    Minds (openRun executionId exe) g := by
  refine .query trivial fun correlationId =>
    .bind (.query trivial fun runId => .query trivial fun _ => minds_ret runId) fun _ _ _ =>
    .besides trivial (.bind (.of_asks ((asks_markScenarios _ _).mono fun o ho => ?_))
      fun failed g₁ _ => .bind ?_ fun _ g₂ _ => ?_)
  · cases o <;> first | exact ho.elim | trivial
  · unfold rollBack
    split
    · exact .attempt_bind (minds_stopRun nofun) fun _ _ _ => minds_ret ()
    · exact minds_ret ()
  · split
    · refine .of_asks ((asks_recordLaunch _ _).mono fun o ho => ?_)
      cases o <;> first | exact ho.elim | trivial
    · exact minds_fail _

theorem minds_trigger (executionId : ℤ) : Minds (trigger cfg executionId) g :=
  .bind (.of_asks ((asks_triggerChecks _).mono fun _ => Looking.unwatched)) fun exe _ _ =>
    .bind (minds_reserveRun cfg executionId exe) fun _ _ _ => minds_openRun executionId exe

end Others

end Honryu.Control
