import Honryu.Control.Questions
import Honryu.Lib.Conduct
import Honryu.Lib.Pool

/-!
Engines that are torn down while runs are opened.

A pass over the idle executions looks once whether an execution has a run. After that it goes by
there being none, and ends whatever run it finds. It finds one only if it was opened in between.
-/

namespace Honryu.Control

open Call Lifecycle Quota

variable {p : Precision} (cfg : Config)

/-! ### What is known of a call -/

/-- What is noted of a call. A pass has looked at an execution that it is about to tear down, and
another call may have opened a run. A pass is lost once it finds a run where it went by there
being none. -/
inductive Role
  | reaper (guarded : Option ℤ)
  | other (opened : Option (ℤ × ℤ))
  | lost
  deriving DecidableEq

namespace Role

def isLost : Role → Bool
  | .lost => true
  | _ => false

def isPass : Role → Bool
  | .other _ => false
  | _ => true

def learn : (o : Op) → Except Failure (Answer o) → Role → Role
  | .getLastActivity _, _, .reaper _ => .reaper none
  | .currentRun e _, .ok none, .reaper none => .reaper (some e)
  | .currentRun e _, .ok (some _), .reaper guarded =>
      if guarded = some e then .lost else .reaper guarded
  | .purgeExecution _ _, .ok _, .reaper _ => .reaper none
  | .insertRun e, .ok runId, .other _ => .other (some (e, runId))
  | _, _, g => g

/-- A pass saves no report and deletes no marker, and removes the engines only of an execution that
it has looked at. -/
def Allowed : Role → Op → Prop
  | .reaper _, .saveReport _ _ => False
  | .reaper _, .deleteRun _ _ => False
  | .reaper guarded, .purgeExecution _ e => guarded = some e
  | _, _ => True

end Role

def reapConduct : Conduct Answer Failure Role where
  lost := Role.isLost
  allowed := Role.Allowed
  learn o r g := g.learn o r

/-! ### What a pass does -/

section Follows

variable {α β : Type} {executionId : ℤ}

def Unguarding : Op → Prop
  | .getLastActivity _ | .currentRun _ _ | .purgeExecution _ _ | .insertRun _ | .saveReport _ _
  | .deleteRun _ _ => False
  | _ => True

theorem Unguarding.same {o : Op} (h : Unguarding o) (g : Role) :
    g.Allowed o ∧ ∀ r, g.learn o r = g := by
  cases o <;> first | exact h.elim | exact ⟨by cases g <;> trivial, fun r => rfl⟩

def GoesByNone (executionId : ℤ) (c : Proc α) : Prop :=
  reapConduct.Keeps (· = .reaper (some executionId)) c

theorem goesByNone_of_asks {c : Proc α} (hc : c.Asks Unguarding) : GoesByNone executionId c :=
  Conduct.Keeps.of_asks hc fun _ g ho hg =>
    ⟨(ho.same g).1, fun r => .inr (((ho.same g).2 r).trans hg)⟩

theorem GoesByNone.bind {c : Proc α} {d : α → Proc β} (hc : GoesByNone executionId c)
    (hd : ∀ a, GoesByNone executionId (d a)) : GoesByNone executionId (c >>= d) :=
  Conduct.Keeps.bind hc hd

theorem GoesByNone.query {o : Op} {d : Answer o → Proc β} (ho : Unguarding o)
    (hd : ∀ a, GoesByNone executionId (d a)) : GoesByNone executionId (Control.query o >>= d) :=
  .bind (goesByNone_of_asks (asks_need.mpr ho)) hd

theorem GoesByNone.besides {o : Op} {d : Unit → Proc β} (ho : Unguarding o)
    (hd : GoesByNone executionId (d ())) : GoesByNone executionId (bestEffort o >>= d) :=
  .bind (goesByNone_of_asks (asks_besides.mpr ho)) fun _ => hd

/-- It looks at the marker once more. If there is a run now, it is lost. -/
theorem GoesByNone.current {reading : Reading} {next : Except Failure (Option ℤ) → Proc β}
    (hnone : GoesByNone executionId (next (.ok none)))
    (herror : ∀ e, GoesByNone executionId (next (.error e))) :
    GoesByNone executionId (.ask (.currentRun executionId reading) next) := by
  rintro g rfl
  refine .ask trivial fun r => ?_
  rcases r with e | (_ | runId)
  · exact herror e _ rfl
  · exact hnone _ rfl
  · exact .of_lost (by simp [reapConduct, Role.learn, Role.isLost])

theorem goesByNone_ret (a : α) : GoesByNone executionId (.ret a) := Conduct.keeps_ret a

theorem goesByNone_fail (e : Failure) : GoesByNone executionId (.fail e : Proc α) :=
  Conduct.keeps_fail e

theorem GoesByNone.current_need {reading : Reading} {d : Option ℤ → Proc β}
    (hnone : GoesByNone executionId (d none)) :
    GoesByNone executionId (Control.query (.currentRun executionId reading) >>= d) :=
  .current hnone goesByNone_fail

theorem goesByNone_stopRun (onBehalf : Option ℤ) :
    GoesByNone executionId (stopRun executionId onBehalf) :=
  .current_need (goesByNone_ret ())

theorem goesByNone_teardown (onBehalf : Option ℤ) :
    GoesByNone executionId (teardown cfg executionId onBehalf) := by
  have hclear : ∀ scenarios, (clearScenarios executionId scenarios).Asks Unguarding := fun _ =>
    (asks_clearScenarios _ _).mono fun o ho => by cases o <;> first | exact ho.elim | trivial
  exact .besides trivial (.query trivial fun scenarios =>
    .bind (goesByNone_of_asks (hclear _)) fun _ => .besides trivial (.besides trivial
      (.current (goesByNone_stopRun onBehalf) fun _ => goesByNone_stopRun onBehalf)))

theorem goesByNone_teardownAndCapture :
    GoesByNone executionId (teardownAndCapture cfg executionId) := by
  refine .current_need (.bind (goesByNone_of_asks (.attempt (asks_need.mpr trivial))) fun last => ?_)
  cases last with
  | ok last => exact goesByNone_teardown cfg _
  | error e => exact goesByNone_ret ()

def Reaps (c : Proc α) : Prop := reapConduct.Keeps (fun g => ∃ guarded, g = .reaper guarded) c

theorem reaps_reapIfIdle (cluster : String) (deployedAt now ttl : ℤ) :
    Reaps (reapIfIdle cfg executionId cluster deployedAt now ttl) := by
  rintro g ⟨guarded, rfl⟩
  refine .need trivial (fun last => ?_) fun _ => .inr ⟨none, rfl⟩
  split
  · exact .inr ⟨none, rfl⟩
  · refine .need trivial (fun current => ?_) fun _ => .inr ⟨none, rfl⟩
    cases current with
    | some runId => exact .inr ⟨none, rfl⟩
    | none =>
        refine .need trivial (fun calibrating => ?_) fun _ => .inr ⟨some executionId, rfl⟩
        split
        · exact .inr ⟨some executionId, rfl⟩
        · refine (goesByNone_teardownAndCapture cfg _ rfl).bind (fun _ g' hg' => ?_)
            fun _ g' hg' => ⟨some executionId, hg'⟩
          subst hg'
          refine .need rfl (fun _ => ?_) fun _ => .inr ⟨some executionId, rfl⟩
          exact .need trivial (fun _ => .inr ⟨none, rfl⟩) fun _ => .inr ⟨none, rfl⟩

theorem reaps_reapEach (cluster : String) (now ttl : ℤ) (deployed : List (ℤ × ℤ)) (acc : Reaping) :
    Reaps (reapEach cfg cluster now ttl deployed acc) := by
  induction deployed generalizing acc with
  | nil => exact Conduct.keeps_ret acc
  | cons x rest ih =>
      rw [reapEach]
      split
      · exact ih acc
      · refine Conduct.Keeps.attempt_bind (reaps_reapIfIdle cfg cluster x.2 now ttl) fun reaped => ?_
        cases reaped with
        | ok done => exact ih _
        | error e => exact ih _

theorem reaps_reapIdle (ttl : ℤ) (clusters : List String) : Reaps (reapIdle cfg ttl clusters) := by
  have hask : ∀ {o : Op}, Unguarding o → Reaps (Control.query o) := fun ho =>
    Conduct.Keeps.of_asks (asks_need.mpr ho) fun o g ho hg =>
      ⟨(ho.same g).1, fun r => .inr (by rwa [show reapConduct.learn o r g = g from (ho.same g).2 r])⟩
  have hclusters : ∀ now acc, Reaps (reapClusters cfg now ttl clusters acc) := by
    intro now acc
    induction clusters generalizing acc with
    | nil => exact Conduct.keeps_ret _
    | cons cluster rest ih =>
        refine Conduct.Keeps.attempt_bind (hask trivial) fun deployed => ?_
        cases deployed with
        | error e => exact Conduct.keeps_ret _
        | ok deployed => exact Conduct.Keeps.bind (reaps_reapEach cfg cluster now ttl deployed acc) ih
  unfold reapIdle
  split
  · exact Conduct.keeps_ret _
  · exact Conduct.Keeps.bind (hask trivial) fun now => hclusters now _

theorem keeps_other (c : Proc α) : reapConduct.Keeps (fun g => ∃ opened, g = .other opened) c := by
  refine .of_asks (asks_of_forall (fun _ => trivial) c : c.Asks fun _ => True) ?_
  rintro o _ - ⟨opened, rfl⟩
  refine ⟨trivial, fun r => .inr ?_⟩
  cases o with
  | insertRun e => cases r <;> exact ⟨_, rfl⟩
  | purgeExecution cluster e => cases r <;> exact ⟨_, rfl⟩
  | currentRun e reading => rcases r with _ | (_ | _) <;> exact ⟨_, rfl⟩
  | _ => exact ⟨_, rfl⟩

end Follows

/-! ### Passes, deployments and triggers side by side -/

inductive ReapCall
  | reapIdle (ttl : ℤ) (clusters : List String)
  | deploy (executionId : ℤ)
  | trigger (executionId : ℤ)

def ReapCall.body : ReapCall → Proc Unit
  | .reapIdle ttl clusters => Control.reapIdle cfg ttl clusters >>= fun _ => .ret ()
  | .deploy executionId => Control.deploy executionId
  | .trigger executionId => Control.trigger cfg executionId

def ReapCall.role : ReapCall → Role
  | .reapIdle _ _ => .reaper none
  | _ => .other none

def reapCalls : Traffic Answer Failure Unit (Store p) View ReapCall Role ℕ where
  server := server cfg
  body := ReapCall.body cfg
  blank := .other none
  opening := ReapCall.role
  note := reapConduct.note
  outside d s := s.elapse d

/-- A run is opened only when no pass has looked at its execution and is about to tear it down. -/
def NobodyReaps (q : Pool Answer Failure Unit (Store p) Role) : Turn View ReapCall ℕ → Prop
  | .go i _ fails => ∀ e, Traffic.asks q i = some (.insertRun e) → fails = false →
      ∀ j, q.notes j ≠ .reaper (some e)
  | _ => True

/-- What a pass does saves no report and clears no marker, and removes no engines of a run, unless
the call that has opened this run has not returned yet. -/
def SparesLive (q : Pool Answer Failure Unit (Store p) Role) : Op → Prop
  | .saveReport _ _ => False
  | .deleteRun e _ => q.state.marker e = none
  | .purgeExecution _ e =>
      ∀ runId, q.state.marker e = some runId → ∃ j, q.notes j = .other (some (e, runId))
  | _ => True

def ReapsIdle (q : Pool Answer Failure Unit (Store p) Role) : Turn View ReapCall ℕ → Prop
  | .go i _ fails => (q.notes i).isPass = true → fails = false →
      ∀ o, Traffic.asks q i = some o → SparesLive q o
  | _ => True

/-- No pass is lost, and an execution that one is about to tear down has no run. -/
structure Unharmed (s : Store p) (notes : ℕ → Role) : Prop where
  lost : ∀ i, notes i ≠ .lost
  idle : ∀ i e, notes i = .reaper (some e) → s.marker e = none

section Run

variable {cfg} {s s' : Store p} {notes : ℕ → Role} {i : ℕ} {g : Role}

theorem Unharmed.update (h : Unharmed s notes) (hlost : g ≠ .lost)
    (hmarker : ∀ j e, notes j = .reaper (some e) → s'.marker e = none)
    (hnone : ∀ e, g = .reaper (some e) → s'.marker e = none) :
    Unharmed s' (Function.update notes i g) := by
  refine ⟨fun j => ?_, fun j => ?_⟩
  · by_cases hj : j = i
    · rwa [hj, Function.update_self]
    · rw [Function.update_of_ne hj]
      exact h.lost j
  · by_cases hj : j = i
    · rwa [hj, Function.update_self]
    · rw [Function.update_of_ne hj]
      exact hmarker j

theorem Unharmed.frame (h : Unharmed s notes) (hmarker : s'.marker = s.marker) (hlost : g ≠ .lost)
    (hnone : ∀ e, g = .reaper (some e) → notes i = .reaper (some e)) :
    Unharmed s' (Function.update notes i g) :=
  h.update hlost (fun j e hj => by rw [hmarker]; exact h.idle j e hj)
    fun e he => by rw [hmarker]; exact h.idle i e (hnone e he)

/-- A question after which a pass is about to tear down nothing. -/
theorem Unharmed.forget (h : Unharmed s notes) {f : Role → Role} (hmarker : s'.marker = s.marker)
    (hother : ∀ opened, f (.other opened) = .other opened)
    (hreaper : ∀ guarded, f (.reaper guarded) = .reaper none) :
    Unharmed s' (Function.update notes i (f (notes i))) := by
  cases hnote : notes i with
  | other opened =>
      rw [hother]
      exact h.frame hmarker nofun nofun
  | lost => exact absurd hnote (h.lost i)
  | reaper guarded =>
      rw [hreaper]
      exact h.frame hmarker nofun nofun

theorem unharmed_performed (h : Unharmed s notes) {o : Op} (view : View)
    (hopens : ∀ e, o = .insertRun e → ∀ j, notes j ≠ .reaper (some e)) :
    Unharmed (effect cfg s o) (Function.update notes i ((notes i).learn o (reply cfg view s o))) := by
  cases o with
  | currentRun e reading =>
      simp only [reply]
      cases hnote : notes i with
      | other opened =>
          cases s.marker e <;> exact h.frame rfl nofun nofun
      | lost => exact absurd hnote (h.lost i)
      | reaper guarded =>
          cases hmarker : s.marker e with
          | none =>
              cases guarded with
              | none =>
                  refine h.update nofun h.idle ?_
                  rintro _ ⟨⟩
                  exact hmarker
              | some e' => exact h.frame rfl nofun fun _ he => hnote.trans he
          | some runId =>
              have hne : guarded ≠ some e := fun heq => by
                subst heq
                cases hmarker.symm.trans (h.idle i e hnote)
              have hsame : Role.learn (.currentRun e reading) (.ok (some runId)) (.reaper guarded) =
                  .reaper guarded := if_neg hne
              rw [hsame]
              exact h.frame rfl nofun fun _ he => hnote.trans he
  | insertRun e =>
      have hmarker : ∀ j e', notes j = .reaper (some e') →
          (effect cfg s (.insertRun e)).marker e' = none := by
        intro j e' hj
        have hne : e' ≠ e := fun heq => hopens e rfl j (heq ▸ hj)
        simp only [effect]
        split
        · exact h.idle j e' hj
        · rw [Function.update_of_ne hne]
          exact h.idle j e' hj
      cases hnote : notes i with
      | other opened =>
          cases reply cfg view s (.insertRun e) <;> exact h.update nofun hmarker nofun
      | lost => exact absurd hnote (h.lost i)
      | reaper guarded =>
          cases reply cfg view s (.insertRun e) <;>
            exact h.update nofun hmarker fun e' he => hmarker i e' (hnote.trans he)
  | deleteRun e onBehalf =>
      have hmarker : ∀ j e', notes j = .reaper (some e') →
          (effect cfg s (.deleteRun e onBehalf)).marker e' = none := by
        intro j e' hj
        by_cases he : e' = e
        · rw [he]
          exact Function.update_self ..
        · exact (Function.update_of_ne he _ _).trans (h.idle j e' hj)
      exact h.update (h.lost i) hmarker fun e' he => hmarker i e' he
  | getLastActivity e => exact h.forget rfl (fun _ => rfl) fun _ => rfl
  | purgeExecution cluster e => exact h.forget rfl (fun _ => rfl) fun _ => rfl
  | _ => exact h.frame rfl (h.lost i) fun _ he => he

theorem unharmed_failed (h : Unharmed s notes) (o : Op) (e : Failure) :
    Unharmed s (Function.update notes i ((notes i).learn o (.error e))) := by
  cases o with
  | getLastActivity e' => exact h.forget rfl (fun _ => rfl) fun _ => rfl
  | _ => exact h.frame rfl (h.lost i) fun _ he => he

theorem isLost_eq_false (h : g ≠ .lost) : reapConduct.lost g = false := by
  cases g with
  | lost => exact absurd rfl h
  | _ => rfl

theorem follows_reapCall (call : ReapCall) :
    reapConduct.Follows (call.body cfg) call.role fun _ _ => True := by
  cases call with
  | reapIdle ttl clusters =>
      exact (reaps_reapIdle cfg ttl clusters _ ⟨none, rfl⟩).bind (fun _ _ _ => .inr trivial)
        fun _ _ _ => trivial
  | deploy executionId => exact (keeps_other _ _ ⟨none, rfl⟩).mono fun _ _ _ => trivial
  | trigger executionId => exact (keeps_other _ _ ⟨none, rfl⟩).mono fun _ _ _ => trivial

theorem preserves_unharmed :
    (reapCalls (p := p) cfg).Preserves reapConduct.rule
      (fun g => reapConduct.lost g = true ∨ True) NobodyReaps Unharmed where
  body call := follows_reapCall call
  opening q i call h _ _ := by cases call <;> exact h.frame rfl nofun nofun
  closing s notes i h _ := h.frame rfl nofun nofun
  performed q i o view fails h hasks _ hok hgoes := by
    have hnote : (reapCalls (p := p) cfg).note o (reply cfg view q.state o) (q.notes i) =
        (q.notes i).learn o (reply cfg view q.state o) :=
      Conduct.note_of_not_lost (isLost_eq_false (h.lost i)) o _
    have hperformed : Unharmed (effect cfg q.state o)
        (Function.update q.notes i ((q.notes i).learn o (reply cfg view q.state o))) :=
      unharmed_performed h view fun e ho => hok e (ho ▸ hasks) (by
        subst ho
        cases fails with
        | false => rfl
        | true => cases hgoes rfl)
    exact hnote ▸ hperformed
  failed q i o view e h _ _ _ _ := by
    have hnote : (reapCalls (p := p) cfg).note o (.error e) (q.notes i) =
        (q.notes i).learn o (.error e) :=
      Conduct.note_of_not_lost (isLost_eq_false (h.lost i)) o _
    rw [hnote]
    exact unharmed_failed h o e
  outside q d h _ := ⟨h.lost, h.idle⟩

end Run

/-- If no run is opened between the look at an execution and the removal of its engines, a pass
over the idle executions does nothing to a run. -/
theorem reapsIdle_run (s : Store p) (turns : List (Turn View ReapCall ℕ))
    (hok : (reapCalls cfg).Along NobodyReaps ((reapCalls cfg).quiet s) turns) :
    (reapCalls cfg).Along ReapsIdle ((reapCalls cfg).quiet s) turns := by
  refine preserves_unharmed.along (fun q t htidy h _ => ?_) ⟨nofun, nofun⟩ hok
  cases t with
  | start i call => trivial
  | outside d => trivial
  | go i view fails =>
      intro hpass _ o hasks
      have hallowed : (q.notes i).Allowed o :=
        Conduct.rule.allowed (htidy.rule_of_asks hasks) (isLost_eq_false (h.lost i))
      obtain ⟨guarded, hnote⟩ : ∃ guarded, q.notes i = .reaper guarded := by
        cases hnote : q.notes i with
        | reaper guarded => exact ⟨guarded, rfl⟩
        | other opened => cases hnote ▸ hpass
        | lost => exact absurd hnote (h.lost i)
      rw [hnote] at hallowed
      cases o with
      | saveReport report onBehalf => exact hallowed
      | deleteRun e onBehalf => exact hallowed.elim
      | purgeExecution cluster e =>
          intro runId hrun
          cases hrun.symm.trans (h.idle i e (by rw [hnote]; exact congrArg _ hallowed))
      | _ => trivial

/-! ### A pass, and a run that is opened -/

def View.listed (deployedAt : ℤ) : View :=
  { View.ready 2 with deployed := fun _ => [(1, deployedAt)] }

def passed (i : ℕ) (questions : ℕ) : List (Turn View ReapCall ℕ) :=
  .start i (.reapIdle 1 ["eu"]) :: List.replicate questions (.go i (.listed (-10)) false)

def opensUnreaped (q : Pool Answer Failure Unit (Store p) Role) : Turn View ReapCall ℕ → Bool
  | .go i _ _ =>
      match Traffic.asks q i with
      | some (.insertRun e) => [0, 1, 2].all fun j => q.notes j != .reaper (some e)
      | _ => true
  | _ => true

theorem nobodyReaps_of_opensUnreaped (q : Pool Answer Failure Unit (Store p) Role)
    (t : Turn View ReapCall ℕ) (hothers : ∀ i, i ∉ [0, 1, 2] → q.notes i = .other none)
    (h : opensUnreaped q t = true) : NobodyReaps q t := by
  cases t with
  | go i view fails =>
      intro e hasks _ j
      simp only [opensUnreaped, hasks, List.all_eq_true, bne_iff_ne] at h
      by_cases hj : j ∈ [0, 1, 2]
      · exact h j hj
      · rw [hothers j hj]
        exact nofun
  | _ => trivial

def reapedAndOpened : List (Turn View ReapCall ℕ) :=
  passed 0 9 ++ carriedOut 1 (.deploy 1) 8 ++ carriedOut 2 (.trigger 1) 22

theorem reapsIdle_reapedAndOpened :
    (reapCalls smallConfig).Along ReapsIdle
      ((reapCalls smallConfig).quiet (.new : Store .microseconds)) reapedAndOpened :=
  reapsIdle_run smallConfig .new reapedAndOpened
    (Traffic.Along.of_callers [0, 1, 2] (by decide) nobodyReaps_of_opensUnreaped (fun _ _ => rfl)
      (by decide +kernel : (reapCalls smallConfig).Along (opensUnreaped · · = true) _ reapedAndOpened))

def openedInBetween : List (Turn View ReapCall ℕ) :=
  passed 0 4 ++ carriedOut 1 (.trigger 1) 22 ++ List.replicate 15 (.go 0 (.listed (-10)) false)

def isSave : Op → Bool
  | .saveReport _ _ => true
  | _ => false

/-- The pass finalises the run. -/
theorem not_reapsIdle_openedInBetween :
    ¬(reapCalls smallConfig).Along ReapsIdle
      ((reapCalls smallConfig).quiet (.new : Store .microseconds))
        (openedInBetween ++ [.go 0 (.listed (-10)) false]) := by
  intro h
  have hsaves : (Traffic.asks ((reapCalls smallConfig).run
      ((reapCalls smallConfig).quiet (.new : Store .microseconds)) openedInBetween) 0).map isSave =
        some true := by decide +kernel
  obtain ⟨o, hasks, ho⟩ := Option.map_eq_some_iff.mp hsaves
  have hspares := Traffic.Along.last _ h (by decide +kernel) rfl o hasks
  cases o with
  | saveReport report onBehalf => exact hspares
  | _ => cases ho

end Honryu.Control
