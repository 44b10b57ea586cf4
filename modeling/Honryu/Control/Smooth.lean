import Honryu.Control.Questions
import Honryu.Lib.Alone

/-!
What the calls come to if nothing goes wrong.
-/

namespace Honryu.Control

open Call Lifecycle

variable {p : Quota.Precision} {cfg : Config} {executionId : ℤ} {had : View → Prop}
  {s s' s'' : Store p}

def OthersKept (executionId : ℤ) (s s' : Store p) : Prop :=
  ∀ e, e ≠ executionId → s'.marker e = s.marker e

theorem EndingOf.othersKept {o : Op} (h : EndingOf executionId o) (hs : OthersKept executionId s s') :
    OthersKept executionId s (effect cfg s' o) := by
  cases o with
  | deleteRun e onBehalf =>
      intro x hx
      have hne : x ≠ e := fun heq => hx (heq.trans h)
      exact (Function.update_of_ne hne _ _).trans (hs x hx)
  | insertRun e => exact h.elim
  | _ => exact hs

/-- What is asked to end a run of one execution is of no concern to the others. -/
theorem smoothly_othersKept {α : Type} {c : Proc α} (hc : c.Asks (EndingOf executionId))
    (hs : OthersKept executionId s s') :
    c.Smoothly (server cfg) had s' fun _ => OthersKept executionId s :=
  hc.smoothly (fun _ ho _ _ h => ho.othersKept h) hs

/-- `StopRun` leaves the execution without a run. -/
theorem smoothly_stopRun (onBehalf : Option ℤ) (hs : OthersKept executionId s s') :
    (stopRun executionId onBehalf).Smoothly (server cfg) had s' fun r s'' =>
      r = .ok () ∧ s''.marker = Function.update s.marker executionId none := by
  refine Smoothly.need_bind fun view _ => ⟨s'.marker executionId, rfl, ?_⟩
  have hmarker : Function.update s'.marker executionId none =
      Function.update s.marker executionId none := by
    funext e
    by_cases he : e = executionId
    · rw [he, Function.update_self, Function.update_self]
    · rw [Function.update_of_ne he, Function.update_of_ne he, hs e he]
  cases hcurrent : s'.marker executionId with
  | none =>
      refine ⟨rfl, ?_⟩
      rw [← hmarker, ← hcurrent, Function.update_eq_self]
      rfl
  | some runId => exact fun _ _ _ _ => ⟨rfl, hmarker⟩

theorem smoothly_clearScenarios (scenarios : List LoadProfile.Entry)
    (hs : OthersKept executionId s s') :
    (clearScenarios executionId scenarios).Smoothly (server cfg) had s' fun r s'' =>
      r = .ok () ∧ OthersKept executionId s s'' := by
  induction scenarios generalizing s' with
  | nil => exact ⟨rfl, hs⟩
  | cons e rest ih => exact Smoothly.need_bind fun view _ => ⟨(), rfl, ih hs⟩

theorem smoothly_teardown (onBehalf : Option ℤ) :
    (teardown cfg executionId onBehalf).Smoothly (server cfg) had s fun r s' =>
      r = .ok () ∧ s'.marker = Function.update s.marker executionId none := by
  intro view _
  refine Smoothly.need_bind fun view _ => ⟨cfg.profile executionId, rfl, ?_⟩
  refine (smoothly_clearScenarios _ fun _ _ => rfl).bind (fun _ s' h => ?_) fun e s' h => nomatch h.1
  intro view _ view _
  have hs : OthersKept executionId s s' := h.2
  refine Smoothly.attempt_need_bind fun view _ => ?_
  split
  · rename_i runId _
    have hasks := (asks_finalizeStopped cfg executionId runId onBehalf).mono fun _ =>
      FinalisingOf.endingOf
    refine Smoothly.attempt_bind (smoothly_othersKept hasks hs) fun _ _ h => ?_
    exact smoothly_stopRun onBehalf h
  · exact smoothly_stopRun onBehalf hs

/-- `Stop` ends the run there is. -/
theorem smoothly_stop {runId : ℤ} (hrun : s.marker executionId = some runId) :
    (stop cfg executionId).Smoothly (server cfg) had s fun r s' =>
      r = .ok () ∧ s'.marker = Function.update s.marker executionId none := by
  refine Smoothly.need_bind fun view _ => ⟨s.marker executionId, rfl, ?_⟩
  rw [hrun]
  exact smoothly_teardown _

end Honryu.Control
