import Mathlib.Logic.Function.Basic

/-!
Steps that are taken one after the other, each under a condition on the state it is taken in.
-/

namespace Walk

variable {σ α : Type} (step : σ → α → σ)

/-- The state that the steps lead to. -/
def run (s : σ) (steps : List α) : σ := steps.foldl step s

/-- Every step meets a condition on the state in which it is taken. -/
def Along (ok : σ → α → Prop) : σ → List α → Prop
  | _, [] => True
  | s, a :: steps => ok s a ∧ Along ok (step s a) steps

theorem run_append (s : σ) (steps more : List α) :
    run step s (steps ++ more) = run step (run step s steps) more :=
  List.foldl_append ..

instance decidableAlong {ok : σ → α → Prop} [∀ s a, Decidable (ok s a)] :
    (s : σ) → (steps : List α) → Decidable (Along step ok s steps)
  | _, [] => inferInstanceAs (Decidable True)
  | s, a :: steps =>
      have : Decidable (Along step ok (step s a) steps) := decidableAlong _ steps
      inferInstanceAs (Decidable (ok s a ∧ _))

variable {step} {ok good : σ → α → Prop} {inv : σ → Prop} {s : σ} {steps more : List α}

theorem Along.append :
    Along step ok s (steps ++ more) ↔
      Along step ok s steps ∧ Along step ok (run step s steps) more := by
  induction steps generalizing s with
  | nil => exact ⟨fun h => ⟨trivial, h⟩, fun h => h.2⟩
  | cons a steps ih => exact (and_congr_right fun _ => ih).trans and_assoc.symm

/-- What every step that meets the condition keeps, steps that all meet it keep. -/
theorem run_induction (hstep : ∀ s a, inv s → ok s a → inv (step s a)) (hs : inv s)
    (hok : Along step ok s steps) : inv (run step s steps) := by
  induction steps generalizing s with
  | nil => exact hs
  | cons a steps ih => exact ih (hstep s a hs hok.1) hok.2

/-- What follows for one step from an invariant follows for all of them. -/
theorem Along.of_invariant (hstep : ∀ s a, inv s → ok s a → inv (step s a))
    (hgood : ∀ s a, inv s → ok s a → good s a) (hs : inv s) (hok : Along step ok s steps) :
    Along step good s steps := by
  induction steps generalizing s with
  | nil => trivial
  | cons a steps ih => exact ⟨hgood s a hs hok.1, ih (hstep s a hs hok.1) hok.2⟩

/-- What holds of all parties holds after one of them has moved on. -/
theorem forall_update {ι : Type} [DecidableEq ι] {parties : ι → Option α} {P : α → Prop}
    (h : ∀ i, ∀ a ∈ parties i, P a) (i : ι) (next : Option α) (hnext : ∀ a ∈ next, P a) :
    ∀ j, ∀ a ∈ Function.update parties i next j, P a :=
  (Function.forall_update_iff parties fun _ x => ∀ a ∈ x, P a).mpr ⟨hnext, fun j _ => h j⟩

end Walk
