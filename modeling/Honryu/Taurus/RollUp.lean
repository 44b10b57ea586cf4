import Honryu.Taurus.Executor
import Mathlib.Data.Finset.Lattice.Fold
import Mathlib.Order.Lattice.Nat

/-!
What the exit codes of a run come to.

An outcome has a severity, and the outcome of a run is the most severe of what there is evidence of.
How the evidence is read depends on who finalises the run. One who ends it on purpose knows that it
was aborted, and expects that some engines are gone before they could say how they ended.
-/

namespace Honryu.Taurus

/-! ### Severity -/

def Outcome.severity : Outcome → ℕ
  | .passed => 0
  | .aborted => 1
  | .failed => 2
  | .error => 3
  | .unknown _ => 0

def ofSeverity : ℕ → Outcome
  | 0 => .passed
  | 1 => .aborted
  | 2 => .failed
  | _ => .error

theorem severity_le (o : Outcome) : o.severity ≤ 3 := by
  cases o <;> simp [Outcome.severity]

theorem severity_ofSeverity {n : ℕ} (h : n ≤ 3) : (ofSeverity n).severity = n := by
  match n, h with
  | 0, _ | 1, _ | 2, _ | 3, _ => rfl

theorem ofSeverity_severity_worstOutcome (l : List Outcome) :
    ofSeverity (worstOutcome l).severity = worstOutcome l := by
  unfold worstOutcome
  split_ifs <;> rfl

theorem severity_worstOutcome_cons (o : Outcome) (l : List Outcome) :
    (worstOutcome (o :: l)).severity = max o.severity (worstOutcome l).severity := by
  unfold worstOutcome
  cases o <;> simp only [List.mem_cons, reduceCtorEq, false_or, true_or, if_true] <;>
    split_ifs <;> simp [Outcome.severity]

/-- `WorstOutcome` is the most severe outcome, whatever order they are in. -/
theorem severity_worstOutcome_map {α : Type} [DecidableEq α] (f : α → Outcome) (l : List α) :
    (worstOutcome (l.map f)).severity = l.toFinset.sup fun a => (f a).severity := by
  induction l with
  | nil => rfl
  | cons a l ih =>
      rw [List.map_cons, severity_worstOutcome_cons, ih, List.toFinset_cons, Finset.sup_insert]

/-! ### Who finalises a run -/

inductive Finaliser
  /-- All shards have finished. -/
  | completed
  /-- The run is ended on purpose. -/
  | stopped
  /-- The engines finished without the run. -/
  | orphaned
  deriving DecidableEq

def Finaliser.weight : Finaliser → Option ℤ → ℕ
  | _, some code => (outcomeFromExitCode code).severity
  | .stopped, none => 0
  | _, none => Outcome.error.severity

/-- What is known without looking at the codes. No code at all is no evidence that a run has
passed. -/
def Finaliser.base (f : Finaliser) (codes : Finset (Option ℤ)) : ℕ :=
  match f with
  | .completed => if codes = ∅ then Outcome.error.severity else 0
  | _ => Outcome.aborted.severity

def Finaliser.rollUp (f : Finaliser) (codes : Finset (Option ℤ)) : Outcome :=
  ofSeverity (max (f.base codes) (codes.sup f.weight))

section RollUp

variable {f : Finaliser} {codes : Finset (Option ℤ)}

theorem weight_le (f : Finaliser) (code : Option ℤ) : f.weight code ≤ 3 := by
  cases code with
  | some code => exact severity_le _
  | none => cases f <;> simp [Finaliser.weight, Outcome.severity]

theorem base_le (f : Finaliser) (codes : Finset (Option ℤ)) : f.base codes ≤ 3 := by
  unfold Finaliser.base
  split
  · split_ifs <;> decide
  · decide

theorem severity_rollUp :
    (f.rollUp codes).severity = max (f.base codes) (codes.sup f.weight) :=
  severity_ofSeverity (max_le (base_le f codes) (Finset.sup_le fun c _ => weight_le f c))

theorem weight_le_severity_rollUp {code : Option ℤ} (h : code ∈ codes) :
    f.weight code ≤ (f.rollUp codes).severity := by
  rw [severity_rollUp]
  exact (Finset.le_sup h).trans (le_max_right _ _)

theorem eq_zero_of_severity {code : ℤ} (h : (outcomeFromExitCode code).severity = 0) : code = 0 := by
  unfold outcomeFromExitCode at h
  split_ifs at h with hzero
  · exact hzero
  all_goals cases h

theorem of_rollUp_eq_passed (h : f.rollUp codes = .passed) :
    f = .completed ∧ ∀ code ∈ codes, code = some 0 := by
  have hzero : max (f.base codes) (codes.sup f.weight) = 0 := by
    rw [← severity_rollUp, h]
    rfl
  obtain ⟨hbase, hsup⟩ := Nat.max_eq_zero_iff.mp hzero
  obtain rfl : f = .completed := by
    cases f with
    | completed => rfl
    | stopped => cases hbase
    | orphaned => cases hbase
  refine ⟨rfl, fun code hcode => ?_⟩
  have hweight : Finaliser.completed.weight code = 0 := Nat.le_zero.mp (hsup ▸ Finset.le_sup hcode)
  cases code with
  | none => cases hweight
  | some code => rw [eq_zero_of_severity hweight]

end RollUp

/-! ### What the finalisers compute -/

theorem combineOutcomes_eq (codes : List (Option ℤ)) :
    combineOutcomes (codes.map (·.getD (-1))) = Finaliser.completed.rollUp codes.toFinset := by
  unfold combineOutcomes
  split
  · rename_i hnil
    rw [List.map_eq_nil_iff.mp hnil]
    rfl
  · rename_i hne
    have hcodes : codes.toFinset ≠ ∅ := by
      rw [Ne, List.toFinset_eq_empty_iff]
      exact fun hnil => hne (by rw [hnil]; rfl)
    have hweight : ∀ code : Option ℤ,
        (outcomeFromExitCode (code.getD (-1))).severity = Finaliser.completed.weight code := by
      intro code
      cases code <;> rfl
    rw [← ofSeverity_severity_worstOutcome, List.map_map, severity_worstOutcome_map]
    simp only [Function.comp_apply, hweight, Finaliser.rollUp, Finaliser.base, if_neg hcodes,
      Nat.zero_max]

theorem worstOutcome_orphaned (codes : List (Option ℤ)) :
    worstOutcome (.aborted :: codes.map fun code => outcomeFromExitCode (code.getD (-1))) =
      Finaliser.orphaned.rollUp codes.toFinset := by
  have hweight : ∀ code : Option ℤ,
      (outcomeFromExitCode (code.getD (-1))).severity = Finaliser.orphaned.weight code := by
    intro code
    cases code <;> rfl
  rw [← ofSeverity_severity_worstOutcome, severity_worstOutcome_cons, severity_worstOutcome_map]
  simp only [hweight, Finaliser.rollUp, Finaliser.base]

theorem severity_worstOutcome_known (codes : List (Option ℤ)) :
    (worstOutcome ((codes.filterMap id).map outcomeFromExitCode)).severity =
      codes.toFinset.sup Finaliser.stopped.weight := by
  induction codes with
  | nil => rfl
  | cons code codes ih =>
      rw [List.toFinset_cons, Finset.sup_insert, ← ih]
      cases code with
      | none => exact (Nat.zero_max _).symm
      | some code => exact severity_worstOutcome_cons _ _

theorem worstOutcome_stopped (codes : List (Option ℤ)) :
    worstOutcome (.aborted :: (codes.filterMap id).map outcomeFromExitCode) =
      Finaliser.stopped.rollUp codes.toFinset := by
  rw [← ofSeverity_severity_worstOutcome, severity_worstOutcome_cons, severity_worstOutcome_known]
  rfl

end Honryu.Taurus
