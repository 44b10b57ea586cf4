import Mathlib.Algebra.Order.BigOperators.Group.List
import Mathlib.Algebra.Order.Ring.Int
import Mathlib.Data.List.Perm.Basic

/-!
Lists of non-negative integers: their sum, and the largest of them as a loop
finds it.
-/

namespace Extremes

variable {l : List ℤ} {n x : ℤ}

/-! ### The largest -/

theorem le_foldl_max : n ≤ l.foldl max n := by
  induction l generalizing n with
  | nil => exact le_rfl
  | cons y l ih => exact (le_max_left _ _).trans ih

theorem le_foldl_max_of_mem (h : x ∈ l) : x ≤ l.foldl max n := by
  induction l generalizing n with
  | nil => simp at h
  | cons y l ih =>
      rcases List.mem_cons.mp h with rfl | h
      · exact (le_max_right _ _).trans le_foldl_max
      · exact ih h

theorem foldl_max_mem : l.foldl max n = n ∨ l.foldl max n ∈ l := by
  induction l generalizing n with
  | nil => exact .inl rfl
  | cons y l ih =>
      rcases ih (n := max n y) with h | h
      · rw [List.foldl_cons, h]
        rcases max_choice n y with hn | hy
        · exact .inl hn
        · exact .inr (List.mem_cons.mpr (.inl hy))
      · exact .inr (List.mem_cons_of_mem _ h)

theorem foldl_max_le (hl : ∀ y ∈ l, y ≤ x) (hn : n ≤ x) : l.foldl max n ≤ x := by
  rcases foldl_max_mem (l := l) (n := n) with h | h
  · exact h.trans_le hn
  · exact hl _ h

theorem foldl_max_eq (hmem : x ∈ l) (hle : ∀ y ∈ l, y ≤ x) (hn : n ≤ x) : l.foldl max n = x :=
  le_antisymm (foldl_max_le hle hn) (le_foldl_max_of_mem hmem)

/-! ### The sum -/

theorem eq_zero_of_sum_eq_zero (hl : ∀ y ∈ l, 0 ≤ y) (hsum : l.sum = 0) (hx : x ∈ l) : x = 0 := by
  have hle := List.single_le_sum hl x hx
  exact le_antisymm (hsum ▸ hle) (hl x hx)

/-- The largest of positive numbers is their sum only if there is just one. -/
theorem foldl_max_eq_sum_iff (hl : ∀ y ∈ l, 0 < y) (hne : l ≠ []) :
    l.foldl max 0 = l.sum ↔ l.length = 1 := by
  constructor
  · intro h
    have hmem : l.foldl max 0 ∈ l := by
      obtain ⟨y, hy⟩ := List.exists_mem_of_ne_nil l hne
      refine foldl_max_mem.resolve_left fun hzero => ?_
      exact (hl y hy).not_ge ((le_foldl_max_of_mem hy).trans hzero.le)
    -- the others would add to it
    have hperm := List.perm_cons_erase hmem
    have hsum : (l.erase (l.foldl max 0)).sum = 0 := by
      have := hperm.sum_eq
      rw [List.sum_cons] at this
      omega
    have hrest : l.erase (l.foldl max 0) = [] := by
      rw [List.eq_nil_iff_forall_not_mem]
      intro y hy
      have hpos := hl y (List.mem_of_mem_erase hy)
      have hzero := eq_zero_of_sum_eq_zero
        (fun z hz => (hl z (List.mem_of_mem_erase hz)).le) hsum hy
      omega
    rw [hperm.length_eq, hrest, List.length_singleton]
  · intro h
    obtain ⟨y, rfl⟩ := List.length_eq_one_iff.mp h
    simp [(hl y List.mem_cons_self).le]

end Extremes
