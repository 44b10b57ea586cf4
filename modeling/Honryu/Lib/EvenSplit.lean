import Mathlib.Algebra.BigOperators.Ring.Finset

/-!
Splitting a whole number as evenly as possible.

Every part gets the quotient, and the remainder goes to the earliest parts, one
each. The parts add up to the whole, differ by at most one, and grow with it. If
every part is raised to at least one, they add up to the whole or to the number
of parts, whichever is larger.
-/

namespace EvenSplit

def share (total n i : ℕ) : ℕ := total / n + if i < total % n then 1 else 0

variable {total total' n i j : ℕ}

theorem share_le_succ : share total n i ≤ share total n j + 1 := by
  unfold share
  split <;> split <;> omega

theorem share_of_lt (h : total < n) : share total n i = if i < total then 1 else 0 := by
  rw [share, Nat.div_eq_of_lt h, Nat.mod_eq_of_lt h, zero_add]

theorem one_le_share (hn : 0 < n) (h : n ≤ total) : 1 ≤ share total n i :=
  Nat.le_trans (Nat.div_pos h hn) (Nat.le_add_right _ _)

/-- The last part gets nothing unless there is one for every part. -/
theorem one_le_share_last (hn : 0 < n) : 1 ≤ share total n (n - 1) ↔ n ≤ total := by
  refine ⟨fun h => ?_, one_le_share hn⟩
  by_contra hlt
  rw [share_of_lt (not_le.mp hlt), if_neg (by omega)] at h
  exact absurd h (by decide)

theorem share_mono (h : total ≤ total') : share total n i ≤ share total' n i := by
  unfold share
  have hdiv : total / n ≤ total' / n := Nat.div_le_div_right h
  rcases hdiv.eq_or_lt with heq | hlt
  · have hmod : total % n ≤ total' % n := by
      have h₁ := Nat.div_add_mod total n
      have h₂ := Nat.div_add_mod total' n
      rw [heq] at h₁
      omega
    rw [heq]
    split <;> split <;> omega
  · split <;> split <;> omega

theorem sum_share (hn : 0 < n) : ((List.range n).map (share total n)).sum = total := by
  have hmod : (Finset.range n).filter (· < total % n) = Finset.range (total % n) := by
    ext i
    have hlt : total % n < n := Nat.mod_lt _ hn
    simp only [Finset.mem_filter, Finset.mem_range]
    omega
  calc ((List.range n).map (share total n)).sum
      = ∑ i ∈ Finset.range n, (total / n + if i < total % n then 1 else 0) := rfl
    _ = n * (total / n) + total % n := by
        rw [Finset.sum_add_distrib, Finset.sum_const, Finset.card_range, nsmul_eq_mul, Nat.cast_id,
          Finset.sum_boole, hmod, Finset.card_range, Nat.cast_id]
    _ = total := Nat.div_add_mod total n

/-- Raising every part to at least one. -/
theorem sum_max_one_share (hn : 0 < n) :
    ((List.range n).map fun i => max 1 (share total n i)).sum = max total n := by
  by_cases h : n ≤ total
  · have hmap : (List.range n).map (fun i => max 1 (share total n i)) =
        (List.range n).map (share total n) :=
      List.map_congr_left fun i _ => max_eq_right (one_le_share hn h)
    rw [hmap, sum_share hn, max_eq_left h]
  · have hone : ∀ i, max 1 (share total n i) = 1 := by
      intro i
      rw [share_of_lt (not_le.mp h)]
      split <;> rfl
    simp [hone, max_eq_right (not_le.mp h).le]

end EvenSplit
