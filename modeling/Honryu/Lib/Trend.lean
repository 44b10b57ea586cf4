import Mathlib

/-!
The sign of a least-squares slope, and means with weights, for a list of points.

The slope of a regression has the sign of the covariance, which is a sum over the pairs of points
(`cov_cons`). So it is known from how each pair lies: no pair rises, or each pair rises and one of
them strictly. The list may be spaced in any way. Of a weighted mean only bounds are needed: a bound
on each point is a bound on the mean.
-/

namespace Trend

variable {α : Type*} {K : Type*}

/-! ### Covariance -/

section Covariance

variable [CommRing K] (x y : α → K)

/-- The covariance of two figures of the points, times the square of their number. -/
def cov (l : List α) : K :=
  l.length * (l.map fun p => x p * y p).sum - (l.map x).sum * (l.map y).sum

/-- A point adds what it makes of each pair with the others. -/
theorem cov_cons (p : α) (l : List α) :
    cov x y (p :: l) = cov x y l + (l.map fun q => (x q - x p) * (y q - y p)).sum := by
  have hpairs : (l.map fun q => (x q - x p) * (y q - y p)).sum =
      (l.map fun q => x q * y q).sum - y p * (l.map x).sum - x p * (l.map y).sum +
        l.length * (x p * y p) := by
    induction l with
    | nil => simp
    | cons q l ih =>
        simp only [List.map_cons, List.sum_cons, ih, List.length_cons]
        push_cast
        ring
  rw [hpairs]
  simp only [cov, List.map_cons, List.sum_cons, List.length_cons]
  push_cast
  ring

theorem cov_map {β : Type*} (f : β → α) (l : List β) :
    cov x y (l.map f) = cov (fun p => x (f p)) (fun p => y (f p)) l := by
  simp only [cov, List.length_map, List.map_map, Function.comp_def]

/-- Where the points are counted from does not matter. -/
theorem cov_sub_const (c : K) (l : List α) : cov (fun p => x p - c) y l = cov x y l := by
  induction l with
  | nil => simp [cov]
  | cons p l ih => simp only [cov_cons, ih, sub_sub_sub_cancel_right]

theorem cov_mul_const (c : K) (l : List α) : cov x (fun p => c * y p) l = c * cov x y l := by
  induction l with
  | nil => simp [cov]
  | cons p l ih =>
      simp only [cov_cons, ih, mul_add, ← List.sum_map_mul_left]
      congr 3
      funext q
      ring

end Covariance

/-! ### Its sign -/

section Sign

variable [CommRing K] [LinearOrder K] [IsStrictOrderedRing K] {x y : α → K} {l : List α}

theorem cov_nonneg (h : l.Pairwise fun p q => 0 ≤ (x q - x p) * (y q - y p)) : 0 ≤ cov x y l := by
  induction h with
  | nil => simp [cov]
  | @cons p l hp _ ih =>
      rw [cov_cons]
      refine add_nonneg ih (List.sum_nonneg ?_)
      simpa using hp

theorem cov_nonpos (h : l.Pairwise fun p q => (x q - x p) * (y q - y p) ≤ 0) : cov x y l ≤ 0 := by
  have hneg : 0 ≤ cov x (fun p => -1 * y p) l := by
    refine cov_nonneg (h.imp fun {p q} hpq => ?_)
    linarith
  rw [cov_mul_const] at hneg
  linarith

/-- The covariance vanishes only if every pair does. -/
theorem pairwise_eq_zero (h : l.Pairwise fun p q => 0 ≤ (x q - x p) * (y q - y p))
    (hzero : cov x y l = 0) : l.Pairwise fun p q => (x q - x p) * (y q - y p) = 0 := by
  induction h with
  | nil => exact .nil
  | @cons p l hp hl ih =>
      have hnonneg : ∀ z ∈ l.map fun q => (x q - x p) * (y q - y p), 0 ≤ z := by simpa using hp
      rw [cov_cons, add_eq_zero_iff_of_nonneg (cov_nonneg hl) (List.sum_nonneg hnonneg)] at hzero
      refine .cons (fun q hq => ?_) (ih hzero.1)
      exact List.all_zero_of_le_zero_le_of_sum_eq_zero hnonneg hzero.2 (List.mem_map_of_mem hq)

theorem cov_pos (h : l.Pairwise fun p q => 0 ≤ (x q - x p) * (y q - y p)) {p q : α} (hp : p ∈ l)
    (hq : q ∈ l) (hpq : (x q - x p) * (y q - y p) ≠ 0) : 0 < cov x y l := by
  refine (cov_nonneg h).lt_of_ne' fun hzero => hpq ?_
  have hsymm : Std.Symm fun p q => (x q - x p) * (y q - y p) = 0 := by
    refine ⟨fun p q hpq => ?_⟩
    rw [← hpq]
    ring
  exact (pairwise_eq_zero h hzero).forall_of_forall (fun p _ => by simp) hp hq

end Sign

/-! ### Weighted means -/

section Mean

variable [Field K] [LinearOrder K] [IsStrictOrderedRing K] {s w : α → K} {l : List α} {m : K}

theorem weight_pos (hw : ∀ p ∈ l, 0 < w p) (hne : l ≠ []) : 0 < (l.map w).sum := by
  have hlt := List.sum_lt_sum_of_ne_nil hne (fun _ => (0 : K)) w hw
  simpa using hlt

/-- A mean is below what each point is below. -/
theorem mean_lt (hw : ∀ p ∈ l, 0 < w p) (hne : l ≠ []) (h : ∀ p ∈ l, s p / w p < m) :
    (l.map s).sum / (l.map w).sum < m := by
  rw [div_lt_iff₀ (weight_pos hw hne), ← List.sum_map_mul_left]
  exact List.sum_lt_sum_of_ne_nil hne _ _ fun p hp => (div_lt_iff₀ (hw p hp)).mp (h p hp)

theorem lt_mean (hw : ∀ p ∈ l, 0 < w p) (hne : l ≠ []) (h : ∀ p ∈ l, m < s p / w p) :
    m < (l.map s).sum / (l.map w).sum := by
  rw [lt_div_iff₀ (weight_pos hw hne), ← List.sum_map_mul_left]
  exact List.sum_lt_sum_of_ne_nil hne _ _ fun p hp => (lt_div_iff₀ (hw p hp)).mp (h p hp)

end Mean

end Trend
