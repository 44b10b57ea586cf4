import Honryu.Lib.TallySum
import Mathlib.Algebra.Order.BigOperators.Group.List

/-!
Quantiles of weighted keys.

The keys of a list have weights, and the weight up to a key is that of all keys that are not above
it. Looking through the keys in ascending order for the first one up to which there is a certain
weight finds the least bound up to which there is this weight, among all bounds and not only among
the keys. With weights that are not negative this is a connection between bounds and weights: what
is found is at most a bound just if there is enough weight up to the bound.
-/

open Std (ExtTreeMap)

namespace Quantile

variable {K : Type*} [LinearOrder K] (weight : K → ℤ)

/-- The weight up to a bound. -/
def upTo (keys : List K) (bound : K) : ℤ := ((keys.filter (· ≤ bound)).map weight).sum

/-- The first key up to which some weight is reached, after what was seen before. -/
def search (wanted : ℤ) : List K → ℤ → Option K
  | [], _ => none
  | k :: keys, seen =>
      if wanted ≤ seen + weight k then some k else search wanted keys (seen + weight k)

variable {weight}

theorem upTo_cons (k : K) (keys : List K) (bound : K) :
    upTo weight (k :: keys) bound = (if k ≤ bound then weight k else 0) + upTo weight keys bound := by
  rw [upTo, List.filter_cons]
  by_cases h : k ≤ bound
  · simp [upTo, h]
  · simp [upTo, h]

theorem upTo_eq_zero {keys : List K} {bound : K} (h : ∀ k ∈ keys, bound < k) :
    upTo weight keys bound = 0 := by
  have hnone : keys.filter (· ≤ bound) = [] :=
    List.filter_eq_nil_iff.mpr fun k hk => by simpa using h k hk
  rw [upTo, hnone]
  rfl

theorem upTo_eq_sum {keys : List K} {bound : K} (h : ∀ k ∈ keys, k ≤ bound) :
    upTo weight keys bound = (keys.map weight).sum := by
  rw [upTo, List.filter_eq_self.mpr fun k hk => decide_eq_true (h k hk)]

theorem upTo_mono {keys : List K} (hweight : ∀ k ∈ keys, 0 ≤ weight k) {b b' : K} (h : b ≤ b') :
    upTo weight keys b ≤ upTo weight keys b' := by
  induction keys with
  | nil => exact le_refl _
  | cons k keys ih =>
      obtain ⟨hk, hkeys⟩ := List.forall_mem_cons.mp hweight
      rw [upTo_cons, upTo_cons]
      refine add_le_add ?_ (ih hkeys)
      split_ifs with hle hle'
      · exact le_refl _
      · exact absurd (hle.trans h) hle'
      · exact hk
      · exact le_refl _

/-- What a search comes to: a key up to which the weight is reached, and below which it is not; or
it is reached nowhere. -/
def Finds (weight : K → ℤ) (wanted seen : ℤ) (keys : List K) : Option K → Prop
  | some k => k ∈ keys ∧ wanted ≤ seen + upTo weight keys k ∧
      ∀ bound, wanted ≤ seen + upTo weight keys bound → k ≤ bound
  | none => ∀ bound, seen + upTo weight keys bound < wanted

theorem finds_search {wanted : ℤ} {keys : List K} (hsorted : keys.Pairwise (· < ·)) {seen : ℤ}
    (hseen : seen < wanted) : Finds weight wanted seen keys (search weight wanted keys seen) := by
  induction keys generalizing seen with
  | nil => exact fun bound => by simpa [upTo] using hseen
  | cons k keys ih =>
      obtain ⟨hk, hkeys⟩ := List.pairwise_cons.mp hsorted
      -- below the first key there is nothing
      have hbelow : ∀ {bound}, wanted ≤ seen + upTo weight (k :: keys) bound → k ≤ bound := by
        intro bound hbound
        by_contra hlt
        rw [upTo_cons, if_neg hlt, upTo_eq_zero fun k' hk' => (not_le.mp hlt).trans (hk k' hk')]
          at hbound
        omega
      rw [search]
      split
      · rename_i hreached
        refine ⟨List.mem_cons_self, ?_, fun bound => hbelow⟩
        rw [upTo_cons, if_pos le_rfl, upTo_eq_zero hk, add_zero]
        exact hreached
      · rename_i hreached
        have hrest := ih hkeys (not_le.mp hreached)
        have hshift : ∀ {bound}, k ≤ bound →
            seen + upTo weight (k :: keys) bound = seen + weight k + upTo weight keys bound := by
          intro bound hbound
          rw [upTo_cons, if_pos hbound, add_assoc]
        cases hfound : search weight wanted keys (seen + weight k) with
        | none =>
            rw [hfound] at hrest
            intro bound
            by_contra hle
            rw [not_lt] at hle
            have hbound := hbelow hle
            rw [hshift hbound] at hle
            exact (hrest bound).not_ge hle
        | some found =>
            rw [hfound] at hrest
            obtain ⟨hmem, henough, hleast⟩ := hrest
            refine ⟨List.mem_cons_of_mem _ hmem, ?_, fun bound hbound => hleast bound ?_⟩
            · rw [hshift (hk found hmem).le]
              exact henough
            · rwa [hshift (hbelow hbound)] at hbound

end Quantile

namespace TallyMap

variable {K : Type*} [LinearOrder K]

/-- The counts up to a bound. -/
def upTo (m : TallyMap K ℤ) (bound : K) : ℤ := Quantile.upTo (m.getD · 0) m.keys bound

theorem pairwise_keys (m : TallyMap K ℤ) : m.keys.Pairwise (· < ·) :=
  ExtTreeMap.ordered_keys.imp compare_lt_iff_lt.mp

theorem getD_eq_zero {m : TallyMap K ℤ} {k : K} (h : k ∉ m.keySet) : m.getD k 0 = 0 := by
  rw [mem_keySet, not_not] at h
  rw [ExtTreeMap.getD_eq_getD_getElem?, h, Option.getD_none]

theorem upTo_eq_sum_finset (m : TallyMap K ℤ) (bound : K) {S : Finset K} (hS : m.keySet ⊆ S) :
    m.upTo bound = ∑ k ∈ S with k ≤ bound, m.getD k 0 := by
  have hkeys : (m.keys.filter (· ≤ bound)).toFinset = m.keySet.filter (· ≤ bound) := by
    ext k
    simp [keySet]
  rw [upTo, Quantile.upTo, ← List.sum_toFinset _ (ExtTreeMap.nodup_keys.filter _), hkeys]
  refine Finset.sum_subset (Finset.filter_subset_filter _ hS) fun k hk hk' => getD_eq_zero ?_
  rw [Finset.mem_filter] at hk hk'
  exact fun hmem => hk' ⟨hmem, hk.2⟩

theorem getD_add (m o : TallyMap K ℤ) (k : K) : (m + o).getD k 0 = m.getD k 0 + o.getD k 0 := by
  simp only [ExtTreeMap.getD_eq_getD_getElem?, getElem?_add]
  cases m[k]? <;> cases o[k]? <;> simp

theorem upTo_add (m o : TallyMap K ℤ) (bound : K) :
    (m + o).upTo bound = m.upTo bound + o.upTo bound := by
  rw [upTo_eq_sum_finset _ _ (keySet_add m o).le, upTo_eq_sum_finset m _ Finset.subset_union_left,
    upTo_eq_sum_finset o _ Finset.subset_union_right, ← Finset.sum_add_distrib]
  exact Finset.sum_congr rfl fun k _ => getD_add m o k

end TallyMap
