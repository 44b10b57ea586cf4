import Honryu.Lib.TallyMap

/-!
The sum over all entries of a map. It is a sum over any set of keys that covers
the map, a missing entry counting as zero; so two maps that differ only at some
keys differ in their sums by what differs there.
-/

open Std (ExtTreeMap)

namespace TallyMap

variable {K R M : Type*} [LinearOrder K] [AddCommMonoid M]

def sumBy (f : R → M) (t : TallyMap K R) : M := (t.toList.map fun p => f p.2).sum

def valueAt (f : R → M) (t : TallyMap K R) (k : K) : M := (t[k]?).elim 0 f

def keySet (t : TallyMap K R) : Finset K := t.keys.toFinset

theorem mem_keySet {t : TallyMap K R} {k : K} : k ∈ t.keySet ↔ t[k]? ≠ none := by
  rw [keySet, List.mem_toFinset, ExtTreeMap.mem_keys, ExtTreeMap.mem_iff_isSome_getElem?,
    Option.isSome_iff_ne_none]

theorem valueAt_of_notMem (f : R → M) {t : TallyMap K R} {k : K} (h : k ∉ t.keySet) :
    t.valueAt f k = 0 := by
  rw [mem_keySet, not_not] at h
  rw [valueAt, h, Option.elim_none]

theorem sumBy_eq_sum (f : R → M) {t : TallyMap K R} {S : Finset K} (hS : t.keySet ⊆ S) :
    t.sumBy f = ∑ k ∈ S, t.valueAt f k := by
  have hlist : t.sumBy f = (t.keys.map (t.valueAt f)).sum := by
    rw [← ExtTreeMap.map_fst_toList_eq_keys, List.map_map, sumBy]
    refine congrArg List.sum (List.map_congr_left fun p hp => ?_)
    simp [valueAt, mem_toList_iff.mp hp]
  rw [← Finset.sum_subset hS fun k _ hk => valueAt_of_notMem f hk, keySet,
    List.sum_toFinset _ ExtTreeMap.nodup_keys, hlist]

theorem keySet_add {V : Type*} [AddCommMonoid V] (t u : TallyMap K V) :
    (t + u).keySet = t.keySet ∪ u.keySet := by
  ext k
  rw [Finset.mem_union, mem_keySet, mem_keySet, mem_keySet, getElem?_add, Ne, Option.add_eq_none,
    not_and_or]

theorem valueAt_add {V : Type*} [AddCommMonoid V] (f : V →+ M) (t u : TallyMap K V) (k : K) :
    (t + u).valueAt f k = t.valueAt f k + u.valueAt f k := by
  simp only [valueAt, getElem?_add]
  cases t[k]? <;> cases u[k]? <;> simp

theorem valueAt_single {V : Type*} [AddCommMonoid V] (f : V → M) (k k' : K) (v : V) :
    (single k v).valueAt f k' = if k = k' then f v else 0 := by
  rw [valueAt, getElem?_single]
  split <;> rfl

theorem sumBy_add {V : Type*} [AddCommMonoid V] (f : V →+ M) (t u : TallyMap K V) :
    (t + u).sumBy f = t.sumBy f + u.sumBy f := by
  rw [sumBy_eq_sum f (keySet_add t u).le, sumBy_eq_sum f Finset.subset_union_left,
    sumBy_eq_sum f Finset.subset_union_right, ← Finset.sum_add_distrib]
  exact Finset.sum_congr rfl fun k _ => valueAt_add f t u k

theorem sumBy_single {V : Type*} [AddCommMonoid V] (f : V →+ M) (k : K) (v : V) :
    (single k v).sumBy f = f v := by
  have hcover : (single k v).keySet ⊆ {k} := by
    intro k' hk
    rw [mem_keySet, getElem?_single] at hk
    by_contra hne
    exact hk (if_neg fun h => hne (Finset.mem_singleton.mpr h.symm))
  rw [sumBy_eq_sum f hcover, Finset.sum_singleton, valueAt, getElem?_single, if_pos rfl,
    Option.elim_some]

/-- What was added up key by key comes to what was put in. -/
theorem sumBy_sum_single {A V : Type*} [AddCommMonoid V] (f : V →+ M) (key : A → K) (val : A → V)
    (l : List A) :
    ((l.map fun a => single (key a) (val a)).sum).sumBy f = (l.map fun a => f (val a)).sum := by
  induction l with
  | nil => rfl
  | cons a l ih =>
      rw [List.map_cons, List.sum_cons, sumBy_add, sumBy_single, ih, List.map_cons, List.sum_cons]

theorem sumBy_eq_add_sum {G : Type*} [AddCommGroup G] (f : R → G) {t t' : TallyMap K R}
    {ks : Finset K} (hout : ∀ k : K, k ∉ ks → t'[k]? = t[k]?) :
    t'.sumBy f = t.sumBy f + ∑ k ∈ ks, (t'.valueAt f k - t.valueAt f k) := by
  have hcover : t'.keySet ⊆ t.keySet ∪ ks := by
    intro k hk
    by_cases hks : k ∈ ks
    · exact Finset.mem_union_right _ hks
    · rw [mem_keySet, hout k hks, ← mem_keySet] at hk
      exact Finset.mem_union_left _ hk
  have hrest : ∀ k ∈ t.keySet ∪ ks, k ∉ ks → t'.valueAt f k - t.valueAt f k = 0 := by
    intro k _ hks
    rw [valueAt, valueAt, hout k hks, sub_self]
  rw [sumBy_eq_sum f hcover, sumBy_eq_sum f (t := t) Finset.subset_union_left,
    Finset.sum_subset Finset.subset_union_right hrest, ← Finset.sum_add_distrib]
  exact Finset.sum_congr rfl fun k _ => (add_sub_cancel _ _).symm

end TallyMap
