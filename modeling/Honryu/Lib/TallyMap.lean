import Mathlib

/-!
Finite maps whose entries are added up.

A *tally* is a finite map from keys to values of a commutative monoid, and
the only thing ever done to it is to add a value at a key. The map keeps the
keys it has been given: an entry that holds zero is still an entry, and a
missing key is not the key with value zero. That distinction is carried by
`Option`, made into a commutative monoid in which `none` is neutral.

The carrier is the ordered extensional map of the standard library, so two
tallies with the same entries are equal and listing a tally is listing it in
key order. Everything below reduces a question about maps to a question about
one key: `getElem?_bump`, `getElem?_merge` and `ext_getElem?` are the lemmas
that do so.
-/

open Std (ExtTreeMap LawfulEqCmp)

/-! ### Values that may be missing -/

/-- A missing value is neutral for addition. This is `WithZero`, read on the
type in which a lookup returns its result. -/
instance Option.instAddCommMonoidOfTally {V : Type*} [AddCommMonoid V] :
    AddCommMonoid (Option V) :=
  inferInstanceAs (AddCommMonoid (WithZero V))

section OptionSum

variable {V : Type*} [AddCommMonoid V]

@[simp] theorem Option.none_add (x : Option V) : none + x = x := zero_add x

@[simp] theorem Option.add_none (x : Option V) : x + none = x := add_zero x

@[simp] theorem Option.some_add_some (a b : V) : some a + some b = some (a + b) := rfl

theorem Option.add_eq_none {x y : Option V} : x + y = none ↔ x = none ∧ y = none := by
  cases x <;> cases y <;> simp

theorem Option.add_eq_left_iff {x y : Option V} :
    x + y = x ↔ ∀ v, y = some v → ∃ w, x = some w ∧ w + v = w := by
  cases x <;> cases y <;> simp

theorem Option.some_getD_add (x : Option V) (v : V) : some (x.getD 0 + v) = x + some v := by
  cases x <;> simp

end OptionSum

/-- The comparison of a linear order, as the maps of the standard library ask
for it. -/
instance LinearOrder.transCmp_compare {K : Type*} [LinearOrder K] :
    Std.TransCmp (compare : K → K → Ordering) :=
  inferInstance

instance LinearOrder.lawfulEqCmp_compare {K : Type*} [LinearOrder K] :
    LawfulEqCmp (compare : K → K → Ordering) :=
  inferInstance

/-- A finite map read as a running total per key. -/
abbrev TallyMap (K V : Type*) [LinearOrder K] := ExtTreeMap K V compare

namespace TallyMap

variable {K V W : Type*} [LinearOrder K]

theorem getElem?_insert_eq_ite (m : TallyMap K V) (k k' : K) (v : V) :
    (m.insert k v)[k']? = if k = k' then some v else m[k']? := by
  rw [ExtTreeMap.getElem?_insert]
  simp only [LawfulEqCmp.compare_eq_iff_eq]

/-! ### Adding at one key -/

section Bump

variable [AddCommMonoid V]

/-- `m[k] += v`, a missing entry counting as zero. -/
def bump (m : TallyMap K V) (k : K) (v : V) : TallyMap K V :=
  m.insert k (m.getD k 0 + v)

theorem getElem?_bump (m : TallyMap K V) (k k' : K) (v : V) :
    (m.bump k v)[k']? = m[k']? + if k = k' then some v else none := by
  rw [bump, getElem?_insert_eq_ite]
  by_cases h : k = k'
  · subst h
    cases hm : m[k]? with
    | none => simp [ExtTreeMap.getD_eq_getD_getElem?, hm]
    | some w => simp [ExtTreeMap.getD_eq_getD_getElem?, hm]
  · simp [h]

def bumpAll (m : TallyMap K V) (l : List (K × V)) : TallyMap K V :=
  l.foldl (fun acc p => acc.bump p.1 p.2) m

@[simp] theorem bumpAll_nil (m : TallyMap K V) : m.bumpAll [] = m := rfl

@[simp] theorem bumpAll_cons (m : TallyMap K V) (p : K × V) (l : List (K × V)) :
    m.bumpAll (p :: l) = (m.bump p.1 p.2).bumpAll l := rfl

def total (l : List (K × V)) (k : K) : Option V :=
  (l.map fun p => if p.1 = k then some p.2 else none).sum

@[simp] theorem total_nil (k : K) : total ([] : List (K × V)) k = none := rfl

@[simp] theorem total_cons (p : K × V) (l : List (K × V)) (k : K) :
    total (p :: l) k = (if p.1 = k then some p.2 else none) + total l k := by
  simp [total]

theorem getElem?_bumpAll (m : TallyMap K V) (l : List (K × V)) (k : K) :
    (m.bumpAll l)[k]? = m[k]? + total l k := by
  induction l generalizing m with
  | nil => simp
  | cons p l ih => rw [bumpAll_cons, ih, getElem?_bump, total_cons, add_assoc]

end Bump

/-! ### A map is the total of its own entries -/

theorem ext_getElem? {m o : TallyMap K V} (h : ∀ k : K, m[k]? = o[k]?) : m = o :=
  ExtTreeMap.ext_getElem? h

theorem mem_toList_iff {m : TallyMap K V} {k : K} {v : V} :
    (k, v) ∈ m.toList ↔ m[k]? = some v :=
  ExtTreeMap.mem_toList_iff_getElem?_eq_some

theorem pairwise_toList (m : TallyMap K V) :
    m.toList.Pairwise fun p q => p.1 < q.1 := by
  refine (ExtTreeMap.ordered_keys_toList (t := m)).imp ?_
  intro a b hab
  exact compare_lt_iff_lt.mp hab

theorem nodup_toList (m : TallyMap K V) : (m.toList.map Prod.fst).Nodup := by
  rw [List.Nodup, List.pairwise_map]
  exact m.pairwise_toList.imp fun h => h.ne

/-- A map with one entry lists it. -/
theorem toList_eq_singleton {m : TallyMap K V} {k : K} {v : V}
    (h : ∀ k' : K, m[k']? = if k = k' then some v else none) : m.toList = [(k, v)] := by
  refine List.perm_singleton.mp ((List.perm_ext_iff_of_nodup ?_ (List.nodup_singleton _)).mpr ?_)
  · exact List.Nodup.of_map _ m.nodup_toList
  · rintro ⟨k', v'⟩
    rw [mem_toList_iff, h, List.mem_singleton, Prod.mk.injEq]
    by_cases hk : k = k'
    · simp [hk, eq_comm]
    · simp [hk, Ne.symm hk]

/-- Writing the entries of a map into an empty one, in any order, rebuilds it. -/
theorem insertMany_of_perm {m : TallyMap K V} {l : List (K × V)} (hl : l.Perm m.toList) :
    (∅ : TallyMap K V).insertMany l = m := by
  have hdistinct : l.Pairwise fun a b => ¬compare a.1 b.1 = .eq := by
    refine (hl.symm.pairwise_iff fun {a b} hab hba => hab ?_).mp
      ExtTreeMap.distinct_keys_toList
    rw [LawfulEqCmp.compare_eq_iff_eq] at hba ⊢
    exact hba.symm
  refine ext_getElem? fun k => ?_
  cases hm : m[k]? with
  | some v =>
      exact ExtTreeMap.getElem?_insertMany_list_of_mem (LawfulEqCmp.compare_eq_iff_eq.mpr rfl)
        hdistinct (hl.mem_iff.mpr (mem_toList_iff.mpr hm))
  | none =>
      rw [ExtTreeMap.getElem?_insertMany_list_of_contains_eq_false, ExtTreeMap.getElem?_empty]
      rw [List.contains_eq_mem, decide_eq_false_iff_not, (hl.map _).mem_iff,
        ExtTreeMap.map_fst_toList_eq_keys, ExtTreeMap.mem_keys, ExtTreeMap.mem_iff_isSome_getElem?,
        hm]
      simp

theorem insertMany_toList (m : TallyMap K V) : (∅ : TallyMap K V).insertMany m.toList = m :=
  insertMany_of_perm (.refl _)

instance : Zero (TallyMap K V) := ⟨∅⟩

theorem empty_eq_zero : (∅ : TallyMap K V) = 0 := rfl

@[simp] theorem getElem?_zero (k : K) : (0 : TallyMap K V)[k]? = none :=
  ExtTreeMap.getElem?_empty

theorem eq_zero_iff {m : TallyMap K V} : m = 0 ↔ ∀ k : K, m[k]? = none := by
  constructor
  · rintro rfl k
    simp
  · intro h
    exact ext_getElem? fun k => by simp [h k]

section Merge

variable [AddCommMonoid V]

/-- Entries with distinct keys have at most one entry at a key, so their total
there is that entry. -/
theorem total_eq_some {l : List (K × V)} (hl : (l.map Prod.fst).Nodup)
    {k : K} {v : V} (h : (k, v) ∈ l) : total l k = some v := by
  induction l with
  | nil => simp at h
  | cons p l ih =>
      rw [List.map_cons, List.nodup_cons] at hl
      rcases List.mem_cons.mp h with rfl | h
      · have hrest : total l k = none := by
          refine List.sum_eq_zero fun x hx => ?_
          obtain ⟨q, hq, rfl⟩ := List.mem_map.mp hx
          exact if_neg fun hk => hl.1 (List.mem_map.mpr ⟨q, hq, hk⟩)
        simp [hrest]
      · have hne : p.1 ≠ k := fun hk => hl.1 (List.mem_map.mpr ⟨_, h, hk.symm⟩)
        simp [hne, ih hl.2 h]

theorem total_eq_none {l : List (K × V)} {k : K} (h : ∀ v, (k, v) ∉ l) :
    total l k = none := by
  refine List.sum_eq_zero fun x hx => ?_
  obtain ⟨q, hq, rfl⟩ := List.mem_map.mp hx
  refine if_neg fun hk => h q.2 ?_
  rw [← hk]
  exact hq

theorem total_toList (m : TallyMap K V) (k : K) : total m.toList k = m[k]? := by
  cases hm : m[k]? with
  | none =>
      refine total_eq_none fun v hv => ?_
      rw [mem_toList_iff, hm] at hv
      cases hv
  | some v => exact total_eq_some m.nodup_toList (mem_toList_iff.mpr hm)

/-- `for k, v := range o { m[k] += v }`. The loop adds, so the order in which
the entries of `o` are visited does not show; key order is taken. -/
def merge (m o : TallyMap K V) : TallyMap K V :=
  o.foldl (fun acc k v => acc.bump k v) m

theorem merge_eq_bumpAll (m o : TallyMap K V) : m.merge o = m.bumpAll o.toList := by
  rw [merge, ExtTreeMap.foldl_eq_foldl_toList]
  rfl

theorem getElem?_merge (m o : TallyMap K V) (k : K) :
    (m.merge o)[k]? = m[k]? + o[k]? := by
  rw [merge_eq_bumpAll, getElem?_bumpAll, total_toList]

instance : Add (TallyMap K V) := ⟨merge⟩

theorem merge_eq_add (m o : TallyMap K V) : m.merge o = m + o := rfl

@[simp] theorem getElem?_add (m o : TallyMap K V) (k : K) :
    (m + o)[k]? = m[k]? + o[k]? :=
  getElem?_merge m o k

instance : AddCommMonoid (TallyMap K V) where
  add_assoc a b c := ext_getElem? fun k => by simp [add_assoc]
  zero_add a := ext_getElem? fun k => by simp
  add_zero a := ext_getElem? fun k => by simp
  add_comm a b := ext_getElem? fun k => by simp [add_comm]
  nsmul := nsmulRec

def single (k : K) (v : V) : TallyMap K V := bump 0 k v

theorem getElem?_single (k k' : K) (v : V) :
    (single k v)[k']? = if k = k' then some v else none := by
  simp [single, getElem?_bump]

theorem single_ne_zero (k : K) (v : V) : single k v ≠ 0 := by
  intro h
  have hentry := getElem?_single k k v
  rw [h, getElem?_zero, if_pos rfl] at hentry
  cases hentry

theorem single_add (k : K) (a b : V) : single k (a + b) = single k a + single k b := by
  refine ext_getElem? fun k' => ?_
  simp only [getElem?_add, getElem?_single]
  split <;> simp

theorem bump_eq_add_single (m : TallyMap K V) (k : K) (v : V) :
    m.bump k v = m + single k v := by
  refine ext_getElem? fun k' => ?_
  rw [getElem?_bump, getElem?_add, getElem?_single]

theorem insert_getD_add (m : TallyMap K V) (k : K) (v : V) :
    m.insert k ((m[k]?).getD 0 + v) = m + single k v := by
  rw [← bump_eq_add_single, bump, ExtTreeMap.getD_eq_getD_getElem?]

theorem bumpAll_eq_add_sum (m : TallyMap K V) (l : List (K × V)) :
    m.bumpAll l = m + (l.map fun p => single p.1 p.2).sum := by
  induction l generalizing m with
  | nil => simp
  | cons p l ih => rw [bumpAll_cons, ih, bump_eq_add_single, List.map_cons, List.sum_cons, add_assoc]

theorem getElem?_sum_single (l : List (K × V)) (k : K) :
    ((l.map fun p => single p.1 p.2).sum)[k]? = total l k := by
  have h := getElem?_bumpAll (0 : TallyMap K V) l k
  rwa [bumpAll_eq_add_sum, zero_add, getElem?_zero, Option.none_add] at h

/-- What was added up key by key has the keys of what was put in. -/
theorem getElem?_sum_single_eq_none {A : Type*} {key : A → K} {val : A → V} {l : List A} {k : K} :
    ((l.map fun a => single (key a) (val a)).sum)[k]? = none ↔ ∀ a ∈ l, key a ≠ k := by
  induction l with
  | nil => simp
  | cons a l ih =>
      rw [List.map_cons, List.sum_cons, getElem?_add, Option.add_eq_none, ih, getElem?_single,
        List.forall_mem_cons]
      simp

theorem sum_single_toList (m : TallyMap K V) :
    (m.toList.map fun p => single p.1 p.2).sum = m :=
  ext_getElem? fun k => by rw [getElem?_sum_single, total_toList]

theorem forall_add {P : V → Prop} (hP : ∀ a b, P a → P b → P (a + b)) {m o : TallyMap K V}
    (hm : ∀ (k : K) v, m[k]? = some v → P v) (ho : ∀ (k : K) v, o[k]? = some v → P v) :
    ∀ (k : K) v, (m + o)[k]? = some v → P v := by
  intro k v hv
  rw [getElem?_add] at hv
  cases hmk : m[k]? with
  | none => exact ho k v (by rwa [hmk, Option.none_add] at hv)
  | some a =>
      cases hok : o[k]? with
      | none => exact hm k v (by rwa [hok, Option.add_none] at hv)
      | some b =>
          rw [hmk, hok, Option.some_add_some, Option.some_inj] at hv
          exact hv ▸ hP a b (hm k a hmk) (ho k b hok)

theorem forall_single {P : V → Prop} {k : K} {v : V} (hv : P v) :
    ∀ (k' : K) w, (single k v)[k']? = some w → P w := by
  intro k' w hw
  rw [getElem?_single] at hw
  split at hw
  · exact Option.some_inj.mp hw ▸ hv
  · cases hw

/-- Adding a tally changes nothing when every entry of it is already there and
changes nothing where it is added. -/
theorem add_eq_left_iff {m o : TallyMap K V} :
    m + o = m ↔ ∀ (k : K) v, o[k]? = some v → ∃ w, m[k]? = some w ∧ w + v = w := by
  constructor
  · intro h k
    rw [← Option.add_eq_left_iff, ← getElem?_add, h]
  · intro h
    refine ext_getElem? fun k => ?_
    rw [getElem?_add]
    exact Option.add_eq_left_iff.mpr (h k)

/-- Only the empty tallies add up to the empty one: entries never cancel. -/
theorem add_eq_zero {m o : TallyMap K V} : m + o = 0 ↔ m = 0 ∧ o = 0 := by
  simp only [eq_zero_iff, getElem?_add, Option.add_eq_none, forall_and]

end Merge

/-! ### Mapping the values -/

section MapValues

theorem keys_map_getD (m : TallyMap K V) (d : V) (f : K → V → W) :
    (m.keys.map fun k => f k (m.getD k d)) = m.toList.map fun p => f p.1 p.2 := by
  rw [← ExtTreeMap.map_fst_toList_eq_keys, List.map_map]
  refine List.map_congr_left fun p hp => ?_
  simp [ExtTreeMap.getD_eq_getD_getElem?, mem_toList_iff.mp hp]

def mapValues (f : V → W) (m : TallyMap K V) : TallyMap K W := m.map fun _ v => f v

@[simp] theorem getElem?_mapValues (f : V → W) (m : TallyMap K V) (k : K) :
    (m.mapValues f)[k]? = (m[k]?).map f := by
  simp [mapValues]

theorem toList_mapValues (f : V → W) (m : TallyMap K V) :
    (m.mapValues f).toList = m.toList.map fun p => (p.1, f p.2) :=
  ExtTreeMap.toList_map

theorem keys_mapValues (f : V → W) (m : TallyMap K V) : (m.mapValues f).keys = m.keys := by
  rw [← ExtTreeMap.map_fst_toList_eq_keys, toList_mapValues, List.map_map,
    ← ExtTreeMap.map_fst_toList_eq_keys]
  rfl

theorem mapValues_mapValues {X : Type*} (f : V → W) (g : W → X) (m : TallyMap K V) :
    (m.mapValues f).mapValues g = m.mapValues (g ∘ f) :=
  ext_getElem? fun k => by simp

theorem mapValues_id (m : TallyMap K V) : m.mapValues id = m :=
  ext_getElem? fun k => by simp

@[simp] theorem mapValues_zero (f : V → W) : (0 : TallyMap K V).mapValues f = 0 :=
  ext_getElem? fun k => by simp

theorem mapValues_add [AddCommMonoid V] [AddCommMonoid W] (f : V →+ W) (m o : TallyMap K V) :
    (m + o).mapValues f = m.mapValues f + o.mapValues f := by
  refine ext_getElem? fun k => ?_
  simp only [getElem?_mapValues, getElem?_add]
  cases m[k]? <;> cases o[k]? <;> simp

theorem mapValues_single [AddCommMonoid V] [AddCommMonoid W] (f : V → W) (k : K) (v : V) :
    (single k v).mapValues f = single k (f v) := by
  refine ext_getElem? fun k' => ?_
  simp only [getElem?_mapValues, getElem?_single]
  split <;> rfl

theorem mapValues_sum_single {A : Type*} [AddCommMonoid V] [AddCommMonoid W] (f : V →+ W)
    (key : A → K) (val : A → V) (l : List A) :
    ((l.map fun a => single (key a) (val a)).sum).mapValues f =
      (l.map fun a => single (key a) (f (val a))).sum := by
  induction l with
  | nil => exact mapValues_zero f
  | cons a l ih => simp only [List.map_cons, List.sum_cons, mapValues_add, mapValues_single, ih]

theorem sum_single_map_toList [AddCommMonoid W] (f : V → W) (m : TallyMap K V) :
    (m.toList.map fun p => single p.1 (f p.2)).sum = m.mapValues f := by
  have hmap : (m.toList.map fun p => single p.1 (f p.2)) =
      (m.toList.map fun p => (p.1, f p.2)).map fun p => single p.1 p.2 := by
    rw [List.map_map]
    rfl
  refine ext_getElem? fun k => ?_
  rw [hmap, getElem?_sum_single, getElem?_mapValues]
  cases hm : m[k]? with
  | none =>
      refine total_eq_none fun v hv => ?_
      obtain ⟨⟨k', w⟩, hp, heq⟩ := List.mem_map.mp hv
      obtain ⟨rfl, -⟩ := Prod.mk.inj heq
      rw [mem_toList_iff.mp hp] at hm
      cases hm
  | some v =>
      refine total_eq_some ?_ (List.mem_map.mpr ⟨(k, v), mem_toList_iff.mpr hm, rfl⟩)
      rw [List.map_map]
      exact m.nodup_toList

end MapValues

/-! ### Grouping -/

section GroupBy

variable {A : Type*} (key : A → K)

/-- `for _, x := range xs { m[key(x)] = append(m[key(x)], x) }` -/
def groupBy (xs : List A) : TallyMap K (List A) :=
  xs.foldl (fun m x => m.insert (key x) (m.getD (key x) [] ++ [x])) ∅

theorem mapValues_foldl_groupBy [AddCommMonoid W] (f : A → W) (m : TallyMap K (List A))
    (xs : List A) :
    (xs.foldl (fun m x => m.insert (key x) (m.getD (key x) [] ++ [x])) m).mapValues
        (fun l => (l.map f).sum) =
      m.mapValues (fun l => (l.map f).sum) + (xs.map fun x => single (key x) (f x)).sum := by
  induction xs generalizing m with
  | nil => simp
  | cons x xs ih =>
      rw [List.foldl_cons, ih, List.map_cons, List.sum_cons, ← add_assoc]
      congr 1
      rw [← insert_getD_add]
      refine ext_getElem? fun k => ?_
      simp only [getElem?_mapValues, ExtTreeMap.getElem?_insert,
        ExtTreeMap.getD_eq_getD_getElem?]
      split
      · cases m[key x]? <;> simp
      · rfl

theorem getElem?_foldl_groupBy (m : TallyMap K (List A)) (xs : List A) (k : K) :
    (xs.foldl (fun m x => m.insert (key x) (m.getD (key x) [] ++ [x])) m)[k]? =
      if (xs.filter fun x => key x = k) = [] then m[k]?
      else some (m.getD k [] ++ xs.filter fun x => key x = k) := by
  induction xs generalizing m with
  | nil => rfl
  | cons x xs ih =>
      rw [List.foldl_cons, ih]
      by_cases h : key x = k
      · subst h
        simp only [decide_true, List.filter_cons_of_pos, reduceCtorEq, if_false,
          getElem?_insert_eq_ite, if_true, ExtTreeMap.getD_eq_getD_getElem?, Option.getD_some,
          List.append_assoc, List.singleton_append]
        split
        case isTrue hnil => rw [hnil]
        case isFalse => rfl
      · simp only [h, decide_false, Bool.false_eq_true, not_false_eq_true,
          List.filter_cons_of_neg, getElem?_insert_eq_ite, if_false,
          ExtTreeMap.getD_eq_getD_getElem?]

theorem getElem?_groupBy (xs : List A) (k : K) :
    (groupBy key xs)[k]? =
      if (xs.filter fun x => key x = k) = [] then none
      else some (xs.filter fun x => key x = k) := by
  rw [groupBy, getElem?_foldl_groupBy]
  simp

theorem filter_key_of_increasing {xs : List A} (h : xs.Pairwise fun x y => key x < key y) {x : A}
    (hx : x ∈ xs) : (xs.filter fun y => key y = key x) = [x] := by
  induction xs with
  | nil => simp at hx
  | cons a xs ih =>
      rw [List.pairwise_cons] at h
      rcases List.mem_cons.mp hx with rfl | hx
      · have hrest : (xs.filter fun y => key y = key x) = [] := by
          simpa using fun y hy => (h.1 y hy).ne'
        rw [List.filter_cons_of_pos (by simp), hrest]
      · rw [List.filter_cons_of_neg (by simpa using (h.1 x hx).ne), ih h.2 hx]

/-- Grouping by a key that increases makes every element a group. -/
theorem toList_groupBy_of_increasing {xs : List A} (h : xs.Pairwise fun x y => key x < key y) :
    (groupBy key xs).toList = xs.map fun x => (key x, [x]) := by
  have hsorted : (xs.map fun x => (key x, [x])).Pairwise fun p q => p.1 < q.1 :=
    List.pairwise_map.mpr h
  have hmem (p : K × List A) :
      p ∈ (groupBy key xs).toList ↔ p ∈ xs.map fun x => (key x, [x]) := by
    rw [mem_toList_iff, getElem?_groupBy, List.mem_map]
    constructor
    · intro hp
      split at hp
      · cases hp
      case isFalse hne =>
        obtain ⟨x, hx⟩ := List.exists_mem_of_ne_nil _ hne
        obtain ⟨hxs, hkey⟩ := List.mem_filter.mp hx
        have hkey : key x = p.1 := by simpa using hkey
        rw [← hkey, filter_key_of_increasing key h hxs] at hp
        exact ⟨x, hxs, Prod.ext hkey (Option.some_inj.mp hp)⟩
    · rintro ⟨x, hx, rfl⟩
      rw [filter_key_of_increasing key h hx]
      rfl
  refine List.Perm.eq_of_pairwise (fun p q _ _ hpq hqp => absurd (hpq.trans hqp) (lt_irrefl _))
    (pairwise_toList _) hsorted ?_
  refine (List.perm_ext_iff_of_nodup ?_ ?_).mpr hmem
  · exact (pairwise_toList _).imp fun hlt heq => (heq ▸ hlt).false
  · exact hsorted.imp fun hlt heq => (heq ▸ hlt).false

theorem mapValues_groupBy [AddCommMonoid W] (f : A → W) (xs : List A) :
    (groupBy key xs).mapValues (fun l => (l.map f).sum) =
      (xs.map fun x => single (key x) (f x)).sum := by
  have h := mapValues_foldl_groupBy key f ∅ xs
  rw [groupBy, h]
  refine ext_getElem? fun k => ?_
  simp

end GroupBy

end TallyMap
