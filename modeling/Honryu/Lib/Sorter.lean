import Mathlib.Data.List.Sort

/-!
Sorting by a comparison that need not be an order.

A sort keeps the elements, and puts them in order if the comparison is a strict weak order on them.
What it does otherwise is its own affair. Insertion from the end is what `sort.Slice` does with a
short list.
-/

namespace Sorting

variable {α : Type}

/-- The comparison is a strict weak order on the elements of a list. -/
structure StrictWeak (less : α → α → Bool) (l : List α) : Prop where
  irrefl : ∀ a ∈ l, less a a = false
  trans : ∀ a ∈ l, ∀ b ∈ l, ∀ c ∈ l, less a b = true → less b c = true → less a c = true
  incomparable : ∀ a ∈ l, ∀ b ∈ l, ∀ c ∈ l, less a b = false → less b a = false →
    less b c = false → less c b = false → less a c = false ∧ less c a = false

section StrictWeak

variable {less : α → α → Bool} {l l' : List α}

theorem StrictWeak.perm (h : StrictWeak less l) (hp : l'.Perm l) : StrictWeak less l' where
  irrefl a ha := h.irrefl a (hp.subset ha)
  trans a ha b hb c hc := h.trans a (hp.subset ha) b (hp.subset hb) c (hp.subset hc)
  incomparable a ha b hb c hc :=
    h.incomparable a (hp.subset ha) b (hp.subset hb) c (hp.subset hc)

theorem StrictWeak.asymm (h : StrictWeak less l) {a b : α} (ha : a ∈ l) (hb : b ∈ l)
    (hab : less a b = true) : less b a = false := by
  refine Bool.eq_false_iff.mpr fun hba => ?_
  cases (h.irrefl a ha).symm.trans (h.trans a ha b hb a ha hab hba)

/-- Not to be before goes over from one to the next. -/
theorem StrictWeak.not_trans (h : StrictWeak less l) {a b c : α} (ha : a ∈ l) (hb : b ∈ l)
    (hc : c ∈ l) (hab : less a b = false) (hbc : less b c = false) : less a c = false := by
  refine Bool.eq_false_iff.mpr fun hac => ?_
  have hba : less b a = false := by
    refine Bool.eq_false_iff.mpr fun hba => ?_
    cases hbc.symm.trans (h.trans b hb a ha c hc hba hac)
  have hcb : less c b = false := by
    refine Bool.eq_false_iff.mpr fun hcb => ?_
    cases hab.symm.trans (h.trans a ha c hc b hb hac hcb)
  cases (h.incomparable a ha b hb c hc hab hba hbc hcb).1.symm.trans hac

end StrictWeak

structure Sorter (α : Type) where
  sort : (α → α → Bool) → List α → List α
  perm : ∀ less l, (sort less l).Perm l
  sorted : ∀ less l, StrictWeak less l → (sort less l).Pairwise fun a b => less b a = false

/-- Where the comparison tells all elements apart, any sort forgets the order they came in. -/
theorem Sorter.sort_eq_of_perm (s : Sorter α) {less : α → α → Bool} {l l' : List α}
    (h : StrictWeak less l)
    (htells : ∀ a ∈ l, ∀ b ∈ l, less a b = false → less b a = false → a = b) (hp : l'.Perm l) :
    s.sort less l' = s.sort less l := by
  have hs := s.perm less l
  have hs' := (s.perm less l').trans hp
  refine List.Perm.eq_of_pairwise ?_ (s.sorted less l' (h.perm hp)) (s.sorted less l h)
    (hs'.trans hs.symm)
  intro a b ha hb hab hba
  exact htells a (hs'.subset ha) b (hs.subset hb) hba hab

/-! ### Insertion -/

/-- Every element is moved to the left, past those that it is less than. -/
def insertionSort (less : α → α → Bool) (l : List α) : List α :=
  (l.reverse.insertionSort fun a b => less a b = false).reverse

theorem perm_insertionSort (less : α → α → Bool) (l : List α) : (insertionSort less l).Perm l :=
  (List.reverse_perm _).trans ((List.perm_insertionSort _ _).trans (List.reverse_perm l))

theorem pairwise_insertionSort {less : α → α → Bool} {l : List α} (h : StrictWeak less l) :
    (insertionSort less l).Pairwise fun a b => less b a = false := by
  rw [insertionSort, List.pairwise_reverse]
  -- the comparison is an order on the elements of the list only
  let r (a b : { a // a ∈ l.reverse }) : Prop := less a b = false
  have hmem (a : { a // a ∈ l.reverse }) : a.1 ∈ l := List.mem_reverse.mp a.2
  have htotal : Std.Total r := by
    refine ⟨fun a b => ?_⟩
    by_cases hab : less a b = false
    · exact .inl hab
    · exact .inr (h.asymm (hmem a) (hmem b) (Bool.eq_true_of_not_eq_false hab))
  have htrans : IsTrans _ r := ⟨fun a b c => h.not_trans (hmem a) (hmem b) (hmem c)⟩
  have hmap := List.map_insertionSort r (fun a b => less a b = false) Subtype.val l.reverse.attach
    fun _ _ _ _ => Iff.rfl
  rw [List.attach_map_subtype_val] at hmap
  rw [← hmap, List.pairwise_map]
  exact List.pairwise_insertionSort r _

def insertion : Sorter α := ⟨insertionSort, perm_insertionSort, fun _ _ => pairwise_insertionSort⟩

end Sorting
