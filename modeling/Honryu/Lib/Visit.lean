import Honryu.Lib.TallyMap

/-!
Loops over a map.

A program that ranges over a hash map sees its entries in an order it cannot
rely on. `Visit` is such an order, one for every map; a loop is a fold over
`v.list m`, and a result that does not depend on `v` is a result the program
really has. Two things make a loop independent of the order: it folds a
commutative operation, or it collects the entries and then sorts them by a
comparison that tells any two of them apart.
-/

open Std (ExtTreeMap)

/-- An order in which loops visit the entries of a map. -/
structure Visit where
  list : ∀ {K V : Type} [LinearOrder K], TallyMap K V → List (K × V)
  perm : ∀ {K V : Type} [LinearOrder K] (m : TallyMap K V), (list m).Perm m.toList

namespace Visit

variable {K V W : Type} [LinearOrder K]

def sorted : Visit where
  list m := m.toList
  perm _ := .refl _

def keys (v : Visit) (m : TallyMap K V) : List K := (v.list m).map Prod.fst

def values (v : Visit) (m : TallyMap K V) : List V := (v.list m).map Prod.snd

theorem list_perm (v v' : Visit) (m : TallyMap K V) : (v.list m).Perm (v'.list m) :=
  (v.perm m).trans (v'.perm m).symm

theorem keys_perm (v v' : Visit) (m : TallyMap K V) : (v.keys m).Perm (v'.keys m) :=
  (v.list_perm v' m).map _

theorem values_perm (v v' : Visit) (m : TallyMap K V) : (v.values m).Perm (v'.values m) :=
  (v.list_perm v' m).map _

theorem mem_list {v : Visit} {m : TallyMap K V} {k : K} {x : V} :
    (k, x) ∈ v.list m ↔ m[k]? = some x :=
  (v.perm m).mem_iff.trans TallyMap.mem_toList_iff

theorem keys_sorted (m : TallyMap K V) : sorted.keys m = m.keys := by
  simp [keys, sorted]

theorem nodup_keys (v : Visit) (m : TallyMap K V) : (v.keys m).Nodup := by
  rw [(v.keys_perm sorted m).nodup_iff, keys_sorted]
  exact ExtTreeMap.nodup_keys

/-! ### Sorting what was visited -/

/-- Sorting a list by a comparison that tells its elements apart forgets the
order the list came in. -/
theorem insertionSort_eq_of_perm {α : Type} (r : α → α → Prop) [DecidableRel r]
    [Std.Total r] [IsTrans α r] {l l' : List α} (hp : l.Perm l')
    (hr : ∀ a ∈ l, ∀ b ∈ l, r a b → r b a → a = b) :
    l.insertionSort r = l'.insertionSort r := by
  have hs := List.perm_insertionSort r l
  have hs' := List.perm_insertionSort r l'
  refine List.Perm.eq_of_pairwise ?_ (List.pairwise_insertionSort r l)
    (List.pairwise_insertionSort r l') (hs.trans (hp.trans hs'.symm))
  intro a b ha hb hab hba
  exact hr a (hs.subset ha) b (hp.symm.subset (hs'.subset hb)) hab hba

theorem insertionSort_key_eq_of_perm {α β : Type} [LinearOrder β] (key : α → β) {l l' : List α}
    (hp : l.Perm l') (hkey : ∀ a ∈ l, ∀ b ∈ l, key a = key b → a = b) :
    l.insertionSort (fun x y => key x ≤ key y) = l'.insertionSort fun x y => key x ≤ key y := by
  have : Std.Total fun x y : α => key x ≤ key y := ⟨fun x y => le_total (key x) (key y)⟩
  have : IsTrans α fun x y => key x ≤ key y := ⟨fun _ _ _ => le_trans⟩
  refine insertionSort_eq_of_perm _ hp fun a ha b hb hab hba => ?_
  exact hkey a ha b hb (le_antisymm hab hba)

theorem sort_keys (v : Visit) (m : TallyMap K V) :
    (v.keys m).insertionSort (· ≤ ·) = m.keys := by
  rw [insertionSort_eq_of_perm _ (v.keys_perm sorted m)
    fun a _ b _ hab hba => le_antisymm hab hba, keys_sorted]
  refine List.Pairwise.insertionSort_eq ?_
  refine (ExtTreeMap.ordered_keys (t := m)).imp ?_
  intro a b hab
  exact (compare_lt_iff_lt.mp hab).le

theorem sort_list (v : Visit) (m : TallyMap K V) :
    (v.list m).insertionSort (fun p q => p.1 ≤ q.1) = m.toList := by
  rw [insertionSort_key_eq_of_perm Prod.fst (v.perm m)]
  · refine List.Pairwise.insertionSort_eq ?_
    exact m.pairwise_toList.imp fun h => h.le
  · rintro ⟨k, x⟩ hx ⟨k', y⟩ hy rfl
    rw [mem_list] at hx hy
    simpa [hx] using hy

/-- Sorting records made of the visited entries, by the key each was made
with, lists the records in key order. -/
theorem sort_map_list (v : Visit) (m : TallyMap K V) (f : K × V → W) (key : W → K)
    (hkey : ∀ p, key (f p) = p.1) :
    ((v.list m).map f).insertionSort (fun x y => key x ≤ key y) = m.toList.map f := by
  rw [← v.sort_list m]
  refine (List.map_insertionSort (fun p q : K × V => p.1 ≤ q.1) (fun x y => key x ≤ key y)
    f _ ?_).symm
  intro p _ q _
  rw [hkey, hkey]

end Visit
