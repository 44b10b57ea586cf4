import Mathlib.Data.List.Nodup

/-!
Rows that are told apart by a key.
-/

namespace Keyed

variable {α κ : Type*} {key : α → κ} {l : List α}

/-- Under a key there is at most one row, and it is found. -/
theorem find?_eq_some_iff [DecidableEq κ] (h : (l.map key).Nodup) {k : κ} {a : α} :
    l.find? (fun x => key x = k) = some a ↔ a ∈ l ∧ key a = k := by
  constructor
  · intro hfind
    exact ⟨List.mem_of_find?_eq_some hfind, by simpa using List.find?_some hfind⟩
  · rintro ⟨ha, rfl⟩
    have hsome : (l.find? fun x => key x = key a).isSome :=
      List.find?_isSome.mpr ⟨a, ha, decide_eq_true rfl⟩
    obtain ⟨b, hb⟩ := Option.isSome_iff_exists.mp hsome
    have hkey : key b = key a := by simpa using List.find?_some hb
    rw [hb, List.inj_on_of_nodup_map h (List.mem_of_find?_eq_some hb) ha hkey]

/-- Rows may change as long as they keep their keys. -/
theorem map_key_modify {f : α → α} (hf : ∀ a, key (f a) = key a) (p : α → Prop) [DecidablePred p] :
    (l.map fun a => if p a then f a else a).map key = l.map key := by
  rw [List.map_map]
  refine List.map_congr_left fun a _ => ?_
  rw [Function.comp_apply]
  split
  · exact hf a
  · rfl

end Keyed
