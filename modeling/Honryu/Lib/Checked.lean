import Mathlib.Data.List.Forall2

/-!
Computations that may fail: what it takes for one to succeed.
-/

namespace Checked

variable {ε α β : Type}

/-- A check that was passed, and the rest. -/
theorem guard_eq_ok {p : Prop} [Decidable p] {e : ε} {x : Except ε α} {a : α} :
    (if p then .error e else x) = .ok a ↔ ¬p ∧ x = .ok a := by
  by_cases hp : p
  · simp [hp]
  · simp [hp]

theorem bind_eq_ok {x : Except ε α} {f : α → Except ε β} {b : β} :
    (x >>= f) = .ok b ↔ ∃ a, x = .ok a ∧ f a = .ok b := by
  cases x with
  | error e => exact ⟨nofun, nofun⟩
  | ok a => exact ⟨fun h => ⟨a, rfl, h⟩, fun ⟨_, ha, h⟩ => by cases ha; exact h⟩

theorem map_eq_ok {x : Except ε α} {f : α → β} {b : β} :
    x.map f = .ok b ↔ ∃ a, x = .ok a ∧ f a = b := by
  cases x with
  | error e => exact ⟨nofun, nofun⟩
  | ok a => simp [Except.map]

/-- A computation that was seen to succeed. -/
theorem exists_ok {x : Except ε α} {g : α → β} {b : β} (h : x.toOption.map g = some b) :
    ∃ a, x = .ok a ∧ g a = b := by
  cases x with
  | error e => cases h
  | ok a => exact ⟨a, rfl, Option.some_inj.mp h⟩

/-- A computation on every element of a list succeeds with the list of its
results. -/
theorem mapM_eq_ok {f : α → Except ε β} {l : List α} {r : List β} :
    l.mapM f = .ok r ↔ List.Forall₂ (fun a b => f a = .ok b) l r := by
  induction l generalizing r with
  | nil =>
      rw [List.mapM_nil, List.forall₂_nil_left_iff]
      exact ⟨fun h => by cases h; rfl, fun h => h ▸ rfl⟩
  | cons a l ih =>
      rw [List.mapM_cons, bind_eq_ok, List.forall₂_cons_left_iff]
      refine exists_congr fun b => ?_
      rw [bind_eq_ok]
      constructor
      · rintro ⟨hb, bs, hbs, hr⟩
        exact ⟨bs, hb, ih.mp hbs, by cases hr; rfl⟩
      · rintro ⟨bs, hb, hbs, rfl⟩
        exact ⟨hb, bs, ih.mpr hbs, rfl⟩

/-- What each result shows of itself is what it shows of the list. -/
theorem map_of_mapM_eq_ok {γ : Type} {f : α → Except ε β} {g : β → γ} {k : α → γ} {l : List α}
    {r : List β} (h : l.mapM f = .ok r) (hf : ∀ a b, f a = .ok b → g b = k a) :
    r.map g = l.map k := by
  have hall := mapM_eq_ok.mp h
  induction hall with
  | nil => rfl
  | cons hab hrest ih =>
      rw [List.map_cons, List.map_cons, hf _ _ hab, ih (mapM_eq_ok.mpr hrest)]

/-! ### Computations with a state that outlives a failure -/

section State

variable {σ : Type} {x : ExceptT ε (StateM σ) α} {f : α → ExceptT ε (StateM σ) β} {s s' : σ}

theorem run_bind (x : ExceptT ε (StateM σ) α) (f : α → ExceptT ε (StateM σ) β) (s : σ) :
    (x >>= f).run.run s =
      match x.run.run s with
      | (.ok a, s') => (f a).run.run s'
      | (.error e, s') => (.error e, s') := by
  simp only [ExceptT.run_bind, StateT.run_bind]
  rcases x.run.run s with ⟨r, s'⟩
  cases r <;> rfl

theorem run_bind_of_ok {a : α} (h : x.run.run s = (.ok a, s')) :
    (x >>= f).run.run s = (f a).run.run s' := by
  rw [run_bind, h]

theorem run_bind_eq_ok {b : β} :
    (x >>= f).run.run s = (.ok b, s') ↔
      ∃ a s₁, x.run.run s = (.ok a, s₁) ∧ (f a).run.run s₁ = (.ok b, s') := by
  rw [run_bind]
  rcases x.run.run s with ⟨r, s₁⟩
  cases r with
  | error e => exact ⟨nofun, nofun⟩
  | ok a => exact ⟨fun h => ⟨a, s₁, rfl, h⟩, fun ⟨_, _, ha, h⟩ => by cases ha; exact h⟩

end State

end Checked
