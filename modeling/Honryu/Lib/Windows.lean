import Mathlib.Algebra.Order.BigOperators.Group.List
import Mathlib.Data.Finset.Max

/-!
Things that are in force for a time.

A thing is in force from one instant up to another, which is not part of its
window, and has a weight. The load at an instant is the weight of what is in force
then. It is a step function: within a window it is greatest at the beginning of the
window or where something begins.
-/

/-- When the things of a type are in force, and what they weigh. -/
structure Windows (α T M : Type*) where
  lo : α → T
  hi : α → T
  weight : α → M

namespace Windows

variable {α T M : Type*} [LinearOrder T] (w : Windows α T M)

def covers (t : T) (a : α) : Bool := w.lo a ≤ t ∧ t < w.hi a

/-- Half-open windows that share an instant. -/
def meets (lo hi : T) (a : α) : Bool := lo < w.hi a ∧ w.lo a < hi

variable {w}

theorem covers_iff {t : T} {a : α} : w.covers t a = true ↔ w.lo a ≤ t ∧ t < w.hi a :=
  decide_eq_true_iff

variable (w)

/-- The instants of a window where the load can be greatest. -/
def steps (l : List α) (lo hi : T) : List T :=
  lo :: (l.map w.lo).filter fun t => lo ≤ t ∧ t < hi

theorem mem_steps {w : Windows α T M} {l : List α} {lo hi t : T} (hlt : lo < hi)
    (h : t ∈ w.steps l lo hi) : lo ≤ t ∧ t < hi := by
  rcases List.mem_cons.mp h with rfl | h
  · exact ⟨le_rfl, hlt⟩
  · simpa using (List.mem_filter.mp h).2

section Load

variable [AddCommMonoid M]

def load (l : List α) (t : T) : M := ((l.filter (w.covers t)).map w.weight).sum

@[simp] theorem load_nil (t : T) : w.load [] t = 0 := rfl

theorem load_cons (a : α) (l : List α) (t : T) :
    w.load (a :: l) t = (if w.covers t a then w.weight a else 0) + w.load l t := by
  rw [load, List.filter_cons]
  split
  · rw [List.map_cons, List.sum_cons, load]
  · rw [zero_add, load]

theorem load_append (l l' : List α) (t : T) : w.load (l ++ l') t = w.load l t + w.load l' t := by
  simp [load]

end Load

section Order

variable [AddCommMonoid M] [PartialOrder M] [IsOrderedAddMonoid M] {w} {l : List α}

omit [LinearOrder T] in
/-- Of things without negative weight, more weigh more. -/
theorem sum_filter_le {p q : α → Bool} (hw : ∀ a ∈ l, 0 ≤ w.weight a)
    (h : ∀ a ∈ l, p a = true → q a = true) :
    ((l.filter p).map w.weight).sum ≤ ((l.filter q).map w.weight).sum := by
  induction l with
  | nil => exact le_rfl
  | cons a l ih =>
      have hrest := ih (fun x hx => hw x (List.mem_cons_of_mem _ hx))
        fun x hx => h x (List.mem_cons_of_mem _ hx)
      rw [List.filter_cons, List.filter_cons]
      by_cases hp : p a = true
      · rw [if_pos hp, if_pos (h a List.mem_cons_self hp)]
        simpa using add_le_add_right hrest _
      · rw [if_neg hp]
        split
        · rw [List.map_cons, List.sum_cons]
          exact hrest.trans (le_add_of_nonneg_left (hw a List.mem_cons_self))
        · exact hrest

theorem load_filter_le (hw : ∀ a ∈ l, 0 ≤ w.weight a) (p : α → Bool) (t : T) :
    w.load (l.filter p) t ≤ w.load l t := by
  rw [load, List.filter_filter]
  refine sum_filter_le hw fun a _ h => ?_
  exact (Bool.and_eq_true_iff.mp h).1

/-- What is in force at an instant and began by an earlier one was in force then. -/
theorem load_le_load {t t' : T} (hw : ∀ a ∈ l, 0 ≤ w.weight a) (hle : t' ≤ t)
    (h : ∀ a ∈ l, w.covers t a = true → w.lo a ≤ t') : w.load l t ≤ w.load l t' := by
  refine sum_filter_le hw fun a ha hcovers => ?_
  have hlo := h a ha hcovers
  rw [covers_iff] at hcovers ⊢
  exact ⟨hlo, hle.trans_lt hcovers.2⟩

/-- The load at an instant of a window is no greater than at one of its steps. -/
theorem exists_step_le (hw : ∀ a ∈ l, 0 ≤ w.weight a) {lo hi t : T} (hlo : lo ≤ t) (hhi : t < hi) :
    ∃ t' ∈ w.steps l lo hi, w.load l t ≤ w.load l t' := by
  let before := ((w.steps l lo hi).filter (· ≤ t)).toFinset
  have hmem : ∀ t', t' ∈ before ↔ t' ∈ w.steps l lo hi ∧ t' ≤ t := by simp [before]
  have hstart : lo ∈ before := (hmem lo).mpr ⟨List.mem_cons_self, hlo⟩
  -- the last step up to the instant
  let last := before.max' ⟨lo, hstart⟩
  obtain ⟨hstep, hle⟩ := (hmem last).mp (before.max'_mem _)
  refine ⟨last, hstep, load_le_load hw hle fun a ha hcovers => ?_⟩
  rw [covers_iff] at hcovers
  by_cases hbegins : lo ≤ w.lo a
  · refine before.le_max' _ ((hmem _).mpr ⟨List.mem_cons_of_mem _ ?_, hcovers.1⟩)
    exact List.mem_filter.mpr ⟨List.mem_map_of_mem ha, by
      simpa using ⟨hbegins, hcovers.1.trans_lt hhi⟩⟩
  · exact (not_le.mp hbegins).le.trans (before.le_max' _ hstart)

end Order

end Windows
