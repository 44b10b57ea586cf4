import Honryu.Lib.Walk
import Mathlib.Algebra.BigOperators.Group.Finset.Basic
import Mathlib.Algebra.Order.Group.Multiset
import Mathlib.Data.Fintype.Basic
import Mathlib.Tactic.Abel

/-!
Items wait in a bounded queue for one of several workers, who tries each a limited number of times.

An item that finds the queue full is dropped. Otherwise an item is in one place at any time.
-/

namespace WorkQueue

open Function

/-- An item that is tried, and how the attempts have failed so far. -/
structure Job (α ε : Type) where
  item : α
  failures : List ε
  deriving DecidableEq

structure State (α ε : Type) (n : ℕ) where
  queue : List α
  workers : Fin n → Option (Job α ε)
  dropped : List α
  done : List (Job α ε)
  abandoned : List (Job α ε)

def empty {α ε : Type} {n : ℕ} : State α ε n := ⟨[], fun _ => none, [], [], []⟩

namespace State

variable {α ε : Type} {n : ℕ} {capacity attempts : ℕ} {s : State α ε n}

def offer (capacity : ℕ) (s : State α ε n) (item : α) : State α ε n :=
  if s.queue.length < capacity then { s with queue := s.queue ++ [item] }
  else { s with dropped := item :: s.dropped }

/-- An idle worker takes what has waited longest. -/
def take (s : State α ε n) (w : Fin n) : State α ε n :=
  match s.workers w, s.queue with
  | none, item :: queue =>
      { s with queue := queue, workers := update s.workers w (some ⟨item, []⟩) }
  | _, _ => s

/-- A worker is done with a job when an attempt succeeds, and gives up after the last one. -/
def tried (attempts : ℕ) (s : State α ε n) (w : Fin n) (job : Job α ε) : Option ε → State α ε n
  | none => { s with workers := update s.workers w none, done := job :: s.done }
  | some failure =>
      let next := { job with failures := job.failures ++ [failure] }
      if job.failures.length + 1 < attempts then
        { s with workers := update s.workers w (some next) }
      else { s with workers := update s.workers w none, abandoned := next :: s.abandoned }

def attempt (attempts : ℕ) (s : State α ε n) (w : Fin n) (failure : Option ε) : State α ε n :=
  (s.workers w).elim s fun job => s.tried attempts w job failure

/-! ### Every item is in one place -/

/-- A sum of which one term changes. -/
theorem sum_update {ι β M : Type*} [Fintype ι] [DecidableEq ι] [AddCommMonoid M] (g : β → M)
    (f : ι → β) (i : ι) (b : β) : ∑ j, g (update f i b j) + g (f i) = ∑ j, g (f j) + g b := by
  have hrest : ∑ j ∈ Finset.univ.erase i, g (update f i b j) =
      ∑ j ∈ Finset.univ.erase i, g (f j) :=
    Finset.sum_congr rfl fun j hj => by rw [update_of_ne (Finset.ne_of_mem_erase hj)]
  rw [← Finset.add_sum_erase _ _ (Finset.mem_univ i),
    ← Finset.add_sum_erase _ (fun j => g (f j)) (Finset.mem_univ i), hrest, update_self]
  abel

/-- What a worker is busy with. -/
def held (job : Option (Job α ε)) : Multiset α := job.elim 0 fun job => {job.item}

@[simp] theorem held_none : held (none : Option (Job α ε)) = 0 := rfl

@[simp] theorem held_some (job : Job α ε) : held (some job) = {job.item} := rfl

/-- Every item there is, wherever it is. -/
def contents (s : State α ε n) : Multiset α :=
  s.queue + ∑ w, held (s.workers w) + s.dropped + (s.done.map (·.item) : List α) +
    (s.abandoned.map (·.item) : List α)

theorem contents_offer (capacity : ℕ) (s : State α ε n) (item : α) :
    (s.offer capacity item).contents = s.contents + {item} := by
  unfold offer contents
  split
  · simp only [← Multiset.coe_add, Multiset.coe_singleton]
    abel
  · simp only [← Multiset.cons_coe, ← Multiset.singleton_add]
    abel

theorem contents_take (s : State α ε n) (w : Fin n) : (s.take w).contents = s.contents := by
  unfold take
  split
  · next item queue hw hqueue =>
      have hheld := sum_update held s.workers w (some ⟨item, []⟩)
      simp only [hw, held_none, held_some, add_zero] at hheld
      simp only [contents, hqueue, ← Multiset.cons_coe, ← Multiset.singleton_add, hheld]
      abel
  · rfl

theorem contents_attempt (attempts : ℕ) (s : State α ε n) (w : Fin n) (failure : Option ε) :
    (s.attempt attempts w failure).contents = s.contents := by
  unfold attempt
  cases hw : s.workers w with
  | none => rfl
  | some job =>
      have hheld := sum_update held s.workers w
      simp only [hw, held_some] at hheld
      have hidle := hheld none
      rw [held_none, add_zero] at hidle
      unfold tried
      simp only [Option.elim_some]
      split
      · simp only [contents, ← hidle, List.map_cons, ← Multiset.cons_coe,
          ← Multiset.singleton_add]
        abel
      · split
        · next failure _ =>
            have hsame := add_right_cancel
              (hheld (some { job with failures := job.failures ++ [failure] }))
            simp only [contents, hsame]
        · simp only [contents, ← hidle, List.map_cons, ← Multiset.cons_coe,
            ← Multiset.singleton_add]
          abel

/-! ### What is kept to -/

/-- The queue keeps to its capacity, and the workers to the number of attempts. Something was
dropped only if there was more than the queue can hold. -/
structure Kept (capacity attempts : ℕ) (s : State α ε n) : Prop where
  bounded : s.queue.length ≤ capacity
  trying : ∀ w, ∀ job ∈ s.workers w, job.failures.length < attempts
  done : ∀ job ∈ s.done, job.failures.length < attempts
  abandoned : ∀ job ∈ s.abandoned, job.failures.length = attempts
  dropped : s.dropped ≠ [] → capacity < s.contents.card

theorem kept_empty (capacity attempts : ℕ) : (empty : State α ε n).Kept capacity attempts := by
  constructor <;> simp [empty]

theorem Kept.offer (h : s.Kept capacity attempts) (item : α) :
    (s.offer capacity item).Kept capacity attempts := by
  have hcontents := congrArg Multiset.card (contents_offer capacity s item)
  rw [Multiset.card_add, Multiset.card_singleton] at hcontents
  unfold State.offer at hcontents ⊢
  split
  · next hroom =>
      rw [if_pos hroom] at hcontents
      refine ⟨by simp; omega, h.trying, h.done, h.abandoned, fun hdropped => ?_⟩
      have := h.dropped hdropped
      omega
  · next hfull =>
      rw [if_neg hfull] at hcontents
      refine ⟨h.bounded, h.trying, h.done, h.abandoned, fun _ => ?_⟩
      have hle : s.queue.length ≤ s.contents.card := by
        simp only [contents, Multiset.card_add, Multiset.coe_card]
        omega
      omega

theorem Kept.take (h : s.Kept capacity attempts) (hpos : 0 < attempts) (w : Fin n) :
    (s.take w).Kept capacity attempts := by
  have hdropped := h.dropped
  rw [← contents_take s w] at hdropped
  unfold State.take at hdropped ⊢
  split at hdropped
  · next item queue hw hqueue =>
      have hbounded := h.bounded
      rw [hqueue, List.length_cons] at hbounded
      exact ⟨by simp only; omega, Walk.forall_update h.trying w _ (by simpa using hpos), h.done,
        h.abandoned, hdropped⟩
  · exact h

theorem Kept.attempt (h : s.Kept capacity attempts) (w : Fin n) (failure : Option ε) :
    (s.attempt attempts w failure).Kept capacity attempts := by
  have hdropped := h.dropped
  rw [← contents_attempt attempts s w failure] at hdropped
  unfold State.attempt at hdropped ⊢
  cases hw : s.workers w with
  | none => exact h
  | some job =>
      have hjob := h.trying w job hw
      have hidle := Walk.forall_update h.trying w none (by simp)
      simp only [hw, Option.elim_some] at hdropped ⊢
      cases failure with
      | none =>
          exact ⟨h.bounded, hidle, List.forall_mem_cons.mpr ⟨hjob, h.done⟩, h.abandoned, hdropped⟩
      | some failure =>
          simp only [tried] at hdropped ⊢
          split at hdropped
          · next hmore =>
              rw [if_pos hmore]
              exact ⟨h.bounded, Walk.forall_update h.trying w _ (by simpa using hmore), h.done,
                h.abandoned, hdropped⟩
          · next hlast =>
              rw [if_neg hlast]
              refine ⟨h.bounded, hidle, h.done, List.forall_mem_cons.mpr ⟨?_, h.abandoned⟩,
                hdropped⟩
              rw [List.length_append, List.length_singleton]
              omega

end State
end WorkQueue
