import Mathlib.Data.DFinsupp.WellFounded
import Mathlib.Data.Finset.Insert
import Mathlib.Data.Fintype.EquivFin
import Mathlib.Logic.Relation
import Mathlib.Order.WellFounded
import Mathlib.SetTheory.Cardinal.Order

/-!
Transactions that take exclusive row locks and keep them until they end.

A transaction is a `Task`: it takes locks one after the other, runs statements
whose effect decides how it goes on, and commits. Any number of tasks run
interleaved; one that asks for a row another task holds waits. If every task
asks for the rows it does not hold yet in increasing order, no tasks ever wait
for each other in a circle, and all of them can be brought to their end.
-/

namespace Locking

variable {T R S : Type}

/-! ### Tasks -/

/-- The rest of a transaction over rows `R` and a database `S`. -/
inductive Task (R S : Type) : Type
  | commit : Task R S
  | lock (row : R) (next : Task R S) : Task R S
  | exec (effect : S → S) (next : S → Task R S) : Task R S

/-- The order a statement that reads rows visits them in: as they are listed,
as an index has them, or any other. -/
structure Scan (R : Type) where
  order : List R → List R
  perm : ∀ rows, (order rows).Perm rows

def Scan.listed : Scan R := ⟨id, fun _ => .refl _⟩

namespace Task

def lockAll (rows : List R) (next : Task R S) : Task R S := rows.foldr lock next

@[simp] theorem lockAll_nil (next : Task R S) : lockAll [] next = next := rfl

@[simp] theorem lockAll_cons (r : R) (rows : List R) (next : Task R S) :
    lockAll (r :: rows) next = lock r (lockAll rows next) := rfl

/-- A statement that changes its rows. -/
def write (rows : List R) (effect : S → S) (next : Task R S) : Task R S :=
  lockAll rows (exec effect fun _ => next)

def read (scan : Scan R) (rows : List R) (next : S → Task R S) : Task R S :=
  lockAll (scan.order rows) (exec id next)

def writeEach {D : Type} (row : D → R) (effect : D → S → S) (ds : List D) (next : Task R S) :
    Task R S :=
  ds.foldr (fun d next => write [row d] (effect d) next) next

/-- Opening rows, reading them under lock and writing them back. Without rows
there are no statements. -/
def merge {A : Type} (scan : Scan R) (rows : List R) (opened : S → S) (stored : S → A)
    (written : A → S → S) (next : Task R S) : Task R S :=
  if rows.isEmpty then next
  else write rows opened <| read scan rows fun s => write rows (written (stored s)) next

def alone : Task R S → S → S
  | commit, s => s
  | lock _ next, s => next.alone s
  | exec effect next, s => (next (effect s)).alone (effect s)

@[simp] theorem alone_commit (s : S) : (commit : Task R S).alone s = s := rfl

@[simp] theorem alone_exec (effect : S → S) (next : S → Task R S) (s : S) :
    (exec effect next).alone s = (next (effect s)).alone (effect s) := rfl

@[simp] theorem alone_lockAll (rows : List R) (next : Task R S) (s : S) :
    (lockAll rows next).alone s = next.alone s := by
  induction rows with
  | nil => rfl
  | cons r rows ih => exact ih

@[simp] theorem alone_write (rows : List R) (effect : S → S) (next : Task R S) (s : S) :
    (write rows effect next).alone s = next.alone (effect s) := by simp [write]

@[simp] theorem alone_read (scan : Scan R) (rows : List R) (next : S → Task R S) (s : S) :
    (read scan rows next).alone s = (next s).alone s := by simp [read]

@[simp] theorem alone_writeEach {D : Type} (row : D → R) (effect : D → S → S) (ds : List D)
    (next : Task R S) (s : S) :
    (writeEach row effect ds next).alone s = next.alone (ds.foldl (fun s d => effect d s) s) := by
  induction ds generalizing s with
  | nil => rfl
  | cons d ds ih =>
      show (write [row d] (effect d) (writeEach row effect ds next)).alone s = _
      rw [alone_write, ih, List.foldl_cons]

theorem alone_merge {A : Type} (scan : Scan R) {rows : List R} {opened : S → S} {stored : S → A}
    {written : A → S → S} (next : Task R S) (s : S)
    (hnil : rows = [] → written (stored (opened s)) (opened s) = s) :
    (merge scan rows opened stored written next).alone s =
      next.alone (written (stored (opened s)) (opened s)) := by
  cases rows with
  | nil => rw [hnil rfl]; rfl
  | cons r rows => simp [merge]

/-! ### Taking locks in order -/

section Ordered

variable [LinearOrder R]

/-- Holding the rows `held`, the task goes on in order: a row it does not hold
yet comes after every row it holds, whatever the statements find. -/
def Ordered : Task R S → Finset R → Prop
  | commit, _ => True
  | lock r next, held => (r ∈ held ∨ ∀ h ∈ held, h < r) ∧ next.Ordered (insert r held)
  | exec _ next, held => ∀ s, (next s).Ordered held

theorem ordered_lockAll_of_held {rows : List R} {held : Finset R} {next : Task R S}
    (hrows : ∀ r ∈ rows, r ∈ held) (hnext : next.Ordered held) :
    (lockAll rows next).Ordered held := by
  induction rows with
  | nil => exact hnext
  | cons r rows ih =>
      have hr : r ∈ held := hrows r (List.mem_cons_self ..)
      refine ⟨.inl hr, ?_⟩
      rw [Finset.insert_eq_of_mem hr]
      exact ih fun r' hr' => hrows r' (List.mem_cons_of_mem _ hr')

theorem ordered_lockAll {rows : List R} {held : Finset R} {next : Task R S}
    (hsorted : rows.Pairwise (· < ·)) (hheld : ∀ h ∈ held, ∀ r ∈ rows, h < r)
    (hnext : next.Ordered (held ∪ rows.toFinset)) : (lockAll rows next).Ordered held := by
  induction rows generalizing held with
  | nil => simpa using hnext
  | cons r rows ih =>
      rw [List.pairwise_cons] at hsorted
      refine ⟨.inr fun h hh => hheld h hh r (List.mem_cons_self ..), ih hsorted.2 ?_ ?_⟩
      · intro h hh r' hr'
        rcases Finset.mem_insert.mp hh with rfl | hh
        · exact hsorted.1 r' hr'
        · exact hheld h hh r' (List.mem_cons_of_mem _ hr')
      · rw [List.toFinset_cons, Finset.union_insert] at hnext
        rwa [Finset.insert_union]

theorem ordered_write {rows : List R} {held : Finset R} {effect : S → S} {next : Task R S}
    (hsorted : rows.Pairwise (· < ·)) (hheld : ∀ h ∈ held, ∀ r ∈ rows, h < r)
    (hnext : next.Ordered (held ∪ rows.toFinset)) : (write rows effect next).Ordered held :=
  ordered_lockAll hsorted hheld fun _ => hnext

theorem ordered_write_of_held {rows : List R} {held : Finset R} {effect : S → S}
    {next : Task R S} (hrows : ∀ r ∈ rows, r ∈ held) (hnext : next.Ordered held) :
    (write rows effect next).Ordered held :=
  ordered_lockAll_of_held hrows fun _ => hnext

theorem ordered_read_of_held {scan : Scan R} {rows : List R} {held : Finset R}
    {next : S → Task R S} (hrows : ∀ r ∈ rows, r ∈ held) (hnext : ∀ s, (next s).Ordered held) :
    (read scan rows next).Ordered held :=
  ordered_lockAll_of_held (fun r hr => hrows r ((scan.perm rows).mem_iff.mp hr)) hnext

theorem ordered_writeEach {D : Type} {row : D → R} {effect : D → S → S} {ds : List D}
    {held : Finset R} {next : Task R S} (hsorted : (ds.map row).Pairwise (· < ·))
    (hheld : ∀ h ∈ held, ∀ r ∈ ds.map row, h < r)
    (hnext : next.Ordered (held ∪ (ds.map row).toFinset)) :
    (writeEach row effect ds next).Ordered held := by
  induction ds generalizing held with
  | nil => simpa [writeEach] using hnext
  | cons d ds ih =>
      rw [List.map_cons, List.pairwise_cons] at hsorted
      refine ordered_write (List.pairwise_singleton _ _) ?_ (ih hsorted.2 ?_ ?_)
      · intro h hh r hr
        rw [List.mem_singleton.mp hr]
        exact hheld h hh _ (List.mem_cons_self ..)
      · intro h hh r hr
        rcases Finset.mem_union.mp hh with hh | hh
        · exact hheld h hh r (List.mem_cons_of_mem _ hr)
        · obtain rfl : h = row d := by simpa using hh
          exact hsorted.1 r hr
      · rw [Finset.union_assoc, ← List.toFinset_append]
        exact hnext

/-- The opening statement of a merge takes every lock the merge needs. -/
theorem ordered_merge {A : Type} {scan : Scan R} {rows : List R} {opened : S → S}
    {stored : S → A} {written : A → S → S} {held : Finset R} {next : Task R S}
    (hsorted : rows.Pairwise (· < ·)) (hheld : ∀ h ∈ held, ∀ r ∈ rows, h < r)
    (hnext : next.Ordered (held ∪ rows.toFinset)) :
    (merge scan rows opened stored written next).Ordered held := by
  rw [merge]
  split
  case isTrue hnil =>
    rw [List.isEmpty_iff.mp hnil] at hnext
    simpa using hnext
  case isFalse =>
    have hrows : ∀ r ∈ rows, r ∈ held ∪ rows.toFinset := fun r hr =>
      Finset.mem_union_right _ (List.mem_toFinset.mpr hr)
    refine ordered_write hsorted hheld (ordered_read_of_held hrows fun s => ?_)
    exact ordered_write_of_held hrows hnext

end Ordered

end Task

/-! ### Tasks come to an end -/

/-- What is left of a transaction after it has taken a step. -/
inductive Rest : Option (Task R S) → Option (Task R S) → Prop
  | commit : Rest none (some .commit)
  | lock (r : R) (next : Task R S) : Rest (some next) (some (.lock r next))
  | exec (effect : S → S) (next : S → Task R S) (s : S) :
      Rest (some (next s)) (some (.exec effect next))

theorem wellFounded_rest : WellFounded (Rest : Option (Task R S) → Option (Task R S) → Prop) := by
  have hnone : Acc Rest (none : Option (Task R S)) := ⟨_, fun _ h => nomatch h⟩
  refine ⟨fun t => ?_⟩
  cases t with
  | none => exact hnone
  | some t =>
      induction t with
      | commit =>
          refine ⟨_, fun _ h => ?_⟩
          cases h
          exact hnone
      | lock r next ih =>
          refine ⟨_, fun _ h => ?_⟩
          cases h
          exact ih
      | exec effect next ih =>
          refine ⟨_, fun _ h => ?_⟩
          cases h
          exact ih _

/-! ### Tasks running interleaved -/

/-- The database, what each transaction still has to do (nothing, once it has
ended) and the rows it holds. -/
structure State (T R S : Type) where
  db : S
  task : T → Option (Task R S)
  held : T → Finset R

def State.start (db : S) (task : T → Task R S) : State T R S :=
  { db, task := fun i => some (task i), held := fun _ => ∅ }

def State.Ended (s : State T R S) : Prop := ∀ i, s.task i = none

/-- A transaction asks for a row that another one holds. -/
def WaitsFor (s : State T R S) (i j : T) : Prop :=
  ∃ r next, s.task i = some (.lock r next) ∧ j ≠ i ∧ r ∈ s.held j

section Step

variable [DecidableEq T] [DecidableEq R]

/-- What one transaction can do next. -/
inductive Step (s : State T R S) : State T R S → Prop
  | lock {i : T} {r : R} {next : Task R S} (htask : s.task i = some (.lock r next))
      (hfree : ∀ j, j ≠ i → r ∉ s.held j) :
      Step s { s with
        task := Function.update s.task i (some next)
        held := Function.update s.held i (insert r (s.held i)) }
  | exec {i : T} {effect : S → S} {next : S → Task R S}
      (htask : s.task i = some (.exec effect next)) :
      Step s { s with
        db := effect s.db
        task := Function.update s.task i (some (next (effect s.db))) }
  | commit {i : T} (htask : s.task i = some .commit) :
      Step s { s with
        task := Function.update s.task i none
        held := Function.update s.held i ∅ }

/-- A statement fails and its transaction is rolled back. What undoing it makes
of the database is left open. -/
inductive Rollback (s : State T R S) : State T R S → Prop
  | mk (i : T) (db : S) :
      Rollback s
        { db, task := Function.update s.task i none, held := Function.update s.held i ∅ }

def Reaches : State T R S → State T R S → Prop :=
  Relation.ReflTransGen fun s s' => Step s s' ∨ Rollback s s'

theorem Step.reaches {s s' : State T R S} (h : Step s s') : Reaches s s' := .single (.inl h)

end Step

/-! ### What holds in every state reached -/

section Sound

variable [LinearOrder R] {s s' : State T R S}

/-- No row is held twice, every transaction goes on in order, and one that has
ended holds nothing. -/
structure Sound (s : State T R S) : Prop where
  exclusive : ∀ {i j r}, r ∈ s.held i → r ∈ s.held j → i = j
  ordered : ∀ {i t}, s.task i = some t → t.Ordered (s.held i)
  released : ∀ {i}, s.task i = none → s.held i = ∅

theorem sound_start {db : S} {task : T → Task R S} (h : ∀ i, (task i).Ordered ∅) :
    Sound (State.start db task) where
  exclusive hi _ := by simp [State.start] at hi
  ordered {i t} ht := by
    obtain rfl : task i = t := by simpa [State.start] using ht
    exact h i
  released {i} hi := rfl

/-! ### No circle of waiting transactions -/

theorem Sound.lt_of_waitsFor (hs : Sound s) {i j : T} {r : R} {next : Task R S}
    (htask : s.task i = some (.lock r next)) (hji : j ≠ i) (hr : r ∈ s.held j) {h : R}
    (hh : h ∈ s.held i) : h < r := by
  rcases (hs.ordered htask).1 with hheld | hlt
  · exact absurd (hs.exclusive hr hheld) hji
  · exact hlt h hh

/-- Along a chain of waiting transactions, the last one holds a row at or after
the one the first waits for. -/
theorem Sound.exists_le_of_transGen (hs : Sound s) {i k : T} {r : R} {next : Task R S}
    (htask : s.task i = some (.lock r next)) (h : Relation.TransGen (WaitsFor s) i k) :
    ∃ r' ∈ s.held k, r ≤ r' := by
  induction h with
  | single h =>
      obtain ⟨r', next', htask', -, hr'⟩ := h
      obtain ⟨rfl, -⟩ : r = r' ∧ next = next' := by simpa using htask.symm.trans htask'
      exact ⟨r, hr', le_rfl⟩
  | tail _ h ih =>
      obtain ⟨held, hheld, hle⟩ := ih
      obtain ⟨r', next', htask', hne, hr'⟩ := h
      exact ⟨r', hr', hle.trans (hs.lt_of_waitsFor htask' hne hr' hheld).le⟩

theorem Sound.acyclic (hs : Sound s) (i : T) : ¬ Relation.TransGen (WaitsFor s) i i := by
  intro h
  obtain ⟨j, ⟨r, next, htask, hji, hr⟩, -⟩ := Relation.TransGen.head'_iff.mp h
  -- the transaction holds a row at or after the one it waits for
  obtain ⟨r', hr', hle⟩ := hs.exists_le_of_transGen htask h
  exact absurd (hs.lt_of_waitsFor htask hji hr hr') (not_lt.mpr hle)

/-! ### Steps keep it so -/

variable [DecidableEq T]

theorem Sound.update {db : S} {i : T} {t : Option (Task R S)} {rows : Finset R} (hs : Sound s)
    (hrows : ∀ r ∈ rows, ∀ j, j ≠ i → r ∉ s.held j)
    (hordered : ∀ t', t = some t' → t'.Ordered rows) (hreleased : t = none → rows = ∅) :
    Sound { db, task := Function.update s.task i t, held := Function.update s.held i rows } where
  exclusive {j k r} hj hk := by
    simp only [Function.update_apply] at hj hk
    split at hj <;> split at hk
    case isTrue.isTrue hji hki => rw [hji, hki]
    case isTrue.isFalse hji hki => exact absurd hk (hrows r hj k hki)
    case isFalse.isTrue hji hki => exact absurd hj (hrows r hk j hji)
    case isFalse.isFalse => exact hs.exclusive hj hk
  ordered {j t'} ht := by
    simp only [Function.update_apply] at ht ⊢
    split
    case isTrue hj => exact hordered t' (by simpa [hj] using ht)
    case isFalse hj => exact hs.ordered (by simpa [hj] using ht)
  released {j} hj := by
    simp only [Function.update_apply] at hj ⊢
    split
    case isTrue h => exact hreleased (by simpa [h] using hj)
    case isFalse h => exact hs.released (by simpa [h] using hj)

theorem Sound.step (hs : Sound s) (h : Step s s') : Sound s' := by
  cases h with
  | @lock i r next htask hfree =>
      refine hs.update (fun r' hr' j hj => ?_) (fun t ht => ?_) (by simp)
      · rcases Finset.mem_insert.mp hr' with rfl | hr'
        · exact hfree j hj
        · exact fun hother => hj (hs.exclusive hother hr')
      · obtain rfl : next = t := by simpa using ht
        exact (hs.ordered htask).2
  | @exec i effect next htask =>
      have hnext := hs.ordered htask (effect s.db)
      have hsame : s.held = Function.update s.held i (s.held i) := by simp
      rw [hsame]
      refine hs.update (fun r hr j hj hother => hj (hs.exclusive hother hr)) (fun t ht => ?_)
        (by simp)
      obtain rfl : next (effect s.db) = t := by simpa using ht
      exact hnext
  | commit => exact hs.update (by simp) (by simp) (by simp)

theorem Sound.rollback (hs : Sound s) (h : Rollback s s') : Sound s' := by
  cases h
  exact hs.update (by simp) (by simp) (by simp)

theorem Sound.reaches (hs : Sound s) (h : Reaches s s') : Sound s' := by
  induction h with
  | refl => exact hs
  | tail _ hstep ih => exact hstep.elim ih.step ih.rollback

/-! ### Every transaction can end -/

/-- A transaction that has not ended either takes a step or waits for one that
has not ended either. -/
theorem Sound.step_or_waitsFor (hs : Sound s) {i : T} (hi : s.task i ≠ none) :
    (∃ s', Step s s') ∨ ∃ j, WaitsFor s i j ∧ s.task j ≠ none := by
  obtain ⟨t, ht⟩ := Option.ne_none_iff_exists'.mp hi
  cases t with
  | commit => exact .inl ⟨_, .commit ht⟩
  | exec effect next => exact .inl ⟨_, .exec ht⟩
  | lock r next =>
      by_cases hfree : ∀ j, j ≠ i → r ∉ s.held j
      · exact .inl ⟨_, .lock ht hfree⟩
      · push Not at hfree
        obtain ⟨j, hji, hr⟩ := hfree
        refine .inr ⟨j, ⟨r, next, ht, hji, hr⟩, fun hj => ?_⟩
        simp [hs.released hj] at hr

/-- Unless all have ended, some transaction takes a step. -/
theorem Sound.exists_step [Finite T] (hs : Sound s) (h : ¬ s.Ended) : ∃ s', Step s s' := by
  by_contra hstuck
  obtain ⟨i, hi⟩ := not_forall.mp h
  have hirrefl : Std.Irrefl (Relation.TransGen (flip (WaitsFor s))) :=
    ⟨fun i hi => hs.acyclic i (Relation.transGen_swap.mp hi)⟩
  have hwf := Finite.wellFounded_of_trans_of_irrefl (Relation.TransGen (flip (WaitsFor s)))
  -- the transaction at the end of a longest chain has nobody left to wait for
  obtain ⟨m, hm, hlast⟩ := hwf.has_min {i | s.task i ≠ none} ⟨i, hi⟩
  rcases hs.step_or_waitsFor hm with hstep | ⟨j, hwait, hj⟩
  · exact hstuck hstep
  · exact hlast j hj (.single hwait)

theorem Step.exists_rest (h : Step s s') :
    ∃ i t, Rest t (s.task i) ∧ s'.task = Function.update s.task i t := by
  cases h with
  | @lock i r next htask hfree => exact ⟨i, some next, htask ▸ .lock r next, rfl⟩
  | @exec i effect next htask => exact ⟨i, _, htask ▸ .exec effect next _, rfl⟩
  | @commit i htask => exact ⟨i, none, htask ▸ .commit, rfl⟩

theorem wellFounded_step [Finite T] :
    WellFounded fun s' s : State T R S => Step s s' := by
  have hlex : WellFounded (Pi.Lex (WellOrderingRel : T → T → Prop)
      fun {_} => (Rest : Option (Task R S) → Option (Task R S) → Prop)) :=
    Pi.Lex.wellFounded _ fun _ => wellFounded_rest
  refine Subrelation.wf (fun {s' s} h => ?_) (InvImage.wf State.task hlex)
  obtain ⟨i, t, hrest, htask⟩ := h.exists_rest
  -- only one task changes, so any order of the transactions will do
  refine ⟨i, fun j hj => ?_, ?_⟩
  · have hne : j ≠ i := fun h => irrefl_of WellOrderingRel i (h ▸ hj)
    rw [htask, Function.update_of_ne hne]
  · rw [htask, Function.update_self]
    exact hrest

/-- All transactions can be brought to their end, without any of them failing. -/
theorem Sound.exists_ended [Finite T] (hs : Sound s) :
    ∃ s', Relation.ReflTransGen Step s s' ∧ s'.Ended := by
  refine wellFounded_step.induction
    (C := fun s => Sound s → ∃ s', Relation.ReflTransGen Step s s' ∧ s'.Ended) s
    (fun s ih hs => ?_) hs
  by_cases hended : s.Ended
  · exact ⟨s, .refl, hended⟩
  · obtain ⟨s₁, hstep⟩ := hs.exists_step hended
    obtain ⟨s', hrun, hs'⟩ := ih s₁ hstep (hs.step hstep)
    exact ⟨s', .head hstep hrun, hs'⟩

end Sound

end Locking
