import Honryu.Lib.Walk
import Mathlib.Data.List.Infix
import Mathlib.Data.List.Nodup
import Mathlib.Data.String.Basic
import Mathlib.Logic.Function.Basic

/-!
The migrations of the schema, which every replica applies when it starts.

Replicas start, stop and go on in any order, and nothing keeps two of them from migrating at a time.
A statement may fail, and it may take effect although the replica is told that it has failed.
-/

namespace Honryu.Storage

open Function

def legacyTables : List String :=
  ["plan", "collection", "collection_plan", "plan_data", "plan_test_file", "collection_data",
    "collection_run", "collection_run_history", "running_plan", "collection_launch",
    "collection_launch_history2", "v3_tenant", "v3_role_grant"]

/-- The names of the embedded files, sorted. -/
structure Files where
  names : List String
  sorted : names.Pairwise (· < ·)

/-- The tables that are there at first, the statements that have taken effect, and the rows of
`schema_migrations`. -/
structure Schema where
  tables : List String
  ensured : Bool
  executed : List String
  recorded : List String

inductive MigrateError
  | check
  | legacy (found : List String)
  | ensure
  | load
  | apply (name : String)
  | record (name : String)

/-- The next statement of a replica. The loop is at the file of an index, and `applied` is what was
recorded before it. -/
inductive Phase
  | checking
  | ensuring
  | loading
  | looping (index : ℕ) (applied : List String)
  | recording (index : ℕ) (applied : List String) (name : String)
  | done
  | failed (error : MigrateError)

/-- How a statement ends. It may take effect and yet be lost on the replica. -/
inductive Outcome
  | ok
  | fails
  | lost
  deriving DecidableEq

/-- A statement that makes a schema of another one, and what follows it. -/
def Schema.exec (db db' : Schema) (o : Outcome) (next : Phase) (error : MigrateError) :
    Schema × Phase :=
  (if o = .fails then db else db', if o = .ok then next else .failed error)

def Schema.legacy (db : Schema) : List String := db.tables.filter (· ∈ legacyTables)

/-- `Migrate`, statement by statement. -/
def Files.migrate (files : Files) (db : Schema) (o : Outcome) : Phase → Schema × Phase
  | .checking =>
      db.exec db o (if db.legacy = [] then .ensuring else .failed (.legacy db.legacy)) .check
  | .ensuring => db.exec { db with ensured := true } o .loading .ensure
  | .loading => db.exec db o (.looping 0 db.recorded) .load
  | .looping index applied =>
      match files.names[index]? with
      | none => (db, .done)
      | some name =>
          if name ∈ applied then (db, .looping (index + 1) applied)
          else db.exec { db with executed := db.executed ++ [name] } o
            (.recording index applied name) (.apply name)
  | .recording index applied name =>
      -- the version is the primary key
      if name ∈ db.recorded then (db, .failed (.record name))
      else db.exec { db with recorded := db.recorded ++ [name] } o (.looping (index + 1) applied)
        (.record name)
  | phase => (db, phase)

/-- The schema, and the replicas that are migrating it or have done so. -/
structure Fleet where
  db : Schema
  replicas : ℕ → Option Phase

/-- A replica starts, possibly after it was stopped, or goes on. -/
inductive MigrateEvent
  | start (i : ℕ)
  | go (i : ℕ) (o : Outcome)

def Fleet.step (files : Files) (f : Fleet) : MigrateEvent → Fleet
  | .start i => { f with replicas := update f.replicas i (some .checking) }
  | .go i o => (f.replicas i).elim f fun phase =>
      ⟨(files.migrate f.db o phase).1, update f.replicas i (files.migrate f.db o phase).2⟩

def Fleet.new (tables : List String) : Fleet := ⟨⟨tables, false, [], []⟩, fun _ => none⟩

abbrev Files.run (files : Files) (tables : List String) (events : List MigrateEvent) : Fleet :=
  Walk.run (Fleet.step files) (.new tables) events

/-! ### What holds at any time -/

/-- How far a replica has come. -/
def Phase.Fits (files : Files) (db : Schema) : Phase → Prop
  | .checking | .failed _ => True
  | .ensuring | .loading => db.legacy = []
  | .looping index applied =>
      db.legacy = [] ∧ applied ⊆ db.recorded ∧ index ≤ db.recorded.length
  | .recording index applied name =>
      (db.legacy = [] ∧ applied ⊆ db.recorded ∧ index ≤ db.recorded.length) ∧
        files.names[index]? = some name ∧ name ∈ db.executed
  | .done => db.recorded = files.names

/-- The versions are recorded in the order of the files, each after its statement has taken effect.
No statement but the next one has taken effect without being recorded. -/
structure Schema.Orderly (files : Files) (db : Schema) : Prop where
  recorded : db.recorded <+: files.names
  executed : ∀ name ∈ db.executed, name ∈ files.names.take (db.recorded.length + 1)
  before : db.recorded ⊆ db.executed
  legacy : db.legacy ≠ [] → db.ensured = false ∧ db.executed = []

/-- A schema goes on from another one. -/
structure Schema.Grows (db db' : Schema) : Prop where
  tables : db'.tables = db.tables
  executed : db.executed ⊆ db'.executed
  recorded : db.recorded <+: db'.recorded

section

variable {files : Files} {db db' : Schema} {phase next : Phase} {name : String} {index n : ℕ}

theorem Schema.Grows.refl (db : Schema) : db.Grows db :=
  ⟨rfl, List.Subset.refl _, List.prefix_rfl⟩

theorem Phase.Fits.mono (h : phase.Fits files db) (hgrows : db.Grows db')
    (horderly : db'.Orderly files) : phase.Fits files db' := by
  have hlegacy : db'.legacy = db.legacy := by rw [Schema.legacy, hgrows.tables, Schema.legacy]
  have hloop : ∀ index applied, Fits files db (.looping index applied) →
      Fits files db' (.looping index applied) := fun _ _ ⟨hnone, happlied, hindex⟩ =>
    ⟨hlegacy.trans hnone, List.Subset.trans happlied hgrows.recorded.subset,
      hindex.trans hgrows.recorded.length_le⟩
  cases phase with
  | checking | failed => trivial
  | ensuring | loading => exact hlegacy.trans h
  | looping index applied => exact hloop index applied h
  | recording index applied => exact ⟨hloop index applied h.1, h.2.1, hgrows.executed h.2.2⟩
  | done =>
      have hall : files.names <+: db'.recorded := h ▸ hgrows.recorded
      exact horderly.recorded.eq_of_length_le hall.length_le

/-- A file is among the first ones if and only if its index is. -/
theorem Files.mem_take_iff (hname : files.names[index]? = some name) :
    name ∈ files.names.take n ↔ index < n := by
  obtain ⟨hindex, rfl⟩ := List.getElem?_eq_some_iff.mp hname
  have hnodup : files.names.Nodup := files.sorted.imp ne_of_lt
  rw [List.mem_take_iff_getElem]
  constructor
  · rintro ⟨i, hi, heq⟩
    have := (List.Nodup.getElem_inj_iff hnodup).mp heq
    omega
  · exact fun hn => ⟨index, by omega, rfl⟩

/-- What a statement leads to that keeps the schema orderly. -/
theorem Schema.Orderly.exec (h : db.Orderly files) (h' : db'.Orderly files)
    (hgrows : db.Grows db') (hnext : next.Fits files db') (o : Outcome) (error : MigrateError) :
    db.Grows (db.exec db' o next error).1 ∧ (db.exec db' o next error).1.Orderly files ∧
      (db.exec db' o next error).2.Fits files (db.exec db' o next error).1 := by
  cases o with
  | ok => exact ⟨hgrows, h', hnext⟩
  | fails => exact ⟨.refl db, h, trivial⟩
  | lost => exact ⟨hgrows, h', trivial⟩

theorem Schema.Orderly.migrate (h : db.Orderly files) (hphase : phase.Fits files db)
    (o : Outcome) :
    db.Grows (files.migrate db o phase).1 ∧ (files.migrate db o phase).1.Orderly files ∧
      (files.migrate db o phase).2.Fits files (files.migrate db o phase).1 := by
  cases phase with
  | checking =>
      refine h.exec h (.refl db) ?_ o _
      split
      · assumption
      · trivial
  | ensuring =>
      refine h.exec ?_ ?_ ?_ o _
      · exact ⟨h.recorded, h.executed, h.before, fun hsome => absurd hphase hsome⟩
      · exact ⟨rfl, List.Subset.refl _, List.prefix_rfl⟩
      · exact hphase
  | loading =>
      refine h.exec h (.refl db) ?_ o _
      exact ⟨hphase, List.Subset.refl _, Nat.zero_le _⟩
  | done | failed => exact ⟨.refl db, h, hphase⟩
  | looping index applied =>
      obtain ⟨hnone, happlied, hindex⟩ := hphase
      rw [Files.migrate]
      split
      · next hend =>
          have hall := List.getElem?_eq_none_iff.mp hend
          exact ⟨.refl db, h, h.recorded.eq_of_length_le (hall.trans hindex)⟩
      · next name hname =>
          split
          · next hknown =>
              have hmem := happlied hknown
              rw [List.prefix_iff_eq_take.mp h.recorded, Files.mem_take_iff hname] at hmem
              exact ⟨.refl db, h, hnone, happlied, hmem⟩
          · have hnext := (Files.mem_take_iff hname).mpr (Nat.lt_succ_of_le hindex)
            have hexecuted := List.subset_append_left db.executed [name]
            refine h.exec ?_ ?_ ?_ o _
            · exact ⟨h.recorded, List.forall_mem_append.mpr ⟨h.executed, by simpa using hnext⟩,
                List.Subset.trans h.before hexecuted, fun hsome => absurd hnone hsome⟩
            · exact ⟨rfl, hexecuted, List.prefix_rfl⟩
            · exact ⟨⟨hnone, happlied, hindex⟩, hname, by simp⟩
  | recording index applied name =>
      obtain ⟨⟨hnone, happlied, hindex⟩, hname, hexecuted⟩ := hphase
      rw [Files.migrate]
      split
      · exact ⟨.refl db, h, trivial⟩
      · next hnew =>
          -- everything before the file is recorded, and the file is not: it is the next one
          have hrecorded := List.prefix_iff_eq_take.mp h.recorded
          rw [hrecorded, Files.mem_take_iff hname, not_lt] at hnew
          have hlast := le_antisymm hindex hnew
          have hall : db.recorded ++ [name] <+: files.names := by
            rw [List.prefix_iff_eq_take, List.length_append, List.length_singleton,
              List.take_add_one, ← hrecorded, ← hlast, hname]
            rfl
          refine h.exec ?_ ?_ ?_ o _
          · refine ⟨hall, fun x hx => ?_, ?_, fun hsome => absurd hnone hsome⟩
            · exact List.take_subset_take_left _ (by simp) (h.executed x hx)
            · exact List.append_subset.mpr ⟨h.before, by simpa using hexecuted⟩
          · exact ⟨rfl, List.Subset.refl _, List.prefix_append _ _⟩
          · exact ⟨hnone, List.Subset.trans happlied (List.subset_append_left _ _), by simp [hlast]⟩

/-- What holds of the schema and of every replica. -/
structure Fleet.Sound (files : Files) (f : Fleet) : Prop where
  orderly : f.db.Orderly files
  replicas : ∀ i, ∀ phase ∈ f.replicas i, phase.Fits files f.db

end

theorem Fleet.Sound.step {files : Files} {f : Fleet} (h : f.Sound files) (e : MigrateEvent) :
    (f.step files e).Sound files := by
  cases e with
  | start i =>
      refine ⟨h.orderly, Walk.forall_update h.replicas i _ ?_⟩
      rintro _ ⟨⟩
      trivial
  | go i o =>
      simp only [Fleet.step]
      cases hi : f.replicas i with
      | none => exact h
      | some current =>
          obtain ⟨hgrows, horderly, hnext⟩ := h.orderly.migrate (h.replicas i current hi) o
          refine ⟨horderly, Walk.forall_update (fun j phase hphase => ?_) i _ ?_⟩
          · exact (h.replicas j phase hphase).mono hgrows horderly
          · rintro _ ⟨⟩
            exact hnext

/-- However the replicas interleave, and whichever statements fail: the schema is orderly, and a
replica that is done has left every version recorded. -/
theorem orderly_run (files : Files) (tables : List String) (events : List MigrateEvent) :
    (files.run tables events).db.Orderly files ∧
      ∀ i, (files.run tables events).replicas i = some .done →
        (files.run tables events).db.recorded = files.names := by
  have hnew : (Fleet.new tables).Sound files :=
    ⟨⟨List.nil_prefix, by simp [Fleet.new], List.nil_subset _, fun _ => ⟨rfl, rfl⟩⟩,
      by simp [Fleet.new]⟩
  have h : (files.run tables events).Sound files :=
    List.foldlRecOn events _ hnew fun _ hf e _ => hf.step e
  exact ⟨h.orderly, fun i hi => h.replicas i _ hi⟩

example : (Files.run ⟨["0001", "0002"], by decide⟩ []
    (.start 0 :: .replicate 8 (.go 0 .ok))).replicas 0 = some .done := rfl

end Honryu.Storage
