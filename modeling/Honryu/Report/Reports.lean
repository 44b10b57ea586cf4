import Honryu.Lib.Keyed
import Honryu.Report.Report
import Mathlib.Data.List.Sort

/-!
The reports that are stored, one for each run.
-/

namespace Honryu.Report

structure Reports where
  rows : List Report
  nodup : (rows.map (·.runId)).Nodup

def runOf (r : Report) : ℤ × ℤ × ℤ := (r.executionId, r.runId, r.startedAt)

/-- The order of `ListReports`: what was started last comes first. -/
def later (x y : ℤ × ℤ × ℤ) : Prop := y.2.2 < x.2.2 ∨ x.2.2 = y.2.2 ∧ y.2.1 ≤ x.2.1

instance : DecidableRel later := fun _ _ => inferInstanceAs (Decidable (_ ∨ _))

namespace Reports

variable (s : Reports)

def empty : Reports := ⟨[], List.nodup_nil⟩

/-- `SaveReport`: the first report of a run is the one that survives. -/
def save (r : Report) : Reports :=
  if h : r.runId ∈ s.rows.map (·.runId) then s
  else
    { rows := s.rows ++ [r]
      nodup := by
        rw [List.map_append, List.map_singleton]
        exact s.nodup.append (List.nodup_singleton _) (List.disjoint_singleton.mpr h) }

/-- `ListReports` of an execution. No limit is meant by one that is not positive. -/
def list (executionId limit : ℤ) : List Report :=
  let rows := (s.rows.filter fun r => r.executionId = executionId).insertionSort
    fun x y => later (runOf x) (runOf y)
  if 0 < limit then rows.take limit.toNat else rows

def newest (executionId : ℤ) : Option Report := (s.list executionId 1).head?

variable {s}

theorem newest_eq_head? (executionId : ℤ) :
    s.newest executionId =
      ((s.rows.filter fun r => r.executionId = executionId).insertionSort
        fun x y => later (runOf x) (runOf y)).head? := by
  simp [newest, list, List.head?_take]

theorem mem_of_newest {executionId : ℤ} {r : Report} (h : s.newest executionId = some r) :
    r ∈ s.rows ∧ r.executionId = executionId := by
  rw [newest_eq_head?] at h
  have hmem := (List.mem_insertionSort _).mp (List.mem_of_head? h)
  simpa using hmem

/-- Which run comes first does not depend on what is reported of it. -/
theorem newest_map {s' : Reports} {f : Report → Report} (hf : ∀ r, runOf (f r) = runOf r)
    (h : s'.rows = s.rows.map f) (executionId : ℤ) :
    s'.newest executionId = (s.newest executionId).map f := by
  have hid : ∀ r, (f r).executionId = r.executionId := fun r => congrArg Prod.fst (hf r)
  have hfilter : s'.rows.filter (fun r => r.executionId = executionId) =
      (s.rows.filter fun r => r.executionId = executionId).map f := by
    rw [h, List.filter_map]
    refine congrArg _ (List.filter_congr fun r _ => ?_)
    rw [Function.comp_apply, hid]
  rw [newest_eq_head?, newest_eq_head?, hfilter, ← List.head?_map,
    List.map_insertionSort _ (fun x y : Report => later (runOf x) (runOf y))]
  intro x _ y _
  rw [hf, hf]

theorem run_newest {s' : Reports} (h : s'.rows.map runOf = s.rows.map runOf) (executionId : ℤ) :
    (s'.newest executionId).map runOf = (s.newest executionId).map runOf := by
  have hsorted : ∀ t : Reports, (t.newest executionId).map runOf =
      (((t.rows.map runOf).filter fun x => x.1 = executionId).insertionSort later).head? := by
    intro t
    rw [newest_eq_head?, ← List.head?_map,
      List.map_insertionSort _ later _ _ fun x _ y _ => Iff.rfl, List.filter_map]
    rfl
  rw [hsorted, hsorted, h]

end Reports

end Honryu.Report
