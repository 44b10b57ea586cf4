import Honryu.Report.Tally

/-!
A run's per-second series: how the rows its pods report for one second become
one measurement of that second, and the sum this makes of a run's intervals.
-/

namespace Honryu.Report

open Metrics

/-! ### Merging a second -/

def zeroInterval : Interval :=
  { seq := 0, timestamp := 0, label := "", concurrency := 0, samples := 0, succeeded := 0,
    failed := 0, bytes := 0, latency := ∅, responseCodes := ∅, errors := [] }

/-- One row of `MergeSecond`: the merged interval, the engine's concurrency
and the histogram so far. -/
def mergeSecondRow (acc : Interval × ℤ × Histogram) (row : Interval) : Interval × ℤ × Histogram :=
  let (merged, engineConcurrency, hist) := acc
  if row.label = totalLabel then (merged, engineConcurrency + row.concurrency, hist)
  else
    ({ merged with
        concurrency := merged.concurrency + row.concurrency
        samples := merged.samples + row.samples
        succeeded := merged.succeeded + row.succeeded
        failed := merged.failed + row.failed
        bytes := merged.bytes + row.bytes },
      engineConcurrency, hist.merge row.latency)

/-- `MergeSecond` folds every row reported for one second into the run-wide
measurement of that second, and returns the engine's own concurrency beside it. -/
def mergeSecond (rows : List Interval) : Interval × ℤ :=
  let (merged, engineConcurrency, hist) := rows.foldl mergeSecondRow (zeroInterval, 0, ∅)
  (if hist.isEmpty then merged else { merged with latency := hist }, engineConcurrency)

/-! ### The series of a run -/

/-- One second of a run's series. The latency is missing until a row with
buckets arrives. -/
@[ext] structure SeriesSecond where
  engine : ℤ
  labels : ℤ
  samples : ℤ
  failed : ℤ
  bytes : ℤ
  latency : Option Histogram
  deriving DecidableEq

instance : Zero SeriesSecond :=
  ⟨{ engine := 0, labels := 0, samples := 0, failed := 0, bytes := 0, latency := none }⟩

instance : Add SeriesSecond := ⟨fun a b =>
  { engine := a.engine + b.engine, labels := a.labels + b.labels,
    samples := a.samples + b.samples, failed := a.failed + b.failed,
    bytes := a.bytes + b.bytes, latency := a.latency + b.latency }⟩

instance : AddCommMonoid SeriesSecond where
  add_assoc _ _ _ := SeriesSecond.ext (add_assoc _ _ _) (add_assoc _ _ _) (add_assoc _ _ _)
    (add_assoc _ _ _) (add_assoc _ _ _) (add_assoc _ _ _)
  zero_add _ := SeriesSecond.ext (zero_add _) (zero_add _) (zero_add _) (zero_add _) (zero_add _)
    (zero_add _)
  add_zero _ := SeriesSecond.ext (add_zero _) (add_zero _) (add_zero _) (add_zero _) (add_zero _)
    (add_zero _)
  add_comm _ _ := SeriesSecond.ext (add_comm _ _) (add_comm _ _) (add_comm _ _) (add_comm _ _)
    (add_comm _ _) (add_comm _ _)
  nsmul := nsmulRec

def seriesPart (iv : Interval) : SeriesSecond :=
  if iv.label = totalLabel then
    { engine := iv.concurrency, labels := 0, samples := 0, failed := 0, bytes := 0,
      latency := none }
  else
    { engine := 0, labels := iv.concurrency, samples := iv.samples, failed := iv.failed,
      bytes := iv.bytes, latency := nonempty? iv.latency }

def seriesOf (ivs : List Interval) : TallyMap ℤ SeriesSecond :=
  (ivs.map fun iv => TallyMap.single iv.timestamp (seriesPart iv)).sum

@[simp] theorem seriesOf_nil : seriesOf [] = 0 := rfl

theorem seriesOf_append (xs ys : List Interval) :
    seriesOf (xs ++ ys) = seriesOf xs + seriesOf ys := by
  simp [seriesOf]

theorem seriesOf_perm {xs ys : List Interval} (h : xs.Perm ys) : seriesOf xs = seriesOf ys :=
  (h.map _).sum_eq

def SeriesSecond.ofMerged (m : Interval × ℤ) : SeriesSecond :=
  { engine := m.2, labels := m.1.concurrency, samples := m.1.samples, failed := m.1.failed,
    bytes := m.1.bytes, latency := nonempty? m.1.latency }

def collected (acc : Interval × ℤ × Histogram) : SeriesSecond :=
  .ofMerged ({ acc.1 with latency := acc.2.2 }, acc.2.1)

theorem collected_mergeSecondRow (acc : Interval × ℤ × Histogram) (row : Interval) :
    collected (mergeSecondRow acc row) = collected acc + seriesPart row := by
  unfold mergeSecondRow seriesPart
  by_cases h : row.label = totalLabel
  · simp only [h, if_true]
    exact SeriesSecond.ext rfl (add_zero _).symm (add_zero _).symm (add_zero _).symm
      (add_zero _).symm (add_zero _).symm
  · simp only [h, if_false]
    exact SeriesSecond.ext (add_zero _).symm rfl rfl rfl rfl (nonempty?_add _ _)

theorem collected_foldl (acc : Interval × ℤ × Histogram) (rows : List Interval) :
    collected (rows.foldl mergeSecondRow acc) = collected acc + (rows.map seriesPart).sum := by
  induction rows generalizing acc with
  | nil => simp
  | cons row rows ih =>
      rw [List.foldl_cons, ih, collected_mergeSecondRow, List.map_cons, List.sum_cons, add_assoc]

theorem latency_foldl (acc : Interval × ℤ × Histogram) (rows : List Interval) :
    (rows.foldl mergeSecondRow acc).1.latency = acc.1.latency := by
  induction rows generalizing acc with
  | nil => rfl
  | cons row rows ih =>
      rw [List.foldl_cons, ih, mergeSecondRow]
      split <;> rfl

theorem ofMerged_mergeSecond (rows : List Interval) :
    SeriesSecond.ofMerged (mergeSecond rows) = (rows.map seriesPart).sum := by
  have hsum := collected_foldl (zeroInterval, 0, ∅) rows
  have hzero : collected (zeroInterval, 0, ∅) = 0 := rfl
  have hlat := latency_foldl (zeroInterval, 0, ∅) rows
  rw [hzero, zero_add] at hsum
  rw [← hsum, mergeSecond]
  generalize rows.foldl mergeSecondRow (zeroInterval, 0, ∅) = acc at hlat ⊢
  obtain ⟨merged, engineConcurrency, hist⟩ := acc
  by_cases h : hist.isEmpty
  · simp only [collected, isEmpty_eq_true_iff.mp h]
    exact SeriesSecond.ext rfl rfl rfl rfl rfl (congrArg nonempty? hlat)
  · simp only [h, Bool.false_eq_true, if_false, collected]

end Honryu.Report
