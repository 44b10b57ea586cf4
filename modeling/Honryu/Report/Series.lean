import Honryu.Report.Report
import Honryu.Report.Second

/-!
The per-second series a results page charts: one point for every measured
second, made of the intervals a store lists for a run.
-/

namespace Honryu.Report

open Metrics

/-! ### Points -/

/-- `SeriesPoint` is one second of a run, as a chart reads it. The latency is
left unset on seconds that recorded no samples. -/
structure SeriesPoint where
  ts : ℤ
  vus : ℚ
  rps : ℚ
  errPct : ℚ
  latency : Option (TallyMap ℚ ℚ)

/-- `duplicateKey` identifies an interval that was sent again. -/
structure DuplicateKey where
  ts : ℤ
  label : String
  seq : ℤ
  deriving DecidableEq

def duplicateKey (iv : Interval) : DuplicateKey :=
  { ts := iv.timestamp, label := iv.label, seq := iv.seq }

def vus (labels engine : ℤ) : ℚ := if labels < engine then engine else labels

structure Grouping where
  seen : List DuplicateKey
  bySecond : TallyMap ℤ (List Interval)

/-- One interval of the first loop of `BuildSeries`. An interval without a
sequence is never taken for a duplicate. -/
def Grouping.add (g : Grouping) (iv : Interval) : Grouping :=
  let bySecond := g.bySecond.insert iv.timestamp (g.bySecond.getD iv.timestamp [] ++ [iv])
  if 0 < iv.seq then
    if duplicateKey iv ∈ g.seen then g
    else { seen := duplicateKey iv :: g.seen, bySecond }
  else { g with bySecond }

structure MergedSecond where
  ts : ℤ
  merged : Interval
  engine : ℤ

/-- The seconds `BuildSeries` makes points of, in their order. -/
def mergedSeconds (v : Visit) (intervals : List Interval) : List MergedSecond :=
  let bySecond := (intervals.foldl Grouping.add { seen := [], bySecond := ∅ }).bySecond
  let seconds := (v.keys bySecond).insertionSort (· ≤ ·)
  seconds.map fun ts =>
    let (merged, engine) := mergeSecond (bySecond.getD ts [])
    { ts, merged, engine }

/-- The point of a second. An interval covers exactly one second, so the count
of its samples is its rate. -/
def MergedSecond.point (v : Visit) (pcts : List ℚ) (s : MergedSecond) : SeriesPoint :=
  { ts := s.ts
    vus := vus s.merged.concurrency s.engine
    rps := s.merged.samples
    errPct := if 0 < s.merged.samples then s.merged.failed / s.merged.samples * 100 else 0
    latency :=
      if 0 < s.merged.latency.count v then some (s.merged.latency.percentiles v pcts) else none }

/-- `BuildSeries` folds a run's intervals into one point per measured second,
ascending by timestamp. -/
def buildSeries (v : Visit) (intervals : List Interval) (pcts : List ℚ) : List SeriesPoint :=
  (mergedSeconds v intervals).map (MergedSecond.point v pcts)

/-- Where a second has samples, its rate and its share of failures give back the
number of its failures. -/
theorem MergedSecond.rps_mul_errPct (v : Visit) (pcts : List ℚ) {s : MergedSecond}
    (h : 0 < s.merged.samples) :
    (s.point v pcts).rps * (s.point v pcts).errPct = s.merged.failed * 100 := by
  have hne : (s.merged.samples : ℚ) ≠ 0 := by exact_mod_cast h.ne'
  simp only [point, if_pos h]
  field_simp

/-! ### Rows that are one per second already -/

/-- A row as a store lists it: the only one of its second, with no label and no
sequence. -/
structure Listed (ivs : List Interval) : Prop where
  increasing : ivs.Pairwise fun x y => x.timestamp < y.timestamp
  unsequenced : ∀ iv ∈ ivs, iv.seq = 0
  unlabelled : ∀ iv ∈ ivs, iv.label = ""

theorem foldl_add_of_unsequenced {ivs : List Interval} (h : ∀ iv ∈ ivs, iv.seq = 0)
    (g : Grouping) :
    (ivs.foldl Grouping.add g).bySecond =
      ivs.foldl (fun m iv => m.insert iv.timestamp (m.getD iv.timestamp [] ++ [iv]))
        g.bySecond := by
  induction ivs generalizing g with
  | nil => rfl
  | cons iv ivs ih =>
      have hseq : ¬0 < iv.seq := by rw [h iv List.mem_cons_self]; exact lt_irrefl 0
      rw [List.foldl_cons, ih fun x hx => h x (List.mem_cons_of_mem _ hx), List.foldl_cons]
      simp only [Grouping.add, if_neg hseq]

/-- The row of a second that only one row is listed for, with its latency unset
if it has no buckets. -/
theorem mergeSecond_singleton {iv : Interval} (hlabel : iv.label = "") :
    mergeSecond [iv] =
      ({ zeroInterval with
          concurrency := iv.concurrency, samples := iv.samples, succeeded := iv.succeeded
          failed := iv.failed, bytes := iv.bytes, latency := iv.latency }, 0) := by
  have hne : iv.label ≠ totalLabel := by rw [hlabel]; decide
  simp only [mergeSecond, List.foldl_cons, List.foldl_nil, mergeSecondRow, if_neg hne,
    Histogram.merge_eq, TallyMap.empty_eq_zero, zero_add, zeroInterval]
  split
  case isTrue h => rw [isEmpty_eq_true_iff.mp h]
  case isFalse => rfl

namespace Listed

variable {ivs : List Interval}

theorem mergedSeconds_eq (h : Listed ivs) (v : Visit) :
    mergedSeconds v ivs = ivs.map fun iv =>
      { ts := iv.timestamp, merged := (mergeSecond [iv]).1, engine := (mergeSecond [iv]).2 } := by
  have hgroup : (ivs.foldl Grouping.add { seen := [], bySecond := ∅ }).bySecond =
      TallyMap.groupBy Interval.timestamp ivs := foldl_add_of_unsequenced h.unsequenced _
  have hlist := TallyMap.toList_groupBy_of_increasing Interval.timestamp h.increasing
  simp only [mergedSeconds, hgroup, v.sort_keys]
  rw [TallyMap.keys_map_getD _ _ fun ts rows =>
    ({ ts, merged := (mergeSecond rows).1, engine := (mergeSecond rows).2 } : MergedSecond),
    hlist, List.map_map]
  rfl

end Listed

end Honryu.Report
