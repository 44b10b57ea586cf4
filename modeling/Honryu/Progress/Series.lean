import Honryu.Lib.TallySum
import Honryu.Progress.Refinement
import Honryu.Report.Incremental
import Honryu.Report.Series

/-!
The series of a run and its report are two views of the same intervals.

The report is made of the labels and the seconds of the working state, the
series of rows of its own. Both are sums over the intervals that were absorbed,
so a figure that is additive comes to the same in both; and the two have the
same seconds, each with the same two readings of the concurrency.
-/

namespace Honryu.Progress

open Metrics Report

/-! ### Additive figures -/

def labelSamples : LabelState →+ ℤ where
  toFun := LabelState.samples
  map_zero' := rfl
  map_add' _ _ := rfl

def labelFailed : LabelState →+ ℤ where
  toFun := LabelState.failed
  map_zero' := rfl
  map_add' _ _ := rfl

def labelBuckets : LabelState →+ Histogram where
  toFun := LabelState.latency
  map_zero' := rfl
  map_add' _ _ := rfl

def seriesSamples : SeriesSecond →+ ℤ where
  toFun := SeriesSecond.samples
  map_zero' := rfl
  map_add' _ _ := rfl

def seriesFailed : SeriesSecond →+ ℤ where
  toFun := SeriesSecond.failed
  map_zero' := rfl
  map_add' _ _ := rfl

def seriesBuckets : SeriesSecond →+ Histogram where
  toFun s := s.latency.getD ∅
  map_zero' := rfl
  map_add' a b := by
    show (a.latency + b.latency).getD ∅ = _
    cases a.latency <;> cases b.latency <;> simp [TallyMap.empty_eq_zero]

def readings : SecondState →+ ℤ × ℤ where
  toFun s := (s.engine, s.labels)
  map_zero' := rfl
  map_add' _ _ := rfl

def seriesReadings : SeriesSecond →+ ℤ × ℤ where
  toFun s := (s.engine, s.labels)
  map_zero' := rfl
  map_add' _ _ := rfl

/-! ### The same sums -/

section Sums

variable {M : Type} [AddCommMonoid M] (f : LabelState →+ M) (g : SeriesSecond →+ M)

theorem sumBy_labels (ivs : List Interval) :
    (intervalsTally ivs).labels.sumBy f =
      (ivs.map fun iv => if iv.label = totalLabel then 0 else f (labelPart iv)).sum := by
  induction ivs with
  | nil => rfl
  | cons iv ivs ih =>
      rw [intervalsTally_cons, Tally.labels_add, TallyMap.sumBy_add, ih, List.map_cons,
        List.sum_cons, intervalTally]
      split
      · rfl
      · rw [TallyMap.sumBy_single]

/-- A figure that is zero for an aggregate row and the same for every other row
comes to the same over the labels and over the series. -/
theorem sumBy_labels_eq_sumBy_series (htotal : ∀ n, g ⟨n, 0, 0, 0, 0, none⟩ = 0)
    (hlabel : ∀ iv, g ⟨0, iv.concurrency, iv.samples, iv.failed, iv.bytes, nonempty? iv.latency⟩ =
      f (labelPart iv)) (ivs : List Interval) :
    (intervalsTally ivs).labels.sumBy f = (seriesOf ivs).sumBy g := by
  rw [sumBy_labels, seriesOf, TallyMap.sumBy_sum_single]
  refine congrArg List.sum (List.map_congr_left fun iv _ => ?_)
  rw [seriesPart]
  split
  · exact (htotal _).symm
  · exact (hlabel iv).symm

end Sums

/-- The working state and the series have the same seconds, with the same
readings. -/
theorem readings_seconds (ivs : List Interval) :
    (intervalsTally ivs).seconds.mapValues readings = (seriesOf ivs).mapValues seriesReadings := by
  rw [seriesOf, TallyMap.mapValues_sum_single]
  induction ivs with
  | nil => exact TallyMap.mapValues_zero _
  | cons iv ivs ih =>
      rw [intervalsTally_cons, Tally.seconds_add, TallyMap.mapValues_add, ih, List.map_cons,
        List.sum_cons, intervalTally, seriesPart]
      congr 1
      split
      · rw [TallyMap.mapValues_single]
        rfl
      · rw [TallyMap.mapValues_single]
        rfl

/-! ### Reading the report -/

theorem foldl_addTotals (t : ℤ × ℤ × Histogram) (l : List LabelState) :
    l.foldl addTotals t =
      (t.1 + (l.map labelSamples).sum, t.2.1 + (l.map labelFailed).sum,
        t.2.2 + (l.map labelBuckets).sum) := by
  induction l generalizing t with
  | nil => simp
  | cons st l ih =>
      rw [List.foldl_cons, ih]
      simp only [addTotals, List.map_cons, List.sum_cons, add_assoc, Histogram.merge_eq]
      rfl

theorem sum_map_values {K V M : Type} [LinearOrder K] [AddCommMonoid M] (v : Visit)
    (m : TallyMap K V) (f : V → M) : ((v.values m).map f).sum = m.sumBy f := by
  rw [Visit.values, List.map_map, ((v.perm m).map _).sum_eq]
  rfl

theorem totals_eq (v : Visit) (a : Accumulator) :
    a.totals v =
      (a.labels.sumBy labelSamples, a.labels.sumBy labelFailed, a.labels.sumBy labelBuckets) := by
  rw [Accumulator.totals, foldl_addTotals, sum_map_values, sum_map_values, sum_map_values]
  simp [TallyMap.empty_eq_zero]

def larger (r : ℤ × ℤ) : ℤ := max r.1 r.2

theorem foldl_higher (n : ℤ) (l : List SecondState) :
    l.foldl higher n = (l.map fun s => larger (readings s)).foldl max n := by
  induction l generalizing n with
  | nil => rfl
  | cons s l ih =>
      have hstep : higher n s = max n (larger (readings s)) := by
        show higher n s = max n (max s.engine s.labels)
        simp only [higher]
        grind
      rw [List.foldl_cons, ih, List.map_cons, List.foldl_cons, hstep]

theorem peak_eq (v : Visit) (a : Accumulator) :
    a.peak v = ((a.seconds.mapValues readings).toList.map fun p => larger p.2).foldl max 0 := by
  rw [a.peak_visit v .sorted, Accumulator.peak, foldl_higher, TallyMap.toList_mapValues,
    List.map_map, Visit.values, List.map_map]
  rfl

theorem foldl_widen {lo hi : ℤ} {l : List ℤ} (h : (hi :: l).Pairwise (· < ·)) (hlo : lo ≤ hi) :
    l.foldl widen (some (lo, hi)) = some (lo, (hi :: l).getLast (List.cons_ne_nil _ _)) := by
  induction l generalizing hi with
  | nil => rfl
  | cons ts l ih =>
      rw [List.pairwise_cons] at h
      have hlt : hi < ts := h.1 ts List.mem_cons_self
      have hstep : widen (some (lo, hi)) ts = some (lo, ts) := by
        simp only [widen, if_neg (hlo.trans hlt.le).not_gt, if_pos hlt]
      rw [List.foldl_cons, hstep, ih h.2 (hlo.trans hlt.le),
        List.getLast_cons (a := hi) (List.cons_ne_nil ts l)]

/-- The seconds in their order begin with the first and end with the last. -/
theorem measuredSpanSeconds_eq (v : Visit) (a : Accumulator) {lo hi : ℤ}
    (hlo : a.seconds.keys.head? = some lo) (hhi : a.seconds.keys.getLast? = some hi) :
    a.measuredSpanSeconds v = some (hi - lo + 1) := by
  have hsorted : a.seconds.keys.Pairwise (· < ·) :=
    Std.ExtTreeMap.ordered_keys.imp fun h => compare_lt_iff_lt.mp h
  rw [a.measuredSpanSeconds_visit v .sorted, Accumulator.measuredSpanSeconds, Visit.keys_sorted]
  cases hkeys : a.seconds.keys with
  | nil => simp [hkeys] at hlo
  | cons ts l =>
      rw [hkeys] at hlo hhi hsorted
      obtain rfl : ts = lo := by simpa using hlo
      have hlast : (ts :: l).getLast (List.cons_ne_nil _ _) = hi := by
        rwa [List.getLast?_eq_getLast_of_ne_nil (List.cons_ne_nil _ _), Option.some_inj] at hhi
      rw [List.foldl_cons, widen, foldl_widen hsorted le_rfl, hlast]
      rfl

/-! ### Reading the series -/

theorem listed_series (series : TallyMap ℤ SeriesSecond) :
    Listed (series.toList.map seriesInterval) where
  increasing := List.pairwise_map.mpr series.pairwise_toList
  unsequenced := List.forall_mem_map.mpr fun _ _ => rfl
  unlabelled := List.forall_mem_map.mpr fun _ _ => rfl

def rowSecond (p : ℤ × SeriesSecond) : MergedSecond :=
  { ts := p.1, engine := 0
    merged :=
      { zeroInterval with
        concurrency := larger (seriesReadings p.2), samples := p.2.samples
        failed := p.2.failed, bytes := p.2.bytes, latency := p.2.latency.getD ∅ } }

theorem mergedSeconds_series (v : Visit) (series : TallyMap ℤ SeriesSecond) :
    mergedSeconds v (series.toList.map seriesInterval) = series.toList.map rowSecond := by
  rw [(listed_series series).mergedSeconds_eq v, List.map_map]
  refine List.map_congr_left fun p _ => ?_
  have hmerge : mergeSecond [seriesInterval p] = _ := mergeSecond_singleton rfl
  simp only [Function.comp_apply, hmerge]
  rfl

/-- No reading of a second is negative if none of the rows it is made of is. -/
theorem nonneg_seriesOf {ivs : List Interval} (h : ∀ iv ∈ ivs, iv.NonNegative) :
    ∀ (ts : ℤ) (s : SeriesSecond), (seriesOf ivs)[ts]? = some s → 0 ≤ s.engine ∧ 0 ≤ s.labels := by
  induction ivs with
  | nil => simp
  | cons iv ivs ih =>
      rw [← List.singleton_append, seriesOf_append]
      refine TallyMap.forall_add (fun a b ha hb => ⟨add_nonneg ha.1 hb.1, add_nonneg ha.2 hb.2⟩)
        ?_ (ih fun x hx => h x (List.mem_cons_of_mem _ hx))
      have hrow : 0 ≤ (seriesPart iv).engine ∧ 0 ≤ (seriesPart iv).labels := by
        have hconcurrency := (h iv List.mem_cons_self).1.1
        rw [seriesPart]
        split
        · exact ⟨hconcurrency, le_rfl⟩
        · exact ⟨le_rfl, hconcurrency⟩
      rw [seriesOf, List.map_singleton, List.sum_singleton]
      exact TallyMap.forall_single hrow

theorem foldl_max_cast (n : ℤ) (l : List ℤ) :
    (l.map fun x : ℤ => (x : ℚ)).foldl max (n : ℚ) = ((l.foldl max n : ℤ) : ℚ) := by
  induction l generalizing n with
  | nil => rfl
  | cons x l ih => rw [List.map_cons, List.foldl_cons, ← Int.cast_max, ih, List.foldl_cons]

theorem vus_rowSecond (v : Visit) (pcts : List ℚ) {p : ℤ × SeriesSecond}
    (h : 0 ≤ p.2.engine ∧ 0 ≤ p.2.labels) :
    ((rowSecond p).point v pcts).vus = (larger (seriesReadings p.2) : ℤ) := by
  have hnonneg : ¬larger (seriesReadings p.2) < 0 := (le_max_of_le_left h.1).not_gt
  exact if_neg hnonneg

/-! ### The two agree -/

def absorbedIntervals (runId : ℤ) (bs : List ProgressBatch) : List Interval :=
  intervalsOf (Ledger.empty.pieces (inRun runId bs))

theorem tally_restore_applyAll (v : Visit) (bs : List ProgressBatch) (runId : ℤ) :
    (restore ((Repository.applyAll v bs).snapshot runId)).tally =
      intervalsTally (absorbedIntervals runId bs) := by
  rw [Repository.tally_restore_snapshot, Repository.ledger_applyAll, ledgers_eq,
    Ledger.tally_foldl_absorb]
  exact zero_add _

theorem listIntervalsByRun_applyAll (v : Visit) (bs : List ProgressBatch) (runId : ℤ) :
    (Repository.applyAll v bs).listIntervalsByRun runId =
      (seriesOf (absorbedIntervals runId bs)).toList.map seriesInterval := by
  rw [Repository.listIntervalsByRun_eq, Repository.ledger_applyAll, ledgers_eq,
    Ledger.series_foldl_absorb]
  exact congrArg (fun series : TallyMap ℤ SeriesSecond => series.toList.map seriesInterval)
    (zero_add _)

section Agreement

variable (v : Visit) (pcts : List ℚ) (series : TallyMap ℤ SeriesSecond)

theorem sum_rps :
    ((series.toList.map rowSecond).map fun s => (s.point v pcts).rps).sum =
      (series.sumBy seriesSamples : ℤ) := by
  rw [List.map_map, TallyMap.sumBy, Int.cast_list_sum, List.map_map]
  rfl

theorem sum_merged {M : Type} [AddCommMonoid M] (f : Interval → M) (g : SeriesSecond → M)
    (h : ∀ p, f (rowSecond p).merged = g p.2) :
    ((series.toList.map rowSecond).map fun s => f s.merged).sum = series.sumBy g := by
  rw [List.map_map, TallyMap.sumBy]
  exact congrArg List.sum (List.map_congr_left fun p _ => h p)

/-- Where only seconds with samples have failures, the failures can be read off
the points. -/
theorem sum_rps_mul_errPct {seconds : List MergedSecond}
    (h : ∀ s ∈ seconds, 0 < s.merged.samples ∨ s.merged.failed = 0) :
    (seconds.map fun s => (s.point v pcts).rps * (s.point v pcts).errPct / 100).sum =
      (((seconds.map fun s => s.merged.failed).sum : ℤ) : ℚ) := by
  rw [Int.cast_list_sum, List.map_map]
  refine congrArg List.sum (List.map_congr_left fun s hs => ?_)
  rw [Function.comp_apply]
  by_cases hsamples : 0 < s.merged.samples
  · rw [s.rps_mul_errPct v pcts hsamples]
    ring
  · rw [(h s hs).resolve_left hsamples]
    simp [MergedSecond.point, hsamples]

end Agreement

/-- The largest reading over the points is the peak of the working state. -/
theorem foldl_max_vus (v v' : Visit) (pcts : List ℚ) {ivs : List Interval}
    (h : ∀ iv ∈ ivs, iv.NonNegative) {a : Accumulator} (ha : a.tally = intervalsTally ivs) :
    (((seriesOf ivs).toList.map rowSecond).map fun s => (s.point v pcts).vus).foldl max 0 =
      (a.peak v' : ℤ) := by
  have hvus : ((seriesOf ivs).toList.map rowSecond).map (fun s => (s.point v pcts).vus) =
      ((seriesOf ivs).toList.map fun p => larger (seriesReadings p.2)).map fun x : ℤ => (x : ℚ) := by
    rw [List.map_map, List.map_map]
    refine List.map_congr_left fun p hp => vus_rowSecond v pcts ?_
    exact nonneg_seriesOf h p.1 p.2 (TallyMap.mem_toList_iff.mp hp)
  have hseconds : a.seconds = (intervalsTally ivs).seconds := congrArg Tally.seconds ha
  rw [hvus, peak_eq, hseconds, readings_seconds, TallyMap.toList_mapValues, ← foldl_max_cast,
    Int.cast_zero]
  simp only [List.map_map]
  rfl

theorem keys_seconds {ivs : List Interval} {a : Accumulator} (ha : a.tally = intervalsTally ivs) :
    a.seconds.keys = ((seriesOf ivs).toList.map rowSecond).map fun s => s.ts := by
  have hseconds : a.seconds = (intervalsTally ivs).seconds := congrArg Tally.seconds ha
  rw [hseconds, ← TallyMap.keys_mapValues readings, readings_seconds, TallyMap.keys_mapValues,
    ← Std.ExtTreeMap.map_fst_toList_eq_keys, List.map_map]
  rfl

/-- A report lasts from the first second of the working state to the last. -/
theorem durationSeconds_report (v : Visit) (m : Meta) {a : Accumulator} {first last : ℤ}
    (hfirst : a.seconds.keys.head? = some first) (hlast : a.seconds.keys.getLast? = some last) :
    (a.report v m).achieved.durationSeconds = last - first + 1 := by
  have hduration : (a.report v m).achieved.durationSeconds =
      (a.measuredSpanSeconds v).getD m.achievedSeconds := rfl
  rw [hduration, measuredSpanSeconds_eq v a hfirst hlast, Option.getD_some]

/-- Two pods in the same second, each with a label and the engine's own row. -/
def twoShards : List ProgressBatch :=
  [0, 1].map fun shardIndex =>
    { oneRequest "a" with
      shardIndex
      intervals :=
        [{ zeroInterval with
            seq := 1, timestamp := 7, label := "checkout", concurrency := 2, samples := 5
            failed := 1, latency := TallyMap.single 20 5 },
          { zeroInterval with
            seq := 2, timestamp := 7, label := totalLabel, concurrency := 3, samples := 5
            failed := 1 }] }

end Honryu.Progress
