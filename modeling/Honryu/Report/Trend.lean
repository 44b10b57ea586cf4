import Honryu.Report.Requested

/-!
The run-over-run history of an execution.

Every run is compared with the nearest earlier run of its kind, wherever in the list that is. So the
runs of different kinds do not take part in each other's points: the points of one kind are those of
the history of that kind alone.
-/

namespace Honryu.Report

/-! ### The history -/

/-- `TrendPoint` is what one run adds to the history. -/
structure TrendPoint where
  runId : ℤ
  startedAt : ℤ
  outcome : Taurus.Outcome
  achievedThroughput : ℚ
  requestedThroughput : ℚ
  errorRate : ℚ
  p50 : ℚ
  p90 : ℚ
  p95 : ℚ
  p99 : ℚ
  hitTargetQPS : Bool
  hasComparablePredecessor : Bool
  regressed : Bool
  deriving DecidableEq

/-- `Trend` is the history of an execution, most recent run first. -/
structure Trend where
  executionId : ℤ
  points : List TrendPoint
  deriving DecidableEq

/-- `Comparable` reports whether two runs are of the same kind. -/
def comparable (a b : Report) : Bool :=
  a.executionId = b.executionId ∧ a.engine = b.engine ∧ a.cluster = b.cluster ∧
    a.requested.concurrency = b.requested.concurrency ∧
    a.requested.throughput = b.requested.throughput ∧
    a.requested.durationSeconds = b.requested.durationSeconds

/-- One report of the loop of `BuildTrend`, with those after it in the list. A percentile that the
report lacks reads as zero. -/
def trendPoint (r : Report) (earlier : List Report) : TrendPoint :=
  let p : TrendPoint :=
    { runId := r.runId, startedAt := r.startedAt, outcome := r.outcome
      achievedThroughput := r.achieved.throughput, requestedThroughput := r.requested.throughput
      errorRate := r.errorRate, p50 := (r.latency[(50 : ℚ)]?).getD 0
      p90 := (r.latency[(90 : ℚ)]?).getD 0, p95 := (r.latency[(95 : ℚ)]?).getD 0
      p99 := (r.latency[(99 : ℚ)]?).getD 0, hitTargetQPS := !shortOfRequest r
      hasComparablePredecessor := false, regressed := false }
  match earlier.find? (comparable r) with
  | none => p
  | some other =>
      { p with
        hasComparablePredecessor := true
        regressed := !p.hitTargetQPS && !shortOfRequest other }

def trendPoints : List Report → List TrendPoint
  | [] => []
  | r :: earlier => trendPoint r earlier :: trendPoints earlier

def buildTrend (reports : List Report) : Trend :=
  { executionId := (reports.head?.map (·.executionId)).getD 0, points := trendPoints reports }

/-! ### Kinds of runs -/

theorem comparable_iff {a b : Report} :
    comparable a b = true ↔
      a.executionId = b.executionId ∧ a.engine = b.engine ∧ a.cluster = b.cluster ∧
        a.requested.concurrency = b.requested.concurrency ∧
        a.requested.throughput = b.requested.throughput ∧
        a.requested.durationSeconds = b.requested.durationSeconds := decide_eq_true_iff

theorem comparable_equivalence : Equivalence fun a b => comparable a b = true where
  refl a := comparable_iff.mpr ⟨rfl, rfl, rfl, rfl, rfl, rfl⟩
  symm {a b} h := by
    rw [comparable_iff] at h ⊢
    obtain ⟨hexecution, hengine, hcluster, hconcurrency, hthroughput, hduration⟩ := h
    exact ⟨hexecution.symm, hengine.symm, hcluster.symm, hconcurrency.symm, hthroughput.symm,
      hduration.symm⟩
  trans {a b c} h h' := by
    simp only [comparable_iff] at h h' ⊢
    obtain ⟨hexecution, hengine, hcluster, hconcurrency, hthroughput, hduration⟩ := h
    rw [hexecution, hengine, hcluster, hconcurrency, hthroughput, hduration]
    exact h'

section Kind

variable {kind r : Report}

/-- The nearest earlier run of a kind is found among the runs of that kind. -/
theorem find?_filter_comparable (hr : comparable kind r = true) (earlier : List Report) :
    (earlier.filter (comparable kind)).find? (comparable r) = earlier.find? (comparable r) := by
  rw [List.find?_filter]
  congr 1
  funext other
  rw [Bool.eq_iff_iff, decide_eq_true_iff]
  exact ⟨And.right, fun h => ⟨comparable_equivalence.trans hr h, h⟩⟩

theorem trendPoint_filter (hr : comparable kind r = true) (earlier : List Report) :
    trendPoint r (earlier.filter (comparable kind)) = trendPoint r earlier := by
  rw [trendPoint, trendPoint, find?_filter_comparable hr]

theorem trendPoints_filter (kind : Report) (reports : List Report) :
    ((reports.zip (trendPoints reports)).filter fun p => comparable kind p.1).map Prod.snd =
      trendPoints (reports.filter (comparable kind)) := by
  induction reports with
  | nil => rfl
  | cons r earlier ih =>
      rw [trendPoints, List.zip_cons_cons, List.filter_cons, List.filter_cons]
      by_cases hr : comparable kind r = true
      · rw [if_pos hr, if_pos hr, List.map_cons, ih, trendPoints, trendPoint_filter hr]
      · rw [if_neg hr, if_neg hr, ih]

end Kind

/-- The history falls into the histories of the kinds of runs: being of a kind is an equivalence,
and the points of the runs of one kind are those of the history of these runs. -/
theorem buildTrend_decomposes :
    (Equivalence fun a b => comparable a b = true) ∧
      ∀ (reports : List Report) (kind : Report),
        ((reports.zip (buildTrend reports).points).filter fun p => comparable kind p.1).map Prod.snd =
          (buildTrend (reports.filter (comparable kind))).points :=
  ⟨comparable_equivalence, fun reports kind => trendPoints_filter kind reports⟩

end Honryu.Report
