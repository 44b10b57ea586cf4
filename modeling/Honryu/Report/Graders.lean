import Honryu.Metrics.Percentiles
import Honryu.Progress.Series
import Honryu.Report.Floors

/-!
The graders of a report, and the report of a run that measured nothing.

A scenario's thresholds, a project's objectives and an execution's criteria all look a percentile up
in the report and take a missing one for unknown. The report of a run without samples does not lack
its percentiles: `Percentiles` answers zero for each when there is nothing to count. So the run is
graded as one with the fastest responses there can be. `unmeasuredUnknown_iff` says when nothing comes of it:
no latency threshold is set, the window leaves the run out, and no criterion names a percentile that
reports have.

A report's stored form, and how reports are listed for the window, are left out; the window is given
the reports of each execution of the project.
-/

namespace Honryu.Thresholds

open Report (Report)

/-! ### Thresholds -/

/-- `Metric` names the figure of a report that a threshold judges. -/
inductive Metric
  | httpP95MS
  | httpP99MS
  | errorRate
  | throughputQPS
  /-- Any other text. -/
  | unknown (name : String)
  deriving DecidableEq

/-- `Comparison` is the side of the value that satisfies the threshold. -/
inductive Comparison
  | lt
  | gt
  /-- Any other text. -/
  | unknown (name : String)
  deriving DecidableEq

/-- `Threshold` is a bound that is set on a scenario's metrics. -/
structure Threshold where
  id : ℤ
  metric : Metric
  comparison : Comparison
  value : ℚ
  deriving DecidableEq

/-- `Result` is what grading one report against one threshold came to. -/
structure Result where
  thresholdId : ℤ
  executionId : ℤ
  runId : ℤ
  metric : Metric
  comparison : Comparison
  value : ℚ
  observed : Option ℚ
  satisfied : Option Bool
  reason : String
  evaluatedAt : ℤ
  deriving DecidableEq

/-- `Observe` is the figure that the report has for the metric, or the reason there is none. -/
def observe (rep : Report) : Metric → Except String ℚ
  | .httpP95MS =>
      match rep.latency[(95 : ℚ)]? with
      | none => .error "no p95 latency in the report"
      | some secs => .ok (secs * 1000)
  | .httpP99MS =>
      match rep.latency[(99 : ℚ)]? with
      | none => .error "no p99 latency in the report"
      | some secs => .ok (secs * 1000)
  | .errorRate => .ok rep.errorRate
  | .throughputQPS => .ok rep.achieved.throughput
  | .unknown name => .error ("unknown metric " ++ name)

/-- `satisfied` compares strictly, and as a ceiling unless it is a floor. -/
def satisfied (c : Comparison) (observed value : ℚ) : Bool :=
  if c = .gt then value < observed else observed < value

/-- `Evaluate` grades a report against the threshold. -/
def Threshold.evaluate (t : Threshold) (rep : Report) (now : ℤ) : Result :=
  let res : Result :=
    { thresholdId := t.id, executionId := rep.executionId, runId := rep.runId
      metric := t.metric, comparison := t.comparison, value := t.value
      observed := none, satisfied := none, reason := "", evaluatedAt := now }
  match observe rep t.metric with
  | .error reason => { res with reason }
  | .ok observed =>
      { res with
        observed := some observed
        satisfied := some (satisfied t.comparison observed t.value) }

def Metric.percentile : Metric → Option ℚ
  | .httpP95MS => some 95
  | .httpP99MS => some 99
  | .errorRate | .throughputQPS | .unknown _ => none

/-- A threshold on response times grades as unknown if the report lacks the percentile. -/
theorem Threshold.evaluate_unknown_iff {t : Threshold} {pct : ℚ}
    (h : t.metric.percentile = some pct) (rep : Report) (now : ℤ) :
    ((t.evaluate rep now).observed = none ∧ (t.evaluate rep now).satisfied = none) ↔
      rep.latency[pct]? = none := by
  have hobserve : (∃ reason, observe rep t.metric = .error reason) ∧ rep.latency[pct]? = none ∨
      ∃ secs, observe rep t.metric = .ok (secs * 1000) ∧ rep.latency[pct]? = some secs := by
    cases hmetric : t.metric <;> rw [hmetric] at h <;> cases h
    · cases hlatency : rep.latency[(95 : ℚ)]? with
      | none => exact .inl ⟨⟨_, by rw [observe, hlatency]⟩, rfl⟩
      | some secs => exact .inr ⟨secs, by rw [observe, hlatency], rfl⟩
    · cases hlatency : rep.latency[(99 : ℚ)]? with
      | none => exact .inl ⟨⟨_, by rw [observe, hlatency]⟩, rfl⟩
      | some secs => exact .inr ⟨secs, by rw [observe, hlatency], rfl⟩
  obtain ⟨⟨reason, hreason⟩, hlatency⟩ | ⟨secs, hsecs, hlatency⟩ := hobserve
  · simp [evaluate, hreason, hlatency]
  · simp [evaluate, hsecs, hlatency]

end Honryu.Thresholds

namespace Honryu.Slo

open Report (Report)

/-! ### The window of an objective -/

/-- `Actual` is what the runs of a window came to. -/
structure Actual where
  p95MS : Option ℚ
  errorRate : Option ℚ
  successRatio : Option ℚ

/-- `WindowMean` is the mean of the values, if there is any. -/
def windowMean (vals : List ℚ) : Option ℚ :=
  match vals with
  | [] => none
  | vals => some (vals.foldl (· + ·) 0 / vals.length)

def ratio (part whole : ℤ) : Option ℚ := if whole = 0 then none else some (part / whole)

/-- What the loop of `aggregate` has gathered. -/
structure Gathered where
  p95s : List ℚ
  errorRates : List ℚ
  passed : ℤ
  eligible : ℤ

/-- One report of the loop of `aggregate`. -/
def gather (start stop : ℤ) (g : Gathered) (rep : Report) : Gathered :=
  if rep.startedAt < start ∨ stop ≤ rep.startedAt then g
  else if rep.outcome = .aborted then g
  else
    { p95s := match rep.latency[(95 : ℚ)]? with
        | none => g.p95s
        | some p95 => g.p95s ++ [p95]
      errorRates := g.errorRates ++ [rep.errorRate]
      passed := if rep.outcome = .passed then g.passed + 1 else g.passed
      eligible := g.eligible + 1 }

/-- `aggregate` composes the reports of a window, given by execution, and counts the runs that it
takes in. -/
def aggregate (start stop : ℤ) (executions : List (List Report)) : Actual × ℤ :=
  let g := executions.foldl (fun g reps => reps.foldl (gather start stop) g) ⟨[], [], 0, 0⟩
  if g.eligible = 0 then (⟨none, none, none⟩, 0)
  else
    (⟨windowMean (g.p95s.map (· * 1000)), windowMean g.errorRates, ratio g.passed g.eligible⟩,
      g.eligible)

def LeftOut (start stop startedAt : ℤ) (outcome : Taurus.Outcome) : Prop :=
  (startedAt < start ∨ stop ≤ startedAt) ∨ outcome = .aborted

instance (start stop startedAt : ℤ) (outcome : Taurus.Outcome) :
    Decidable (LeftOut start stop startedAt outcome) :=
  inferInstanceAs (Decidable (_ ∨ _))

def taken (start stop : ℤ) (rep : Report) : Option ℚ :=
  if LeftOut start stop rep.startedAt rep.outcome then none else rep.latency[(95 : ℚ)]?

section Window

variable (start stop : ℤ)

/-- The window's percentiles are what the runs add, and there is none without a run. -/
theorem foldl_gather (g : Gathered) (reps : List Report) :
    (reps.foldl (gather start stop) g).p95s = g.p95s ++ reps.filterMap (taken start stop) ∧
      g.eligible ≤ (reps.foldl (gather start stop) g).eligible ∧
      ((reps.foldl (gather start stop) g).eligible = g.eligible →
        reps.filterMap (taken start stop) = []) := by
  induction reps generalizing g with
  | nil => exact ⟨(List.append_nil _).symm, le_rfl, fun _ => rfl⟩
  | cons rep reps ih =>
      obtain ⟨hp95s, hle, hnone⟩ := ih (gather start stop g rep)
      rw [List.foldl_cons, hp95s, List.filterMap_cons]
      by_cases hout : LeftOut start stop rep.startedAt rep.outcome
      · have hsame : gather start stop g rep = g := by
          rcases hout with hout | hout
          · rw [gather, if_pos hout]
          · rw [gather, if_pos hout, ite_self]
        rw [hsame] at hle hnone ⊢
        rw [taken, if_pos hout]
        exact ⟨rfl, hle, hnone⟩
      · have hin : ¬(rep.startedAt < start ∨ stop ≤ rep.startedAt) ∧ rep.outcome ≠ .aborted :=
          not_or.mp hout
        have heligible : (gather start stop g rep).eligible = g.eligible + 1 := by
          rw [gather, if_neg hin.1, if_neg hin.2]
        have hgathered : (gather start stop g rep).p95s =
            g.p95s ++ (taken start stop rep).toList := by
          rw [gather, if_neg hin.1, if_neg hin.2, taken, if_neg hout]
          cases rep.latency[(95 : ℚ)]? with
          | none => exact (List.append_nil _).symm
          | some p95 => rfl
        refine ⟨?_, by omega, fun hsame => by omega⟩
        rw [hgathered, List.append_assoc]
        cases taken start stop rep <;> rfl

theorem aggregate_p95MS (executions : List (List Report)) :
    (aggregate start stop executions).1.p95MS =
      windowMean ((executions.flatten.filterMap (taken start stop)).map (· * 1000)) := by
  have hflat : executions.foldl (fun g reps => reps.foldl (gather start stop) g) ⟨[], [], 0, 0⟩ =
      executions.flatten.foldl (gather start stop) ⟨[], [], 0, 0⟩ := List.foldl_flatten.symm
  obtain ⟨hp95s, -, hnone⟩ := foldl_gather start stop ⟨[], [], 0, 0⟩ executions.flatten
  rw [aggregate, hflat]
  simp only [hp95s, List.nil_append]
  split
  · next hzero => rw [hnone hzero]; rfl
  · rfl

/-- Whatever else is in the window, the run adds nothing to the mean of the percentiles. -/
def AddsNothing (rep : Report) : Prop :=
  ∀ (before after : List (List Report)) (earlier later : List Report),
    (aggregate start stop (before ++ (earlier ++ rep :: later) :: after)).1.p95MS =
      (aggregate start stop (before ++ (earlier ++ later) :: after)).1.p95MS

theorem addsNothing_iff (rep : Report) : AddsNothing start stop rep ↔ taken start stop rep = none := by
  constructor
  · intro h
    have halone := h [] [] [] []
    simp only [aggregate_p95MS, List.nil_append, List.flatten_cons, List.flatten_nil,
      List.append_nil, List.filterMap_nil, List.filterMap_cons] at halone
    cases htaken : taken start stop rep with
    | none => rfl
    | some p95 =>
        rw [htaken] at halone
        cases halone
  · intro h before after earlier later
    simp [aggregate_p95MS, h]

end Window

end Honryu.Slo

namespace Honryu.Report

open Metrics Thresholds

/-! ### A run without samples -/

def Unmeasured (intervals : List Interval) : Prop :=
  ∀ iv ∈ intervals, ∀ (rt : ℚ) (n : ℤ), iv.latency[rt]? = some n → n = 0

theorem count_zero (v : Visit) : Histogram.count v 0 = 0 := by
  rw [Histogram.count_visit v .sorted]
  rfl

theorem count_sum_eq_zero (v : Visit) {hs : List Histogram} (h : ∀ x ∈ hs, x.count v = 0) :
    hs.sum.count v = 0 := by
  induction hs with
  | nil => exact count_zero v
  | cons x hs ih =>
      rw [List.sum_cons, Histogram.count_add, h x List.mem_cons_self,
        ih fun y hy => h y (List.mem_cons_of_mem _ hy), add_zero]

theorem Unmeasured.count {intervals : List Interval} (h : Unmeasured intervals) (v : Visit)
    {iv : Interval} (hiv : iv ∈ intervals) : iv.latency.count v = 0 := by
  rw [Histogram.count_eq_sum_keys]
  refine List.sum_eq_zero fun n hn => ?_
  obtain ⟨rt, -, rfl⟩ := List.mem_map.mp hn
  rw [Std.ExtTreeMap.getD_eq_getD_getElem?]
  cases hrt : iv.latency[rt]? with
  | none => rfl
  | some n => exact h iv hiv rt n hrt

theorem Unmeasured.count_totals {intervals : List Interval} (h : Unmeasured intervals)
    (v : Visit) : ((newAccumulator.addAll intervals).totals v).2.2.count v = 0 := by
  have htally : (newAccumulator.addAll intervals).tally = intervalsTally intervals := by
    rw [Accumulator.tally_addAll, tally_newAccumulator, zero_add]
  have hlabels : (newAccumulator.addAll intervals).labels = (intervalsTally intervals).labels :=
    congrArg Tally.labels htally
  rw [Progress.totals_eq, hlabels]
  change ((intervalsTally intervals).labels.sumBy Progress.labelBuckets).count v = 0
  rw [Progress.sumBy_labels]
  refine count_sum_eq_zero v fun x hx => ?_
  obtain ⟨iv, hiv, rfl⟩ := List.mem_map.mp hx
  split
  · exact count_zero v
  · exact h.count v hiv

/-- The report has the percentiles it always has, and they are zero. -/
theorem Unmeasured.latency {input : Input} (h : Unmeasured input.intervals) (v : Visit) (pct : ℚ) :
    (build v input).latency[pct]? = if pct ∈ reportedPercentiles then some 0 else none := by
  have hcount := h.count_totals v
  have hlatency : (build v input).latency =
      ((newAccumulator.addAll input.intervals).totals v).2.2.percentiles v reportedPercentiles := rfl
  rw [hlatency, Histogram.getElem?_percentiles v hcount.ge, Histogram.percentile, if_pos hcount]

/-! ### What comes of it -/

def CriterionMatch.percentile (m : CriterionMatch) : Option ℚ :=
  match (Text.toLower (String.ofList m.subject)).toList with
  | 'p' :: pct => Text.parseFloat pct
  | _ => none

/-- A criterion on response times is compared with the percentile it names, if the report has it
and the unit is one of time. -/
theorem figure_eq_none_iff {m : CriterionMatch} (hunit : m.unit ∈ units) {pct : ℚ}
    (hpct : m.percentile = some pct) (r : Report) :
    figure r m.subject m.unit = none ↔ r.latency[pct]? = none ∨ m.unit = ['%'] := by
  simp only [CriterionMatch.percentile] at hpct
  simp only [figure]
  generalize Text.toLower (String.ofList m.subject) = name at hpct ⊢
  split at hpct
  · next ds hname =>
    have hnot : ¬(name = "failures" ∨ name = "fail") := by
      rintro (rfl | rfl) <;> cases hname
    simp only [if_neg hnot, hname, hpct, Option.bind_some]
    simp only [units, List.mem_cons, List.not_mem_nil, or_false] at hunit
    rcases hunit with hunit | hunit | hunit | hunit <;> simp [hunit]
  · cases hpct

/-- What is asked of a run: the thresholds of its scenario, the window of its project's objectives
and the criteria of its execution. -/
structure Asked where
  thresholds : List Threshold
  start : ℤ
  stop : ℤ
  criteria : List String

/-- Nothing is said of the run's response times: they are neither graded, nor taken into the window,
nor met, nor missed. -/
structure Asked.Unknown (asked : Asked) (rep : Report) : Prop where
  thresholds : ∀ t ∈ asked.thresholds, t.metric.percentile.isSome = true →
    ∀ now, (t.evaluate rep now).observed = none ∧ (t.evaluate rep now).satisfied = none
  window : Slo.AddsNothing asked.start asked.stop rep
  criteria : ∀ before c after, asked.criteria = before ++ c :: after →
    ∀ m : CriterionMatch, m.Matches c.toList → m.percentile.isSome = true →
      ∃ text, evaluateCriteria rep asked.criteria =
        evaluateCriteria rep before ++ { criterion := text, unparsed := true } ::
          evaluateCriteria rep after

structure Asked.Spares (asked : Asked) (run : Meta) : Prop where
  thresholds : ∀ t ∈ asked.thresholds, t.metric.percentile = none
  window : Slo.LeftOut asked.start asked.stop run.startedAt run.outcome
  criteria : ∀ c ∈ asked.criteria, ∀ m : CriterionMatch, m.Matches c.toList →
    ∀ pct ∈ m.percentile, pct ∈ reportedPercentiles → m.unit = ['%']

theorem Metric.percentile_mem_reported {metric : Metric} {pct : ℚ}
    (h : metric.percentile = some pct) : pct ∈ reportedPercentiles := by
  cases metric <;> cases h <;> decide

/-- A criterion is listed as unread exactly if the report has no figure for it. -/
theorem evaluateCriteria_unparsed_iff {m : CriterionMatch} {c : String} (h : m.Matches c.toList)
    (r : Report) (before after : List String) :
    (∃ text, evaluateCriteria r (before ++ c :: after) =
        evaluateCriteria r before ++ { criterion := text, unparsed := true } ::
          evaluateCriteria r after) ↔
      figure r m.subject m.unit = none := by
  obtain ⟨t, ht⟩ := h.threshold.parseDecimal
  have hone := evaluateOne_of_matches (matches_floorRewritten h) ht r
  simp only [evaluateCriteria, floorsToViolations, List.map_append, List.filterMap_append,
    List.map_cons, List.append_cancel_left_eq]
  cases hfigure : figure r m.subject m.unit with
  | none =>
      rw [hfigure] at hone
      refine iff_of_true ⟨floorRewritten c, ?_⟩ rfl
      rw [List.filterMap_cons_some hone]
  | some f =>
      rw [hfigure] at hone
      refine iff_of_false ?_ (Option.some_ne_none f)
      rintro ⟨text, htext⟩
      simp only at hone
      split at hone
      · rw [List.filterMap_cons_some hone] at htext
        cases (List.cons.inj htext).1
      · rw [List.filterMap_cons_none hone] at htext
        exact absurd (congrArg List.length htext) (by simp)

/-- A run without samples is taken for unknown in every respect, as it should be. -/
def UnmeasuredUnknown (v : Visit) (input : Input) (asked : Asked) : Prop :=
  Unmeasured input.intervals → asked.Unknown (build v input)

/-- A run without samples is taken for unknown exactly if it is spared. -/
theorem unmeasuredUnknown_iff (v : Visit) (input : Input) (asked : Asked) :
    UnmeasuredUnknown v input asked ↔
      (Unmeasured input.intervals → asked.Spares input.toMeta) := by
  refine forall_congr' fun hnone => ?_
  have hlatency := hnone.latency v
  have hreported : ∀ pct ∈ reportedPercentiles, (build v input).latency[pct]? ≠ none := by
    intro pct hpct
    rw [hlatency, if_pos hpct]
    exact nofun
  have htaken : Slo.taken asked.start asked.stop (build v input) = none ↔
      Slo.LeftOut asked.start asked.stop input.startedAt input.outcome := by
    rw [Slo.taken, ite_eq_left_iff]
    refine ⟨fun h => ?_, fun h hnot => absurd h hnot⟩
    by_contra hnot
    exact hreported 95 (by decide) (h hnot)
  have hfigure : ∀ m : CriterionMatch, m.unit ∈ units → ∀ pct, m.percentile = some pct →
      (figure (build v input) m.subject m.unit = none ↔
        (pct ∈ reportedPercentiles → m.unit = ['%'])) := by
    intro m hunit pct hpct
    rw [figure_eq_none_iff hunit hpct, hlatency]
    by_cases hmem : pct ∈ reportedPercentiles <;> simp [hmem]
  constructor
  · rintro ⟨hthresholds, hwindow, hcriteria⟩
    refine ⟨fun t ht => ?_, htaken.mp ((Slo.addsNothing_iff _ _ _).mp hwindow),
      fun c hc m hm pct hpct => ?_⟩
    · cases hpct : t.metric.percentile with
      | none => rfl
      | some pct =>
          have hunknown := hthresholds t ht (by rw [hpct]; rfl) 0
          rw [Threshold.evaluate_unknown_iff hpct] at hunknown
          exact absurd hunknown (hreported pct (Metric.percentile_mem_reported hpct))
    · obtain ⟨before, after, hsplit⟩ := List.append_of_mem hc
      have hlisted := hcriteria before c after hsplit m hm (Option.isSome_of_mem hpct)
      rw [hsplit, evaluateCriteria_unparsed_iff hm] at hlisted
      exact (hfigure m hm.unit pct hpct).mp hlisted
  · rintro ⟨hthresholds, hwindow, hcriteria⟩
    refine ⟨fun t ht hsome => ?_, (Slo.addsNothing_iff _ _ _).mpr (htaken.mpr hwindow),
      fun before c after hsplit m hm hsome => ?_⟩
    · rw [hthresholds t ht] at hsome
      cases hsome
    · obtain ⟨pct, hpct⟩ := Option.isSome_iff_exists.mp hsome
      rw [hsplit, evaluateCriteria_unparsed_iff hm, hfigure m hm.unit pct hpct]
      refine hcriteria c ?_ m hm pct hpct
      rw [hsplit]
      exact List.mem_append_right _ List.mem_cons_self

/-- A minute in which no request was answered. -/
def refusedRun : Input :=
  { executionId := 1, scenarioId := 1, runId := 1, engine := ⟨"jmeter"⟩, cluster := ""
    correlationId := "", startedAt := second, endedAt := 61 * second
    requested := ⟨1, 1, 60, [], 60, 0⟩, outcome := .failed
    intervals :=
      [{ seq := 1, timestamp := 1, label := "home", concurrency := 1
         samples := 60, succeeded := 0, failed := 60, bytes := 0
         latency := ∅, responseCodes := ∅, errors := [] }] }

def fastEnough : Asked :=
  { thresholds := [{ id := 1, metric := .httpP95MS, comparison := .lt, value := 300 }]
    start := 0, stop := 100 * second, criteria := ["p95<300ms"] }

/-- The threshold is satisfied, the window takes a zero, and the criterion is met. -/
theorem not_unmeasuredUnknown_refusedRun :
    ((build .sorted refusedRun).latency[(95 : ℚ)]? = some 0 ∧
      (∀ t ∈ fastEnough.thresholds,
        (t.evaluate (build .sorted refusedRun) 0).satisfied = some true) ∧
      (Slo.aggregate fastEnough.start fastEnough.stop [[build .sorted refusedRun]]).1.p95MS =
        some 0 ∧
      evaluateCriteria (build .sorted refusedRun) fastEnough.criteria = []) ∧
    ¬UnmeasuredUnknown .sorted refusedRun fastEnough := by
  have hnone : Unmeasured refusedRun.intervals := by
    intro iv hiv rt n hn
    rw [List.mem_singleton.mp hiv] at hn
    exact absurd hn (by simp)
  refine ⟨by decide +kernel, fun h => ?_⟩
  have hunknown := ((h hnone).thresholds _ List.mem_cons_self rfl 0).2
  revert hunknown
  decide +kernel

end Honryu.Report
