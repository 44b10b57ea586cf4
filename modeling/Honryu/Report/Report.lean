import Honryu.Report.Soak
import Honryu.Taurus.Executor
import Mathlib.Data.Prod.Lex

/-!
The report of a run: what `Accumulator.Report` makes of the accumulated state
and of what is known about the run besides its measurements.

A report's annotations (its star and its note) and its split by cluster are put
on it elsewhere and are left out. An instant is the number of nanoseconds since
the zero time.
-/

namespace Honryu.Report

open Metrics

/-! ### What is known about a run -/

/-- `StepLoad` is one plateau of a stepped request. -/
structure StepLoad where
  index : ℤ
  throughput : ℚ
  concurrency : ℤ
  durationSeconds : ℤ
  deriving DecidableEq

/-- `Load` is a rate of work: what was asked for, or what was produced. -/
structure Load where
  concurrency : ℤ
  throughput : ℚ
  durationSeconds : ℤ
  steps : List StepLoad
  samples : ℤ
  failed : ℤ
  deriving DecidableEq

/-- `Meta` is everything about a run that its measurements do not carry. -/
structure Meta where
  executionId : ℤ
  scenarioId : ℤ
  runId : ℤ
  engine : Taurus.Executor
  cluster : String
  correlationId : String
  startedAt : ℤ
  endedAt : ℤ
  requested : Load
  outcome : Taurus.Outcome
  deriving DecidableEq

def maxDuration : ℤ := 2 ^ 63 - 1

def minDuration : ℤ := -2 ^ 63

/-- `time.Second`, in nanoseconds. -/
def second : ℤ := 10 ^ 9

/-- `Time.Sub`, which saturates. -/
def timeSub (t u : ℤ) : ℤ := max minDuration (min maxDuration (t - u))

/-- `Duration.Round` to the nearest multiple of `m`, halves away from zero. -/
def roundDuration (d m : ℤ) : ℤ :=
  if m ≤ 0 then d
  else
    let r := d.tmod m
    if d < 0 then
      if -r + -r < m then d - r else max minDuration (d - m - r)
    else if r + r < m then d - r
    else min maxDuration (d + m - r)

/-- `achievedSeconds` is how long the run was going on by the wall clock, or was
meant to. -/
def Meta.achievedSeconds (m : Meta) : ℤ :=
  if m.startedAt ≠ 0 ∧ m.startedAt < m.endedAt then
    -- a run of less than half a second has no length of its own
    let secs := (roundDuration (timeSub m.endedAt m.startedAt) second).tdiv second
    if 0 < secs then secs else m.requested.durationSeconds
  else m.requested.durationSeconds

/-! ### The report -/

/-- `StatusLabel` is one HTTP status a label's requests returned, and how often. -/
structure StatusLabel where
  code : String
  count : ℤ
  deriving DecidableEq

/-- `LabelSummary` is one request's share of a run. -/
structure LabelSummary where
  label : String
  samples : ℤ
  failed : ℤ
  errorRate : ℚ
  latency : TallyMap ℚ ℚ
  statuses : List StatusLabel
  deriving DecidableEq

/-- `Attribution` splits failures by who caused them. -/
@[ext] structure Attribution where
  target : ℤ
  engine : ℤ
  unknown : ℤ
  deriving DecidableEq

set_option linter.dupNamespace false in
/-- `Report` is what a run is judged on. -/
structure Report where
  executionId : ℤ
  scenarioId : ℤ
  runId : ℤ
  engine : Taurus.Executor
  cluster : String
  correlationId : String
  startedAt : ℤ
  endedAt : ℤ
  outcome : Taurus.Outcome
  requested : Load
  achieved : Load
  errorRate : ℚ
  latency : TallyMap ℚ ℚ
  attribution : Attribution
  errors : List ErrorSignature
  labels : List LabelSummary
  soakTrend : Option SoakTrend
  deriving DecidableEq

def reportedPercentiles : List ℚ := [50, 90, 95, 99]

def rate (part whole : ℤ) : ℚ := if whole ≤ 0 then 0 else part / whole

def perSecond (samples seconds : ℤ) : ℚ := if seconds ≤ 0 then 0 else samples / seconds

/-- What the source sorts counted things by: the larger count first, then the
name. -/
def dominance (count : ℤ) (name : String) : ℤᵒᵈ ×ₗ String := toLex (OrderDual.toDual count, name)

def statusLabels (v : Visit) (codes : Option (TallyMap String ℤ)) : List StatusLabel :=
  ((v.list (codes.getD ∅)).map fun p => { code := p.1, count := p.2 : StatusLabel }).insertionSort
    fun x y => dominance x.count x.code ≤ dominance y.count y.code

/-- One label of the first loop of `Report`: samples, failures and latencies. -/
def addTotals (t : ℤ × ℤ × Histogram) (st : LabelState) : ℤ × ℤ × Histogram :=
  (t.1 + st.samples, t.2.1 + st.failed, t.2.2.merge st.latency)

/-- One label of the second loop of `Report`. -/
def labelSummary (v : Visit) (name : String) (st : LabelState) : LabelSummary :=
  { label := name, samples := st.samples, failed := st.failed,
    errorRate := rate st.failed st.samples
    latency := st.latency.percentiles v reportedPercentiles
    statuses := statusLabels v st.codes }

/-- One failure mode of the loop of `errors`. -/
def Attribution.add (attr : Attribution) (e : ErrorSignature) : Attribution :=
  match e.signature.side with
  | .target => { attr with target := attr.target + e.count }
  | .engine => { attr with engine := attr.engine + e.count }
  | .unknown => { attr with unknown := attr.unknown + e.count }

/-- One second of the loop of `measuredSpanSeconds`: the first and the last so
far. -/
def widen (span : Option (ℤ × ℤ)) (ts : ℤ) : Option (ℤ × ℤ) :=
  match span with
  | none => some (ts, ts)
  | some (lo, hi) => some (if ts < lo then ts else lo, if hi < ts then ts else hi)

/-- One second of the loop of `peak`. -/
def higher (peak : ℤ) (sec : SecondState) : ℤ :=
  let n := if sec.labels < sec.engine then sec.engine else sec.labels
  if peak < n then n else peak

namespace Accumulator

variable (v : Visit) (a : Accumulator)

/-- What the first loop of `Report` comes to: the samples, the failures and the
overall histogram. -/
def totals : ℤ × ℤ × Histogram := (v.values a.labels).foldl addTotals (0, 0, ∅)

def peak : ℤ := (v.values a.seconds).foldl higher 0

/-- `measuredSpanSeconds` is the number of seconds from the first measured
second to the last, inclusive, if there is any. -/
def measuredSpanSeconds : Option ℤ :=
  ((v.keys a.seconds).foldl widen none).map fun (lo, hi) => hi - lo + 1

def achievedSeconds (m : Meta) : ℤ := (a.measuredSpanSeconds v).getD m.achievedSeconds

/-- `errors` is every failure mode, dominant first, with the run's failures
split by the side that caused them. -/
def errors : List ErrorSignature × Attribution :=
  let out := (v.list a.signatures).map ErrorSignature.ofEntry
  (out.insertionSort fun x y =>
      dominance x.count x.signature.string ≤ dominance y.count y.signature.string,
    out.foldl Attribution.add { target := 0, engine := 0, unknown := 0 })

/-- `Report` turns what has been accumulated into the run's report. -/
def report (m : Meta) : Report :=
  let (samples, failed, overall) := (v.values a.labels).foldl addTotals (0, 0, ∅)
  -- sorted, so that two reports of one run match
  let names := (v.keys a.labels).insertionSort (· ≤ ·)
  let durationSeconds := a.achievedSeconds v m
  { executionId := m.executionId, scenarioId := m.scenarioId, runId := m.runId
    engine := m.engine, cluster := m.cluster, correlationId := m.correlationId
    startedAt := m.startedAt, endedAt := m.endedAt, outcome := m.outcome
    requested := m.requested
    achieved :=
      { concurrency := a.peak v, throughput := perSecond samples durationSeconds, durationSeconds
        steps := [], samples, failed }
    errorRate := rate failed samples
    latency := overall.percentiles v reportedPercentiles
    attribution := (a.errors v).2
    errors := (a.errors v).1
    labels := names.map fun name =>
      labelSummary v name
        (a.labels.getD name { codes := none, samples := 0, failed := 0, latency := ∅ })
    soakTrend := (soakTrend v a.seconds).map fun t =>
      { t with labels := soakTrendLabels v a.seconds } }

end Accumulator

/-- `Input` is everything a report is built from in one pass. -/
structure Input extends Meta where
  intervals : List Interval

def build (v : Visit) (input : Input) : Report :=
  (newAccumulator.addAll input.intervals).report v input.toMeta

end Honryu.Report
