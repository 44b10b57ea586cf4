import Honryu.Quota.Reservation
import Honryu.Report.Reports

/-!
Digests: what the runs of a project came to, period by period.

A digest is about a window that begins where the last digest of the same period ended. It counts
the reports of the runs that were started in the window. The store keeps the end of a window to its
own precision.
-/

namespace Honryu.Digests

open Quota (Precision)
open Report (Report Reports)

/-! ### What a digest says -/

inductive Period
  | daily
  | weekly
  deriving DecidableEq

/-- `Duration`, in nanoseconds. -/
def Period.duration : Period → ℤ
  | .daily => 24 * 3600 * 10 ^ 9
  | .weekly => 7 * 24 * 3600 * 10 ^ 9

/-- `ByOutcome`. A run that ended in an error has no bucket. -/
structure ByOutcome where
  passed : ℤ
  failed : ℤ
  aborted : ℤ
  deriving DecidableEq

def ByOutcome.add (b : ByOutcome) (r : Report) : ByOutcome :=
  match r.outcome with
  | .passed => { b with passed := b.passed + 1 }
  | .failed => { b with failed := b.failed + 1 }
  | .aborted => { b with aborted := b.aborted + 1 }
  | _ => b

/-- `outcomeSeverity`. What is not in the table is not severe. -/
def outcomeSeverity : Option Taurus.Outcome → ℕ
  | some .passed => 1
  | some .aborted => 2
  | some .failed => 3
  | some .error => 4
  | _ => 0

/-- `ExecutionSummary` is one execution's share of a window. -/
structure ExecutionSummary where
  executionId : ℤ
  name : String
  runs : ℤ
  worstOutcome : Option Taurus.Outcome
  deriving DecidableEq

def ExecutionSummary.add (summary : ExecutionSummary) (r : Report) : ExecutionSummary :=
  { summary with
    runs := summary.runs + 1
    worstOutcome :=
      if outcomeSeverity summary.worstOutcome < outcomeSeverity (some r.outcome) then some r.outcome
      else summary.worstOutcome }

/-- `Payload`. Next to what it says of the runs of a window, `windowRuns` has the runs themselves.
-/
structure Payload where
  windowStart : ℤ
  windowEnd : ℤ
  runsTotal : ℤ
  byOutcome : ByOutcome
  thresholdFailures : ℤ
  executions : List ExecutionSummary
  windowRuns : List ℤ
  deriving DecidableEq

/-- `Digest` is a row of `report_digest`. -/
structure Digest where
  projectId : ℤ
  period : Period
  windowStart : ℤ
  windowEnd : ℤ
  payload : Payload
  deriving DecidableEq

structure Projects where
  executions : ℤ → List (ℤ × String)

def Projects.owns (projects : Projects) (projectId executionId : ℤ) : Bool :=
  executionId ∈ (projects.executions projectId).map (·.1)

/-! ### Building and firing -/

section Fire

variable (projects : Projects) (reports : Reports)

def windowReports (windowStart windowEnd : ℤ) (executionId : ℤ) : List Report :=
  (reports.list executionId 0).filter fun r =>
    windowStart ≤ r.startedAt ∧ r.startedAt < windowEnd

/-- `BuildDigest` of a window of a project. -/
def buildDigest (projectId : ℤ) (period : Period) (windowStart windowEnd : ℤ) : Digest :=
  let execs := projects.executions projectId
  let rows := execs.flatMap fun exe => windowReports reports windowStart windowEnd exe.1
  let byOutcome := rows.foldl ByOutcome.add { passed := 0, failed := 0, aborted := 0 }
  { projectId, period, windowStart, windowEnd
    payload :=
      { windowStart, windowEnd, runsTotal := rows.length, byOutcome
        thresholdFailures := byOutcome.failed
        executions := (execs.map fun exe =>
          (windowReports reports windowStart windowEnd exe.1).foldl ExecutionSummary.add
            { executionId := exe.1, name := exe.2, runs := 0, worstOutcome := none }).filter
              fun summary => 0 < summary.runs
        windowRuns := rows.map (·.runId) } }

/-- A `TIMESTAMP` column, as those of `report_digest` are. -/
def wholeSeconds : Precision where
  round t := (t + 5 * 10 ^ 8) / 10 ^ 9 * 10 ^ 9
  mono s t h := by omega
  round_round t := by omega

variable {p : Precision}

def ofPeriod (digests : List Digest) (projectId : ℤ) (period : Period) : List Digest :=
  digests.filter fun d => d.projectId = projectId ∧ d.period = period

/-- `LastDigestWindowEnd`. -/
def lastDigestWindowEnd (digests : List Digest) (projectId : ℤ) (period : Period) : Option ℤ :=
  (ofPeriod digests projectId period).getLast?.map (·.windowEnd)

/-- `SaveDigest`. -/
def saveDigest (p : Precision) (digests : List Digest) (d : Digest) : List Digest :=
  digests ++ [{ d with windowStart := p.round d.windowStart, windowEnd := p.round d.windowEnd }]

/-- `Fire` stores the digest of what has passed since the last one. -/
def fire (p : Precision) (digests : List Digest) (projectId : ℤ) (period : Period) (now : ℤ) :
    List Digest :=
  let windowStart := (lastDigestWindowEnd digests projectId period).getD (now - period.duration)
  saveDigest p digests (buildDigest projects reports projectId period windowStart now)

end Fire

/-! ### Which runs are counted -/

def Digest.counts (d : Digest) (r : Report) : Bool := r.runId ∈ d.payload.windowRuns

section Counts

variable {projects : Projects} {reports : Reports} {projectId windowStart windowEnd : ℤ}
  {period : Period}

theorem mem_windowReports {executionId : ℤ} {r : Report} :
    r ∈ windowReports reports windowStart windowEnd executionId ↔
      r ∈ reports.rows ∧ r.executionId = executionId ∧ windowStart ≤ r.startedAt ∧
        r.startedAt < windowEnd := by
  simp [windowReports, Reports.list, and_assoc]

theorem mem_windowRuns (period : Period) {runId : ℤ} :
    runId ∈ (buildDigest projects reports projectId period windowStart windowEnd).payload.windowRuns ↔
      ∃ r ∈ reports.rows, r.runId = runId ∧ projects.owns projectId r.executionId = true ∧
        windowStart ≤ r.startedAt ∧ r.startedAt < windowEnd := by
  simp only [buildDigest, List.mem_map, List.mem_flatMap, mem_windowReports, Projects.owns,
    decide_eq_true_eq]
  constructor
  · rintro ⟨r, ⟨exe, hexe, hr, hid, hwindow⟩, hrun⟩
    exact ⟨r, hr, hrun, ⟨exe, hexe, hid.symm⟩, hwindow⟩
  · rintro ⟨r, hr, hrun, ⟨exe, hexe, hid⟩, hwindow⟩
    exact ⟨r, ⟨exe, hexe, hr, hid.symm, hwindow⟩, hrun⟩

/-- A digest counts the runs of the project that were started in its window and have a report. -/
theorem counts_buildDigest (period : Period) {r : Report} (hr : r ∈ reports.rows)
    (hproject : projects.owns projectId r.executionId = true) :
    (buildDigest projects reports projectId period windowStart windowEnd).counts r = true ↔
      windowStart ≤ r.startedAt ∧ r.startedAt < windowEnd := by
  rw [Digest.counts, decide_eq_true_iff, mem_windowRuns]
  constructor
  · rintro ⟨r', hr', hrun, -, hwindow⟩
    rwa [List.inj_on_of_nodup_map reports.nodup hr' hr hrun] at hwindow
  · exact fun hwindow => ⟨r, hr, rfl, hproject, hwindow⟩

variable (projects reports projectId period)

def nextWindowStart (digests : List Digest) (projectId : ℤ) (period : Period) (now : ℤ) : ℤ :=
  (lastDigestWindowEnd digests projectId period).getD (now - period.duration)

def fired (p : Precision) (digests : List Digest) (now : ℤ) : Digest :=
  let windowStart := nextWindowStart digests projectId period now
  { buildDigest projects reports projectId period windowStart now with
    windowStart := p.round windowStart, windowEnd := p.round now }

theorem ofPeriod_fire (p : Precision) (digests : List Digest) (now : ℤ) :
    ofPeriod (fire projects reports p digests projectId period now) projectId period =
      ofPeriod digests projectId period ++ [fired projects reports projectId period p digests now] := by
  simp [ofPeriod, fire, fired, saveDigest, buildDigest, nextWindowStart]

variable {projects reports projectId period}

theorem ofPeriod_fire_of_ne (p : Precision) (digests : List Digest) (now : ℤ) {projectId' : ℤ}
    {period' : Period} (h : ¬(projectId' = projectId ∧ period' = period)) :
    ofPeriod (fire projects reports p digests projectId' period' now) projectId period =
      ofPeriod digests projectId period := by
  simp [ofPeriod, fire, saveDigest, buildDigest, h]

theorem counts_fired (p : Precision) (digests : List Digest) (now : ℤ) {r : Report}
    (hr : r ∈ reports.rows) (hproject : projects.owns projectId r.executionId = true) :
    (fired projects reports projectId period p digests now).counts r = true ↔
      nextWindowStart digests projectId period now ≤ r.startedAt ∧ r.startedAt < now :=
  counts_buildDigest period hr hproject

end Counts

end Honryu.Digests
