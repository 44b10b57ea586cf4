import Honryu.Campaigns.OtherLoad
import Honryu.Report.Reports
import Honryu.Report.Requested

/-!
The verdict on a campaign: go, or no go.

A service is judged by the report of its designated execution that was started last, whenever
this was. A service whose designated execution measures the rig is not judged at all.
-/

namespace Honryu.Campaigns

open Quota Usage
open Report (Report Reports runOf shortOfRequest)

/-! ### Judging -/

/-- `FailedCriterion` is a criterion that tripped, or that could not be read. -/
structure FailedCriterion where
  criterion : String
  unparsed : Bool
  deriving DecidableEq

/-- `ServiceVerdict` is what one service contributes. There is no outcome without a report. -/
structure ServiceVerdict where
  projectId : ℤ
  executionId : ℤ
  hasReport : Bool
  outcome : Option Taurus.Outcome
  failingCriteria : List FailedCriterion
  shortOfTargetQPS : Bool
  requestedThroughput : ℚ
  achievedThroughput : ℚ

structure CampaignVerdict where
  campaignId : ℤ
  services : List ServiceVerdict
  go : Bool
  otherLoad : List OtherLoad

structure Evidence (p : Precision) where
  reports : Reports
  criteriaFor : ℤ → List String
  evaluateCriteria : Report → List String → List FailedCriterion
  ledger : Ledger p
  launches : Launches
  visit : Visit

section Verdict

variable {p : Precision} {cat : Catalogue} (ev : Evidence p)

def serviceVerdict (svc : Service) : ServiceVerdict :=
  match ev.reports.list svc.executionId 1 with
  | [] =>
      { projectId := svc.projectId, executionId := svc.executionId, hasReport := false
        outcome := none, failingCriteria := [], shortOfTargetQPS := false, requestedThroughput := 0
        achievedThroughput := 0 }
  | r :: _ =>
      { projectId := svc.projectId, executionId := svc.executionId, hasReport := true
        outcome := some r.outcome
        failingCriteria :=
          if r.outcome = .failed then ev.evaluateCriteria r (ev.criteriaFor svc.executionId) else []
        shortOfTargetQPS := shortOfRequest r
        requestedThroughput := r.requested.throughput
        achievedThroughput := r.achieved.throughput }

def ServiceVerdict.stops (sv : ServiceVerdict) : Bool :=
  !sv.hasReport || (sv.outcome ≠ some .passed || sv.shortOfTargetQPS)

/-- One service of the loop of `Verdict`. -/
def judge (cat : Catalogue) (acc : Bool × List ServiceVerdict) (svc : Service) :
    Except ServiceError (Bool × List ServiceVerdict) :=
  match cat.execution svc.executionId with
  | none => .error .notFound
  | some exe =>
      if exe.kind = .calibrateEngine then .ok acc
      else
        let sv := serviceVerdict ev svc
        .ok (if sv.stops then false else acc.1, acc.2 ++ [sv])

/-- `Verdict` of a campaign. -/
def verdict (st : Store cat) (campaignId : ℤ) : Except ServiceError CampaignVerdict :=
  match st.get campaignId with
  | none => .error .notFound
  | some c => do
      let judged ← c.services.foldlM (judge ev cat) (true, [])
      .ok { campaignId, services := judged.2, go := judged.1
            otherLoad := otherLoad cat ev.ledger ev.launches c ev.visit }

end Verdict

/-! ### When it is a go -/

def Catalogue.calibrates (cat : Catalogue) (executionId : ℤ) : Bool :=
  (cat.execution executionId).any (·.kind = .calibrateEngine)

def Passes (r : Report) : Prop := r.outcome = .passed ∧ shortOfRequest r = false

section Go

variable {p : Precision} {cat : Catalogue} {ev : Evidence p} {st : Store cat} {c : Campaign}

theorem stops_eq_false_iff {svc : Service} :
    (serviceVerdict ev svc).stops = false ↔
      ∃ r, ev.reports.newest svc.executionId = some r ∧ Passes r := by
  rw [Reports.newest, serviceVerdict]
  cases ev.reports.list svc.executionId 1 with
  | nil => simp [ServiceVerdict.stops]
  | cons r rest => simp [ServiceVerdict.stops, Passes]

variable (ev) in
/-- One service lets a go stand if it is not judged, or passes by its newest report. -/
theorem judge_eq_ok {svc : Service} {exe : ExecutionRow} (hexe : cat.execution svc.executionId = some exe)
    (acc : Bool × List ServiceVerdict) :
    ∃ acc', judge ev cat acc svc = .ok acc' ∧ (acc'.1 = true ↔ acc.1 = true ∧
      (cat.calibrates svc.executionId = true ∨
        ∃ r, ev.reports.newest svc.executionId = some r ∧ Passes r)) := by
  rw [← stops_eq_false_iff]
  unfold judge Catalogue.calibrates
  simp only [hexe, Option.any_some]
  by_cases hkind : exe.kind = .calibrateEngine
  · exact ⟨acc, by simp [hkind], by simp [hkind]⟩
  · refine ⟨_, if_neg hkind, ?_⟩
    cases hstops : (serviceVerdict ev svc).stops <;> simp [hkind]

variable (ev) in
theorem foldlM_judge {services : List Service}
    (h : ∀ svc ∈ services, ∃ exe, cat.execution svc.executionId = some exe)
    (acc : Bool × List ServiceVerdict) :
    ∃ acc', services.foldlM (judge ev cat) acc = .ok acc' ∧ (acc'.1 = true ↔ acc.1 = true ∧
      ∀ svc ∈ services, cat.calibrates svc.executionId = true ∨
        ∃ r, ev.reports.newest svc.executionId = some r ∧ Passes r) := by
  induction services generalizing acc with
  | nil => exact ⟨acc, rfl, by simp⟩
  | cons svc rest ih =>
      obtain ⟨⟨exe, hexe⟩, hrest⟩ := List.forall_mem_cons.mp h
      obtain ⟨first, hfirst, hgoes⟩ := judge_eq_ok ev hexe acc
      obtain ⟨last, hlast, hall⟩ := ih hrest first
      refine ⟨last, ?_, ?_⟩
      · rw [List.foldlM_cons, hfirst]
        exact hlast
      · rw [hall, hgoes, List.forall_mem_cons, and_assoc]

variable (ev) in
/-- A campaign that is stored gets a verdict. It is a go if each service that is judged passes by
its newest report. -/
theorem verdict_eq_ok {campaignId : ℤ} (hc : st.get campaignId = some c) :
    ∃ v, verdict ev st campaignId = .ok v ∧ (v.go = true ↔
      ∀ svc ∈ c.services, cat.calibrates svc.executionId = true ∨
        ∃ r, ev.reports.newest svc.executionId = some r ∧ Passes r) := by
  have hfound : ∀ svc ∈ c.services, ∃ exe, cat.execution svc.executionId = some exe := by
    intro svc hsvc
    have howner := st.owns c (List.mem_of_find?_eq_some hc) svc hsvc
    obtain ⟨exe, hexe, -⟩ := Option.map_eq_some_iff.mp howner
    exact ⟨exe, hexe⟩
  obtain ⟨judged, hjudged, hgo⟩ := foldlM_judge ev hfound (true, [])
  refine ⟨{ campaignId, services := judged.2, go := judged.1
            otherLoad := otherLoad cat ev.ledger ev.launches c ev.visit }, ?_, by simpa using hgo⟩
  simp only [verdict, hc, hjudged]
  rfl

/-! ### Whether it is earned -/

def Inside (c : Campaign) (r : Report) : Prop :=
  c.window.startTime ≤ r.startedAt ∧ r.startedAt < c.window.endTime

variable (ev st) in
def GoEarned (campaignId : ℤ) : Prop :=
  ∀ c v, st.get campaignId = some c → verdict ev st campaignId = .ok v → v.go = true →
    ∀ svc ∈ c.services, ∃ r ∈ ev.reports.rows, r.executionId = svc.executionId ∧ Inside c r ∧ Passes r

variable (st) in
/-- The runs that decide are in the window: a service that is judged has no run at all, or every
service is judged, and by a run that was started in the window. -/
def Decisive (reports : Reports) (campaignId : ℤ) : Prop :=
  ∀ c, st.get campaignId = some c →
    (∃ svc ∈ c.services, cat.calibrates svc.executionId = false ∧
      reports.newest svc.executionId = none) ∨
    ∀ svc ∈ c.services, cat.calibrates svc.executionId = false ∧
      ∃ r, reports.newest svc.executionId = some r ∧ Inside c r

theorem inside_of_runOf {r r' : Report} (h : runOf r' = runOf r) (hr : Inside c r) : Inside c r' := by
  have hstarted : r'.startedAt = r.startedAt := congrArg (·.2.2) h
  rwa [Inside, hstarted]

/-- If the deciding runs are in the window, a go is earned whatever is reported of them. -/
theorem Decisive.goEarned {reports : Reports} {campaignId : ℤ} (h : Decisive st reports campaignId)
    (hruns : ev.reports.rows.map runOf = reports.rows.map runOf) : GoEarned ev st campaignId := by
  intro c v hc hv hgo svc hsvc
  obtain ⟨v', hv', hiff⟩ := verdict_eq_ok ev hc
  obtain rfl : v' = v := Except.ok.inj (hv'.symm.trans hv)
  have hpasses := hiff.mp hgo
  have hnewest := Reports.run_newest hruns
  rcases h c hc with ⟨svc', hsvc', hjudged, hnone⟩ | hall
  · obtain ⟨r, hr, -⟩ := (hpasses svc' hsvc').resolve_left (by simp [hjudged])
    have hempty := hnewest svc'.executionId
    rw [hr, hnone] at hempty
    cases hempty
  · obtain ⟨hjudged, r, hr, hinside⟩ := hall svc hsvc
    obtain ⟨r', hr', hpass⟩ := (hpasses svc hsvc).resolve_left (by simp [hjudged])
    have hsame := hnewest svc.executionId
    rw [hr, hr', Option.map_some, Option.map_some, Option.some_inj] at hsame
    obtain ⟨hmem, hid⟩ := Reports.mem_of_newest hr'
    exact ⟨r', hmem, hid, inside_of_runOf hsame hinside, hpass⟩

/-! ### What the runs allow -/

variable (cat) in
/-- A report of the same run, which passed if it is the deciding one of an execution that is
judged, and failed if not. -/
def favoured (reports : Reports) (r : Report) : Report :=
  if cat.calibrates r.executionId = false ∧ (reports.newest r.executionId).map runOf = some (runOf r) then
    { r with outcome := .passed, requested := { r.requested with throughput := 0 } }
  else { r with outcome := .failed }

theorem runOf_favoured (reports : Reports) (r : Report) :
    runOf (favoured cat reports r) = runOf r := by
  unfold favoured
  split <;> rfl

theorem passes_favoured_iff (reports : Reports) (r : Report) :
    Passes (favoured cat reports r) ↔ cat.calibrates r.executionId = false ∧
      (reports.newest r.executionId).map runOf = some (runOf r) := by
  unfold favoured Passes shortOfRequest
  split <;> simp_all

variable (cat) in
/-- Everything that is judged has passed, if it has a run, and by the deciding run only. -/
def favouring (reports : Reports) : Reports where
  rows := reports.rows.map (favoured cat reports)
  nodup := by
    have hsame : (reports.rows.map (favoured cat reports)).map (·.runId) = reports.rows.map (·.runId) := by
      rw [List.map_map]
      exact List.map_congr_left fun r _ => congrArg (·.2.1) (runOf_favoured reports r)
    rw [hsame]
    exact reports.nodup

theorem newest_favouring (reports : Reports) (executionId : ℤ) :
    (favouring cat reports).newest executionId =
      (reports.newest executionId).map (favoured cat reports) :=
  Reports.newest_map (runOf_favoured reports) rfl executionId

theorem passes_newest_favouring {reports : Reports} {executionId : ℤ} {r : Report}
    (hjudged : cat.calibrates executionId = false) (hr : reports.newest executionId = some r) :
    ∃ r', (favouring cat reports).newest executionId = some r' ∧ Passes r' := by
  have hid := (Reports.mem_of_newest hr).2
  refine ⟨favoured cat reports r, by rw [newest_favouring, hr, Option.map_some], ?_⟩
  rw [passes_favoured_iff, hid, hr]
  exact ⟨hjudged, rfl⟩

theorem of_passes_favouring {reports : Reports} {r' : Report}
    (hr' : r' ∈ (favouring cat reports).rows) (hpass : Passes r') :
    cat.calibrates r'.executionId = false ∧
      (reports.newest r'.executionId).map runOf = some (runOf r') := by
  obtain ⟨r, -, rfl⟩ := List.mem_map.mp hr'
  have hrun : runOf (favoured cat reports r) = runOf r := runOf_favoured reports r
  have hid : (favoured cat reports r).executionId = r.executionId := congrArg Prod.fst hrun
  rw [hid, hrun]
  exact (passes_favoured_iff reports r).mp hpass

/-- A go is earned, whatever the reports of the runs there are say, if and only if the runs that
decide were started in the window of the campaign. -/
theorem goEarned_iff (ev : Evidence p) (st : Store cat) (campaignId : ℤ) :
    (∀ reports : Reports, reports.rows.map runOf = ev.reports.rows.map runOf →
      GoEarned { ev with reports } st campaignId) ↔ Decisive st ev.reports campaignId := by
  constructor
  · intro h c hc
    by_contra hnot
    obtain ⟨hruns, hdecisive⟩ := not_or.mp hnot
    have hruns : ∀ svc ∈ c.services, cat.calibrates svc.executionId = false →
        ∃ r, ev.reports.newest svc.executionId = some r := fun svc hsvc hjudged =>
      Option.ne_none_iff_exists'.mp fun hnone => hruns ⟨svc, hsvc, hjudged, hnone⟩
    have hsame : (favouring cat ev.reports).rows.map runOf = ev.reports.rows.map runOf := by
      rw [favouring, List.map_map]
      exact List.map_congr_left fun r _ => runOf_favoured ev.reports r
    obtain ⟨v, hv, hgo⟩ := verdict_eq_ok { ev with reports := favouring cat ev.reports } hc
    have hgo : v.go = true := by
      refine hgo.mpr fun svc hsvc => ?_
      cases hjudged : cat.calibrates svc.executionId with
      | true => exact .inl rfl
      | false =>
          obtain ⟨r, hr⟩ := hruns svc hsvc hjudged
          exact .inr (passes_newest_favouring hjudged hr)
    refine hdecisive fun svc hsvc => ?_
    obtain ⟨r', hr', hid, hinside, hpass⟩ := h _ hsame c v hc hv hgo svc hsvc
    obtain ⟨hjudged, hnewest⟩ := of_passes_favouring hr' hpass
    rw [hid] at hjudged hnewest
    obtain ⟨r, hr, hrun⟩ := Option.map_eq_some_iff.mp hnewest
    exact ⟨hjudged, r, hr, inside_of_runOf hrun hinside⟩
  · exact fun h reports hruns => h.goEarned hruns

/-! ### A run from before -/

def fromOneSecond : Store oneTenant :=
  Store.empty.insert
    { id := 0, name := "c", tenantId := 1, window := ⟨10 ^ 9, 2 * 10 ^ 9⟩, services := [⟨1, 1⟩]
      abortedAt := none } (by decide) (by decide)

/-- Run 1 of execution 1 was started at the beginning of time. It passed. -/
def passedBefore : Report :=
  { executionId := 1, scenarioId := 0, runId := 1, engine := ⟨"jmeter"⟩, cluster := ""
    correlationId := "", startedAt := 0, endedAt := 10 ^ 8, outcome := .passed
    requested := ⟨0, 0, 0, [], 0, 0⟩, achieved := ⟨0, 0, 0, [], 0, 0⟩, errorRate := 0, latency := ∅
    attribution := ⟨0, 0, 0⟩, errors := [], labels := [], soakTrend := none }

def onlyBefore : Evidence .microseconds :=
  { reports := ⟨[passedBefore], by decide⟩, criteriaFor := fun _ => []
    evaluateCriteria := fun _ _ => [], ledger := .empty, launches := .none, visit := .sorted }

theorem not_goEarned_onlyBefore : ¬GoEarned onlyBefore fromOneSecond 1 := by
  intro h
  have hgo : (verdict onlyBefore fromOneSecond 1).toOption.map (·.go) = some true := by decide +kernel
  obtain ⟨v, hv, hgo⟩ := Option.map_eq_some_iff.mp hgo
  have hok : verdict onlyBefore fromOneSecond 1 = .ok v := by
    cases hverdict : verdict onlyBefore fromOneSecond 1 with
    | error e => simp [hverdict, Except.toOption] at hv
    | ok v' => simpa [hverdict, Except.toOption] using hv
  obtain ⟨r, hr, -, hinside, -⟩ := h _ v rfl hok hgo ⟨1, 1⟩ (List.mem_singleton_self _)
  obtain rfl := List.mem_singleton.mp hr
  exact absurd hinside.1 (by decide)

end Go

end Honryu.Campaigns
