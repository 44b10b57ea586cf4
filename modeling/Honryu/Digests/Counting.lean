import Honryu.Digests.Digest
import Honryu.Lib.Walk

/-!
Digests over time: whether every run is counted, and only once.

Runs are started and get their reports at any time, and digests are fired in between. The window of
a digest ends at the instant it is fired, and the next one begins where the store says this was. A
run has no part in a digest before it has a report, whenever it was started.
-/

namespace Honryu.Digests

open Quota (Precision)
open Report (Report Reports)

/-! ### The course of events -/

structure UnderWay where
  executionId : ℤ
  runId : ℤ
  startedAt : ℤ
  deriving DecidableEq

structure Timeline where
  clock : ℤ
  nextRun : ℤ
  underWay : List UnderWay
  reports : Reports
  digests : List Digest

inductive Event
  | elapse (d : ℕ)
  | start (executionId : ℤ)
  | finish (runId : ℤ) (report : Report)
  | fire (projectId : ℤ) (period : Period)

namespace Timeline

def new (clock : ℤ) : Timeline :=
  { clock, nextRun := 1, underWay := [], reports := .empty, digests := [] }

variable (projects : Projects) (p : Precision)

def step (t : Timeline) : Event → Timeline
  | .elapse d => { t with clock := t.clock + d }
  | .start executionId =>
      { t with
        underWay := t.underWay ++ [⟨executionId, t.nextRun, t.clock⟩]
        nextRun := t.nextRun + 1 }
  | .finish runId report =>
      match t.underWay.find? fun run => run.runId = runId with
      | none => t
      | some run =>
          { t with
            underWay := t.underWay.filter fun run => run.runId ≠ runId
            reports := t.reports.save
              { report with
                executionId := run.executionId, runId := run.runId, startedAt := run.startedAt } }
  | .fire projectId period =>
      { t with digests := fire projects t.reports p t.digests projectId period t.clock }

abbrev run (t : Timeline) (events : List Event) : Timeline := Walk.run (step projects p) t events

end Timeline

/-! ### Counting -/

def firstWindowStart (digests : List Digest) (projectId : ℤ) (period : Period) : Option ℤ :=
  (ofPeriod digests projectId period).head?.map (·.payload.windowStart)

section CountedOnce

variable (projects : Projects) (p : Precision) (projectId : ℤ) (period : Period)

/-- Every run of the project that was started in the time the digests are about, and has its report
before a later digest is fired, is counted by exactly one of them. -/
def CountedOnce (t : Timeline) (events : List Event) : Prop :=
  ∀ before after, events = before ++ .fire projectId period :: after →
    ∀ r ∈ (t.run projects p before).reports.rows, projects.owns projectId r.executionId = true →
      ∀ first ∈ firstWindowStart (t.run projects p events).digests projectId period,
        first ≤ r.startedAt → r.startedAt < (t.run projects p before).clock →
          (ofPeriod (t.run projects p events).digests projectId period).countP (·.counts r) = 1

/-- When a digest is fired, every run of the project that was started before the end of its window,
as the store keeps it, has its report, and none was started between this end and the instant at which
it is fired. No run is started before the end that the store has for the last window. -/
def Settled (t : Timeline) : Event → Prop
  | .fire projectId' period' => projectId' = projectId → period' = period →
      (∀ run ∈ t.underWay, projects.owns projectId run.executionId = true →
        p.round t.clock ≤ run.startedAt) ∧
      ∀ r ∈ t.reports.rows, projects.owns projectId r.executionId = true →
        (r.startedAt < t.clock ↔ r.startedAt < p.round t.clock)
  | .start executionId => projects.owns projectId executionId = true →
      ∀ e ∈ lastDigestWindowEnd t.digests projectId period, e ≤ t.clock
  | _ => True

instance (t : Timeline) : (e : Event) → Decidable (Settled projects p projectId period t e)
  | .elapse _ => inferInstanceAs (Decidable True)
  | .start _ => inferInstanceAs (Decidable (_ → ∀ _ ∈ lastDigestWindowEnd _ _ _, _ ≤ _))
  | .finish _ _ => inferInstanceAs (Decidable True)
  | .fire _ _ => inferInstanceAs (Decidable (_ → _ → (∀ _ ∈ _, _ → _) ∧ ∀ _ ∈ _, _ → (_ ↔ _)))

/-- What the digests have counted so far: every run that was started before the end of the last
window, once, and none of those that were started since. -/
structure Tiled (t : Timeline) : Prop where
  known : ∀ d ∈ ofPeriod t.digests projectId period, ∀ r : Report, d.counts r = true →
    r.runId ∈ t.reports.rows.map (·.runId)
  past : ∀ e ∈ lastDigestWindowEnd t.digests projectId period, e ≤ p.round t.clock
  since : ∀ e ∈ lastDigestWindowEnd t.digests projectId period, ∀ run ∈ t.underWay,
    projects.owns projectId run.executionId = true → e ≤ run.startedAt
  counted : ∀ e ∈ lastDigestWindowEnd t.digests projectId period,
    ∀ first ∈ firstWindowStart t.digests projectId period, ∀ r ∈ t.reports.rows,
      projects.owns projectId r.executionId = true → first ≤ r.startedAt → r.startedAt < e →
        (ofPeriod t.digests projectId period).countP (·.counts r) = 1
  uncounted : ∀ e ∈ lastDigestWindowEnd t.digests projectId period, ∀ r ∈ t.reports.rows,
    projects.owns projectId r.executionId = true → e ≤ r.startedAt →
      (ofPeriod t.digests projectId period).countP (·.counts r) = 0

end CountedOnce

section Step

variable {projects : Projects} {p : Precision} {projectId : ℤ} {period : Period} {t : Timeline}

theorem ofPeriod_eq_nil {digests : List Digest}
    (h : lastDigestWindowEnd digests projectId period = none) : ofPeriod digests projectId period = [] :=
  List.getLast?_eq_none_iff.mp (Option.map_eq_none_iff.mp h)

theorem lastDigestWindowEnd_fire {reports : Reports} (digests : List Digest) (now : ℤ) :
    lastDigestWindowEnd (fire projects reports p digests projectId period now) projectId period =
      some (p.round now) := by
  rw [lastDigestWindowEnd, ofPeriod_fire, List.getLast?_concat, Option.map_some]
  rfl

theorem firstWindowStart_fire {reports : Reports} {digests : List Digest} {e now : ℤ}
    (h : lastDigestWindowEnd digests projectId period = some e) :
    firstWindowStart (fire projects reports p digests projectId period now) projectId period =
      firstWindowStart digests projectId period := by
  have hne : ofPeriod digests projectId period ≠ [] := by
    intro hnil
    rw [lastDigestWindowEnd, hnil] at h
    cases h
  rw [firstWindowStart, firstWindowStart, ofPeriod_fire, List.head?_append_of_ne_nil _ hne]

theorem tiled_new (clock : ℤ) : Tiled projects p projectId period (.new clock) := by
  constructor <;> simp [Timeline.new, ofPeriod, lastDigestWindowEnd, Reports.empty]

theorem Tiled.elapse (h : Tiled projects p projectId period t) (d : ℕ) :
    Tiled projects p projectId period (t.step projects p (.elapse d)) := by
  have hlater : t.clock ≤ t.clock + d := Int.le_add_of_nonneg_right (Int.natCast_nonneg d)
  exact ⟨h.known, fun e he => (h.past e he).trans (p.mono _ _ hlater), h.since, h.counted, h.uncounted⟩

theorem Tiled.start (h : Tiled projects p projectId period t) {executionId : ℤ}
    (hok : Settled projects p projectId period t (.start executionId)) :
    Tiled projects p projectId period (t.step projects p (.start executionId)) := by
  refine ⟨h.known, h.past, fun e he run hrun hproject => ?_, h.counted, h.uncounted⟩
  rcases List.mem_append.mp hrun with hrun | hrun
  · exact h.since e he run hrun hproject
  · obtain rfl := List.mem_singleton.mp hrun
    exact hok hproject e he

theorem rows_save (reports : Reports) (r : Report) :
    (reports.save r).rows = reports.rows ∨
      (reports.save r).rows = reports.rows ++ [r] ∧ r.runId ∉ reports.rows.map (·.runId) := by
  unfold Reports.save
  split
  · exact .inl rfl
  · rename_i hnew
    exact .inr ⟨rfl, hnew⟩

theorem Tiled.save (h : Tiled projects p projectId period t) {r : Report}
    (hr : ∀ e ∈ lastDigestWindowEnd t.digests projectId period,
      projects.owns projectId r.executionId = true → e ≤ r.startedAt) :
    Tiled projects p projectId period { t with reports := t.reports.save r } := by
  rcases rows_save t.reports r with hrows | ⟨hrows, hnew⟩
  · refine ⟨?_, h.past, h.since, ?_, ?_⟩ <;> rw [hrows]
    exacts [h.known, h.counted, h.uncounted]
  · refine ⟨fun d hd x hx => ?_, h.past, h.since, fun e he first hfirst x hx hproject hlo hhi => ?_,
      fun e he x hx hproject hlo => ?_⟩
    · rw [hrows, List.map_append]
      exact List.mem_append_left _ (h.known d hd x hx)
    · rw [hrows] at hx
      rcases List.mem_append.mp hx with hx | hx
      · exact h.counted e he first hfirst x hx hproject hlo hhi
      · obtain rfl := List.mem_singleton.mp hx
        exact absurd hhi (not_lt.mpr (hr e he hproject))
    · rw [hrows] at hx
      rcases List.mem_append.mp hx with hx | hx
      · exact h.uncounted e he x hx hproject hlo
      · obtain rfl := List.mem_singleton.mp hx
        exact List.countP_eq_zero.mpr fun d hd hcounts => hnew (h.known d hd x hcounts)

theorem Tiled.finish (h : Tiled projects p projectId period t) (runId : ℤ) (report : Report) :
    Tiled projects p projectId period (t.step projects p (.finish runId report)) := by
  simp only [Timeline.step]
  split
  · exact h
  · rename_i run hrun
    have hmem := List.mem_of_find?_eq_some hrun
    have hfewer : Tiled projects p projectId period
        { t with underWay := t.underWay.filter fun run => run.runId ≠ runId } :=
      ⟨h.known, h.past, fun e he x hx => h.since e he x (List.mem_of_mem_filter hx), h.counted, h.uncounted⟩
    exact hfewer.save fun e he hproject => h.since e he run hmem hproject

/-- A digest is fired. The runs of its window are those that the digests so far have not counted. -/
theorem Tiled.fires (h : Tiled projects p projectId period t)
    (hok : Settled projects p projectId period t (.fire projectId period)) :
    Tiled projects p projectId period (t.step projects p (.fire projectId period)) := by
  obtain ⟨hsince, hsame⟩ := hok rfl rfl
  have hrows := ofPeriod_fire projects t.reports projectId period p t.digests t.clock
  have hlast : lastDigestWindowEnd (fire projects t.reports p t.digests projectId period t.clock)
      projectId period = some (p.round t.clock) := lastDigestWindowEnd_fire t.digests t.clock
  have hcount : ∀ r ∈ t.reports.rows, projects.owns projectId r.executionId = true →
      (ofPeriod (fire projects t.reports p t.digests projectId period t.clock) projectId period).countP
          (·.counts r) =
        (ofPeriod t.digests projectId period).countP (·.counts r) +
          if nextWindowStart t.digests projectId period t.clock ≤ r.startedAt ∧
            r.startedAt < t.clock then 1 else 0 := by
    intro r hr hproject
    rw [hrows, List.countP_append, List.countP_singleton]
    simp only [counts_fired p t.digests t.clock hr hproject]
  refine ⟨fun d hd r hr => ?_, fun e he => ?_, fun e he run hrun hproject => ?_,
    fun e he first hfirst r hr hproject hlo hhi => ?_, fun e he r hr hproject hlo => ?_⟩
  · rw [Timeline.step, hrows] at hd
    rcases List.mem_append.mp hd with hd | hd
    · exact h.known d hd r hr
    · obtain rfl := List.mem_singleton.mp hd
      obtain ⟨r', hr', hrun, -⟩ := (mem_windowRuns period).mp (of_decide_eq_true hr)
      exact List.mem_map.mpr ⟨r', hr', hrun⟩
  · rw [Timeline.step, hlast] at he
    cases he
    exact le_rfl
  · rw [Timeline.step, hlast] at he
    cases he
    exact hsince run hrun hproject
  · rw [Timeline.step, hlast] at he
    cases he
    have hnow := (hsame r hr hproject).mpr hhi
    rw [Timeline.step, hcount r hr hproject]
    cases hold : lastDigestWindowEnd t.digests projectId period with
    | none =>
        have hnil := ofPeriod_eq_nil hold
        rw [Timeline.step, firstWindowStart, hrows, hnil] at hfirst
        cases hfirst
        rw [hnil, List.countP_nil, zero_add]
        exact if_pos ⟨hlo, hnow⟩
    | some e =>
        have hstart : nextWindowStart t.digests projectId period t.clock = e := by
          rw [nextWindowStart, hold, Option.getD_some]
        rw [Timeline.step, firstWindowStart_fire hold] at hfirst
        rw [hstart]
        by_cases hbefore : r.startedAt < e
        · rw [h.counted e hold first hfirst r hr hproject hlo hbefore,
            if_neg fun hin => absurd hin.1 (not_le.mpr hbefore)]
        · rw [h.uncounted e hold r hr hproject (not_lt.mp hbefore), if_pos ⟨not_lt.mp hbefore, hnow⟩]
  · rw [Timeline.step, hlast] at he
    cases he
    have hnow : ¬r.startedAt < t.clock := fun hlt => absurd ((hsame r hr hproject).mp hlt) (not_lt.mpr hlo)
    rw [Timeline.step, hcount r hr hproject, if_neg fun hin => hnow hin.2, add_zero]
    cases hold : lastDigestWindowEnd t.digests projectId period with
    | none => rw [ofPeriod_eq_nil hold, List.countP_nil]
    | some e => exact h.uncounted e hold r hr hproject ((h.past e hold).trans hlo)

/-- What is fired for another project or period is of no concern. -/
theorem Tiled.fires_other (h : Tiled projects p projectId period t) {projectId' : ℤ} {period' : Period}
    (hne : ¬(projectId' = projectId ∧ period' = period)) :
    Tiled projects p projectId period (t.step projects p (.fire projectId' period')) := by
  have hrows : ofPeriod (t.step projects p (.fire projectId' period')).digests projectId period =
      ofPeriod t.digests projectId period := ofPeriod_fire_of_ne p t.digests t.clock hne
  have hlast : lastDigestWindowEnd (t.step projects p (.fire projectId' period')).digests projectId
      period = lastDigestWindowEnd t.digests projectId period := by
    rw [lastDigestWindowEnd, hrows, lastDigestWindowEnd]
  have hfirst : firstWindowStart (t.step projects p (.fire projectId' period')).digests projectId
      period = firstWindowStart t.digests projectId period := by
    rw [firstWindowStart, hrows, firstWindowStart]
  refine ⟨?_, ?_, ?_, ?_, ?_⟩ <;> simp only [hlast, hfirst, hrows]
  exacts [h.known, h.past, h.since, h.counted, h.uncounted]

theorem Tiled.step (h : Tiled projects p projectId period t) (e : Event)
    (hok : Settled projects p projectId period t e) :
    Tiled projects p projectId period (t.step projects p e) := by
  cases e with
  | elapse d => exact h.elapse d
  | start executionId => exact h.start hok
  | finish runId report => exact h.finish runId report
  | fire projectId' period' =>
      by_cases hthis : projectId' = projectId ∧ period' = period
      · obtain ⟨rfl, rfl⟩ := hthis
        exact h.fires hok
      · exact h.fires_other hthis

/-- Once a digest has been fired, the digests are about the time up to then, at least. -/
theorem exists_last_of_run {events : List Event} {since : ℤ}
    (hok : Walk.Along (Timeline.step projects p) (Settled projects p projectId period) t events)
    (ht : Tiled projects p projectId period t)
    (hlast : ∃ e ∈ lastDigestWindowEnd t.digests projectId period, since ≤ e) :
    ∃ e ∈ lastDigestWindowEnd (t.run projects p events).digests projectId period, since ≤ e := by
  have hstep : ∀ t e, (Tiled projects p projectId period t ∧
      ∃ e ∈ lastDigestWindowEnd t.digests projectId period, since ≤ e) →
      Settled projects p projectId period t e →
        Tiled projects p projectId period (t.step projects p e) ∧
          ∃ e' ∈ lastDigestWindowEnd (t.step projects p e).digests projectId period, since ≤ e' := by
    rintro t event ⟨ht, e, he, hle⟩ hok
    refine ⟨ht.step event hok, ?_⟩
    cases event with
    | elapse d => exact ⟨e, he, hle⟩
    | start executionId => exact ⟨e, he, hle⟩
    | finish runId report =>
        simp only [Timeline.step]
        split
        · exact ⟨e, he, hle⟩
        · exact ⟨e, he, hle⟩
    | fire projectId' period' =>
        by_cases hthis : projectId' = projectId ∧ period' = period
        · obtain ⟨rfl, rfl⟩ := hthis
          exact ⟨_, lastDigestWindowEnd_fire t.digests t.clock, hle.trans (ht.past e he)⟩
        · refine ⟨e, ?_, hle⟩
          rw [lastDigestWindowEnd, Timeline.step, ofPeriod_fire_of_ne p t.digests t.clock hthis]
          exact he
  exact (Walk.run_induction hstep ⟨ht, hlast⟩ hok).2

theorem mem_rows_run {events : List Event} {r : Report} (hr : r ∈ t.reports.rows) :
    r ∈ (t.run projects p events).reports.rows := by
  induction events generalizing t with
  | nil => exact hr
  | cons e events ih =>
      refine ih ?_
      cases e with
      | finish runId report =>
          simp only [Timeline.step]
          split
          · exact hr
          · rename_i run _
            rcases rows_save t.reports { report with
              executionId := run.executionId, runId := run.runId, startedAt := run.startedAt } with
              h | ⟨h, -⟩
            · rwa [h]
            · rw [h]
              exact List.mem_append_left _ hr
      | _ => exact hr

end Step

/-- If the windows that the store keeps are those of the digests, and have no run without a report,
then every run is counted once. -/
theorem countedOnce_run (projects : Projects) (p : Precision) (projectId : ℤ) (period : Period)
    (clock : ℤ) (events : List Event)
    (hok : Walk.Along (Timeline.step projects p) (Settled projects p projectId period) (.new clock) events) :
    CountedOnce projects p projectId period (.new clock) events := by
  rintro before after rfl r hr hproject first hfirst hlo hhi
  have htiled : ∀ {events}, Walk.Along (Timeline.step projects p) (Settled projects p projectId period)
      (.new clock) events →
        Tiled projects p projectId period (Timeline.run projects p (.new clock) events) :=
    fun h => Walk.run_induction (fun t e ht => ht.step e) (tiled_new clock) h
  obtain ⟨hbefore, hfire, hafter⟩ := Walk.Along.append.mp hok
  have hkept := ((hfire rfl rfl).2 r hr hproject).mp hhi
  -- The digests after this one are about all that this one is about.
  obtain ⟨e, he, hle⟩ := exists_last_of_run hafter ((htiled hbefore).step _ hfire)
    ⟨_, lastDigestWindowEnd_fire _ _, le_rfl⟩
  have hend := htiled hok
  rw [Timeline.run, Walk.run_append] at hfirst hend ⊢
  exact hend.counted e he first hfirst r (mem_rows_run hr) hproject hlo (hkept.trans_le hle)

def oneExecution : Projects := ⟨fun projectId => if projectId = 1 then [(1, "checkout")] else []⟩

/-- A run that passed. -/
def Event.passed (runId : ℤ) : Event :=
  .finish runId
    { executionId := 1, scenarioId := 0, runId, engine := ⟨"jmeter"⟩, cluster := ""
      correlationId := "", startedAt := 0, endedAt := 0, outcome := .passed
      requested := ⟨0, 0, 0, [], 0, 0⟩, achieved := ⟨0, 0, 0, [], 0, 0⟩, errorRate := 0, latency := ∅
      attribution := ⟨0, 0, 0⟩, errors := [], labels := [], soakTrend := none }

/-- Three digests, with a run before each of the last two. -/
theorem countedOnce_inBetween :
    CountedOnce oneExecution wholeSeconds 1 .daily (.new 0)
      [.fire 1 .daily, .elapse 700000000, .start 1, .elapse 500000000, .passed 1, .fire 1 .daily,
        .elapse 300000000, .start 1, .elapse 500000000, .passed 2, .fire 1 .daily] :=
  countedOnce_run _ _ _ _ _ _ (by decide +kernel)

/-- A run that has no report yet when a digest is fired is in none, as the next digest is about what
was started later. -/
theorem not_countedOnce_underWay :
    ¬CountedOnce oneExecution wholeSeconds 1 .daily (.new 0)
      [.fire 1 .daily, .elapse 1000000000, .start 1, .elapse 1000000000, .fire 1 .daily, .passed 1,
        .elapse 1000000000, .fire 1 .daily] := by
  intro h
  have hcount := h
    [.fire 1 .daily, .elapse 1000000000, .start 1, .elapse 1000000000, .fire 1 .daily, .passed 1,
      .elapse 1000000000] [] rfl _ (List.mem_singleton_self _) rfl (-86400000000000) (by decide +kernel)
      (by decide +kernel) (by decide +kernel)
  exact absurd hcount (by decide +kernel)

end Honryu.Digests
