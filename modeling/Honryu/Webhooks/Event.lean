import Honryu.Report.Floors

/-!
The event that a finished run is announced with, and the criteria that it names.

The event carries the criteria of the execution as they are configured, and those that the report
fails. The failing ones are named as the evaluator names them, and the evaluator works on the
rewritten list: a floor that fails is named by the condition of failure it was turned into, which is
not among the criteria.
-/

namespace Honryu.Webhooks

open Report (Report CriterionMatch FailedCriterion evaluateCriteria evaluateOne figure
  floorRewritten floorsToViolations IsFloor)

/-! ### The event -/

/-- The body of a `run.completed` delivery, before it is written as JSON. -/
structure RunCompletedEvent where
  event : String
  runId : ℤ
  executionId : ℤ
  projectId : ℤ
  engine : String
  outcome : Taurus.Outcome
  samples : ℤ
  throughput : ℚ
  errorRate : ℚ
  criteria : List String
  failing : List String
  startedTime : ℤ
  endedTime : ℤ
  reportUrl : String

def buildBody (projectId : ℤ) (rep : Report) (criteria : List String) : RunCompletedEvent :=
  { event := "run.completed", runId := rep.runId, executionId := rep.executionId, projectId
    engine := rep.engine.name, outcome := rep.outcome
    samples := rep.achieved.samples, throughput := rep.achieved.throughput
    errorRate := rep.errorRate
    criteria
    failing := (evaluateCriteria rep criteria).map (·.criterion)
    startedTime := rep.startedAt, endedTime := rep.endedAt
    reportUrl := "/reports/" ++ toString rep.runId }

/-! ### What the failing criteria are called -/

theorem criterion_of_evaluateOne {r : Report} {c : String} {failed : FailedCriterion}
    (h : evaluateOne r c = some failed) : failed.criterion = c := by
  unfold evaluateOne at h
  repeat' split at h
  all_goals cases h
  all_goals rfl

theorem map_criterion_evaluateCriteria (r : Report) (criteria : List String) :
    (evaluateCriteria r criteria).map (·.criterion) =
      (criteria.map floorRewritten).filter fun c => (evaluateOne r c).isSome := by
  rw [evaluateCriteria, floorsToViolations]
  induction criteria.map floorRewritten with
  | nil => rfl
  | cons c rest ih =>
      cases hone : evaluateOne r c with
      | none => simp [hone, ih]
      | some failed => simp [hone, ih, criterion_of_evaluateOne hone]

/-- The report keeps to a floor: it has the figure, and the figure is as the floor says. -/
def Kept (r : Report) (m : CriterionMatch) : Prop :=
  ∃ f ∈ figure r m.subject m.unit, ∃ t ∈ Text.parseDecimal m.threshold, m.op.Holds f t

theorem isSome_evaluateOne_floorRewritten {m : CriterionMatch} {c : String}
    (h : m.Matches c.toList) (hfloor : m.op.isFloor = true) (r : Report) :
    (evaluateOne r (floorRewritten c)).isSome = true ↔ ¬Kept r m := by
  obtain ⟨t, ht⟩ := h.threshold.parseDecimal
  have hjudged := Report.judged_floorRewritten h hfloor ht r
  cases hfigure : figure r m.subject m.unit with
  | none => simp [hjudged.unparsed hfigure, Kept, hfigure]
  | some f =>
      have hkept : Kept r m ↔ m.op.Holds f t := by simp [Kept, hfigure, ht]
      rw [hkept, ← hjudged.kept f hfigure, Option.isSome_iff_ne_none]

/-- A rewriting that is done once leaves at least as much of what it makes as there was. -/
theorem count_le_count_map {f : String → String} (hidem : ∀ x, f (f x) = f x) (c : String)
    (l : List String) : l.count (f c) ≤ (l.map f).count (f c) := by
  induction l with
  | nil => exact le_rfl
  | cons x l ih =>
      rw [List.map_cons, List.count_cons, List.count_cons]
      by_cases hx : x = f c
      · rw [hx, hidem c]
        omega
      · simp only [beq_iff_eq, hx, if_false]
        omega

theorem count_lt_count_map {f : String → String} (hidem : ∀ x, f (f x) = f x) {c : String}
    (hc : f c ≠ c) {l : List String} (hmem : c ∈ l) : l.count (f c) < (l.map f).count (f c) := by
  obtain ⟨before, after, rfl⟩ := List.append_of_mem hmem
  have hbefore := count_le_count_map hidem c before
  have hafter := count_le_count_map hidem c after
  simp only [List.map_append, List.map_cons, List.count_append, List.count_cons_self,
    List.count_cons_of_ne hc.symm]
  omega

/-- What fails is named as it is configured: the names are some of the criteria in their order, in
the verdict and in the event. -/
structure NamesOwn (projectId : ℤ) (r : Report) (criteria : List String) : Prop where
  verdict : ((evaluateCriteria r criteria).map (·.criterion)).Sublist criteria
  event : (buildBody projectId r criteria).failing.Sublist (buildBody projectId r criteria).criteria

end Honryu.Webhooks
