import Honryu.Lib.Checked
import Honryu.Report.Graders

/-!
The error budget of an objective.

What is left of a budget is given in percent of the target, and `Validate` takes a target of zero
for the error rate and for the ratio of passed runs. Nothing is a percentage of zero: the division
comes to an infinity, or to no number at all.
-/

namespace Honryu.Slo

/-! ### Objectives -/

/-- `SLO` is what a project is held to. -/
structure SLO where
  projectId : ℤ
  name : String
  targetP95MS : Option ℚ
  targetErrorRate : Option ℚ
  targetSuccessRatio : Option ℚ
  deriving DecidableEq

inductive Invalid
  | projectRequired
  | nameRequired
  | nameTooLong
  | noTargets
  | p95NotPositive
  | errorRateRange
  | successRatioRange
  deriving DecidableEq

def maxNameLength : ℕ := 128

def bad01 (v : ℚ) : Bool := v < 0 ∨ 1 < v

def SLO.validate (s : SLO) : Except Invalid Unit :=
  if s.projectId ≤ 0 then .error .projectRequired
  else if Text.trimSpace s.name = "" then .error .nameRequired
  else if maxNameLength < s.name.utf8ByteSize then .error .nameTooLong
  else if s.targetP95MS = none ∧ s.targetErrorRate = none ∧ s.targetSuccessRatio = none then
    .error .noTargets
  else if s.targetP95MS.any (· ≤ 0) then .error .p95NotPositive
  else if s.targetErrorRate.any bad01 then .error .errorRateRange
  else if s.targetSuccessRatio.any bad01 then .error .successRatioRange
  else .ok ()

/-! ### Grading a window -/

/-- What a division comes to, the divisor being a number or a positive zero. -/
inductive Figure
  | number (q : ℚ)
  | posInf
  | negInf
  | nan
  deriving DecidableEq

/-- `x / y * 100` -/
def percentOf (x y : ℚ) : Figure :=
  if y ≠ 0 then .number (x / y * 100)
  else if x = 0 then .nan
  else if 0 < x then .posInf
  else .negInf

/-- The comparison `<`, which is false of what is not a number. -/
def Figure.less : Figure → Figure → Bool
  | .nan, _ | _, .nan => false
  | .number q, .number q' => q < q'
  | .number _, .posInf | .negInf, .number _ | .negInf, .posInf => true
  | _, _ => false

inductive Metric
  | p95MS
  | errorRate
  | successRatio
  deriving DecidableEq

/-- `MetricBudget` is the grade of one target. -/
structure MetricBudget where
  metric : Metric
  target : ℚ
  actual : Option ℚ
  compliant : Bool
  budgetRemainingPct : Option Figure
  deriving DecidableEq

/-- `Budget` is the grade of an objective over a window. -/
structure Budget where
  metrics : List MetricBudget
  compliant : Bool
  deriving DecidableEq

/-- The line of one target, in `Evaluate`. -/
def line (metric : Metric) (target : ℚ) (got : Option ℚ) (lowerIsBetter : Bool) : MetricBudget :=
  match got with
  | none => { metric, target, actual := none, compliant := true, budgetRemainingPct := none }
  | some got =>
      if lowerIsBetter then
        { metric, target, actual := some got, compliant := got ≤ target
          budgetRemainingPct := some (percentOf (target - got) target) }
      else
        { metric, target, actual := some got, compliant := target ≤ got
          budgetRemainingPct := some (percentOf (got - target) target) }

/-- The lines of the targets that are set. -/
def SLO.lines (s : SLO) (actual : Actual) : List MetricBudget :=
  (s.targetP95MS.map fun target => line .p95MS target actual.p95MS true).toList ++
    (s.targetErrorRate.map fun target => line .errorRate target actual.errorRate true).toList ++
    (s.targetSuccessRatio.map fun target =>
      line .successRatio target actual.successRatio false).toList

def SLO.evaluate (s : SLO) (actual : Actual) : Budget :=
  (s.lines actual).foldl
    (fun b mb => { metrics := b.metrics ++ [mb], compliant := b.compliant && mb.compliant })
    { metrics := [], compliant := true }

/-- One line of the loop of `Worst`. -/
def worse (worst : Option MetricBudget) (m : MetricBudget) : Option MetricBudget :=
  match m.actual, m.budgetRemainingPct with
  | some _, some remaining =>
      match worst.bind (·.budgetRemainingPct) with
      | none => some m
      | some least => if remaining.less least then some m else worst
  | _, _ => worst

/-- `Worst` is the line with the least budget left, if anything was measured. -/
def Budget.worst (b : Budget) : Option MetricBudget := b.metrics.foldl worse none

/-- What is left is a number for every line that was measured, which tells whether the line is
compliant, and the worst line of a budget that is not compliant is not compliant either. -/
def Budget.Meaningful (b : Budget) : Prop :=
  (∀ m ∈ b.metrics, m.actual ≠ none →
      ∃ q, m.budgetRemainingPct = some (.number q) ∧ (0 ≤ q ↔ m.compliant = true)) ∧
    (b.compliant = false → ∃ m, b.worst = some m ∧ m.compliant = false)

/-! ### The lines of a budget -/

/-- A line without a measurement, which is compliant, or one with a number that tells whether it
is. -/
inductive Telling (m : MetricBudget) : Prop
  | unmeasured (hactual : m.actual = none) (hcompliant : m.compliant = true)
  | measured {got q : ℚ} (hactual : m.actual = some got)
      (hremaining : m.budgetRemainingPct = some (.number q)) (hsign : 0 ≤ q ↔ m.compliant = true)

theorem line_unmeasured (metric : Metric) (target : ℚ) (lowerIsBetter : Bool) :
    Telling (line metric target none lowerIsBetter) := .unmeasured rfl rfl

theorem percentOf_sign {x y : ℚ} (hy : 0 < y) :
    ∃ q, percentOf x y = .number q ∧ (0 ≤ q ↔ 0 ≤ x) := by
  refine ⟨x / y * 100, if_pos hy.ne', ?_⟩
  rw [mul_nonneg_iff_of_pos_right (by norm_num), le_div_iff₀ hy, zero_mul]

theorem telling_line {target : ℚ} (htarget : 0 < target) (metric : Metric) (got : Option ℚ)
    (lowerIsBetter : Bool) : Telling (line metric target got lowerIsBetter) := by
  cases got with
  | none => exact line_unmeasured metric target lowerIsBetter
  | some got =>
      cases lowerIsBetter with
      | true =>
          obtain ⟨q, hq, hsign⟩ := percentOf_sign (x := target - got) htarget
          exact .measured rfl (congrArg some hq) (by simpa [line] using hsign)
      | false =>
          obtain ⟨q, hq, hsign⟩ := percentOf_sign (x := got - target) htarget
          exact .measured rfl (congrArg some hq) (by simpa [line] using hsign)

theorem percentOf_zero_ne (x q : ℚ) : percentOf x 0 ≠ .number q := by
  rw [percentOf, if_neg (not_not_intro rfl)]
  split
  · nofun
  · split <;> nofun

/-- A line with a target of zero has a number for what was measured only if nothing was. -/
theorem line_zero {metric : Metric} {got : Option ℚ} {lowerIsBetter : Bool} {p : ℚ → Prop}
    (h : (line metric 0 got lowerIsBetter).actual ≠ none →
      ∃ q, (line metric 0 got lowerIsBetter).budgetRemainingPct = some (.number q) ∧ p q) :
    got = none := by
  cases got with
  | none => rfl
  | some got =>
      cases lowerIsBetter <;> obtain ⟨q, hq, -⟩ := h (Option.some_ne_none got) <;>
        exact absurd (Option.some.inj hq) (percentOf_zero_ne _ q)

/-! ### The worst line -/

section Worst

variable {worst : Option MetricBudget} {m : MetricBudget} {ms : List MetricBudget}

/-- A line that was measured and is not compliant has a negative number. -/
theorem Telling.neg (h : Telling m) (hnot : m.compliant = false) :
    ∃ got q, m.actual = some got ∧ m.budgetRemainingPct = some (.number q) ∧ q < 0 := by
  cases h with
  | unmeasured _ hcompliant => rw [hnot] at hcompliant; cases hcompliant
  | @measured got q hactual hremaining hsign =>
      rw [hnot] at hsign
      exact ⟨got, q, hactual, hremaining, not_le.mp fun hq => Bool.false_ne_true (hsign.mp hq)⟩

theorem Telling.not_compliant (h : Telling m) {q : ℚ} (hq : m.budgetRemainingPct = some (.number q))
    (hneg : q < 0) (hactual : m.actual ≠ none) : m.compliant = false := by
  cases h with
  | unmeasured hnone => exact absurd hnone hactual
  | @measured got q' _ hremaining hsign =>
      obtain rfl : q' = q := by simpa [hremaining] using hq
      exact Bool.eq_false_iff.mpr fun h => hneg.not_ge (hsign.mpr h)

def Found (worst : Option MetricBudget) : Prop :=
  ∀ w, worst = some w → Telling w ∧ w.actual ≠ none

def Burned (worst : Option MetricBudget) : Prop := ∃ w, worst = some w ∧ w.compliant = false

theorem found_worse (hfound : Found worst) (hm : Telling m) : Found (worse worst m) := by
  unfold worse
  split
  next got remaining hactual _ =>
    have hfoundM : Found (some m) := by
      rintro w ⟨⟩
      exact ⟨hm, by rw [hactual]; exact Option.some_ne_none _⟩
    split
    · exact hfoundM
    · split
      · exact hfoundM
      · exact hfound
  · exact hfound

/-- The line that is kept is the one with less left, so one that is not compliant stays, or
gives way to another. -/
theorem burned_worse (hfound : Found worst) (hm : Telling m)
    (h : Burned worst ∨ m.compliant = false) : Burned (worse worst m) := by
  unfold worse
  split
  next got remaining hactual hremaining =>
    have hmeasured : m.actual ≠ none := by rw [hactual]; exact Option.some_ne_none _
    cases hworst : worst with
    | none =>
        obtain ⟨w, hw, -⟩ | hnot := h
        · rw [hworst] at hw; cases hw
        · exact ⟨m, rfl, hnot⟩
    | some w =>
        obtain ⟨hw, hwactual⟩ := hfound w hworst
        cases hw with
        | unmeasured hnone => exact absurd hnone hwactual
        | @measured _ least _ hleast hsign =>
            have hw : Telling w := .measured ‹_› hleast hsign
            simp only [Option.bind_some, hleast]
            split
            next hless =>
              refine ⟨m, rfl, ?_⟩
              obtain ⟨w', hw', hnot⟩ | hnot := h
              · obtain rfl : w = w' := Option.some.inj (hworst.symm.trans hw')
                obtain ⟨-, q', -, hq', hneg⟩ := hw.neg hnot
                obtain rfl : least = q' := by simpa [hleast] using hq'
                cases hm with
                | unmeasured hnone => exact absurd hnone hmeasured
                | @measured _ q _ hq hsign =>
                    obtain rfl : remaining = .number q := Option.some.inj (hremaining.symm.trans hq)
                    have hlt : q < least := of_decide_eq_true hless
                    exact (Telling.measured hactual hq hsign).not_compliant hq (hlt.trans hneg)
                      hmeasured
              · exact hnot
            next hless =>
              refine ⟨w, rfl, ?_⟩
              obtain ⟨w', hw', hnot⟩ | hnot := h
              · obtain rfl : w = w' := Option.some.inj (hworst.symm.trans hw')
                exact hnot
              · obtain ⟨-, q, -, hq, hneg⟩ := hm.neg hnot
                obtain rfl : remaining = .number q := Option.some.inj (hremaining.symm.trans hq)
                have hle : least ≤ q := not_lt.mp fun hlt => hless (decide_eq_true hlt)
                exact hw.not_compliant hleast (hle.trans_lt hneg) hwactual
  next hnone =>
    refine h.resolve_right fun hnot => ?_
    obtain ⟨got, q, hactual, hremaining, -⟩ := hm.neg hnot
    exact hnone _ _ hactual hremaining

theorem burned_foldl_worse (hfound : Found worst) (hms : ∀ m ∈ ms, Telling m)
    (h : Burned worst ∨ ∃ m ∈ ms, m.compliant = false) : Burned (ms.foldl worse worst) := by
  induction ms generalizing worst with
  | nil => exact h.resolve_right (by rintro ⟨m, ⟨⟩, -⟩)
  | cons m ms ih =>
      obtain ⟨hm, hms⟩ := List.forall_mem_cons.mp hms
      refine ih (found_worse hfound hm) hms ?_
      obtain hburned | ⟨m', hm', hnot⟩ := h
      · exact .inl (burned_worse hfound hm (.inl hburned))
      · obtain rfl | hm' := List.mem_cons.mp hm'
        · exact .inl (burned_worse hfound hm (.inr hnot))
        · exact .inr ⟨m', hm', hnot⟩

end Worst

/-! ### When a budget is meaningful -/

section Evaluate

variable {s : SLO}

theorem evaluate_eq (s : SLO) (actual : Actual) :
    s.evaluate actual = ⟨s.lines actual, (s.lines actual).all (·.compliant)⟩ := by
  have hloop : ∀ (ms : List MetricBudget) (b : Budget),
      ms.foldl (fun b mb => { metrics := b.metrics ++ [mb], compliant := b.compliant && mb.compliant })
        b = ⟨b.metrics ++ ms, b.compliant && ms.all (·.compliant)⟩ := by
    intro ms
    induction ms with
    | nil => intro b; simp
    | cons m ms ih => intro b; simp [ih, Bool.and_assoc]
  exact hloop _ _

theorem meaningful_of_telling {ms : List MetricBudget} (hms : ∀ m ∈ ms, Telling m) :
    (Budget.mk ms (ms.all (·.compliant))).Meaningful := by
  refine ⟨fun m hm hmeasured => ?_, fun hnot => ?_⟩
  · cases hms m hm with
    | unmeasured hnone => exact absurd hnone hmeasured
    | measured _ hremaining hsign => exact ⟨_, hremaining, hsign⟩
  · obtain ⟨m, hm, hnot⟩ := List.all_eq_false.mp hnot
    exact burned_foldl_worse nofun hms (.inr ⟨m, hm, Bool.eq_false_iff.mpr hnot⟩)

theorem mem_lines {actual : Actual} {m : MetricBudget} :
    m ∈ s.lines actual ↔
      (∃ target, s.targetP95MS = some target ∧ line .p95MS target actual.p95MS true = m) ∨
        (∃ target, s.targetErrorRate = some target ∧
          line .errorRate target actual.errorRate true = m) ∨
        ∃ target, s.targetSuccessRatio = some target ∧
          line .successRatio target actual.successRatio false = m := by
  simp [SLO.lines]

theorem targets_of_validate (h : s.validate = .ok ()) :
    (∀ target, s.targetP95MS = some target → 0 < target) ∧
      (∀ target, s.targetErrorRate = some target → 0 ≤ target) ∧
      ∀ target, s.targetSuccessRatio = some target → 0 ≤ target := by
  simp only [SLO.validate, Checked.guard_eq_ok] at h
  obtain ⟨-, -, -, -, hp95, herror, hsuccess, -⟩ := h
  refine ⟨?_, ?_, ?_⟩
  · rintro target htarget
    simpa [htarget] using hp95
  · rintro target htarget
    rw [htarget] at herror
    simp only [Option.any_some, bad01, decide_eq_true_eq, not_or, not_lt] at herror
    exact herror.1
  · rintro target htarget
    rw [htarget] at hsuccess
    simp only [Option.any_some, bad01, decide_eq_true_eq, not_or, not_lt] at hsuccess
    exact hsuccess.1

/-- A line tells, unless its target is zero and something was measured. -/
theorem telling_of_ne {target : ℚ} (htarget : 0 ≤ target) {got : Option ℚ}
    (hzero : target = 0 → got = none) (metric : Metric) (lowerIsBetter : Bool) :
    Telling (line metric target got lowerIsBetter) := by
  rcases htarget.eq_or_lt with heq | hpos
  · rw [hzero heq.symm]
    exact line_unmeasured metric target lowerIsBetter
  · exact telling_line hpos metric got lowerIsBetter

/-- The budget of an accepted objective is meaningful, whatever the window measured, unless
something was measured for a target of zero. -/
theorem meaningful_iff (hvalid : s.validate = .ok ()) (actual : Actual) :
    (s.evaluate actual).Meaningful ↔
      (s.targetErrorRate = some 0 → actual.errorRate = none) ∧
        (s.targetSuccessRatio = some 0 → actual.successRatio = none) := by
  obtain ⟨hp95, herror, hsuccess⟩ := targets_of_validate hvalid
  rw [evaluate_eq]
  constructor
  · rintro ⟨hnumbers, -⟩
    exact ⟨fun hzero => line_zero (hnumbers _ (mem_lines.mpr (.inr (.inl ⟨0, hzero, rfl⟩)))),
      fun hzero => line_zero (hnumbers _ (mem_lines.mpr (.inr (.inr ⟨0, hzero, rfl⟩))))⟩
  · rintro ⟨hnoError, hnoSuccess⟩
    refine meaningful_of_telling fun m hm => ?_
    obtain ⟨target, htarget, rfl⟩ | ⟨target, htarget, rfl⟩ | ⟨target, htarget, rfl⟩ :=
      mem_lines.mp hm
    · exact telling_line (hp95 target htarget) ..
    · exact telling_of_ne (herror target htarget) (fun h => hnoError (h ▸ htarget)) ..
    · exact telling_of_ne (hsuccess target htarget) (fun h => hnoSuccess (h ▸ htarget)) ..

end Evaluate

def errorRateAtMost (target : ℚ) : SLO :=
  { projectId := 1, name := "api", targetP95MS := none, targetErrorRate := some target
    targetSuccessRatio := none }

/-- A tenth of the requests failed, and a twentieth may: the budget is burned. -/
theorem meaningful_tenth :
    ((errorRateAtMost (1 / 20)).evaluate ⟨none, some (1 / 10), none⟩).Meaningful :=
  (meaningful_iff (by decide +kernel) ⟨none, some (1 / 10), none⟩).mpr
    ⟨by decide +kernel, by decide +kernel⟩

/-- No request may fail, and none did: what is left is not a number. -/
theorem not_meaningful_noErrors :
    (errorRateAtMost 0).validate = .ok () ∧
      ¬((errorRateAtMost 0).evaluate ⟨none, some 0, none⟩).Meaningful := by
  refine ⟨by decide +kernel, fun h => ?_⟩
  exact absurd (line_zero (h.1 (line .errorRate 0 (some 0) true) (by decide +kernel)))
    (Option.some_ne_none 0)

end Honryu.Slo
