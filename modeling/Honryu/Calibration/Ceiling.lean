import Honryu.Calibration.Search
import Mathlib.Algebra.Order.Floor.Semiring
import Mathlib.Data.Int.Log
import Mathlib.Data.Rat.Floor
import Mathlib.Tactic.Ring

/-!
A search against an engine with a fixed capacity finds it.

The steps that are left are counted by powers of two. While the rate is doubled, the
ceiling is at most the rate times a power of two, and each doubling takes one away; the
width of a bracket is at most a power of two, and each bisection takes one away. The
logarithms come in only where the powers are chosen.
-/

namespace Honryu.Calibration

/-- How a step turns out on an engine that sustains rates up to `c`. -/
def classifyAt (c qps : ℚ) : Classification := if qps ≤ c then .clean else .engineSaturated

namespace Search

/-- Every step is clean exactly if its rate is within the capacity, and saturates the
engine otherwise. -/
def Sustains (spec : Spec) (outcomes : ℕ → Outcome) (c : ℚ) : Prop :=
  ∀ n, (after spec outcomes n).action.done = false →
    (outcomes n).classification = classifyAt c (after spec outcomes n).action.nextRequestedQPS

structure Found (c : ℚ) (s : Search) (r : Result) : Prop where
  verdict : r.saturatedBy = .engine
  lo : s.job.bracketLoRequested ≤ c
  hi : c < s.job.bracketHiRequested
  width : s.job.bracketHiRequested - s.job.bracketLoRequested ≤ bisectionToleranceQPS

/-- The search ran into the ceiling of its spec: its last step was clean, and the next
one would be above. -/
structure Exhausted (spec : Spec) (s : Search) (r : Result) : Prop where
  verdict : r.saturatedBy = .neither
  last : ∃ st, s.steps.getLast? = some st ∧ st.classification = .clean ∧
    spec.maxQPS / 2 < st.requestedQPS

/-- How far a search is, against an engine of capacity `c`. At most `doublings` steps
double the rate, and at most `halvings` ones bisect after the first that saturates. -/
inductive Progress (c : ℚ) (spec : Spec) (doublings halvings : ℕ) (s : Search) : Prop
  | bracketing (left : ℕ) (running : s.action.done = false) (phase : s.job.phase = .bracketing)
      (lo : s.job.bracketLoRequested ≤ c)
      (reach : spec.maxQPS ≤ s.action.nextRequestedQPS * 2 ^ left)
      (count : s.steps.length + left ≤ doublings)
  | bisecting (left : ℕ) (running : s.action.done = false) (phase : s.job.phase = .bisecting)
      (lo : s.job.bracketLoRequested ≤ c) (hi : c < s.job.bracketHiRequested)
      (middle : s.action.nextRequestedQPS =
        s.job.bracketLoRequested + (s.job.bracketHiRequested - s.job.bracketLoRequested) / 2)
      (wide : 1 < s.job.bracketHiRequested - s.job.bracketLoRequested)
      (width : s.job.bracketHiRequested - s.job.bracketLoRequested ≤ 2 ^ left)
      (count : s.steps.length + left ≤ doublings + 1 + halvings)
  | done (result : Result) (ended : s.action.done = true) (stored : s.job.result = some result)
      (verdict : (s.steps.length : ℤ) < spec.maxSteps → Found c s result ∨ Exhausted spec s result)
      (count : s.steps.length ≤ doublings + 1 + halvings)

variable {spec : Spec} {c : ℚ} {doublings halvings : ℕ} {job : Job} {steps : List Step} {s : Search}

/-- A rate that more than one halving is left of is above the tolerance. -/
theorem pos_of_one_lt_of_le_two_pow {x : ℚ} {k : ℕ} (hx : 1 < x) (hle : x ≤ 2 ^ k) :
    ∃ k', k = k' + 1 ∧ x / 2 ≤ 2 ^ k' := by
  cases k with
  | zero =>
      rw [pow_zero] at hle
      exact absurd hle hx.not_ge
  | succ k' =>
      refine ⟨k', rfl, ?_⟩
      rw [pow_succ] at hle
      linarith

/-- Bisecting goes on with a bracket around the capacity, or has found it. -/
theorem progress_bisectOrFinish (left : ℕ) (hspec : job.spec = spec)
    (hcount : job.stepCount = steps.length) (hphase : job.phase = .bisecting)
    (hlo : job.bracketLoRequested ≤ c) (hhi : c < job.bracketHiRequested)
    (hwidth : job.bracketHiRequested - job.bracketLoRequested ≤ 2 ^ left)
    (hleft : steps.length + left ≤ doublings + 1 + halvings) :
    Progress c spec doublings halvings (decided job.bisectOrFinish steps) := by
  obtain ⟨hwhy, hfinish⟩ | ⟨hwide, -, hgo⟩ := job.bisectOrFinish_cases
  · rw [hfinish]
    refine .done _ rfl rfl (fun hbudget => .inl ⟨rfl, hlo, hhi, ?_⟩)
      ((Nat.le_add_right _ _).trans hleft)
    obtain htolerance | hspent := hwhy
    · exact htolerance
    · rw [hspec, hcount] at hspent
      exact absurd hspent hbudget.not_ge
  · rw [hgo]
    exact .bisecting left rfl hphase hlo hhi rfl hwide hwidth hleft

theorem progress_doubleOrFinish {left : ℕ} {st : Step} (hspec : job.spec = spec)
    (hcount : job.stepCount = (steps ++ [st]).length) (hphase : job.phase = .bracketing)
    (hclean : st.classification = .clean) (hrate : st.requestedQPS = job.bracketLoRequested)
    (hpos : 0 < job.bracketLoRequested) (hlo : job.bracketLoRequested ≤ c)
    (hreach : spec.maxQPS ≤ job.bracketLoRequested * 2 ^ left)
    (hleft : steps.length + left ≤ doublings) :
    Progress c spec doublings halvings (decided job.doubleOrFinish (steps ++ [st])) := by
  have hlength : (steps ++ [st]).length = steps.length + 1 := List.length_append
  obtain ⟨hwhy, hfinish⟩ | ⟨hmax, -, hgo⟩ := job.doubleOrFinish_cases
  · rw [hfinish]
    refine .done _ rfl rfl (fun hbudget => .inr ⟨rfl, st, List.getLast?_concat, hclean, ?_⟩) ?_
    · obtain hceiling | hspent := hwhy
      · rw [hspec] at hceiling
        rw [hrate]
        linarith
      · rw [hspec, hcount] at hspent
        exact absurd hspent hbudget.not_ge
    · change (steps ++ [st]).length ≤ _
      omega
  · rw [hgo]
    cases left with
    | zero =>
        -- no doubling is left: twice the rate is above the ceiling
        rw [pow_zero, mul_one] at hreach
        rw [hspec] at hmax
        linarith
    | succ left =>
        refine .bracketing left rfl hphase hlo ?_ ?_
        · calc spec.maxQPS ≤ job.bracketLoRequested * 2 ^ (left + 1) := hreach
            _ = job.bracketLoRequested * 2 * 2 ^ left := by ring
        · change (steps ++ [st]).length + left ≤ doublings
          omega

theorem Progress.step {o : Outcome} (hsound : Sound spec s)
    (hmax : spec.maxQPS ≤ 2 ^ halvings) (h : Progress c spec doublings halvings s)
    (ho : s.action.done = false → o.classification = classifyAt c s.action.nextRequestedQPS) :
    Progress c spec doublings halvings (s.step o) := by
  have hlength : (s.steps ++ [s.prescribed o]).length = s.steps.length + 1 := List.length_append
  have hcount : s.job.stepCount + 1 = (s.steps ++ [s.prescribed o]).length := by
    rw [hlength, hsound.evidence.count, Nat.cast_succ]
  cases h with
  | done result ended stored verdict count =>
      rw [step_of_done ended]
      exact .done result ended stored verdict count
  | bracketing left running phase lo reach count =>
      rw [step_of_running running, next]
      have hr := hsound.running running
      have hnonneg := hsound.evidence.nonneg
      by_cases hclean : s.action.nextRequestedQPS ≤ c
      · have hclass : (s.prescribed o).classification = .clean :=
          (ho running).trans (if_pos hclean)
        simp only [hclass, phase, if_true]
        exact progress_doubleOrFinish hsound.spec hcount phase hclass rfl
          (hnonneg.trans_lt hr.above) hclean reach count
      · have hclass : (s.prescribed o).classification = .engineSaturated :=
          (ho running).trans (if_neg hclean)
        simp only [hclass]
        -- the first bracket is no wider than the ceiling
        have hwidth : s.action.nextRequestedQPS - s.job.bracketLoRequested ≤ 2 ^ halvings := by
          have hceiling := hr.ceiling
          rw [hsound.spec] at hceiling
          linarith
        refine progress_bisectOrFinish halvings hsound.spec hcount (if_pos phase) lo
          (not_le.mp hclean) hwidth ?_
        omega
  | bisecting left running phase lo hi middle wide width count =>
      rw [step_of_running running, next]
      obtain ⟨left', rfl, hhalf⟩ := pos_of_one_lt_of_le_two_pow wide width
      by_cases hclean : s.action.nextRequestedQPS ≤ c
      · have hclass : (s.prescribed o).classification = .clean :=
          (ho running).trans (if_pos hclean)
        simp only [hclass, phase, reduceCtorEq, if_false]
        refine progress_bisectOrFinish left' hsound.spec hcount phase hclean hi ?_ ?_
        · change s.job.bracketHiRequested - s.action.nextRequestedQPS ≤ 2 ^ left'
          rw [middle]
          linarith
        · omega
      · have hclass : (s.prescribed o).classification = .engineSaturated :=
          (ho running).trans (if_neg hclean)
        simp only [hclass]
        have hphase : (s.job.closeAbove (s.prescribed o)).phase = .bisecting := by
          simp [Job.closeAbove, phase]
        refine progress_bisectOrFinish left' hsound.spec hcount hphase lo
          (not_le.mp hclean) ?_ ?_
        · change s.action.nextRequestedQPS - s.job.bracketLoRequested ≤ 2 ^ left'
          rw [middle]
          linarith
        · omega

theorem progress_after {outcomes : ℕ → Outcome} (hvalid : spec.Valid) (hc : 0 < c)
    (hsustains : Sustains spec outcomes c) (hreach : spec.maxQPS ≤ spec.seedQPS * 2 ^ doublings)
    (hmax : spec.maxQPS ≤ 2 ^ halvings) (n : ℕ) :
    Progress c spec doublings halvings (after spec outcomes n) := by
  induction n with
  | zero => exact .bracketing doublings rfl rfl hc.le hreach (Nat.zero_add _).le
  | succ n ih => exact ih.step (sound_after hvalid outcomes n) hmax (hsustains n)

/-- A number is at most two to the power of its logarithm, rounded up. -/
theorem le_two_pow_toNat_clog (x : ℚ) : x ≤ 2 ^ (Int.clog 2 x).toNat := by
  calc x ≤ (2 : ℕ) ^ Int.clog 2 x := Int.self_le_zpow_clog one_lt_two x
    _ ≤ (2 : ℕ) ^ ((Int.clog 2 x).toNat : ℤ) :=
        zpow_le_zpow_right₀ (by norm_num) (Int.self_le_toNat _)
    _ = 2 ^ (Int.clog 2 x).toNat := by rw [zpow_natCast, Nat.cast_ofNat]

/-- Against an engine of a fixed capacity, a search ends with the capacity between its
bounds, or at the ceiling of its spec, unless its steps are spent before; and it takes a
logarithmic number of steps. -/
theorem finds_ceiling (spec : Spec) (hvalid : spec.validate = .ok ()) (c : ℚ) (hc : 0 < c)
    (outcomes : ℕ → Outcome) (hsustains : Sustains spec outcomes c) :
    ∃ (last : ℕ) (r : Result), EndsWith spec outcomes last r ∧
      ((last : ℤ) < spec.maxSteps →
        Found c (after spec outcomes last) r ∨ Exhausted spec (after spec outcomes last) r) ∧
      (last : ℤ) ≤
        Int.clog 2 (spec.maxQPS / spec.seedQPS) + max 0 (Int.clog 2 spec.maxQPS) + 1 := by
  have hv := spec.validate_eq_ok.mp hvalid
  obtain ⟨last, r, -, hends⟩ := exists_endsWith hv outcomes
  obtain ⟨hdone, hresult, hlength⟩ := hends.since last le_rfl
  have hreach : spec.maxQPS ≤
      spec.seedQPS * 2 ^ (Int.clog 2 (spec.maxQPS / spec.seedQPS)).toNat :=
    (div_le_iff₀' hv.seedQPS).mp (le_two_pow_toNat_clog _)
  -- the ceiling is above the seed, so there is at least one doubling
  have hpos : 0 ≤ Int.clog 2 (spec.maxQPS / spec.seedQPS) := by
    have hone : 1 ≤ spec.maxQPS / spec.seedQPS := (one_le_div₀ hv.seedQPS).mpr hv.maxQPS.le
    rw [Int.clog_of_one_le_right _ hone]
    exact Int.natCast_nonneg _
  cases progress_after hv hc hsustains hreach (le_two_pow_toNat_clog spec.maxQPS) last with
  | bracketing left running =>
      rw [hdone] at running
      cases running
  | bisecting left running =>
      rw [hdone] at running
      cases running
  | done result ended stored verdict count =>
      rw [hresult, Option.some_inj] at stored
      subst stored
      rw [hlength] at verdict count
      refine ⟨last, r, hends, verdict, ?_⟩
      have hmax : ((Int.clog 2 spec.maxQPS).toNat : ℤ) = max 0 (Int.clog 2 spec.maxQPS) := by
        rw [Int.toNat_eq_max, max_comm]
      omega

def allClean (_ : ℕ) : Outcome := { classification := .clean, achievedQPS := 1 }

theorem endsWith_of_done {outcomes : ℕ → Outcome} {last : ℕ} {r : Result}
    (hbefore : ∀ n < last, (after spec outcomes n).action.done = false ∧
      (after spec outcomes n).job.result = none)
    (hdone : (after spec outcomes last).action.done = true ∧
      (after spec outcomes last).job.result = some r ∧
      (after spec outcomes last).steps.length = last) : EndsWith spec outcomes last r where
  before n hn := ⟨(hbefore n hn).1, (hbefore n hn).2, length_steps_after (hbefore n hn).1⟩
  since n hn := by rwa [after_of_done hdone.1 hn]

theorem sustains_of_done {outcomes : ℕ → Outcome} (last : ℕ)
    (hbefore : ∀ n < last, (outcomes n).classification =
      classifyAt c (after spec outcomes n).action.nextRequestedQPS)
    (hdone : (after spec outcomes last).action.done = true) : Sustains spec outcomes c := by
  intro n hrunning
  by_cases hn : n < last
  · exact hbefore n hn
  · rw [after_of_done hdone (not_lt.mp hn), hdone] at hrunning
    cases hrunning

theorem finds_ceiling_defaultSpec :
    defaultSpec.validate = .ok () ∧ (0 : ℚ) < 10000 ∧ Sustains defaultSpec allClean 10000 ∧
      ∃ (last : ℕ) (r : Result), EndsWith defaultSpec allClean last r ∧
        (last : ℤ) ≤ Int.clog 2 (10000 / 10 : ℚ) + max 0 (Int.clog 2 (10000 : ℚ)) + 1 := by
  have hvalid : defaultSpec.validate = .ok () := by decide +kernel
  have hcapacity : (0 : ℚ) < 10000 := by decide +kernel
  have hsustains : Sustains defaultSpec allClean 10000 :=
    sustains_of_done 10 (by decide +kernel) (by decide +kernel)
  obtain ⟨last, r, hends, -, hcount⟩ :=
    finds_ceiling defaultSpec hvalid 10000 hcapacity allClean hsustains
  exact ⟨hvalid, hcapacity, hsustains, last, r, hends, hcount⟩

def slowSpec : Spec :=
  { criterion := "failures>5%", cpu := "1", memory := "512Mi", seedQPS := 1 / 64, maxQPS := 1 / 16
    maxSteps := 20, holdSeconds := 30 }

/-- The logarithm of a small ceiling is negative, but no search takes fewer steps for it:
this one doubles twice and ends after three steps, where the logarithms and three make one. -/
theorem not_withinLogarithms_slowSpec :
    slowSpec.validate = .ok () ∧ Sustains slowSpec allClean 1 ∧
      EndsWith slowSpec allClean 3 { saturatedBy := .neither, perPodQPS := 1 } ∧
      ¬(3 : ℤ) ≤ Int.clog 2 (slowSpec.maxQPS / slowSpec.seedQPS) +
        Int.clog 2 slowSpec.maxQPS + 3 := by
  refine ⟨by decide +kernel, sustains_of_done 3 (by decide +kernel) (by decide +kernel),
    endsWith_of_done (by decide +kernel) (by decide +kernel), ?_⟩
  have hdoublings : slowSpec.maxQPS / slowSpec.seedQPS = ((2 : ℕ) : ℚ) ^ (2 : ℤ) := by
    decide +kernel
  have hmax : slowSpec.maxQPS = ((2 : ℕ) : ℚ) ^ (-4 : ℤ) := by decide +kernel
  rw [hdoublings, hmax, Int.clog_zpow one_lt_two, Int.clog_zpow one_lt_two]
  decide

end Search

end Honryu.Calibration
