import Honryu.Lib.Checked
import Mathlib.Algebra.Order.Field.Rat
import Mathlib.Order.Nat
import Mathlib.Tactic.Linarith

/-!
The search for the rate that one pod of a given size sustains.

A search first doubles the rate of its steps until one of them saturates, and then
halves the bracket between the last clean rate and the saturated one. `Next` decides:
it is given the classified outcome of the step that was run, and says at which rate the
next one is to be run.
-/

namespace Honryu.Calibration

/-! ### Specs -/

def defaultSeedQPS : ℚ := 10

def defaultMaxQPS : ℚ := 10000

def defaultMaxSteps : ℤ := 20

def defaultHoldSeconds : ℤ := 30

def bisectionToleranceQPS : ℚ := 1

/-- `Spec` configures one search. -/
structure Spec where
  criterion : String
  cpu : String
  memory : String
  seedQPS : ℚ
  maxQPS : ℚ
  maxSteps : ℤ
  holdSeconds : ℤ
  deriving DecidableEq

inductive SpecError
  | criterionRequired
  | podSizeRequired
  | seedQPSInvalid
  | maxQPSInvalid
  | maxStepsInvalid
  | holdInvalid
  deriving DecidableEq

namespace Spec

/-- `WithDefaults` fills in the search parameters that were left out. -/
def withDefaults (s : Spec) : Spec :=
  { s with
    seedQPS := if s.seedQPS ≤ 0 then defaultSeedQPS else s.seedQPS
    maxQPS := if s.maxQPS ≤ 0 then defaultMaxQPS else s.maxQPS
    maxSteps := if s.maxSteps ≤ 0 then defaultMaxSteps else s.maxSteps
    holdSeconds := if s.holdSeconds ≤ 0 then defaultHoldSeconds else s.holdSeconds }

def validate (s : Spec) : Except SpecError Unit :=
  if s.criterion = "" then .error .criterionRequired
  else if s.cpu = "" ∨ s.memory = "" then .error .podSizeRequired
  else if s.seedQPS ≤ 0 then .error .seedQPSInvalid
  else if s.maxQPS ≤ s.seedQPS then .error .maxQPSInvalid
  else if s.maxSteps ≤ 0 then .error .maxStepsInvalid
  else if s.holdSeconds ≤ 0 then .error .holdInvalid
  else .ok ()

/-- What `Validate` asks of a spec. -/
structure Valid (s : Spec) : Prop where
  criterion : s.criterion ≠ ""
  cpu : s.cpu ≠ ""
  memory : s.memory ≠ ""
  seedQPS : 0 < s.seedQPS
  maxQPS : s.seedQPS < s.maxQPS
  maxSteps : 0 < s.maxSteps
  holdSeconds : 0 < s.holdSeconds

theorem validate_eq_ok (s : Spec) : s.validate = .ok () ↔ s.Valid := by
  simp only [validate, Checked.guard_eq_ok, not_le, not_or, and_true]
  constructor
  · rintro ⟨hcriterion, ⟨hcpu, hmemory⟩, hseed, hmax, hsteps, hhold⟩
    exact ⟨hcriterion, hcpu, hmemory, hseed, hmax, hsteps, hhold⟩
  · rintro ⟨hcriterion, hcpu, hmemory, hseed, hmax, hsteps, hhold⟩
    exact ⟨hcriterion, ⟨hcpu, hmemory⟩, hseed, hmax, hsteps, hhold⟩

/-- The defaults pass the checks: what `WithDefaults` returns is refused only for a
field that has no default, or for a ceiling that is not above the seed. -/
theorem valid_withDefaults (s : Spec) :
    s.withDefaults.Valid ↔
      (s.criterion ≠ "" ∧ s.cpu ≠ "" ∧ s.memory ≠ "") ∧
        s.withDefaults.seedQPS < s.withDefaults.maxQPS := by
  constructor
  · intro h
    exact ⟨⟨h.criterion, h.cpu, h.memory⟩, h.maxQPS⟩
  · rintro ⟨⟨hcriterion, hcpu, hmemory⟩, hmax⟩
    refine ⟨hcriterion, hcpu, hmemory, ?_, hmax, ?_, ?_⟩ <;> simp only [withDefaults] <;>
      split <;> first | exact not_le.mp ‹_› | decide

end Spec

/-! ### The decisions -/

inductive Classification
  | engineSaturated
  | targetSaturated
  | clean
  deriving DecidableEq

inductive SaturatedBy
  | engine
  | target
  | neither
  deriving DecidableEq

inductive Phase
  | pending
  | bracketing
  | bisecting
  | done
  | failed
  deriving DecidableEq

/-- `Step` is the classified outcome of one run. -/
structure Step where
  requestedQPS : ℚ
  achievedQPS : ℚ
  classification : Classification
  deriving DecidableEq

structure Result where
  saturatedBy : SaturatedBy
  perPodQPS : ℚ
  deriving DecidableEq

/-- `Job` is the decision state of a search. The bracket is open below at 0 until a
step was clean, and above at 0 until one was saturated. -/
structure Job where
  spec : Spec
  phase : Phase
  stepCount : ℤ
  bracketLoRequested : ℚ
  bracketLoAchieved : ℚ
  bracketHiRequested : ℚ
  result : Option Result
  deriving DecidableEq

/-- `Action` is what the caller must do next. -/
structure Action where
  done : Bool
  nextRequestedQPS : ℚ
  deriving DecidableEq

def Action.runAt (qps : ℚ) : Action := { done := false, nextRequestedQPS := qps }

/-- `Start` begins a fresh search at the seed rate. -/
def start (spec : Spec) : Job × Action :=
  ({ spec, phase := .bracketing, stepCount := 0, bracketLoRequested := 0, bracketLoAchieved := 0
     bracketHiRequested := 0, result := none }, .runAt spec.seedQPS)

namespace Job

def finish (job : Job) (saturatedBy : SaturatedBy) (perPodQPS : ℚ) : Job × Action :=
  ({ job with phase := .done, result := some { saturatedBy, perPodQPS } },
    { done := true, nextRequestedQPS := 0 })

/-- `doubleOrFinish` doubles the rate, unless that leaves the bounds of the spec. -/
def doubleOrFinish (job : Job) : Job × Action :=
  let next := job.bracketLoRequested * 2
  if job.spec.maxQPS < next ∨ job.spec.maxSteps ≤ job.stepCount then
    job.finish .neither job.bracketLoAchieved
  else (job, .runAt next)

/-- `bisectOrFinish` goes on at the middle of the bracket, unless that is narrow enough
or the steps are spent. -/
def bisectOrFinish (job : Job) : Job × Action :=
  let width := job.bracketHiRequested - job.bracketLoRequested
  if width ≤ bisectionToleranceQPS ∨ job.spec.maxSteps ≤ job.stepCount then
    job.finish .engine job.bracketLoAchieved
  else (job, .runAt (job.bracketLoRequested + width / 2))

theorem doubleOrFinish_cases (job : Job) :
    ((job.spec.maxQPS < job.bracketLoRequested * 2 ∨ job.spec.maxSteps ≤ job.stepCount) ∧
        job.doubleOrFinish = job.finish .neither job.bracketLoAchieved) ∨
      (job.bracketLoRequested * 2 ≤ job.spec.maxQPS ∧ job.stepCount < job.spec.maxSteps ∧
        job.doubleOrFinish = (job, .runAt (job.bracketLoRequested * 2))) := by
  by_cases h : job.spec.maxQPS < job.bracketLoRequested * 2 ∨ job.spec.maxSteps ≤ job.stepCount
  · exact .inl ⟨h, if_pos h⟩
  · have hwithin := h
    rw [not_or, not_lt, not_le] at hwithin
    exact .inr ⟨hwithin.1, hwithin.2, if_neg h⟩

theorem bisectOrFinish_cases (job : Job) :
    ((job.bracketHiRequested - job.bracketLoRequested ≤ bisectionToleranceQPS ∨
          job.spec.maxSteps ≤ job.stepCount) ∧
        job.bisectOrFinish = job.finish .engine job.bracketLoAchieved) ∨
      (bisectionToleranceQPS < job.bracketHiRequested - job.bracketLoRequested ∧
        job.stepCount < job.spec.maxSteps ∧
        job.bisectOrFinish = (job, .runAt (job.bracketLoRequested +
          (job.bracketHiRequested - job.bracketLoRequested) / 2))) := by
  by_cases h : job.bracketHiRequested - job.bracketLoRequested ≤ bisectionToleranceQPS ∨
      job.spec.maxSteps ≤ job.stepCount
  · exact .inl ⟨h, if_pos h⟩
  · have hwithin := h
    rw [not_or, not_le, not_le] at hwithin
    exact .inr ⟨hwithin.1, hwithin.2, if_neg h⟩

def closeAbove (job : Job) (step : Step) : Job :=
  { job with
    stepCount := job.stepCount + 1
    phase := if job.phase = .bracketing then .bisecting else job.phase
    bracketHiRequested := step.requestedQPS }

def raiseFloor (job : Job) (step : Step) : Job :=
  { job with
    stepCount := job.stepCount + 1
    bracketLoRequested := step.requestedQPS
    bracketLoAchieved := step.achievedQPS }

end Job

/-- `Next` advances a job by the outcome of the step that was run at the rate the last
action prescribed. -/
def next (job : Job) (step : Step) : Job × Action :=
  match step.classification with
  | .targetSaturated =>
      { job with stepCount := job.stepCount + 1 }.finish .target step.achievedQPS
  | .engineSaturated => (job.closeAbove step).bisectOrFinish
  | .clean =>
      if job.phase = .bracketing then (job.raiseFloor step).doubleOrFinish
      else (job.raiseFloor step).bisectOrFinish

/-- What `Next` does: it takes the step into account, and then the search ends with a verdict or
another step is to be run. -/
theorem next_inversion (job : Job) (step : Step) :
    ∃ job', (job' = { job with stepCount := job.stepCount + 1 } ∨ job' = job.closeAbove step ∨
        job' = job.raiseFloor step) ∧
      ((∃ verdict qps, next job step = job'.finish verdict qps) ∨
        ∃ qps, next job step = (job', .runAt qps)) := by
  have hbisect : ∀ job : Job, (∃ verdict qps, job.bisectOrFinish = job.finish verdict qps) ∨
      ∃ qps, job.bisectOrFinish = (job, .runAt qps) := fun job =>
    job.bisectOrFinish_cases.imp (fun h => ⟨_, _, h.2⟩) fun h => ⟨_, h.2.2⟩
  have hdouble : ∀ job : Job, (∃ verdict qps, job.doubleOrFinish = job.finish verdict qps) ∨
      ∃ qps, job.doubleOrFinish = (job, .runAt qps) := fun job =>
    job.doubleOrFinish_cases.imp (fun h => ⟨_, _, h.2⟩) fun h => ⟨_, h.2.2⟩
  unfold next
  split
  · exact ⟨_, .inl rfl, .inl ⟨_, _, rfl⟩⟩
  · exact ⟨_, .inr (.inl rfl), hbisect _⟩
  · split
    · exact ⟨_, .inr (.inr rfl), hdouble _⟩
    · exact ⟨_, .inr (.inr rfl), hbisect _⟩

theorem next_spec (job : Job) (step : Step) : (next job step).1.spec = job.spec := by
  obtain ⟨job', rfl | rfl | rfl, ⟨verdict, qps, heq⟩ | ⟨qps, heq⟩⟩ := next_inversion job step <;>
    rw [heq] <;> rfl

def Job.goesOn (job : Job) : Prop :=
  (job.phase = .bracketing ∨ job.phase = .bisecting) ∧ job.result = none

theorem Job.goesOn.closeAbove {job : Job} (h : job.goesOn) (step : Step) :
    (job.closeAbove step).goesOn := by
  refine ⟨.inr ?_, h.2⟩
  rcases h.1 with hphase | hphase <;> simp [Job.closeAbove, hphase]

/-- A search that goes on ends with a result, and then there is no step to be run, or it goes on. -/
theorem next_ends_or_goesOn {job : Job} (h : job.goesOn) (step : Step) :
    ((next job step).2.done = true ∧ (next job step).1.phase = .done ∧
        ∃ result, (next job step).1.result = some result) ∨
      ((next job step).2.done = false ∧ (next job step).1.goesOn) := by
  obtain ⟨job', hjob', ⟨verdict, qps, heq⟩ | ⟨qps, heq⟩⟩ := next_inversion job step
  · rw [heq]
    exact .inl ⟨rfl, rfl, _, rfl⟩
  · rw [heq]
    refine .inr ⟨rfl, ?_⟩
    rcases hjob' with rfl | rfl | rfl
    · exact h
    · exact h.closeAbove step
    · exact h

theorem next_cases {job : Job} (h : job.goesOn) (step : Step) :
    ((next job step).1.phase = .done ∧ ∃ result, (next job step).1.result = some result) ∨
      (next job step).1.goesOn :=
  (next_ends_or_goesOn h step).imp And.right And.right

/-! ### Searches -/

structure Outcome where
  classification : Classification
  achievedQPS : ℚ
  deriving DecidableEq

structure Search where
  job : Job
  action : Action
  steps : List Step
  deriving DecidableEq

namespace Search

def begin (spec : Spec) : Search :=
  { job := (start spec).1, action := (start spec).2, steps := [] }

def prescribed (s : Search) (o : Outcome) : Step :=
  { requestedQPS := s.action.nextRequestedQPS, achievedQPS := o.achievedQPS
    classification := o.classification }

/-- The prescribed step is run, and its outcome is fed to `Next`. A search that is done
takes no step. -/
def step (s : Search) (o : Outcome) : Search :=
  if s.action.done then s
  else
    { job := (next s.job (s.prescribed o)).1
      action := (next s.job (s.prescribed o)).2
      steps := s.steps ++ [s.prescribed o] }

/-- A search after some number of steps, where the `k`-th one turned out as `outcomes k`. -/
def after (spec : Spec) (outcomes : ℕ → Outcome) : ℕ → Search
  | 0 => begin spec
  | n + 1 => (after spec outcomes n).step (outcomes n)

end Search

/-! ### Safety and termination -/

def Ran (steps : List Step) (c : Classification) (qps : ℚ) : Prop :=
  ∃ st ∈ steps, st.classification = c ∧ st.requestedQPS = qps

theorem Ran.append {steps : List Step} {c : Classification} {qps : ℚ} (h : Ran steps c qps)
    (st : Step) : Ran (steps ++ [st]) c qps := by
  obtain ⟨st', hmem, hst⟩ := h
  exact ⟨st', List.mem_append_left _ hmem, hst⟩

theorem ran_append_self {steps : List Step} {st : Step} :
    Ran (steps ++ [st]) st.classification st.requestedQPS :=
  ⟨st, List.mem_append_right _ (List.mem_singleton_self st), rfl, rfl⟩

/-- The bounds of a bracket are rates that were run and classified so, where they are set. -/
structure Evidence (job : Job) (steps : List Step) : Prop where
  count : job.stepCount = steps.length
  budget : job.stepCount ≤ job.spec.maxSteps
  nonneg : 0 ≤ job.bracketLoRequested
  lo : job.bracketLoRequested = 0 ∨ Ran steps .clean job.bracketLoRequested
  hi : job.bracketHiRequested = 0 ∨ Ran steps .engineSaturated job.bracketHiRequested

theorem Evidence.closeAbove {job : Job} {steps : List Step} {st : Step} (he : Evidence job steps)
    (hcount : job.stepCount < job.spec.maxSteps) (hst : st.classification = .engineSaturated) :
    Evidence (job.closeAbove st) (steps ++ [st]) where
  count := by simp [Job.closeAbove, he.count]
  budget := hcount
  nonneg := he.nonneg
  lo := he.lo.imp_right fun h => h.append st
  hi := .inr (hst ▸ ran_append_self)

theorem Evidence.raiseFloor {job : Job} {steps : List Step} {st : Step} (he : Evidence job steps)
    (hcount : job.stepCount < job.spec.maxSteps) (hst : st.classification = .clean)
    (hnonneg : 0 ≤ st.requestedQPS) : Evidence (job.raiseFloor st) (steps ++ [st]) where
  count := by simp [Job.raiseFloor, he.count]
  budget := hcount
  nonneg := hnonneg
  lo := .inr (hst ▸ ran_append_self)
  hi := he.hi.imp_right fun h => h.append st

namespace Search

structure Running (s : Search) : Prop where
  result : s.job.result = none
  count : s.job.stepCount < s.job.spec.maxSteps
  above : s.job.bracketLoRequested < s.action.nextRequestedQPS
  ceiling : s.action.nextRequestedQPS ≤ s.job.spec.maxQPS
  phase : s.job.phase = .bracketing ∨
    s.job.phase = .bisecting ∧ s.action.nextRequestedQPS < s.job.bracketHiRequested ∧
      Ran s.steps .engineSaturated s.job.bracketHiRequested ∧
      s.job.bracketHiRequested ≤ s.job.spec.maxQPS

structure Ended (s : Search) : Prop where
  phase : s.job.phase = .done
  result : ∃ r, s.job.result = some r ∧ (r.saturatedBy = .neither → ∃ qps, Ran s.steps .clean qps)

structure Sound (spec : Spec) (s : Search) : Prop where
  spec : s.job.spec = spec
  evidence : Evidence s.job s.steps
  running : s.action.done = false → s.Running
  ended : s.action.done = true → s.Ended

variable {spec : Spec} {job : Job} {steps : List Step} {s : Search}

/-- A search as `Next` leaves it. -/
def decided (r : Job × Action) (steps : List Step) : Search :=
  { job := r.1, action := r.2, steps }

theorem sound_finish {verdict : SaturatedBy} {qps : ℚ} (hspec : job.spec = spec)
    (he : Evidence job steps) (hclean : verdict = .neither → ∃ qps, Ran steps .clean qps) :
    Sound spec (decided (job.finish verdict qps) steps) where
  spec := hspec
  evidence := ⟨he.count, he.budget, he.nonneg, he.lo, he.hi⟩
  running := nofun
  ended := fun _ => ⟨rfl, _, rfl, hclean⟩

theorem sound_doubleOrFinish (hspec : job.spec = spec) (he : Evidence job steps)
    (hresult : job.result = none) (hphase : job.phase = .bracketing)
    (hpos : 0 < job.bracketLoRequested) (hclean : Ran steps .clean job.bracketLoRequested) :
    Sound spec (decided job.doubleOrFinish steps) := by
  obtain ⟨-, hfinish⟩ | ⟨hmax, hbudget, hgo⟩ := job.doubleOrFinish_cases
  · rw [hfinish]
    exact sound_finish hspec he fun _ => ⟨_, hclean⟩
  · rw [hgo]
    exact
      { spec := hspec
        evidence := he
        running := fun _ =>
          { result := hresult
            count := hbudget
            above := lt_mul_of_one_lt_right hpos one_lt_two
            ceiling := hmax
            phase := .inl hphase }
        ended := nofun }

theorem sound_bisectOrFinish (hspec : job.spec = spec) (he : Evidence job steps)
    (hresult : job.result = none) (hphase : job.phase = .bisecting)
    (hlt : job.bracketLoRequested < job.bracketHiRequested)
    (hsat : Ran steps .engineSaturated job.bracketHiRequested)
    (hmax : job.bracketHiRequested ≤ job.spec.maxQPS) :
    Sound spec (decided job.bisectOrFinish steps) := by
  obtain ⟨-, hfinish⟩ | ⟨-, hbudget, hgo⟩ := job.bisectOrFinish_cases
  · rw [hfinish]
    exact sound_finish hspec he nofun
  · rw [hgo]
    -- the middle lies strictly inside the bracket
    have hlow : job.bracketLoRequested <
        job.bracketLoRequested + (job.bracketHiRequested - job.bracketLoRequested) / 2 := by
      linarith
    have hmid : job.bracketLoRequested + (job.bracketHiRequested - job.bracketLoRequested) / 2 <
        job.bracketHiRequested := by linarith
    exact
      { spec := hspec
        evidence := he
        running := fun _ =>
          { result := hresult
            count := hbudget
            above := hlow
            ceiling := hmid.le.trans hmax
            phase := .inr ⟨hphase, hmid, hsat, hmax⟩ }
        ended := nofun }

theorem sound_begin (hvalid : spec.Valid) : Sound spec (begin spec) where
  spec := rfl
  evidence := ⟨rfl, hvalid.maxSteps.le, le_rfl, .inl rfl, .inl rfl⟩
  running := fun _ => ⟨rfl, hvalid.maxSteps, hvalid.seedQPS, hvalid.maxQPS.le, .inl rfl⟩
  ended := nofun

theorem step_of_done (h : s.action.done = true) (o : Outcome) : s.step o = s := if_pos h

theorem step_of_running (h : s.action.done = false) (o : Outcome) :
    s.step o = decided (next s.job (s.prescribed o)) (s.steps ++ [s.prescribed o]) :=
  if_neg (by simp [h])

theorem Sound.step (h : Sound spec s) (o : Outcome) : Sound spec (s.step o) := by
  cases hdone : s.action.done with
  | true => rwa [step_of_done hdone]
  | false =>
    rw [step_of_running hdone, next]
    have hr := h.running hdone
    have hpos : 0 < s.action.nextRequestedQPS := h.evidence.nonneg.trans_lt hr.above
    cases ho : (s.prescribed o).classification with
    | targetSaturated =>
        refine sound_finish h.spec ?_ nofun
        exact
          { count := by simp [h.evidence.count]
            budget := hr.count
            nonneg := h.evidence.nonneg
            lo := h.evidence.lo.imp_right fun h => h.append _
            hi := h.evidence.hi.imp_right fun h => h.append _ }
    | engineSaturated =>
        have hphase : (s.job.closeAbove (s.prescribed o)).phase = .bisecting := by
          obtain hb | ⟨hb, -⟩ := hr.phase
          · simp [Job.closeAbove, hb]
          · simp [Job.closeAbove, hb]
        exact sound_bisectOrFinish h.spec (.closeAbove h.evidence hr.count ho) hr.result hphase
          hr.above (ho ▸ ran_append_self) hr.ceiling
    | clean =>
        have he := Evidence.raiseFloor h.evidence hr.count ho hpos.le
        obtain hb | ⟨hb, hhi, hsat, hmax⟩ := hr.phase
        · simp only [hb, if_true]
          exact sound_doubleOrFinish h.spec he hr.result hb hpos (ho ▸ ran_append_self)
        · simp only [hb, reduceCtorEq, if_false]
          exact sound_bisectOrFinish h.spec he hr.result hb hhi (hsat.append _) hmax

theorem sound_after (hvalid : spec.Valid) (outcomes : ℕ → Outcome) (n : ℕ) :
    Sound spec (after spec outcomes n) := by
  induction n with
  | zero => exact sound_begin hvalid
  | succ n ih => exact ih.step (outcomes n)

structure Safe (spec : Spec) (s : Search) : Prop where
  /-- A prescribed rate is positive, and within the ceiling. -/
  prescribed : s.action.done = false →
    0 < s.action.nextRequestedQPS ∧ s.action.nextRequestedQPS ≤ spec.maxQPS
  /-- While bisecting, the next rate lies strictly inside the bracket. -/
  bracket : s.job.phase = .bisecting →
    (0 ≤ s.job.bracketLoRequested ∧ s.job.bracketLoRequested < s.job.bracketHiRequested) ∧
      s.job.bracketLoRequested < s.action.nextRequestedQPS ∧
      s.action.nextRequestedQPS < s.job.bracketHiRequested
  lo : s.job.bracketLoRequested = 0 ∨ Ran s.steps .clean s.job.bracketLoRequested
  hi : s.job.bracketHiRequested = 0 ∨ Ran s.steps .engineSaturated s.job.bracketHiRequested
  neither : ∀ r, s.job.result = some r → r.saturatedBy = .neither → ∃ qps, Ran s.steps .clean qps

theorem Sound.safe (h : Sound spec s) : Safe spec s where
  prescribed := by
    intro hdone
    have hr := h.running hdone
    exact ⟨h.evidence.nonneg.trans_lt hr.above, h.spec ▸ hr.ceiling⟩
  bracket := by
    intro hphase
    cases hdone : s.action.done with
    | true =>
        have hended := (h.ended hdone).phase
        rw [hphase] at hended
        cases hended
    | false =>
        have hr := h.running hdone
        obtain hb | ⟨-, hlt, -⟩ := hr.phase
        · rw [hphase] at hb
          cases hb
        · exact ⟨⟨h.evidence.nonneg, hr.above.trans hlt⟩, hr.above, hlt⟩
  lo := h.evidence.lo
  hi := h.evidence.hi
  neither := by
    intro r hresult hneither
    cases hdone : s.action.done with
    | true =>
        obtain ⟨r', hr', hclean⟩ := (h.ended hdone).result
        rw [hresult, Option.some_inj] at hr'
        exact hclean (hr' ▸ hneither)
    | false =>
        rw [(h.running hdone).result] at hresult
        cases hresult

theorem after_of_done {outcomes : ℕ → Outcome} {n m : ℕ}
    (hdone : (after spec outcomes n).action.done = true) (hnm : n ≤ m) :
    after spec outcomes m = after spec outcomes n := by
  induction m, hnm using Nat.le_induction with
  | base => rfl
  | succ m _ ih => rw [after, ih, step_of_done hdone]

theorem length_steps_after {outcomes : ℕ → Outcome} {n : ℕ}
    (hrunning : (after spec outcomes n).action.done = false) :
    (after spec outcomes n).steps.length = n := by
  induction n with
  | zero => rfl
  | succ n ih =>
    cases hdone : (after spec outcomes n).action.done with
    | true =>
        rw [after, step_of_done hdone, hdone] at hrunning
        cases hrunning
    | false =>
        rw [after, step_of_running hdone, decided, List.length_append, ih hdone]
        rfl

theorem exists_done (hvalid : spec.Valid) (outcomes : ℕ → Outcome) :
    (after spec outcomes spec.maxSteps.toNat).action.done = true := by
  by_contra hrunning
  rw [Bool.not_eq_true] at hrunning
  have h := sound_after hvalid outcomes spec.maxSteps.toNat
  -- a search that still runs has steps left, but it has taken all of them
  have hcount := (h.running hrunning).count
  rw [h.evidence.count, length_steps_after hrunning, h.spec] at hcount
  have := hvalid.maxSteps
  omega

/-- The search ends with its `last` step and this result: up to it there is no result,
and from it on nothing changes. -/
structure EndsWith (spec : Spec) (outcomes : ℕ → Outcome) (last : ℕ) (r : Result) : Prop where
  before : ∀ n < last, (after spec outcomes n).action.done = false ∧
    (after spec outcomes n).job.result = none ∧ (after spec outcomes n).steps.length = n
  since : ∀ n, last ≤ n → (after spec outcomes n).action.done = true ∧
    (after spec outcomes n).job.result = some r ∧ (after spec outcomes n).steps.length = last

theorem exists_endsWith (hvalid : spec.Valid) (outcomes : ℕ → Outcome) :
    ∃ (last : ℕ) (r : Result), (last : ℤ) ≤ spec.maxSteps ∧ EndsWith spec outcomes last r := by
  have hex : ∃ n, (after spec outcomes n).action.done = true :=
    ⟨_, exists_done hvalid outcomes⟩
  let last := Nat.find hex
  have hlast : (after spec outcomes last).action.done = true := Nat.find_spec hex
  have hbefore : ∀ n < last, (after spec outcomes n).action.done = false :=
    fun n hn => Bool.not_eq_true _ ▸ Nat.find_min hex hn
  obtain ⟨r, hr, -⟩ := ((sound_after hvalid outcomes last).ended hlast).result
  have hle : last ≤ spec.maxSteps.toNat := Nat.find_min' hex (exists_done hvalid outcomes)
  have hlength : (after spec outcomes last).steps.length = last := by
    cases hcase : last with
    | zero => rfl
    | succ n =>
        have hn := hbefore n (hcase ▸ n.lt_succ_self)
        rw [after, step_of_running hn, decided, List.length_append, length_steps_after hn]
        rfl
  have hmax := hvalid.maxSteps
  refine ⟨last, r, by omega, ⟨fun n hn => ?_, fun n hn => ?_⟩⟩
  · have hrunning := hbefore n hn
    exact ⟨hrunning, ((sound_after hvalid outcomes n).running hrunning).result,
      length_steps_after hrunning⟩
  · rw [after_of_done hlast hn]
    exact ⟨hlast, hr, hlength⟩

/-- A search is safe at every moment, and ends within its budget with one result. -/
theorem safe_and_ends (spec : Spec) (hvalid : spec.validate = .ok ()) (outcomes : ℕ → Outcome) :
    (∀ n, Safe spec (after spec outcomes n)) ∧
      ∃ (last : ℕ) (r : Result), (last : ℤ) ≤ spec.maxSteps ∧ EndsWith spec outcomes last r := by
  have h := spec.validate_eq_ok.mp hvalid
  exact ⟨fun n => (sound_after h outcomes n).safe, exists_endsWith h outcomes⟩

def defaultSpec : Spec :=
  { criterion := "failures>5%", cpu := "1", memory := "512Mi", seedQPS := 10, maxQPS := 10000
    maxSteps := 20, holdSeconds := 30 }

theorem safe_and_ends_defaultSpec :
    defaultSpec.validate = .ok () ∧
      ∃ (last : ℕ) (r : Result), (last : ℤ) ≤ 20 ∧
        EndsWith defaultSpec (fun _ => { classification := .clean, achievedQPS := 1 }) last r :=
  have hvalid : defaultSpec.validate = .ok () := by decide +kernel
  ⟨hvalid, (safe_and_ends defaultSpec hvalid _).2⟩

end Search

end Honryu.Calibration
