import Honryu.Lib.Checked
import Mathlib.Algebra.Order.Ring.Int

/-!
The load configuration of an execution: which scenarios run, with how many
engines, at what concurrency and rate, and for how long.
-/

namespace Honryu.LoadProfile

/-! ### Entries -/

/-- The mode an entry was stated in: none for an ordinary entry, one of the four
that `loadmode` names, or another text. -/
inductive Mode
  | advanced
  | burst
  | ramp
  | soak
  | staircase
  | other (text : String)
  deriving DecidableEq

/-- `loadmode.Valid`: the mode is one of the named ones. -/
def Mode.valid : Mode → Bool
  | .burst | .ramp | .soak | .staircase => true
  | .advanced | .other _ => false

def staircaseStepsMin : ℤ := 2

def staircaseStepsMax : ℤ := 10

def staircaseMinDurationSeconds : ℤ := 60

/-- `Entry` is one scenario's load configuration within an execution. A
throughput of zero means unlimited. -/
structure Entry where
  name : String
  scenarioId : ℤ
  concurrency : ℤ
  rampup : ℤ
  engines : ℤ
  throughput : ℤ
  duration : ℤ
  csvSplit : Bool
  mode : Mode
  steps : ℤ
  deriving DecidableEq

inductive EntryError
  | scenarioRequired
  | enginesInvalid
  | concurrencyInvalid
  | durationInvalid
  | throughputInvalid
  | modeInvalid (mode : Mode)
  | modeThroughput
  | stepsInvalid (got : ℤ) (staircase : Bool)
  | staircaseDuration (got : ℤ)
  deriving DecidableEq

namespace Entry

def validate (ep : Entry) : Except EntryError Unit :=
  if ep.scenarioId ≤ 0 then .error .scenarioRequired
  else if ep.engines ≤ 0 then .error .enginesInvalid
  else if ep.concurrency ≤ 0 then .error .concurrencyInvalid
  else if ep.duration ≤ 0 then .error .durationInvalid
  else if ep.throughput < 0 then .error .throughputInvalid
  else if ep.mode ≠ .advanced ∧ ep.mode.valid = false then .error (.modeInvalid ep.mode)
  else if ep.mode ≠ .advanced ∧ ep.throughput ≤ 0 then .error .modeThroughput
  else if ep.mode ≠ .staircase ∧ ep.steps ≠ 0 then .error (.stepsInvalid ep.steps false)
  else if ep.mode = .staircase ∧ (ep.steps < staircaseStepsMin ∨ staircaseStepsMax < ep.steps) then
    .error (.stepsInvalid ep.steps true)
  else if ep.mode = .staircase ∧ ep.duration < staircaseMinDurationSeconds then
    .error (.staircaseDuration ep.duration)
  else .ok ()

/-- What `Validate` asks of an entry. -/
structure Valid (ep : Entry) : Prop where
  scenarioId : 0 < ep.scenarioId
  engines : 0 < ep.engines
  concurrency : 0 < ep.concurrency
  duration : 0 < ep.duration
  throughput : 0 ≤ ep.throughput
  mode : ep.mode = .advanced ∨ ep.mode.valid = true ∧ 0 < ep.throughput
  flat : ep.mode ≠ .staircase → ep.steps = 0
  stepped : ep.mode = .staircase →
    (staircaseStepsMin ≤ ep.steps ∧ ep.steps ≤ staircaseStepsMax) ∧
      staircaseMinDurationSeconds ≤ ep.duration

theorem validate_eq_ok (ep : Entry) : ep.validate = .ok () ↔ ep.Valid := by
  simp only [validate, Checked.guard_eq_ok, not_le, not_lt, and_true]
  constructor
  · rintro ⟨hscenario, hengines, hconcurrency, hduration, hthroughput, hmode, hrate, hflat, hsteps,
      hhold⟩
    exact
      { scenarioId := hscenario, engines := hengines, concurrency := hconcurrency
        duration := hduration, throughput := hthroughput
        mode := by grind
        flat := by grind
        stepped := by grind }
  · rintro ⟨hscenario, hengines, hconcurrency, hduration, hthroughput, hmode, hflat, hstepped⟩
    refine ⟨hscenario, hengines, hconcurrency, hduration, hthroughput, ?_, ?_, ?_, ?_, ?_⟩ <;> grind

instance (ep : Entry) : Decidable (ep.validate = .ok ()) :=
  match ep.validate with
  | .ok () => .isTrue rfl
  | .error _ => .isFalse nofun

instance (ep : Entry) : Decidable ep.Valid := decidable_of_iff _ ep.validate_eq_ok

variable {ep : Entry}

/-- The entries whose window is a sequence of plateaus are the staircases. -/
theorem Valid.one_lt_steps (h : ep.Valid) : 1 < ep.steps ↔ ep.mode = .staircase := by
  constructor
  · intro hsteps
    by_contra hmode
    rw [h.flat hmode] at hsteps
    exact absurd hsteps (by decide)
  · intro hmode
    have hmin : (2 : ℤ) ≤ ep.steps := (h.stepped hmode).1.1
    omega

theorem Valid.throughput_pos (h : ep.Valid) (hmode : ep.mode = .staircase) : 0 < ep.throughput := by
  rcases h.mode with hadvanced | hnamed
  · rw [hmode] at hadvanced
    cases hadvanced
  · exact hnamed.2

end Entry

/-! ### Profiles -/

inductive ProfileError
  | noScenarios
  | scenario (index : ℕ) (scenarioId : ℤ) (e : EntryError)
  deriving DecidableEq

/-- The loop of `Profile.Validate`, from the entry of an index on. -/
def validateFrom (index : ℕ) : List Entry → Except ProfileError Unit
  | [] => .ok ()
  | ep :: tests =>
      match ep.validate with
      | .error e => .error (.scenario index ep.scenarioId e)
      | .ok () => validateFrom (index + 1) tests

/-- `Profile.Validate`: there is an entry, and every entry is valid. -/
def validate (tests : List Entry) : Except ProfileError Unit :=
  if tests = [] then .error .noScenarios else validateFrom 0 tests

theorem validateFrom_eq_ok {index : ℕ} {tests : List Entry} :
    validateFrom index tests = .ok () ↔ ∀ ep ∈ tests, ep.Valid := by
  induction tests generalizing index with
  | nil => simp [validateFrom]
  | cons ep tests ih =>
      rw [validateFrom, List.forall_mem_cons, ← ep.validate_eq_ok]
      cases hep : ep.validate with
      | error e => simp
      | ok _ => simp [ih]

theorem validate_eq_ok {tests : List Entry} :
    validate tests = .ok () ↔ tests ≠ [] ∧ ∀ ep ∈ tests, ep.Valid := by
  rw [validate]
  split <;> simp [validateFrom_eq_ok, *]

instance (tests : List Entry) : Decidable (validate tests = .ok ()) :=
  decidable_of_iff _ validate_eq_ok.symm

/-- `run.VirtualUsers`: the users an execution is accounted for. -/
def virtualUsers (tests : List Entry) : ℤ :=
  tests.foldl (fun vu ep => vu + ep.engines * ep.concurrency) 0

end Honryu.LoadProfile
