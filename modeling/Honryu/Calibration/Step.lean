import Honryu.Calibration.Search
import Honryu.LoadProfile.Shard
import Mathlib.Algebra.Order.Floor.Ring
import Mathlib.Data.Rat.Floor

/-!
The load of one step: the profile that `RunStep` stores for it, and the rate that the
pod is then given.
-/

namespace Honryu.Calibration

open LoadProfile

def concurrencyFloor : ℤ := 20

def concurrencyHeadroom : ℚ := 3

/-- `loadmode.Concurrency`: the virtual users that sustain a rate at a measured response
time. The floor stands in for a measurement. -/
def stepConcurrency (requestedQPS latencyHintSec : ℚ) : ℤ :=
  if latencyHintSec ≤ 0 then concurrencyFloor
  else
    let c := ⌈requestedQPS * latencyHintSec * concurrencyHeadroom⌉
    if c < concurrencyFloor then concurrencyFloor else c

theorem concurrencyFloor_le_stepConcurrency (requestedQPS latencyHintSec : ℚ) :
    concurrencyFloor ≤ stepConcurrency requestedQPS latencyHintSec := by
  simp only [stepConcurrency]
  split
  · exact le_rfl
  · split
    · exact le_rfl
    · exact not_lt.mp ‹_›

def stepRampupSeconds : ℤ := 5

inductive StepError
  | requestedQPSInvalid (requestedQPS : ℚ)
  | scenarioNotConfigured (entries : ℕ)
  | entryInvalid (e : EntryError)
  deriving DecidableEq

/-- The entry of a step: one pod, at the rate rounded up to whole requests a second. -/
def stepEntry (base : Entry) (requestedQPS : ℚ) (holdSeconds : ℤ) (latencyHintSec : ℚ) : Entry :=
  { name := base.name, scenarioId := base.scenarioId, engines := 1
    concurrency := stepConcurrency requestedQPS latencyHintSec, rampup := stepRampupSeconds
    duration := holdSeconds, throughput := ⌈requestedQPS⌉, csvSplit := false, mode := .advanced
    steps := 0 }

/-- What `RunStep` stores as the load profile, from the one that is there. -/
def stepProfile (entries : List Entry) (requestedQPS : ℚ) (holdSeconds : ℤ)
    (latencyHintSec : ℚ) : Except StepError Entry :=
  if requestedQPS ≤ 0 then .error (.requestedQPSInvalid requestedQPS)
  else
    match entries with
    | [base] =>
        let step := stepEntry base requestedQPS holdSeconds latencyHintSec
        match step.validate with
        | .error e => .error (.entryInvalid e)
        | .ok () => .ok step
    | _ => .error (.scenarioNotConfigured entries.length)

def issuedQPS (e : Entry) : ℚ :=
  match plan e e.engines with
  | .ok shards => ((shards.map (·.throughput)).sum : ℤ)
  | .error _ => 0

section Step

variable {base : Entry} {requestedQPS latencyHintSec : ℚ} {holdSeconds : ℤ}

theorem valid_stepEntry (hbase : 0 < base.scenarioId) (hrate : 0 < requestedQPS)
    (hhold : 0 < holdSeconds) :
    (stepEntry base requestedQPS holdSeconds latencyHintSec).Valid where
  scenarioId := hbase
  engines := one_pos
  concurrency := lt_of_lt_of_le (by decide) (concurrencyFloor_le_stepConcurrency _ _)
  duration := hhold
  throughput := (Int.ceil_pos.mpr hrate).le
  mode := .inl rfl
  flat := fun _ => rfl
  stepped := nofun

theorem stepProfile_eq_ok (hbase : 0 < base.scenarioId) (hrate : 0 < requestedQPS)
    (hhold : 0 < holdSeconds) :
    stepProfile [base] requestedQPS holdSeconds latencyHintSec =
      .ok (stepEntry base requestedQPS holdSeconds latencyHintSec) := by
  have hok : (stepEntry base requestedQPS holdSeconds latencyHintSec).validate = .ok () :=
    (Entry.validate_eq_ok _).mpr (valid_stepEntry hbase hrate hhold)
  rw [stepProfile, if_neg (not_le.mpr hrate)]
  simp only [hok]

/-- The one pod of a step is given the whole of its rate, rounded up. -/
theorem issuedQPS_stepEntry :
    issuedQPS (stepEntry base requestedQPS holdSeconds latencyHintSec) = ⌈requestedQPS⌉ := by
  have hconcurrency : 1 < stepConcurrency requestedQPS latencyHintSec :=
    lt_of_lt_of_le (by decide) (concurrencyFloor_le_stepConcurrency _ _)
  have hpos : ¬stepConcurrency requestedQPS latencyHintSec ≤ 0 := by omega
  have hmany : ¬stepConcurrency requestedQPS latencyHintSec < 1 := by omega
  simp [issuedQPS, plan, stepEntry, split, hpos, hmany]

end Step

namespace Search

/-- The rate that is issued for the step that a search prescribes is the one recorded,
and within the ceiling, exactly if it is a whole number. -/
theorem issued_eq_recorded_iff (spec : Spec) (hvalid : spec.validate = .ok ())
    (outcomes : ℕ → Outcome) (n : ℕ) (hrunning : (after spec outcomes n).action.done = false)
    (base : Entry) (hbase : 0 < base.scenarioId) (latencyHintSec : ℚ) (o : Outcome) :
    ∃ entry, stepProfile [base] (after spec outcomes n).action.nextRequestedQPS spec.holdSeconds
        latencyHintSec = .ok entry ∧
      ((issuedQPS entry = ((after spec outcomes n).prescribed o).requestedQPS ∧
          issuedQPS entry ≤ spec.maxQPS) ↔
        (after spec outcomes n).action.nextRequestedQPS.isInt = true) := by
  have hv := spec.validate_eq_ok.mp hvalid
  obtain ⟨hpos, hmax⟩ := (sound_after hv outcomes n).safe.prescribed hrunning
  refine ⟨_, stepProfile_eq_ok hbase hpos hv.holdSeconds, ?_⟩
  rw [issuedQPS_stepEntry]
  constructor
  · rintro ⟨heq, -⟩
    change _ = (after spec outcomes n).action.nextRequestedQPS at heq
    rw [← heq]
    rfl
  · intro hint
    have heq : ((⌈(after spec outcomes n).action.nextRequestedQPS⌉ : ℤ) : ℚ) =
        (after spec outcomes n).action.nextRequestedQPS := by
      rw [Rat.eq_num_of_isInt hint, Int.ceil_intCast]
    exact ⟨heq, heq.le.trans hmax⟩

def baseEntry : Entry :=
  { name := "checkout", scenarioId := 1, concurrency := 20, rampup := 0, engines := 1
    throughput := 10, duration := 30, csvSplit := false, mode := .advanced, steps := 0 }

def allSaturated (_ : ℕ) : Outcome := { classification := .engineSaturated, achievedQPS := 1 }

theorem issued_eq_recorded_seed :
    (after defaultSpec allSaturated 0).action.done = false ∧
      ∃ entry, stepProfile [baseEntry] 10 30 0 = .ok entry ∧ issuedQPS entry = 10 := by
  have hrunning : (after defaultSpec allSaturated 0).action.done = false := rfl
  obtain ⟨entry, hentry, hiff⟩ := issued_eq_recorded_iff defaultSpec (by decide +kernel)
    allSaturated 0 hrunning baseEntry (by decide) 0 (allSaturated 0)
  exact ⟨hrunning, entry, hentry, (hiff.mpr (by decide +kernel)).1⟩

/-- Bisection from the seed of 10 asks for 5 and then for 2.5 requests a second: the step that is
recorded at 2.5 was run at 3. -/
theorem not_issued_eq_recorded_half :
    defaultSpec.validate = .ok () ∧ (after defaultSpec allSaturated 2).action = .runAt (5 / 2) ∧
      stepProfile [baseEntry] (5 / 2) 30 0 = .ok (stepEntry baseEntry (5 / 2) 30 0) ∧
      issuedQPS (stepEntry baseEntry (5 / 2) 30 0) = 3 ∧
      ((after defaultSpec allSaturated 2).prescribed (allSaturated 2)).requestedQPS ≠ 3 := by
  decide +kernel

end Search

end Honryu.Calibration
