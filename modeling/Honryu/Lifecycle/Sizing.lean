import Honryu.Lib.Checked
import Honryu.Lifecycle.ControlPlane
import Honryu.Quota.Reservation
import Mathlib.Data.Rat.Floor

/-!
How much capacity a run of an execution reserves.

A quota counts engines of the baseline size. A pod of a pinned size counts for as many
of these as it is larger than one, rounded up.
-/

namespace Honryu.Lifecycle

open Quota

/-! ### The size of a pod -/

/-- `resource.Quantity`: its value in thousandths, and in whole units. -/
structure Quantity where
  milliValue : ℤ
  value : ℤ

inductive SizeError
  | pinnedCpu (text : String)
  | pinnedMemory (text : String)
  deriving DecidableEq

/-- `baselineEngineCPU` is 500m. -/
def baselineEngineCpu : ℤ := 500

/-- `baselineEngineMemory` is 512Mi. -/
def baselineEngineMemory : ℤ := 512 * 1024 * 1024

section Size

-- `resource.ParseQuantity`
variable (parse : String → Option Quantity)

/-- One dimension of `sizeRatio`: the ratio so far, or that of the pinned size to the
baseline if it is larger. Nothing is pinned by an empty text. -/
def growRatio (measure : Quantity → ℤ) (baseline : ℤ) (invalid : String → SizeError)
    (text : String) (ratio : ℚ) : Except SizeError ℚ :=
  if text = "" then .ok ratio
  else
    match parse text with
    | none => .error (invalid text)
    | some q =>
        let r : ℚ := measure q / baseline
        .ok (if ratio < r then r else ratio)

/-- `sizeRatio`: how many baselines a pod is as large as, and at least one. -/
def sizeRatio (cpu memory : String) : Except SizeError ℚ := do
  let ratio ← growRatio parse Quantity.milliValue baselineEngineCpu .pinnedCpu cpu 1
  growRatio parse Quantity.value baselineEngineMemory .pinnedMemory memory ratio

def engineEquivalents (cpu memory : String) (podCount : ℤ) : Except SizeError ℤ :=
  (sizeRatio parse cpu memory).map fun ratio => ⌈ratio⌉ * podCount

def Readable (text : String) : Prop := text = "" ∨ (parse text).isSome

def AtMost (measure : Quantity → ℤ) (baseline : ℤ) (text : String) : Prop :=
  text = "" ∨ ∀ q ∈ parse text, measure q ≤ baseline

/-- A ratio grows in no dimension in which the pod is no larger than the baseline. -/
theorem growRatio_spec {measure : Quantity → ℤ} {baseline : ℤ} (hbaseline : 0 < baseline)
    {invalid : String → SizeError} {text : String} {ratio ratio' : ℚ} (hratio : 1 ≤ ratio)
    (h : growRatio parse measure baseline invalid text ratio = .ok ratio') :
    Readable parse text ∧ ratio ≤ ratio' ∧
      (ratio' = 1 ↔ ratio = 1 ∧ AtMost parse measure baseline text) := by
  unfold growRatio at h
  split at h
  case isTrue hempty =>
    obtain rfl : ratio = ratio' := by simpa using h
    exact ⟨.inl hempty, le_rfl, by simp [AtMost, hempty]⟩
  case isFalse hpinned =>
    cases hparse : parse text with
    | none => simp [hparse] at h
    | some q =>
        have hbase : (0 : ℚ) < baseline := by exact_mod_cast hbaseline
        have hle : (measure q : ℚ) / baseline ≤ 1 ↔ measure q ≤ baseline := by
          rw [div_le_one hbase]
          exact_mod_cast Iff.rfl
        obtain rfl : (if ratio < (measure q : ℚ) / baseline then (measure q : ℚ) / baseline
            else ratio) = ratio' := by simpa [hparse] using h
        refine ⟨.inr (by simp [hparse]), ?_, ?_⟩
        · split
          case isTrue hlt => exact hlt.le
          case isFalse => exact le_rfl
        · have hatMost : AtMost parse measure baseline text ↔ measure q ≤ baseline := by
            simp [AtMost, hpinned, hparse]
          rw [hatMost, ← hle]
          split
          case isTrue hlt =>
            constructor
            · intro heq
              exact absurd (hratio.trans_lt hlt) (by rw [heq]; exact lt_irrefl 1)
            · rintro ⟨rfl, hsmall⟩
              exact absurd hlt (not_lt.mpr hsmall)
          case isFalse hge =>
            constructor
            · rintro rfl
              exact ⟨rfl, not_lt.mp hge⟩
            · exact And.left

theorem growRatio_of_readable {measure : Quantity → ℤ} {baseline : ℤ}
    {invalid : String → SizeError} {text : String} (ratio : ℚ) (h : Readable parse text) :
    ∃ ratio', growRatio parse measure baseline invalid text ratio = .ok ratio' := by
  unfold growRatio
  split
  case isTrue => exact ⟨ratio, rfl⟩
  case isFalse hpinned =>
    obtain ⟨q, hq⟩ := Option.isSome_iff_exists.mp (h.resolve_left hpinned)
    rw [hq]
    exact ⟨_, rfl⟩

theorem sizeRatio_spec {cpu memory : String} {ratio : ℚ}
    (h : sizeRatio parse cpu memory = .ok ratio) :
    Readable parse cpu ∧ Readable parse memory ∧ 1 ≤ ratio ∧
      (ratio = 1 ↔ AtMost parse Quantity.milliValue baselineEngineCpu cpu ∧
        AtMost parse Quantity.value baselineEngineMemory memory) := by
  obtain ⟨first, hfirst, hsecond⟩ := Checked.bind_eq_ok.mp h
  obtain ⟨hcpu, hle, hone⟩ := growRatio_spec parse (by decide) le_rfl hfirst
  obtain ⟨hmemory, hle', hone'⟩ := growRatio_spec parse (by decide) hle hsecond
  refine ⟨hcpu, hmemory, hle.trans hle', ?_⟩
  rw [hone', hone]
  tauto

theorem sizeRatio_of_readable {cpu memory : String} (hcpu : Readable parse cpu)
    (hmemory : Readable parse memory) : ∃ ratio, sizeRatio parse cpu memory = .ok ratio := by
  obtain ⟨first, hfirst⟩ := growRatio_of_readable parse 1 hcpu
  obtain ⟨ratio, hsecond⟩ := growRatio_of_readable parse first hmemory
  exact ⟨ratio, Checked.bind_eq_ok.mpr ⟨first, hfirst, hsecond⟩⟩

theorem ceil_mul_eq_self_iff {ratio : ℚ} (hratio : 1 ≤ ratio) (podCount : ℤ) :
    ⌈ratio⌉ * podCount = podCount ↔ podCount = 0 ∨ ratio = 1 := by
  have hceil : ⌈ratio⌉ = 1 ↔ ratio = 1 := by
    constructor
    · intro h
      exact le_antisymm (by simpa [h] using Int.le_ceil ratio) hratio
    · rintro rfl
      exact Int.ceil_one
  rw [← hceil, mul_left_eq_self₀, or_comm]

/-- Every pod counts for one engine exactly if its pinned size can be read and is at
most the baseline, or there is no pod. -/
theorem engineEquivalents_eq_self_iff (cpu memory : String) (podCount : ℤ) :
    engineEquivalents parse cpu memory podCount = .ok podCount ↔
      Readable parse cpu ∧ Readable parse memory ∧
        (podCount = 0 ∨ AtMost parse Quantity.milliValue baselineEngineCpu cpu ∧
          AtMost parse Quantity.value baselineEngineMemory memory) := by
  unfold engineEquivalents
  cases hsize : sizeRatio parse cpu memory with
  | error e =>
      refine ⟨nofun, fun ⟨hcpu, hmemory, _⟩ => ?_⟩
      obtain ⟨ratio, hok⟩ := sizeRatio_of_readable parse hcpu hmemory
      rw [hsize] at hok
      cases hok
  | ok ratio =>
      obtain ⟨hcpu, hmemory, hratio, hone⟩ := sizeRatio_spec parse hsize
      rw [Except.map, Except.ok.injEq, ceil_mul_eq_self_iff hratio, hone]
      exact ⟨fun h => ⟨hcpu, hmemory, h⟩, fun h => h.2.2⟩

end Size

/-! ### What `Trigger` reserves -/

structure SizedExecution extends Execution where
  tenantId : Option ℤ
  cpu : String
  memory : String

def runSeconds (e : LoadProfile.Entry) : ℤ :=
  if 1 < e.steps then e.rampup + e.duration * e.steps else e.rampup + e.duration

/-- `LongestDurationSeconds`. -/
def longestDurationSeconds (profile : List LoadProfile.Entry) : ℤ :=
  (profile.map runSeconds).foldl max 0

def runWindow (profile : List LoadProfile.Entry) : ℤ := longestDurationSeconds profile * 10 ^ 9

def runReservation (exe : Execution) (tenantId engineUnits start : ℤ) (cluster : String) :
    Reservation :=
  { id := 0, tenantId, cluster, engineCount := engineUnits, startTime := start
    endTime := start + runWindow exe.profile, executionId := exe.executionId }

/-- What `Trigger` asks to reserve when it starts a run: the same on every cluster, and
nothing for an execution without a tenant. -/
def triggerReservations (parse : String → Option Quantity) (exe : SizedExecution) (start : ℤ) :
    Except SizeError (List Reservation) :=
  match exe.tenantId with
  | none => .ok []
  | some tenantId =>
      (engineEquivalents parse exe.cpu exe.memory exe.totalEngines).map fun engineUnits =>
        exe.clusters.map (runReservation exe.toExecution tenantId engineUnits start)

/-- Something is reserved on every cluster, and there is always one. -/
theorem triggerReservations_of_tenant {parse : String → Option Quantity} {exe : SizedExecution}
    {start tenantId : ℤ} {requests : List Reservation} (htenant : exe.tenantId = some tenantId)
    (h : triggerReservations parse exe start = .ok requests) :
    ∃ engineUnits, engineEquivalents parse exe.cpu exe.memory exe.totalEngines = .ok engineUnits ∧
      requests = exe.clusters.map (runReservation exe.toExecution tenantId engineUnits start) := by
  rw [triggerReservations, htenant] at h
  obtain ⟨engineUnits, hunits, rfl⟩ := Checked.map_eq_ok.mp h
  exact ⟨engineUnits, hunits, rfl⟩

end Honryu.Lifecycle
