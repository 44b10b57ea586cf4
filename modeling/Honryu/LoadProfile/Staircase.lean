import Honryu.LoadProfile.Profile
import Mathlib.Algebra.Order.Field.Rat
import Mathlib.Data.Rat.Floor
import Mathlib.Tactic.FieldSimp
import Mathlib.Tactic.GCongr

/-!
The step table of a staircase: its plateaus, each with a rate and the virtual
users holding it, up to the ceiling the entry states. Shares of the ceiling are
exact rationals.
-/

namespace Honryu.LoadProfile

/-- `math.Round`: the nearest integer, halves away from zero. -/
def mathRound (x : ℚ) : ℤ := if x < 0 then -⌊-x + 1 / 2⌋ else ⌊x + 1 / 2⌋

/-- `StaircaseStep` is one plateau of a staircase. -/
structure StaircaseStep where
  index : ℤ
  throughput : ℤ
  concurrency : ℤ
  deriving DecidableEq

/-- One step of the loop of `StaircaseSteps`. -/
def staircaseStep (concurrency throughput : ℤ) (steps i : ℕ) : StaircaseStep :=
  let share : ℚ := (i + 1 : ℕ) / steps
  let rate := mathRound (throughput * share)
  let conc := ⌈concurrency * share⌉
  { index := i
    throughput := if rate < 1 then 1 else rate
    concurrency := if conc < 1 then 1 else conc }

/-- `StaircaseSteps` expands an entry's ceiling into its step table. The ceiling
step is exact, not rounded. -/
def staircaseSteps (concurrency throughput steps : ℤ) : List StaircaseStep :=
  if steps < staircaseStepsMin then []
  else
    ((List.range steps.toNat).map (staircaseStep concurrency throughput steps.toNat)).set
      (steps.toNat - 1) { index := steps - 1, throughput, concurrency }

/-! ### Rounding -/

theorem mathRound_of_nonneg {x : ℚ} (h : 0 ≤ x) : mathRound x = ⌊x + 1 / 2⌋ := if_neg h.not_gt

theorem mathRound_mono {x y : ℚ} (hx : 0 ≤ x) (h : x ≤ y) : mathRound x ≤ mathRound y := by
  rw [mathRound_of_nonneg hx, mathRound_of_nonneg (hx.trans h)]
  exact Int.floor_le_floor (by gcongr)

theorem mathRound_intCast {n : ℤ} (h : 0 ≤ n) : mathRound n = n := by
  rw [mathRound_of_nonneg (by exact_mod_cast h), Int.floor_intCast_add]
  norm_num

/-! ### The table -/

theorem staircaseStep_mono {concurrency throughput : ℤ} {steps i j : ℕ} (hc : 0 ≤ concurrency)
    (ht : 0 ≤ throughput) (hij : i ≤ j) :
    (staircaseStep concurrency throughput steps i).concurrency ≤
        (staircaseStep concurrency throughput steps j).concurrency ∧
      (staircaseStep concurrency throughput steps i).throughput ≤
        (staircaseStep concurrency throughput steps j).throughput := by
  have hshare : ((i + 1 : ℕ) / steps : ℚ) ≤ (j + 1 : ℕ) / steps := by gcongr
  have hnonneg : (0 : ℚ) ≤ (i + 1 : ℕ) / steps := by positivity
  have hconc : ⌈concurrency * ((i + 1 : ℕ) / steps : ℚ)⌉ ≤
      ⌈concurrency * ((j + 1 : ℕ) / steps : ℚ)⌉ :=
    Int.ceil_le_ceil (mul_le_mul_of_nonneg_left hshare (by exact_mod_cast hc))
  have hrate : mathRound (throughput * ((i + 1 : ℕ) / steps : ℚ)) ≤
      mathRound (throughput * ((j + 1 : ℕ) / steps : ℚ)) :=
    mathRound_mono (mul_nonneg (by exact_mod_cast ht) hnonneg)
      (mul_le_mul_of_nonneg_left hshare (by exact_mod_cast ht))
  simp only [staircaseStep]
  constructor
  · split <;> split <;> omega
  · split <;> split <;> omega

theorem staircaseStep_last {concurrency throughput : ℤ} {steps : ℕ} (hc : 0 < concurrency)
    (ht : 0 < throughput) (hsteps : 0 < steps) :
    staircaseStep concurrency throughput steps (steps - 1) =
      { index := (steps : ℤ) - 1, throughput, concurrency } := by
  have hne : (steps : ℚ) ≠ 0 := by exact_mod_cast hsteps.ne'
  have hshare : ((steps - 1 + 1 : ℕ) / steps : ℚ) = 1 := by
    rw [Nat.sub_add_cancel hsteps, div_self hne]
  have hconc : ¬concurrency < 1 := by omega
  have hrate : ¬throughput < 1 := by omega
  simp only [staircaseStep, hshare, mul_one, mathRound_intCast ht.le, Int.ceil_intCast, hconc,
    hrate, if_false, Nat.cast_sub hsteps, Nat.cast_one]

/-- Over exact shares the exact ceiling is what the last step comes to anyway. -/
theorem staircaseSteps_eq {concurrency throughput steps : ℤ} (hc : 0 < concurrency)
    (ht : 0 < throughput) (hsteps : staircaseStepsMin ≤ steps) :
    staircaseSteps concurrency throughput steps =
      (List.range steps.toNat).map (staircaseStep concurrency throughput steps.toNat) := by
  have hmin : (2 : ℤ) ≤ steps := hsteps
  have hpos : 0 < steps.toNat := by omega
  have hlast : ({ index := steps - 1, throughput, concurrency } : StaircaseStep) =
      staircaseStep concurrency throughput steps.toNat (steps.toNat - 1) := by
    rw [staircaseStep_last hc ht hpos, Int.toNat_of_nonneg (by omega)]
  rw [staircaseSteps, if_neg hsteps.not_gt, hlast]
  refine List.ext_getElem (by simp) fun k h₁ h₂ => ?_
  rw [List.getElem_set]
  split
  case isTrue h => simp [h]
  case isFalse => rfl

namespace Entry

def row (e : Entry) (j : ℕ) : StaircaseStep :=
  staircaseStep e.concurrency e.throughput e.steps.toNat j

theorem one_le_row (e : Entry) (j : ℕ) : 1 ≤ (e.row j).concurrency ∧ 1 ≤ (e.row j).throughput := by
  simp only [row, staircaseStep]
  constructor <;> split <;> omega

variable {e : Entry}

theorem Valid.two_le_steps (h : e.Valid) (hmode : e.mode = .staircase) : 2 ≤ e.steps.toNat := by
  have hmin : (2 : ℤ) ≤ e.steps := (h.stepped hmode).1.1
  omega

theorem Valid.staircaseSteps_eq (h : e.Valid) (hmode : e.mode = .staircase) :
    staircaseSteps e.concurrency e.throughput e.steps = (List.range e.steps.toNat).map e.row :=
  LoadProfile.staircaseSteps_eq h.concurrency (h.throughput_pos hmode) (h.stepped hmode).1.1

theorem Valid.length_staircaseSteps (h : e.Valid) (hmode : e.mode = .staircase) :
    (staircaseSteps e.concurrency e.throughput e.steps).length = e.steps.toNat := by
  rw [h.staircaseSteps_eq hmode, List.length_map, List.length_range]

theorem Valid.eq_row_of_getElem? (h : e.Valid) (hmode : e.mode = .staircase) {j : ℕ}
    {row : StaircaseStep}
    (hrow : (staircaseSteps e.concurrency e.throughput e.steps)[j]? = some row) :
    j < e.steps.toNat ∧ row = e.row j := by
  obtain ⟨hj, hget⟩ := List.getElem?_eq_some_iff.mp hrow
  simp only [h.staircaseSteps_eq hmode, List.getElem_map, List.getElem_range] at hget
  rw [h.length_staircaseSteps hmode] at hj
  exact ⟨hj, hget.symm⟩

theorem Valid.row_mono (h : e.Valid) {i j : ℕ} (hij : i ≤ j) :
    (e.row i).concurrency ≤ (e.row j).concurrency ∧ (e.row i).throughput ≤ (e.row j).throughput :=
  staircaseStep_mono h.concurrency.le h.throughput hij

theorem Valid.row_last (h : e.Valid) (hmode : e.mode = .staircase) :
    (e.row (e.steps.toNat - 1)).concurrency = e.concurrency ∧
      (e.row (e.steps.toNat - 1)).throughput = e.throughput := by
  have htwo := h.two_le_steps hmode
  rw [row, staircaseStep_last h.concurrency (h.throughput_pos hmode) (by omega)]
  exact ⟨rfl, rfl⟩

end Entry

end Honryu.LoadProfile
