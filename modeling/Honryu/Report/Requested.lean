import Honryu.Lib.Extremes
import Honryu.LoadProfile.Staircase
import Honryu.Report.Report

/-!
The load a profile asks for, as a report carries it, and the number of requests
that load is taken to imply.

The rate of a stepped request is the mean over its plateaus. It is multiplied by
the longest window of the profile, which is the sum of the plateaus only if there
are no other entries than one staircase.
-/

namespace Honryu.Report

open LoadProfile

/-! ### The requested load -/

def stepLoads (e : Entry) : List StepLoad :=
  (staircaseSteps e.concurrency e.throughput e.steps).map fun st =>
    { index := st.index, throughput := st.throughput, concurrency := st.concurrency * e.engines
      durationSeconds := e.duration }

/-- One entry of the loop of `requestedLoad`. -/
def addRequested (load : Load) (e : Entry) : Load :=
  let load := { load with throughput := load.throughput + e.throughput }
  if 1 < e.steps then
    let d := e.duration * e.steps
    { load with
      steps := load.steps ++ stepLoads e
      durationSeconds := if load.durationSeconds < d then d else load.durationSeconds }
  else
    { load with
      durationSeconds :=
        if load.durationSeconds < e.duration then e.duration else load.durationSeconds }

/-- `requestedLoad` collapses a load profile into the one figure a report compares
the achieved load against. -/
def requestedLoad (profile : List Entry) : Load :=
  profile.foldl addRequested
    { concurrency := virtualUsers profile, throughput := 0, durationSeconds := 0, steps := []
      samples := 0, failed := 0 }

/-- One plateau of the loop of `meanRequestedRate`: the requests and the seconds
so far. -/
def addStep (acc : ℚ × ℤ) (s : StepLoad) : ℚ × ℤ :=
  (acc.1 + s.throughput * s.durationSeconds, acc.2 + s.durationSeconds)

/-- `meanRequestedRate` is the rate a request implies per second of its own
window. -/
def Load.meanRequestedRate (l : Load) : ℚ :=
  if l.steps = [] then l.throughput
  else
    let (samples, secs) := l.steps.foldl addStep (0, 0)
    if secs ≤ 0 then l.throughput else samples / secs

def shortfallTolerance : ℚ := 95 / 100

/-- `ShortOfRequest` reports whether the run produced materially less load than it
was asked for. -/
def shortOfRequest (r : Report) : Bool :=
  if r.requested.throughput ≤ 0 then false
  else r.achieved.throughput < r.requested.meanRequestedRate * shortfallTolerance

/-- `ShortOfVolume` reports whether the run produced materially fewer requests
than the request implies. -/
def shortOfVolume (r : Report) : Bool :=
  if r.requested.throughput ≤ 0 then false
  else r.achieved.samples <
    r.requested.meanRequestedRate * r.requested.durationSeconds * shortfallTolerance

/-! ### What the entries ask for -/

def window (e : Entry) : ℤ := if 1 < e.steps then e.duration * e.steps else e.duration

/-- The requests an entry asks for: its rate times its hold, or the sum of that
over its plateaus. -/
def volume (e : Entry) : ℤ :=
  if 1 < e.steps then
    ((staircaseSteps e.concurrency e.throughput e.steps).map fun st =>
      st.throughput * e.duration).sum
  else e.throughput * e.duration

theorem foldl_addRequested (load : Load) (profile : List Entry) :
    profile.foldl addRequested load =
      { load with
        throughput := load.throughput + ((profile.map (·.throughput)).sum : ℤ)
        durationSeconds := (profile.map window).foldl max load.durationSeconds
        steps := load.steps ++ (profile.filter (1 < ·.steps)).flatMap stepLoads } := by
  induction profile generalizing load with
  | nil => simp
  | cons e profile ih =>
      rw [List.foldl_cons, ih]
      by_cases hsteps : 1 < e.steps
      · simp [addRequested, hsteps, window, max_def_lt, add_assoc]
      · simp [addRequested, hsteps, window, max_def_lt, add_assoc]

theorem foldl_addStep (acc : ℚ × ℤ) (steps : List StepLoad) :
    steps.foldl addStep acc =
      (acc.1 + (steps.map fun s => (s.throughput * s.durationSeconds : ℚ)).sum,
        acc.2 + (steps.map fun s => s.durationSeconds).sum) := by
  induction steps generalizing acc with
  | nil => simp
  | cons s steps ih => simp [ih, addStep, add_assoc]

def stepped (profile : List Entry) : List Entry := profile.filter (1 < ·.steps)

def flat (profile : List Entry) : List Entry := profile.filter (¬1 < ·.steps)

def totalVolume (entries : List Entry) : ℤ := (entries.map volume).sum

def totalWindow (entries : List Entry) : ℤ := (entries.map window).sum

def longestWindow (profile : List Entry) : ℤ := (profile.map window).foldl max 0

theorem requestedLoad_eq (profile : List Entry) :
    requestedLoad profile =
      { concurrency := virtualUsers profile, throughput := ((profile.map (·.throughput)).sum : ℤ)
        durationSeconds := longestWindow profile, steps := (stepped profile).flatMap stepLoads
        samples := 0, failed := 0 } := by
  rw [requestedLoad, foldl_addRequested, zero_add, List.nil_append]
  rfl

theorem totalVolume_stepped_add_flat (profile : List Entry) :
    totalVolume (stepped profile) + totalVolume (flat profile) = totalVolume profile := by
  have hperm : (stepped profile ++ flat profile).Perm profile := by
    simpa only [stepped, flat, decide_not] using
      List.filter_append_perm (fun e : Entry => 1 < e.steps) profile
  rw [totalVolume, totalVolume, ← List.sum_append, ← List.map_append]
  exact (hperm.map volume).sum_eq

section Steps

variable {profile : List Entry}

theorem sum_volume_stepLoads {e : Entry} (h : 1 < e.steps) :
    ((stepLoads e).map fun s => (s.throughput * s.durationSeconds : ℚ)).sum = (volume e : ℤ) := by
  rw [volume, if_pos h, Int.cast_list_sum, stepLoads, List.map_map, List.map_map]
  simp [Function.comp_def]

theorem sum_seconds_stepLoads {e : Entry} (hvalid : e.Valid) (h : 1 < e.steps) :
    ((stepLoads e).map fun s => s.durationSeconds).sum = window e := by
  have htable := hvalid.staircaseSteps_eq (hvalid.one_lt_steps.mp h)
  rw [window, if_pos h, stepLoads, List.map_map, htable, List.map_map]
  simp only [Function.comp_def, List.map_const', List.length_range, List.sum_replicate,
    nsmul_eq_mul]
  rw [mul_comm, Int.natCast_toNat_eq_self.mpr (by omega)]

theorem foldl_addStep_stepped (hvalid : ∀ e ∈ profile, e.Valid) :
    ((stepped profile).flatMap stepLoads).foldl addStep (0, 0) =
      (((totalVolume (stepped profile) : ℤ) : ℚ), totalWindow (stepped profile)) := by
  rw [foldl_addStep, zero_add, zero_add, List.map_flatMap, List.map_flatMap, List.flatMap_def,
    List.flatMap_def, List.sum_flatten, List.sum_flatten, List.map_map, List.map_map, totalVolume,
    totalWindow, Int.cast_list_sum, List.map_map]
  have hmem : ∀ e ∈ stepped profile, e.Valid ∧ 1 < e.steps := by
    intro e he
    rw [stepped, List.mem_filter, decide_eq_true_iff] at he
    exact ⟨hvalid e he.1, he.2⟩
  refine Prod.ext (congrArg List.sum (List.map_congr_left fun e he => ?_))
    (congrArg List.sum (List.map_congr_left fun e he => ?_))
  · exact sum_volume_stepLoads (hmem e he).2
  · exact sum_seconds_stepLoads (hmem e he).1 (hmem e he).2

end Steps

/-! ### The implied volume -/

section Volume

variable {profile : List Entry}

theorem window_pos {e : Entry} (h : e.Valid) : 0 < window e := by
  rw [window]
  split
  case isTrue hsteps => exact mul_pos h.duration (by omega)
  case isFalse => exact h.duration

theorem volume_pos {e : Entry} (h : e.Valid) (hrate : 0 < e.throughput) : 0 < volume e := by
  rw [volume]
  split
  case isTrue hsteps =>
    have hmode := h.one_lt_steps.mp hsteps
    have htwo := h.two_le_steps hmode
    rw [h.staircaseSteps_eq hmode, List.map_map]
    refine List.sum_pos _ (List.forall_mem_map.mpr fun j _ => ?_) (by simp; omega)
    exact mul_pos (e.one_le_row j).2 h.duration
  case isFalse => exact mul_pos hrate h.duration

theorem stepLoads_ne_nil {e : Entry} (h : e.Valid) (hsteps : 1 < e.steps) : stepLoads e ≠ [] := by
  have htwo := h.two_le_steps (h.one_lt_steps.mp hsteps)
  rw [stepLoads, h.staircaseSteps_eq (h.one_lt_steps.mp hsteps)]
  simp only [ne_eq, List.map_eq_nil_iff, List.range_eq_nil]
  omega

theorem mem_stepped {e : Entry} : e ∈ stepped profile ↔ e ∈ profile ∧ 1 < e.steps := by
  rw [stepped, List.mem_filter, decide_eq_true_iff]

theorem totalWindow_pos (hvalid : ∀ e ∈ profile, e.Valid) (hne : stepped profile ≠ []) :
    0 < totalWindow (stepped profile) :=
  List.sum_pos _ (List.forall_mem_map.mpr fun e he => window_pos (hvalid e (mem_stepped.mp he).1))
    (by simpa using hne)

/-- The rate of a request without plateaus is the sum of its rates; the rate of
one with plateaus is their mean. -/
theorem meanRequestedRate_eq (hvalid : ∀ e ∈ profile, e.Valid) :
    (requestedLoad profile).meanRequestedRate =
      if stepped profile = [] then (((profile.map (·.throughput)).sum : ℤ) : ℚ)
      else ((totalVolume (stepped profile) : ℤ) : ℚ) / (totalWindow (stepped profile) : ℤ) := by
  rw [requestedLoad_eq, Load.meanRequestedRate]
  by_cases hne : stepped profile = []
  · simp [hne]
  · have hsteps : (stepped profile).flatMap stepLoads ≠ [] := by
      obtain ⟨e, he⟩ := List.exists_mem_of_ne_nil _ hne
      intro hnil
      have hmem := mem_stepped.mp he
      exact stepLoads_ne_nil (hvalid e hmem.1) hmem.2 (List.flatMap_eq_nil_iff.mp hnil e he)
    have hpos := totalWindow_pos hvalid hne
    simp only [if_neg hsteps, if_neg hne, foldl_addStep_stepped hvalid, if_neg hpos.not_ge]

/-- Without plateaus, the longest window is right for every entry exactly if all
have the same. -/
theorem flat_volume_iff (hvalid : ∀ e ∈ profile, e.Valid) (hrate : ∀ e ∈ profile, 0 < e.throughput)
    (hflat : ∀ e ∈ profile, ¬1 < e.steps) :
    (profile.map (·.throughput)).sum * longestWindow profile = totalVolume profile ↔
      ∀ e ∈ profile, ∀ e' ∈ profile, e.duration = e'.duration := by
  have hwindow : ∀ e ∈ profile, window e = e.duration := fun e he => if_neg (hflat e he)
  have hvolume : totalVolume profile = (profile.map fun e => e.throughput * e.duration).sum :=
    congrArg List.sum (List.map_congr_left fun e he => if_neg (hflat e he))
  have hexcess : (profile.map (·.throughput)).sum * longestWindow profile =
      (profile.map fun e => e.throughput * (longestWindow profile - e.duration)).sum +
        totalVolume profile := by
    rw [hvolume, ← List.sum_map_add, ← List.sum_map_mul_right]
    exact congrArg List.sum (List.map_congr_left fun e _ => by ring)
  have hle : ∀ e ∈ profile, e.duration ≤ longestWindow profile := fun e he =>
    hwindow e he ▸ Extremes.le_foldl_max_of_mem (List.mem_map_of_mem he)
  rw [hexcess, add_eq_right]
  constructor
  · intro hzero
    have hlongest : ∀ e ∈ profile, e.duration = longestWindow profile := by
      intro e he
      have hterm := Extremes.eq_zero_of_sum_eq_zero
        (List.forall_mem_map.mpr fun x hx =>
          mul_nonneg (hrate x hx).le (sub_nonneg.mpr (hle x hx))) hzero (List.mem_map_of_mem he)
      have hne := (hrate e he).ne'
      have := (mul_eq_zero.mp hterm).resolve_left hne
      omega
    intro e he e' he'
    rw [hlongest e he, hlongest e' he']
  · intro hequal
    refine List.sum_eq_zero (List.forall_mem_map.mpr fun e he => ?_)
    have hlongest : longestWindow profile = e.duration := by
      refine Extremes.foldl_max_eq (hwindow e he ▸ List.mem_map_of_mem he) ?_
        (hvalid e he).duration.le
      exact List.forall_mem_map.mpr fun x hx => (hwindow x hx).trans_le (hequal x hx e he).le
    rw [hlongest, sub_self, mul_zero]

/-- Plateaus alone: their sum is the longest window exactly if there is one
staircase. -/
theorem stepped_volume_iff (hvalid : ∀ e ∈ profile, e.Valid)
    (hrate : ∀ e ∈ profile, 0 < e.throughput) (hne : profile ≠ []) :
    totalVolume profile * longestWindow profile = totalVolume profile * totalWindow profile ↔
      profile.length = 1 := by
  have hpos : 0 < totalVolume profile :=
    List.sum_pos _ (List.forall_mem_map.mpr fun e he => volume_pos (hvalid e he) (hrate e he))
      (by simpa using hne)
  rw [mul_right_inj' hpos.ne', longestWindow, totalWindow,
    Extremes.foldl_max_eq_sum_iff
      (List.forall_mem_map.mpr fun e he => window_pos (hvalid e he)) (by simpa using hne),
    List.length_map]

end Volume

structure VolumeExact (profile : List Entry) : Prop where
  figure : (requestedLoad profile).meanRequestedRate * (requestedLoad profile).durationSeconds =
    (totalVolume profile : ℤ)
  compared : ∀ r : Report, r.requested = requestedLoad profile →
    (shortOfVolume r = true ↔
      (r.achieved.samples : ℚ) < (totalVolume profile : ℤ) * shortfallTolerance)

theorem volumeExact_iff_figure {profile : List Entry} (hne : profile ≠ [])
    (hrate : ∀ e ∈ profile, 0 < e.throughput) :
    VolumeExact profile ↔
      (requestedLoad profile).meanRequestedRate * (longestWindow profile : ℤ) =
        (totalVolume profile : ℤ) := by
  have hduration : (requestedLoad profile).durationSeconds = longestWindow profile := by
    rw [requestedLoad_eq]
  have hthroughput : ¬(requestedLoad profile).throughput ≤ 0 := by
    have hpos : 0 < (profile.map (·.throughput)).sum :=
      List.sum_pos _ (List.forall_mem_map.mpr hrate) (by simpa using hne)
    rw [requestedLoad_eq, not_le]
    exact Int.cast_pos.mpr hpos
  refine ⟨fun h => hduration ▸ h.figure, fun h => ⟨hduration ▸ h, fun r hr => ?_⟩⟩
  rw [shortOfVolume, hr, if_neg hthroughput, decide_eq_true_iff, hduration, h]

def everySecond (duration : ℤ) : Entry :=
  { name := "", scenarioId := 1, concurrency := 1, rampup := 0, engines := 1, throughput := 1
    duration, csvSplit := false, mode := .advanced, steps := 0 }

def threeSteps (scenarioId : ℤ) : Entry :=
  { everySecond 60 with scenarioId, throughput := 10, mode := .staircase, steps := 3 }

end Honryu.Report
