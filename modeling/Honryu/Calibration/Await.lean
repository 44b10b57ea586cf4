import Honryu.Calibration.Advance

/-!
How long a step waits for the report of its run.

`awaitReport` asks for the report again and again, until it is there or five minutes are over.
How long the run itself takes is up to the spec.
-/

namespace Honryu.Calibration

open Call
open Report (Report)

/-! ### A loop that waits -/

/-- What a question takes in nanoseconds: asking for a report, reading the clock after that, and
sleeping, on top of what was to be slept. -/
structure Delay where
  asking : ℕ
  reading : ℕ
  oversleeping : ℕ

/-- What answers a loop that waits, where the report is stored at some instant. It keeps the time. -/
def waiting (stored : ℤ) (report : Report) : Server Answer Failure ℤ Delay where
  perform d
    | .now, clock => (.ok (clock + d.reading), clock + d.reading)
    | .getReport _, clock =>
        (if stored ≤ clock + d.asking then .ok report else .error .notFound, clock + d.asking)
    | .sleep duration, clock => (.ok (), clock + duration + d.oversleeping)
    | _, clock => (.error .storage, clock)
  failure := failureOf

section Await

variable {stored lag : ℤ} {report : Report} {runId deadline clock : ℤ} {had : Delay → Prop}
  {Q : Except Failure Report → ℤ → Prop}

/-- One poll: the report is there, or it is too late, or there is another poll. -/
theorem smoothly_reportUntil_succ {polls : ℕ}
    (hfound : ∀ d, had d → stored ≤ clock + d.asking → Q (.ok report) (clock + d.asking))
    (hmissing : ∀ d d', had d → had d' → clock + d.asking < stored →
      clock + d.asking + d'.reading ≤ deadline ∧ ∀ d'', had d'' →
        (reportUntil runId deadline polls).Smoothly (waiting stored report) had
          (clock + d.asking + d'.reading + pollInterval + d''.oversleeping) Q) :
    (reportUntil runId deadline (polls + 1)).Smoothly (waiting stored report) had clock Q := by
  refine Smoothly.attempt_need_bind fun d hd => ?_
  by_cases hstored : stored ≤ clock + d.asking
  · simp only [waiting, if_pos hstored]
    exact hfound d hd hstored
  · simp only [waiting, if_neg hstored]
    refine Smoothly.need_bind fun d' hd' => ⟨_, rfl, ?_⟩
    obtain ⟨htime, hagain⟩ := hmissing d d' hd hd' (not_le.mp hstored)
    rw [if_neg (not_lt.mpr htime)]
    exact Smoothly.need_bind fun d'' hd'' => ⟨_, rfl, hagain d'' hd''⟩

/-- A report that comes early enough is found. As long as it is missing there is time left, and
with every poll two seconds have gone by. -/
theorem smoothly_reportUntil (hroom : stored - 1 + lag ≤ deadline) {polls : ℕ}
    (hpolls : stored ≤ clock + pollInterval * polls) :
    (reportUntil runId deadline (polls + 1)).Smoothly (waiting stored report)
      (fun d => d.reading ≤ lag) clock fun r _ => r = .ok report := by
  induction polls generalizing clock with
  | zero =>
      refine smoothly_reportUntil_succ (fun _ _ _ => rfl) fun d d' _ _ hmissing => ?_
      rw [Nat.cast_zero, mul_zero] at hpolls
      omega
  | succ polls ih =>
      refine smoothly_reportUntil_succ (fun _ _ _ => rfl) fun d d' _ hd' hmissing =>
        ⟨by omega, fun d'' _ => ih ?_⟩
      rw [pollInterval] at hpolls ⊢
      push_cast at hpolls
      omega

theorem smoothly_awaitReport (hroom : stored - 1 + lag ≤ clock + stepReportTimeout) :
    (awaitReport runId).Smoothly (waiting stored report) (fun d => d.reading ≤ lag) clock
      fun r _ => r = .ok report := by
  refine Smoothly.need_bind fun d hd => ⟨_, rfl, smoothly_reportUntil ?_ ?_⟩
  · show stored - 1 + lag ≤ clock + d.reading + stepReportTimeout
    omega
  · have hpolls : pollInterval * (pollsWithin stepReportTimeout : ℕ) =
        stepReportTimeout + pollInterval := by decide
    show stored ≤ clock + d.reading + pollInterval * (pollsWithin stepReportTimeout : ℕ)
    rw [hpolls, pollInterval]
    omega

end Await

/-! ### Healthy runs -/

/-- How long the run of a step takes at the most if nothing is wrong with it: its ramp-up, its
hold, and a minute until its report is stored. -/
def Spec.healthyFor (spec : Spec) : ℤ := (stepRampupSeconds + spec.holdSeconds + 60) * 10 ^ 9

structure HealthyRun (spec : Spec) where
  id : ℤ
  report : Report
  triggered : ℤ
  stored : ℤ
  stored_le : stored ≤ triggered + spec.healthyFor

/-- The report of a healthy run is returned, whenever `awaitReport` is called after the run was
triggered, and whatever the questions take, if only reading the clock never takes longer than
this. -/
def NotTimedOut (spec : Spec) (lag : ℕ) : Prop :=
  ∀ (run : HealthyRun spec) (begins : ℤ) (delays : ℕ → Delay), run.triggered ≤ begins →
    (∀ n, (delays n).reading ≤ lag) →
    ((awaitReport run.id).alone (waiting run.stored run.report) delays none begins).result =
      some (.ok run.report)

def oversleeps (stored lag : ℕ) : ℕ → Delay
  | 3 => ⟨0, 0, stored - 1 - pollInterval.toNat⟩
  | 5 => ⟨0, lag, 0⟩
  | _ => ⟨0, 0, 0⟩

theorem oversleeps_reading_le (stored lag n : ℕ) : (oversleeps stored lag n).reading ≤ lag := by
  unfold oversleeps
  split
  · exact Nat.zero_le lag
  · exact le_refl lag
  · exact Nat.zero_le lag

section Oversleeps

variable {runId deadline clock stored : ℤ} {report : Report} {delays : ℕ → Delay} {polls : ℕ}

theorem alone_reportUntil_missing (hmissing : clock + (delays 0).asking < stored) :
    (reportUntil runId deadline (polls + 1)).alone (waiting stored report) delays none clock =
      (pollAgain deadline .neverSettled (reportUntil runId deadline polls)).alone
        (waiting stored report) (fun n => delays (n + 1)) none (clock + (delays 0).asking) := by
  rw [reportUntil, alone_attempt_need_bind]
  simp only [waiting, if_neg (not_le.mpr hmissing)]

theorem alone_pollAgain_of_le {again : Proc Report} (htime : clock + (delays 0).reading ≤ deadline) :
    (pollAgain deadline .neverSettled again).alone (waiting stored report) delays none clock =
      again.alone (waiting stored report) (fun n => delays (n + 2)) none
        (clock + (delays 0).reading + pollInterval + (delays 1).oversleeping) := by
  rw [pollAgain, alone_need_bind _ _ rfl, if_neg (not_lt.mpr htime), alone_need_bind _ _ rfl]
  rfl

theorem alone_pollAgain_of_lt {again : Proc Report} (htime : deadline < clock + (delays 0).reading) :
    ((pollAgain deadline .neverSettled again).alone (waiting stored report) delays none
      clock).result = some (.error .neverSettled) := by
  rw [pollAgain, alone_need_bind _ _ rfl, if_pos htime]
  rfl

/-- What `awaitReport` does if it oversleeps: the second poll is the last one. -/
theorem alone_awaitReport_oversleeps {stored lag : ℕ} (hlong : pollInterval < stored)
    (hlate : stepReportTimeout < stored - 1 + lag) :
    ((awaitReport runId).alone (waiting stored report) (oversleeps stored lag) none 0).result =
      some (.error .neverSettled) := by
  have hsleep : pollInterval + (stored - 1 - pollInterval.toNat : ℕ) = (stored : ℤ) - 1 := by
    rw [pollInterval] at hlong ⊢
    omega
  rw [awaitReport, alone_need_bind _ _ rfl, pollsWithin, alone_reportUntil_missing,
    alone_pollAgain_of_le, alone_reportUntil_missing, alone_pollAgain_of_lt]
  · show 0 + 0 + stepReportTimeout < 0 + 0 + 0 + 0 + pollInterval +
      (stored - 1 - pollInterval.toNat : ℕ) + 0 + lag
    omega
  · show 0 + 0 + 0 + 0 + pollInterval + (stored - 1 - pollInterval.toNat : ℕ) + 0 < (stored : ℤ)
    omega
  · show (0 : ℤ) + 0 + 0 + 0 ≤ 0 + 0 + stepReportTimeout
    decide
  · show (0 : ℤ) + 0 + 0 < stored
    rw [pollInterval] at hlong
    omega

end Oversleeps

/-- A step is not timed out while its run is healthy, just if the spec does not ask for a run that
takes longer than `awaitReport` waits. -/
theorem notTimedOut_iff (spec : Spec) (hvalid : spec.validate = .ok ()) (lag : ℕ) :
    NotTimedOut spec lag ↔ spec.healthyFor - 1 + lag ≤ stepReportTimeout := by
  have hhold := ((Spec.validate_eq_ok spec).mp hvalid).holdSeconds
  constructor
  · intro h
    by_contra hlate
    -- the run that takes as long as a healthy run may
    obtain ⟨stored, hstored⟩ : ∃ stored : ℕ, spec.healthyFor = stored :=
      Int.eq_ofNat_of_zero_le (by rw [Spec.healthyFor, stepRampupSeconds]; omega)
    let run : HealthyRun spec :=
      { id := 0, report := healthyReport, triggered := 0, stored := stored, stored_le := by omega }
    have hfound := h run 0 (oversleeps stored lag) (le_refl 0) (oversleeps_reading_le stored lag)
    rw [alone_awaitReport_oversleeps] at hfound
    · cases hfound
    · rw [← hstored, Spec.healthyFor, stepRampupSeconds, pollInterval]
      omega
    · omega
  · intro hroom run begins delays hbegins hlag
    have hstored := run.stored_le
    have hwait : (awaitReport run.id).Smoothly (waiting run.stored run.report)
        (fun d => (d.reading : ℤ) ≤ lag) begins fun r _ => r = .ok run.report :=
      smoothly_awaitReport (by omega)
    obtain ⟨r, hr, rfl⟩ := hwait.alone delays fun n => by exact_mod_cast hlag n
    exact hr

def holdSpec (holdSeconds : ℤ) : Spec := { Search.defaultSpec with holdSeconds := holdSeconds }

theorem notTimedOut_twoMinutes :
    (holdSpec 120).validate = .ok () ∧ NotTimedOut (holdSpec 120) (10 ^ 9) :=
  have hvalid : (holdSpec 120).validate = .ok () := by decide +kernel
  ⟨hvalid, (notTimedOut_iff (holdSpec 120) hvalid (10 ^ 9)).mpr (by decide)⟩

/-- A hold of ten minutes. The report is stored as soon as the hold is over, and all questions are
answered at once. -/
theorem not_notTimedOut_tenMinutes :
    (holdSpec 600).validate = .ok () ∧ ¬NotTimedOut (holdSpec 600) 0 := by
  refine ⟨by decide +kernel, fun h => ?_⟩
  let run : HealthyRun (holdSpec 600) :=
    { id := 1, report := healthyReport, triggered := 0, stored := 605 * 10 ^ 9
      stored_le := by decide }
  have hfound := h run 0 (fun _ => ⟨0, 0, 0⟩) (le_refl 0) fun _ => le_refl 0
  have hlate : ((awaitReport run.id).alone (waiting run.stored run.report) (fun _ => ⟨0, 0, 0⟩) none
      0).result.map Except.isOk = some false := by decide +kernel
  rw [hfound] at hlate
  cases hlate

end Honryu.Calibration
