import Honryu.Control.Lifecycle

/-!
The calls of the schedule service.
-/

namespace Honryu.Control

open Lifecycle Quota Schedules

variable (cfg : Config)

/-- `horizonDays`, in nanoseconds. -/
def horizon : ℤ := 7 * 24 * 60 * 60 * 10 ^ 9

/-! ### Reserving occurrences -/

/-- The occurrence that is recorded for a fire time: it is reserved with the reservation
that was made for it, or rejected. -/
def occurrenceOf (sc : Schedule) (fireTime : ℤ) (reserved : Except Failure Reservation) :
    Occurrence :=
  match reserved with
  | .ok r =>
      { id := 0, scheduleId := sc.id, fireTime, status := .reserved, reservationId := some r.id }
  | .error _ =>
      { id := 0, scheduleId := sc.id, fireTime, status := .rejected, reservationId := none }

/-- The loop of `reserveOccurrences`. -/
def reserveEach (sc : Schedule) (exe : SizedExecution) : List ℤ → Proc Unit
  | [] => return ()
  | fireTime :: rest => do
      let reserved ← Call.attempt (reserve cfg (occurrenceReservation sc exe fireTime))
      let _ ← query (.createOccurrence (occurrenceOf sc fireTime reserved))
      reserveEach sc exe rest

/-- `reserveOccurrences` reserves and records one occurrence for each fire time. -/
def reserveOccurrences (sc : Schedule) (fireTimes : List ℤ) : Proc Unit := do
  let exe ← query (.getExecution sc.executionId)
  reserveEach cfg sc exe fireTimes

/-- `Create` records a schedule and reserves its first occurrences. -/
def createSchedule (sc : Schedule) : Proc Unit :=
  match sc.validate cfg.parseCron with
  | .error e => Call.fail (.schedule e)
  | .ok () => do
      let scenarios ← query (.loadProfileFor sc.executionId)
      if scenarios.isEmpty then Call.fail .noScenarios
      else
        let fromTime ← query .now
        match sc.occurrences cfg.parseCron fromTime (fromTime + horizon) with
        | .error e => Call.fail (.schedule e)
        | .ok fireTimes =>
            let id ← query (.createSchedule sc)
            reserveOccurrences cfg { sc with id } fireTimes

/-! ### Extending the horizon -/

/-- Where `extendOne` starts: just after the latest occurrence there is, if that is in
the future. -/
def extensionStart (existing : List Occurrence) (now : ℤ) : ℤ :=
  match existing.getLast? with
  | none => now
  | some last => if now < last.fireTime then last.fireTime + 1 else now

/-- The occurrences of a window are reserved. There may be nothing left to do. -/
def extendFrom (sc : Schedule) (fromTime toTime : ℤ) : Proc Unit :=
  if toTime ≤ fromTime then return ()
  else do
    let scenarios ← query (.loadProfileFor sc.executionId)
    if scenarios.isEmpty then Call.fail .noScenarios
    else
      match sc.occurrences cfg.parseCron fromTime toTime with
      | .error e => Call.fail (.schedule e)
      | .ok fireTimes => reserveOccurrences cfg sc fireTimes

/-- What `extendOne` does under the lock of the schedule. -/
def extendLocked (sc : Schedule) (now toTime : ℤ) : Proc Unit := do
  let existing ← query (.occurrencesForSchedule sc.id)
  extendFrom cfg sc (extensionStart existing now) toTime

/-- `extendOne` reserves what a schedule is missing up to the horizon. -/
def extendOne (sc : Schedule) (now toTime : ℤ) : Proc Unit := do
  query (.lockSchedule sc.id)
  let result ← Call.attempt (extendLocked cfg sc now toTime)
  bestEffort (.unlockSchedule sc.id)
  Call.ofResult result

def extendEach (now toTime : ℤ) : List Schedule → Proc (List ℤ)
  | [] => return []
  | sc :: rest => do
      let extended ← Call.attempt (extendOne cfg sc now toTime)
      let failed ← extendEach now toTime rest
      return if extended.isOk then failed else sc.id :: failed

/-- `ExtendHorizons` extends every active recurring schedule. -/
def extendHorizons : Proc Unit := do
  let schedules ← query .listActiveRecurringSchedules
  let now ← query .now
  let failed ← extendEach cfg now (now + horizon) schedules
  let recorded ← Call.attempt (query (.recordHorizonExtension now))
  if failed.isEmpty && recorded.isOk then return ()
  else Call.fail (.horizon failed recorded.isOk)

/-! ### Claiming and deleting -/

/-- `DeleteReservation` of one that may be gone already. -/
def dropReservation (id : ℤ) : Proc Unit := do
  match ← Call.attempt (query (.deleteReservation id)) with
  | .ok () => return ()
  | .error .notFound => return ()
  | .error e => Call.fail e

def dropFor (occ : Occurrence) : Proc Unit :=
  match occ.reservationId with
  | some id => dropReservation id
  | none => return ()

/-- `ClaimDue` claims the earliest occurrence that is due, and gives back what was
reserved for it. -/
def claimDue (now : ℤ) : Proc (Option (Occurrence × Schedule)) := do
  match ← query (.claimDueOccurrence now) with
  | none => return none
  | some occ =>
      dropFor occ
      let sc ← query (.getSchedule occ.scheduleId)
      return some (occ, sc)

/-- The loop of `Delete`. -/
def dropEach : List Occurrence → Proc Unit
  | [] => return ()
  | occ :: rest =>
      if occ.status = .reserved then do
        dropFor occ
        dropEach rest
      else dropEach rest

/-- `Delete` gives back what is reserved for a schedule, and deletes it with its
occurrences. -/
def deleteSchedule (id : ℤ) : Proc Unit := do
  let occs ← query (.occurrencesForSchedule id)
  dropEach occs
  query (.deleteSchedule id)

end Honryu.Control
