import Honryu.Quota.Reservation
import Mathlib.Data.List.Sort

/-!
The quota service: whether a reservation fits a tenant's ceiling on a cluster.

`Reserve` is given here as it runs when nothing else happens meanwhile. What it asks
of the rest of the system is which executions are running, and to stop one.
-/

namespace Honryu.Quota

/-! ### Ceilings -/

/-- `DefaultCeiling`: the ceiling of a tenant that has no row. -/
def defaultCeiling : ℤ := 10

/-- `Quota`: the stored ceiling, and whether there is a row at all. `SetQuota`
refuses a negative ceiling. -/
structure QuotaRow where
  ceiling : ℤ
  configured : Bool
  nonneg : 0 ≤ ceiling

/-- The ceiling that `Reserve` checks against. -/
def QuotaRow.effective (q : QuotaRow) : ℤ := if q.configured then q.ceiling else defaultCeiling

theorem QuotaRow.effective_nonneg (q : QuotaRow) : 0 ≤ q.effective := by
  rw [effective]
  split
  · exact q.nonneg
  · decide

/-! ### What can come of a call -/

/-- `OverQuotaError` carries the figures of a rejection. -/
structure OverQuotaError where
  tenantId : ℤ
  cluster : String
  requested : ℤ
  used : ℤ
  ceiling : ℤ
  zeroCeiling : Bool
  deriving DecidableEq

inductive ReserveError
  | invalid (e : ReservationError)
  | overQuota (e : OverQuotaError)
  | stop (message : String)
  | store (message : String)
  deriving DecidableEq

/-- A request that `Validate` accepts. -/
abbrev Request := { r : Reservation // r.Valid }

theorem Request.positive (q : Request) : 0 < q.1.engineCount :=
  (Reservation.valid_iff.mp q.2).1

theorem Request.start_lt_end (q : Request) : q.1.startTime < q.1.endTime :=
  (Reservation.valid_iff.mp q.2).2

/-- What comes of asking to stop an execution: nothing is wired that could, it
fails, or the run is stopped, and its reservations are released unless that fails. -/
inductive StopOutcome
  | noStopper
  | failed (message : String)
  | stopped (released : Bool)
  deriving DecidableEq

structure World (p : Precision) where
  ledger : Ledger p
  running : ℤ → Bool

def World.stop {p : Precision} (w : World p) (executionId : ℤ) (released : Bool) : World p :=
  { ledger := if released then w.ledger.release executionId else w.ledger
    running := Function.update w.running executionId false }

abbrev Stopper (p : Precision) := World p → ℤ → StopOutcome

/-- `Stop` of the life cycle, which refuses if there is no run to stop. -/
def lifecycleStop {p : Precision} : Stopper p := fun w executionId =>
  if w.running executionId then .stopped true else .failed "run: not running"

/-! ### Used capacity -/

section Used

variable {p : Precision} (w : World p) (now : ℤ) (tenantId : ℤ) (cluster : String)

/-- `overrunReservations`: their declared end has passed and their execution is
still running. -/
def overrunReservations : List Reservation :=
  (w.ledger.forTenant tenantId cluster).filter fun r => r.endTime < now ∧ w.running r.executionId

/-- `usedCapacity` is the engine count already committed for a window, and the
overrunning reservations that are part of it. -/
def usedCapacity (startTime endTime : ℤ) : ℤ × List Reservation :=
  let existing := w.ledger.inWindow tenantId cluster startTime endTime
  let overrun := overrunReservations w now tenantId cluster
  ((existing.map (·.engineCount)).sum + (overrun.map (·.engineCount)).sum, overrun)

end Used

/-! ### Reserving -/

section Reserve

variable {p : Precision} (stopper : Stopper p)

/-- The loop of `reclaimOverrun`: it stops executions until enough has been freed or
there are none left. -/
def reclaim (needed : ℤ) : World p → ℤ → List Reservation → World p × Except ReserveError ℤ
  | w, freed, [] => (w, .ok freed)
  | w, freed, r :: rest =>
      if needed ≤ freed then (w, .ok freed)
      else
        match stopper w r.executionId with
        | .noStopper => (w, .ok freed)
        | .failed message => (w, .error (.stop message))
        | .stopped released =>
            reclaim needed (w.stop r.executionId released) (freed + r.engineCount) rest

/-- `reclaimOverrun` goes by the declared end, the earliest first. -/
def reclaimOverrun (w : World p) (overrun : List Reservation) (needed : ℤ) :
    World p × Except ReserveError ℤ :=
  reclaim stopper needed w 0 (overrun.insertionSort fun r r' => r.endTime ≤ r'.endTime)

def overQuota (q : Request) (used ceiling : ℤ) : OverQuotaError :=
  { tenantId := q.1.tenantId, cluster := q.1.cluster, requested := q.1.engineCount, used, ceiling
    zeroCeiling := ceiling = 0 }

/-- The last part of `Reserve`: the reservation is created if it fits. -/
def settle (w : World p) (q : Request) (ceiling used : ℤ) :
    World p × Except ReserveError Reservation :=
  if ceiling < used + q.1.engineCount then (w, .error (.overQuota (overQuota q used ceiling)))
  else
    ({ w with ledger := w.ledger.create q.1 q.positive },
      .ok { q.1 with id := w.ledger.nextId })

/-- What `Reserve` does once it has tried to reclaim. -/
def afterReclaim (q : Request) (ceiling used : ℤ) :
    World p × Except ReserveError ℤ → World p × Except ReserveError Reservation
  | (w, .error e) => (w, .error e)
  | (w, .ok freed) => settle w q ceiling (used - freed)

/-- What `Reserve` does under the tenant's lock. The clock is read twice, for what
overruns and for whether the request starts now. -/
def reserveLocked (ceiling now now' : ℤ) (w : World p) (q : Request) :
    World p × Except ReserveError Reservation :=
  let (used, overrun) :=
    usedCapacity w now q.1.tenantId q.1.cluster q.1.startTime q.1.endTime
  if ceiling < used + q.1.engineCount ∧ q.1.startTime ≤ now' then
    afterReclaim q ceiling used
      (reclaimOverrun stopper w overrun (used + q.1.engineCount - ceiling))
  else settle w q ceiling used

/-- `Reserve` admits a new reservation if it fits the ceiling. -/
def reserve (quota : QuotaRow) (now now' : ℤ) (w : World p) (r : Reservation) :
    World p × Except ReserveError Reservation :=
  match h : r.validate with
  | .error e => (w, .error (.invalid e))
  | .ok () => reserveLocked stopper quota.effective now now' w ⟨r, h⟩

theorem reserve_of_valid (quota : QuotaRow) (now now' : ℤ) (w : World p) (q : Request) :
    reserve stopper quota now now' w q.1 = reserveLocked stopper quota.effective now now' w q := by
  unfold reserve
  split
  case h_1 e he =>
    have hvalid : q.1.validate = .ok () := q.2
    rw [hvalid] at he
    cases he
  case h_2 => rfl

end Reserve

end Honryu.Quota
