import Honryu.Lib.Windows
import Mathlib.Algebra.Order.Ring.Int
import Mathlib.Data.List.Nodup

/-!
Reservations of engine capacity, and the ledger they are kept in.

An instant is a number of nanoseconds. A store keeps it to its own precision; the
SQL store rounds it to microseconds.
-/

namespace Honryu.Quota

/-! ### Reservations -/

/-- `Reservation` is a tenant's claim on engine capacity for a bounded window. -/
structure Reservation where
  id : ℤ
  tenantId : ℤ
  cluster : String
  engineCount : ℤ
  startTime : ℤ
  endTime : ℤ
  executionId : ℤ
  deriving DecidableEq

inductive ReservationError
  | engineCountInvalid
  | windowInvalid
  deriving DecidableEq

namespace Reservation

/-- `Validate` checks a reservation's own invariants. -/
def validate (r : Reservation) : Except ReservationError Unit :=
  if r.engineCount ≤ 0 then .error .engineCountInvalid
  else if ¬r.startTime < r.endTime then .error .windowInvalid
  else .ok ()

def Valid (r : Reservation) : Prop := r.validate = .ok ()

theorem valid_iff {r : Reservation} : r.Valid ↔ 0 < r.engineCount ∧ r.startTime < r.endTime := by
  unfold Valid validate
  by_cases hcount : r.engineCount ≤ 0
  · simp [hcount, not_lt.mpr hcount]
  · by_cases hwindow : r.startTime < r.endTime
    · simp [hcount, hwindow, not_le.mp hcount]
    · simp [hcount, hwindow]

instance (r : Reservation) : Decidable r.Valid := decidable_of_iff _ valid_iff.symm

/-- `Overlaps`: the windows share an instant. They are half-open. -/
def overlaps (r other : Reservation) : Bool :=
  r.startTime < other.endTime ∧ other.startTime < r.endTime

def key (r : Reservation) : ℤ × String := (r.tenantId, r.cluster)

end Reservation

def engines (rs : List Reservation) : ℤ := (rs.map (·.engineCount)).sum

@[simp] theorem engines_cons (r : Reservation) (rs : List Reservation) :
    engines (r :: rs) = r.engineCount + engines rs := rfl

def window : Windows Reservation ℤ ℤ where
  lo := Reservation.startTime
  hi := Reservation.endTime
  weight := Reservation.engineCount

/-! ### The ledger -/

structure Precision where
  round : ℤ → ℤ
  mono : ∀ s t, s ≤ t → round s ≤ round t
  round_round : ∀ t, round (round t) = round t

/-- A `DATETIME(6)` column. -/
def Precision.microseconds : Precision where
  round t := (t + 500) / 1000 * 1000
  mono s t h := by omega
  round_round t := by omega

/-- The reservations of all tenants. Their ids are their own, each takes some
capacity, and their instants are such as the store keeps. -/
structure Ledger (p : Precision) where
  rows : List Reservation
  nextId : ℤ
  id_lt : ∀ r ∈ rows, r.id < nextId
  nodup : (rows.map (·.id)).Nodup
  positive : ∀ r ∈ rows, 0 < r.engineCount
  start_round : ∀ r ∈ rows, p.round r.startTime = r.startTime
  end_round : ∀ r ∈ rows, p.round r.endTime = r.endTime

namespace Ledger

variable {p : Precision} (l : Ledger p)

def empty : Ledger p :=
  { rows := [], nextId := 1, id_lt := by simp, nodup := by simp, positive := by simp
    start_round := by simp, end_round := by simp }

def stored (r : Reservation) : Reservation :=
  { r with id := l.nextId, startTime := p.round r.startTime, endTime := p.round r.endTime }

/-- `CreateReservation` of a reservation that takes some capacity. -/
def create (r : Reservation) (hr : 0 < r.engineCount) : Ledger p where
  rows := l.rows ++ [l.stored r]
  nextId := l.nextId + 1
  id_lt := by
    intro x hx
    rcases List.mem_append.mp hx with hx | hx
    · exact (l.id_lt x hx).trans (lt_add_one _)
    · rw [List.mem_singleton.mp hx]
      exact lt_add_one _
  nodup := by
    rw [List.map_append, List.map_singleton]
    refine l.nodup.append (List.nodup_singleton _) (List.disjoint_singleton.mpr fun hmem => ?_)
    obtain ⟨x, hx, hid⟩ := List.mem_map.mp hmem
    exact (l.id_lt x hx).ne hid
  positive := List.forall_mem_append.mpr ⟨l.positive, by simpa [stored] using hr⟩
  start_round := List.forall_mem_append.mpr
    ⟨l.start_round, by simpa [stored] using p.round_round r.startTime⟩
  end_round := List.forall_mem_append.mpr
    ⟨l.end_round, by simpa [stored] using p.round_round r.endTime⟩

/-- The ledger without the rows that are not kept. -/
def keep (kept : Reservation → Bool) : Ledger p where
  rows := l.rows.filter kept
  nextId := l.nextId
  id_lt r hr := l.id_lt r (List.mem_of_mem_filter hr)
  nodup := l.nodup.sublist (List.filter_sublist.map _)
  positive r hr := l.positive r (List.mem_of_mem_filter hr)
  start_round r hr := l.start_round r (List.mem_of_mem_filter hr)
  end_round r hr := l.end_round r (List.mem_of_mem_filter hr)

/-- `ErrNotFound`. -/
inductive NotFound
  | notFound
  deriving DecidableEq

/-- `DeleteReservation` removes the reservation with an id. -/
def delete (id : ℤ) : Except NotFound (Ledger p) :=
  if id ∈ l.rows.map (·.id) then .ok (l.keep fun r => r.id ≠ id) else .error .notFound

/-- `ReleaseReservationsForExecution` deletes every reservation of an execution. -/
def release (executionId : ℤ) : Ledger p := l.keep fun r => r.executionId ≠ executionId

/-- `ReservationsForTenant`, of a tenant on a cluster. -/
def forTenant (tenantId : ℤ) (cluster : String) : List Reservation :=
  l.rows.filter fun r => r.tenantId = tenantId ∧ r.cluster = cluster

/-- `ReservationsInWindow`: those that overlap a window. -/
def inWindow (tenantId : ℤ) (cluster : String) (startTime endTime : ℤ) : List Reservation :=
  l.rows.filter fun r => r.tenantId = tenantId ∧ r.cluster = cluster ∧
    r.startTime < endTime ∧ startTime < r.endTime

def load (key : ℤ × String) (t : ℤ) : ℤ := window.load (l.forTenant key.1 key.2) t

/-! ### What the queries find -/

theorem mem_forTenant {tenantId : ℤ} {cluster : String} {r : Reservation} :
    r ∈ l.forTenant tenantId cluster ↔ r ∈ l.rows ∧ r.key = (tenantId, cluster) := by
  rw [forTenant, List.mem_filter, decide_eq_true_iff, Reservation.key, Prod.mk.injEq]

theorem positive_forTenant {tenantId : ℤ} {cluster : String} :
    ∀ r ∈ l.forTenant tenantId cluster, 0 < r.engineCount :=
  fun r hr => l.positive r (List.mem_of_mem_filter hr)

theorem inWindow_eq_filter (tenantId : ℤ) (cluster : String) (startTime endTime : ℤ) :
    l.inWindow tenantId cluster startTime endTime =
      (l.forTenant tenantId cluster).filter (window.meets startTime endTime) := by
  rw [inWindow, forTenant, List.filter_filter]
  refine List.filter_congr fun r _ => ?_
  rw [Windows.meets, ← Bool.decide_and]
  exact decide_eq_decide.mpr (by
    simp only [window]
    tauto)

/-- The statement finds what `Overlaps` finds, by which the in-memory store goes. -/
theorem inWindow_eq_overlaps (tenantId : ℤ) (cluster : String) (probe : Reservation) :
    l.inWindow tenantId cluster probe.startTime probe.endTime =
      (l.forTenant tenantId cluster).filter probe.overlaps :=
  l.inWindow_eq_filter tenantId cluster probe.startTime probe.endTime

/-! ### What the operations do to the load -/

theorem forTenant_keep (kept : Reservation → Bool) (tenantId : ℤ) (cluster : String) :
    (l.keep kept).forTenant tenantId cluster = (l.forTenant tenantId cluster).filter kept := by
  rw [forTenant, forTenant, keep, List.filter_comm]

theorem load_keep_le (kept : Reservation → Bool) (key : ℤ × String) (t : ℤ) :
    (l.keep kept).load key t ≤ l.load key t := by
  rw [load, forTenant_keep]
  exact Windows.load_filter_le (fun r hr => (l.positive_forTenant r hr).le) kept t

theorem load_create (r : Reservation) (hr : 0 < r.engineCount) (key : ℤ × String) (t : ℤ) :
    (l.create r hr).load key t = l.load key t +
      if r.key = key ∧ p.round r.startTime ≤ t ∧ t < p.round r.endTime then r.engineCount else 0 := by
  have hrows : (l.create r hr).forTenant key.1 key.2 =
      l.forTenant key.1 key.2 ++ if r.key = key then [l.stored r] else [] := by
    rw [forTenant, create, List.filter_append, ← forTenant]
    by_cases hkey : r.key = key
    · have htenant : r.tenantId = key.1 := congrArg Prod.fst hkey
      have hcluster : r.cluster = key.2 := congrArg Prod.snd hkey
      simp [hkey, stored, htenant, hcluster]
    · have hother : ¬(r.tenantId = key.1 ∧ r.cluster = key.2) := fun h => hkey (Prod.ext h.1 h.2)
      simp [hkey, stored, hother]
  rw [load, load, hrows, Windows.load_append]
  by_cases hkey : r.key = key
  · simp [hkey, Windows.load_cons, Windows.covers, window, stored]
  · simp [hkey]

/-- Reservations in force at an instant of the window as it is stored overlap the
window as it was asked for. -/
theorem load_le_sum_inWindow (r : Reservation) {t : ℤ} (hlo : p.round r.startTime ≤ t)
    (hhi : t < p.round r.endTime) :
    l.load r.key t ≤
      ((l.inWindow r.tenantId r.cluster r.startTime r.endTime).map (·.engineCount)).sum := by
  rw [inWindow_eq_overlaps]
  refine Windows.sum_filter_le (fun x hx => (l.positive_forTenant x hx).le) fun x hx hcovers => ?_
  have hmem := (l.mem_forTenant.mp hx).1
  have hstart := l.start_round x hmem
  have hend := l.end_round x hmem
  obtain ⟨hbegun, hlasts⟩ : x.startTime ≤ t ∧ t < x.endTime := Windows.covers_iff.mp hcovers
  refine decide_eq_true_iff.mpr ⟨?_, ?_⟩
  · by_contra hle
    have := p.mono _ _ (not_lt.mp hle)
    omega
  · by_contra hle
    have := p.mono _ _ (not_lt.mp hle)
    omega

end Ledger

end Honryu.Quota
