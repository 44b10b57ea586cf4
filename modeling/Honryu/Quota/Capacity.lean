import Honryu.Quota.Service
import Mathlib.Algebra.BigOperators.Group.Multiset.Basic

/-!
How the used capacity compares with what is in use.

`Reserve` compares the ceiling with the sum of all reservations that overlap the
window it is asked for, as if they were all in force at once. And a reservation that
ends between the start of the request and the moment the clock is read counts as
overlapping and as overrunning.
-/

namespace Honryu.Quota

variable {p : Precision}

/-! ### Rejecting -/

section Exact

variable (stopper : Stopper p) (quota : QuotaRow) (w : World p) (q : Request) (now now' : ℤ)

/-- The reservations that overlap a request, and its own engines, fit the ceiling
together. -/
def FitsTogether : Prop :=
  ((w.ledger.inWindow q.1.tenantId q.1.cluster q.1.startTime q.1.endTime).map
    (·.engineCount)).sum + q.1.engineCount ≤ quota.effective

def ExceedsAt (t : ℤ) : Prop := quota.effective < w.ledger.load q.1.key t + q.1.engineCount

def startsWithin : List ℤ :=
  window.steps (w.ledger.forTenant q.1.tenantId q.1.cluster) q.1.startTime q.1.endTime

instance (t : ℤ) : Decidable (ExceedsAt quota w q t) := inferInstanceAs (Decidable (_ < _))

/-- A rejection means that the ceiling would have been exceeded at some instant of
the window. -/
def RejectionExact : Prop :=
  ∀ e, (reserve stopper quota now now' w q.1).2 = .error (.overQuota e) →
    ∃ t, q.1.startTime ≤ t ∧ t < q.1.endTime ∧ ExceedsAt quota w q t

variable {stopper quota w q now now'}

theorem reserve_of_no_overrun
    (hnone : overrunReservations w now q.1.tenantId q.1.cluster = []) :
    reserve stopper quota now now' w q.1 =
      settle w q quota.effective
        ((w.ledger.inWindow q.1.tenantId q.1.cluster q.1.startTime q.1.endTime).map
          (·.engineCount)).sum := by
  have hreclaim : ∀ needed, reclaimOverrun stopper w [] needed = (w, .ok 0) := fun _ => rfl
  rw [reserve_of_valid, reserveLocked, usedCapacity, hnone]
  simp only [hreclaim, afterReclaim, ite_self, List.map_nil, List.sum_nil, add_zero, sub_zero]

theorem exists_overQuota_iff
    (hnone : overrunReservations w now q.1.tenantId q.1.cluster = []) :
    (∃ e, (reserve stopper quota now now' w q.1).2 = .error (.overQuota e)) ↔
      ¬FitsTogether quota w q := by
  rw [reserve_of_no_overrun hnone, settle, FitsTogether, not_le]
  split
  case isTrue h => exact ⟨fun _ => h, fun _ => ⟨_, rfl⟩⟩
  case isFalse h => exact ⟨nofun, fun h' => absurd h' h⟩

/-- If the ceiling is exceeded within the window at all, it is so where something
starts. -/
theorem exceedsAt_starts_iff :
    (∃ t, q.1.startTime ≤ t ∧ t < q.1.endTime ∧ ExceedsAt quota w q t) ↔
      ∃ t ∈ startsWithin w q, ExceedsAt quota w q t := by
  constructor
  · rintro ⟨t, hlo, hhi, hexceeds⟩
    have hweight : ∀ r ∈ w.ledger.forTenant q.1.tenantId q.1.cluster, 0 ≤ window.weight r :=
      fun r hr => (w.ledger.positive_forTenant r hr).le
    obtain ⟨t', hstep, hle⟩ := Windows.exists_step_le hweight hlo hhi
    exact ⟨t', hstep, hexceeds.trans_le (Int.add_le_add_right hle _)⟩
  · rintro ⟨t, hstep, hexceeds⟩
    obtain ⟨hlo, hhi⟩ := Windows.mem_steps q.start_lt_end hstep
    exact ⟨t, hlo, hhi, hexceeds⟩

/-- Where nothing overruns, a rejection is exact if and only if the overlapping
reservations fit together with the request, or exceed the ceiling with it at its
start or where one of them starts. -/
theorem rejectionExact_iff (stopper : Stopper p) (quota : QuotaRow) (w : World p) (q : Request)
    (now now' : ℤ) (hnone : overrunReservations w now q.1.tenantId q.1.cluster = []) :
    RejectionExact stopper quota w q now now' ↔
      FitsTogether quota w q ∨ ∃ t ∈ startsWithin w q, ExceedsAt quota w q t := by
  rw [← exceedsAt_starts_iff, or_iff_not_imp_left, ← exists_overQuota_iff hnone]
  exact ⟨fun h ⟨e, he⟩ => h e he, fun h e he => h ⟨e, he⟩⟩

end Exact

def booking (executionId engineCount fromSecond untilSecond : ℤ) : Reservation :=
  { id := 0, tenantId := 1, cluster := "eu", engineCount, startTime := fromSecond * 10 ^ 9
    endTime := untilSecond * 10 ^ 9, executionId }

def noRow : QuotaRow := { ceiling := 0, configured := false, nonneg := le_rfl }

def oneBooking : World .microseconds where
  ledger := Ledger.empty.create (booking 1 8 0 20) (by decide)
  running _ := false

def twoHalves : World .microseconds where
  ledger :=
    (Ledger.empty.create (booking 1 5 0 10) (by decide)).create (booking 2 5 10 20) (by decide)
  running _ := false

theorem rejectionExact_oneBooking :
    RejectionExact lifecycleStop noRow oneBooking ⟨booking 3 5 10 30, by decide⟩ 0 0 :=
  (rejectionExact_iff lifecycleStop noRow oneBooking ⟨booking 3 5 10 30, by decide⟩ 0 0
    (by decide)).mpr (.inr ⟨10 * 10 ^ 9, by decide, by decide⟩)

/-- Five engines for the whole of the twenty seconds would make ten at every
instant, which is the ceiling. They are rejected. -/
theorem not_rejectionExact_twoHalves :
    let q : Request := ⟨booking 3 5 0 20, by decide⟩
    overrunReservations twoHalves 0 1 "eu" = [] ∧
      (reserve lifecycleStop noRow 0 0 twoHalves q.1).2 =
        .error (.overQuota
          { tenantId := 1, cluster := "eu", requested := 5, used := 10, ceiling := 10
            zeroCeiling := false }) ∧
      ¬RejectionExact lifecycleStop noRow twoHalves q 0 0 := by
  intro q
  have hrejected : (reserve lifecycleStop noRow 0 0 twoHalves q.1).2 =
      .error (.overQuota
        { tenantId := 1, cluster := "eu", requested := 5, used := 10, ceiling := 10
          zeroCeiling := false }) := by
    decide
  refine ⟨by decide, hrejected, fun h => ?_⟩
  obtain ⟨t, hstart, hexceeds⟩ := exceedsAt_starts_iff.mp (h _ hrejected)
  have hnever : ∀ t ∈ startsWithin twoHalves q, ¬ExceedsAt noRow twoHalves q t := by decide
  exact hnever t hstart hexceeds

/-! ### Counting once -/

section Once

variable (w : World p) (now : ℤ) (tenantId : ℤ) (cluster : String) (startTime endTime : ℤ)

/-- No reservation both overlaps and overruns, and the used capacity is what the
reservations that do either take. -/
structure CountedOnce : Prop where
  disjoint : ∀ r ∈ w.ledger.inWindow tenantId cluster startTime endTime,
    r ∉ overrunReservations w now tenantId cluster
  used : (usedCapacity w now tenantId cluster startTime endTime).1 =
    (((w.ledger.forTenant tenantId cluster).filter fun r =>
      (startTime < r.endTime ∧ r.startTime < endTime) ∨
        (r.endTime < now ∧ w.running r.executionId)).map (·.engineCount)).sum

theorem sum_filter_add_sum_filter {P Q : Reservation → Prop} [DecidablePred P] [DecidablePred Q]
    {l : List Reservation} (h : ∀ r ∈ l, P r → ¬Q r) :
    ((l.filter P).map (·.engineCount)).sum + ((l.filter Q).map (·.engineCount)).sum =
      ((l.filter fun r => P r ∨ Q r).map (·.engineCount)).sum := by
  have hboth : Multiset.filter (fun r => P r ∧ Q r) (l : Multiset Reservation) = 0 :=
    Multiset.filter_eq_nil.mpr fun r hr hPQ => h r hr hPQ.1 hPQ.2
  have hsum := congrArg (fun s => (s.map Reservation.engineCount).sum)
    (Multiset.filter_add_filter (p := P) (q := Q) (l : Multiset Reservation))
  rw [hboth] at hsum
  simpa using hsum

/-- Each reservation is counted once exactly if none whose execution is running has
ended after the start of the request and before the clock was read. -/
theorem countedOnce_iff :
    CountedOnce w now tenantId cluster startTime endTime ↔
      ∀ r ∈ w.ledger.forTenant tenantId cluster,
        startTime < r.endTime → r.endTime < now → r.startTime < endTime →
          w.running r.executionId = false := by
  have hwindow : w.ledger.inWindow tenantId cluster startTime endTime =
      (w.ledger.forTenant tenantId cluster).filter fun r =>
        startTime < r.endTime ∧ r.startTime < endTime :=
    w.ledger.inWindow_eq_filter tenantId cluster startTime endTime
  constructor
  · intro h r hr hends hbefore hstarts
    have hmem : r ∈ w.ledger.inWindow tenantId cluster startTime endTime := by
      rw [hwindow]
      exact List.mem_filter.mpr ⟨hr, decide_eq_true ⟨hends, hstarts⟩⟩
    by_contra hrunning
    refine h.disjoint r hmem (List.mem_filter.mpr ⟨hr, decide_eq_true ⟨hbefore, ?_⟩⟩)
    simpa using hrunning
  · intro h
    have hdisjoint : ∀ r ∈ w.ledger.forTenant tenantId cluster,
        (startTime < r.endTime ∧ r.startTime < endTime) →
          ¬(r.endTime < now ∧ w.running r.executionId = true) := by
      rintro r hr ⟨hends, hstarts⟩ ⟨hbefore, hrunning⟩
      rw [h r hr hends hbefore hstarts] at hrunning
      cases hrunning
    refine ⟨fun r hr hoverrun => ?_, ?_⟩
    · rw [hwindow, List.mem_filter, decide_eq_true_iff] at hr
      exact hdisjoint r hr.1 hr.2 (decide_eq_true_iff.mp (List.mem_filter.mp hoverrun).2)
    · rw [usedCapacity, hwindow, overrunReservations]
      exact sum_filter_add_sum_filter hdisjoint

end Once

def runsOn : World .microseconds where
  ledger := Ledger.empty.create (booking 1 4 0 11) (by decide)
  running executionId := executionId = 1

/-- A request that starts in the tenth second, looked at in the twelfth: the four
engines count as eight. -/
theorem not_countedOnce_runsOn :
    (10 : ℤ) * 10 ^ 9 ≤ 12 * 10 ^ 9 ∧
      (usedCapacity runsOn (12 * 10 ^ 9) 1 "eu" (10 * 10 ^ 9) (70 * 10 ^ 9)).1 = 8 ∧
      ¬CountedOnce runsOn (12 * 10 ^ 9) 1 "eu" (10 * 10 ^ 9) (70 * 10 ^ 9) :=
  ⟨by decide, by decide, fun h => absurd h.used (by decide)⟩

end Honryu.Quota
