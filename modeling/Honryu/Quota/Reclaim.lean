import Honryu.Quota.Capacity

/-!
What `reclaimOverrun` gets back when it stops executions.

The loop goes through reservations, and a stop acts on an execution: the first stop
releases all that the execution holds, and a second one is refused. So it frees what
it counts on as long as the reservations it goes through are of different executions.
-/

namespace Honryu.Quota

variable {p : Precision}

/-! ### Stopping several executions -/

def World.stopAll (w : World p) (executionIds : List ℤ) : World p :=
  executionIds.foldl (fun w executionId => w.stop executionId true) w

@[simp] theorem World.stopAll_nil (w : World p) : w.stopAll [] = w := rfl

@[simp] theorem World.stopAll_cons (w : World p) (executionId : ℤ) (rest : List ℤ) :
    w.stopAll (executionId :: rest) = (w.stop executionId true).stopAll rest := rfl

theorem World.running_stop_self (w : World p) (executionId : ℤ) (released : Bool) :
    (w.stop executionId released).running executionId = false :=
  Function.update_self ..

theorem World.running_stop_of_ne (w : World p) {executionId other : ℤ} (released : Bool)
    (h : other ≠ executionId) : (w.stop executionId released).running other = w.running other :=
  Function.update_of_ne h ..

/-! ### The loop -/

def executions (rs : List Reservation) : List ℤ := rs.map (·.executionId)

@[simp] theorem executions_cons (r : Reservation) (rs : List Reservation) :
    executions (r :: rs) = r.executionId :: executions rs := rfl

/-- If the loop does not fail, it has stopped the executions of the reservations it
went through. They were all running, and so different. -/
theorem reclaim_ok {needed freed freed' : ℤ} {w w' : World p} {rest : List Reservation}
    (h : reclaim lifecycleStop needed w freed rest = (w', .ok freed')) :
    ∃ first, first <+: rest ∧ (executions first).Nodup ∧
      (∀ r ∈ first, w.running r.executionId) ∧
      w' = w.stopAll (executions first) ∧ freed' = freed + engines first := by
  induction rest generalizing w freed with
  | nil =>
      obtain ⟨rfl, rfl⟩ : w = w' ∧ freed = freed' := by simpa [reclaim] using h
      exact ⟨[], List.prefix_rfl, List.nodup_nil, by simp, rfl, by simp [engines]⟩
  | cons r rest ih =>
      rw [reclaim, lifecycleStop] at h
      split at h
      · obtain ⟨rfl, rfl⟩ : w = w' ∧ freed = freed' := by simpa using h
        exact ⟨[], List.nil_prefix, List.nodup_nil, by simp, rfl, by simp [engines]⟩
      · by_cases hrunning : w.running r.executionId
        · simp only [hrunning, if_true] at h
          obtain ⟨first, hpre, hnodup, hall, rfl, rfl⟩ := ih h
          -- what is stopped later was still running after this stop, so it is another one
          have hne : ∀ x ∈ first, x.executionId ≠ r.executionId := by
            intro x hx heq
            have := hall x hx
            rw [heq, World.running_stop_self] at this
            cases this
          refine ⟨r :: first, (List.prefix_cons_inj r).mpr hpre, ?_, ?_, rfl, add_assoc ..⟩
          · refine List.nodup_cons.mpr ⟨fun hmem => ?_, hnodup⟩
            obtain ⟨x, hx, heq⟩ := List.mem_map.mp hmem
            exact hne x hx heq
          · refine List.forall_mem_cons.mpr ⟨hrunning, fun x hx => ?_⟩
            rw [← World.running_stop_of_ne w true (hne x hx)]
            exact hall x hx
        · simp [hrunning] at h

/-- If an initial part of the reservations is of different executions, all of them
running, and comes to what is needed, then the loop goes no further than through it. -/
theorem reclaim_of_enough {needed freed : ℤ} {w : World p} {first rest : List Reservation}
    (hpre : first <+: rest) (hnodup : (executions first).Nodup)
    (hrunning : ∀ r ∈ first, w.running r.executionId) (henough : needed ≤ freed + engines first) :
    ∃ stopped, stopped <+: first ∧ needed ≤ freed + engines stopped ∧
      reclaim lifecycleStop needed w freed rest =
        (w.stopAll (executions stopped), .ok (freed + engines stopped)) := by
  induction first generalizing w freed rest with
  | nil =>
      rw [engines, List.map_nil, List.sum_nil, add_zero] at henough
      refine ⟨[], List.prefix_rfl, by simpa [engines] using henough, ?_⟩
      cases rest <;> simp [reclaim, henough, engines, executions]
  | cons r first ih =>
      obtain ⟨rest, rfl, hrest⟩ : ∃ rest', r :: rest' = rest ∧ first <+: rest' := by
        obtain ⟨tail, rfl⟩ := hpre
        exact ⟨first ++ tail, rfl, List.prefix_append ..⟩
      by_cases hdone : needed ≤ freed
      · refine ⟨[], List.nil_prefix, by simpa [engines] using hdone, ?_⟩
        simp [reclaim, hdone, engines, executions]
      · obtain ⟨hother, hnodup⟩ := List.nodup_cons.mp hnodup
        obtain ⟨hr, hrunning⟩ := List.forall_mem_cons.mp hrunning
        have hstill : ∀ x ∈ first, (w.stop r.executionId true).running x.executionId := by
          intro x hx
          rw [World.running_stop_of_ne]
          · exact hrunning x hx
          · intro heq
            exact hother (List.mem_map.mpr ⟨x, hx, heq⟩)
        rw [engines_cons, ← add_assoc] at henough
        obtain ⟨stopped, hstopped, hneeded, hreclaim⟩ := ih hrest hnodup hstill henough
        refine ⟨r :: stopped, (List.prefix_cons_inj r).mpr hstopped, ?_, ?_⟩
        · rwa [engines_cons, ← add_assoc]
        · simp only [reclaim, hdone, if_false, lifecycleStop, hr, if_true, hreclaim,
            engines_cons, executions_cons, World.stopAll_cons, add_assoc]

/-! ### Reserving -/

theorem eraseDups_eq_self {ids : List ℤ} (hnodup : ids.Nodup) : ids.eraseDups = ids := by
  induction ids with
  | nil => rfl
  | cons id ids ih =>
      obtain ⟨hnotin, hnodup⟩ := List.nodup_cons.mp hnodup
      have hfilter : ids.filter (fun other => !other == id) = ids :=
        List.filter_eq_self.mpr fun other hother => by
          simpa using fun heq : other = id => hnotin (heq ▸ hother)
      rw [List.eraseDups_cons, hfilter, ih hnodup]

/-- Different values at the front of a list are the first of it without duplicates. -/
theorem prefix_eraseDups {ids all : List ℤ} (hpre : ids <+: all) (hnodup : ids.Nodup) :
    ids <+: all.eraseDups := by
  obtain ⟨tail, rfl⟩ := hpre
  rw [List.eraseDups_append, eraseDups_eq_self hnodup]
  exact List.prefix_append ..

section Reclaims

variable (quota : QuotaRow) (w : World p) (q : Request) (now now' : ℤ)

/-- The overrunning reservations that count against a request, in the order of their
declared ends. -/
def overrunByEnd : List Reservation :=
  (overrunReservations w now q.1.tenantId q.1.cluster).insertionSort
    fun r r' => r.endTime ≤ r'.endTime

def overrunExecutions : List ℤ := (executions (overrunByEnd w q now)).eraseDups

/-- What `Reserve` counts as used by others. -/
def usedBefore : ℤ := (usedCapacity w now q.1.tenantId q.1.cluster q.1.startTime q.1.endTime).1

/-- A request that starts now, does not fit, and would fit if all the overrunning
executions were stopped. -/
structure Reclaimable : Prop where
  starts_now : q.1.startTime ≤ now'
  short : quota.effective < usedBefore w q now + q.1.engineCount
  enough : usedBefore (w.stopAll (overrunExecutions w q now)) q now + q.1.engineCount ≤
    quota.effective

/-- `Reserve` stops executions, those of the earliest declared ends and each once,
and succeeds. -/
def ReclaimSucceeds : Prop :=
  ∃ stopped, stopped <+: overrunExecutions w q now ∧
    reserve lifecycleStop quota now now' w q.1 =
      ({ w.stopAll stopped with ledger := (w.stopAll stopped).ledger.create q.1 q.positive },
        .ok { q.1 with id := (w.stopAll stopped).ledger.nextId })

/-- Some of the overrunning reservations, those of the earliest declared ends, are of
different executions and come to what the request is short of. -/
def EnoughOfDifferent : Prop :=
  ∃ first ∈ (overrunByEnd w q now).inits, (executions first).Nodup ∧
    usedBefore w q now + q.1.engineCount - quota.effective ≤ engines first

instance : Decidable (EnoughOfDifferent quota w q now) :=
  inferInstanceAs (Decidable (∃ first ∈ List.inits _, _))

variable {quota w q now now'}

theorem running_of_mem_overrunByEnd {r : Reservation} (h : r ∈ overrunByEnd w q now) :
    w.running r.executionId := by
  have hmem := ((List.perm_insertionSort _ _).mem_iff).mp h
  exact (of_decide_eq_true (List.mem_filter.mp hmem).2).2

theorem reserve_of_short (hstarts : q.1.startTime ≤ now')
    (hshort : quota.effective < usedBefore w q now + q.1.engineCount) :
    reserve lifecycleStop quota now now' w q.1 =
      afterReclaim q quota.effective (usedBefore w q now)
        (reclaim lifecycleStop (usedBefore w q now + q.1.engineCount - quota.effective) w 0
          (overrunByEnd w q now)) := by
  rw [reserve_of_valid]
  exact if_pos ⟨hshort, hstarts⟩

theorem settle_ok_iff {w w' : World p} {ceiling used : ℤ} {r : Reservation} :
    settle w q ceiling used = (w', .ok r) ↔
      used + q.1.engineCount ≤ ceiling ∧
        w' = { w with ledger := w.ledger.create q.1 q.positive } ∧
        r = { q.1 with id := w.ledger.nextId } := by
  rw [settle]
  split
  case isTrue h => simp [not_le.mpr h]
  case isFalse h => simp [not_lt.mp h, eq_comm]

/-- A request that does not fit is admitted by reclaiming if and only if enough of the
overrunning reservations, those of the earliest declared ends, are of different
executions. -/
theorem reclaimSucceeds_iff (h : Reclaimable quota w q now now') :
    ReclaimSucceeds quota w q now now' ↔ EnoughOfDifferent quota w q now := by
  rw [ReclaimSucceeds, reserve_of_short h.starts_now h.short]
  constructor
  · rintro ⟨stopped, -, hreserve⟩
    cases hloop : reclaim lifecycleStop (usedBefore w q now + q.1.engineCount - quota.effective) w
      0 (overrunByEnd w q now) with
    | mk w' result =>
        rw [hloop] at hreserve
        cases result with
        | error e => simp [afterReclaim] at hreserve
        | ok freed =>
            obtain ⟨first, hpre, hnodup, -, -, rfl⟩ := reclaim_ok hloop
            have hfits := (settle_ok_iff.mp hreserve).1
            exact ⟨first, (List.mem_inits ..).mpr hpre, hnodup, by omega⟩
  · rintro ⟨first, hmem, hnodup, henough⟩
    have hpre := (List.mem_inits ..).mp hmem
    have hrunning : ∀ r ∈ first, w.running r.executionId :=
      fun r hr => running_of_mem_overrunByEnd (hpre.subset hr)
    rw [← zero_add (engines first)] at henough
    obtain ⟨stopped, hstopped, hneeded, hloop⟩ :=
      reclaim_of_enough hpre hnodup hrunning henough
    have hexecutions : executions stopped <+: executions first := hstopped.map _
    refine ⟨executions stopped, ?_, ?_⟩
    · exact prefix_eraseDups (hexecutions.trans (hpre.map _))
        (hnodup.sublist hexecutions.sublist)
    · rw [hloop, afterReclaim]
      exact settle_ok_iff.mpr ⟨by omega, rfl, rfl⟩

end Reclaims

/-! ### An execution that holds several reservations -/

def twoOverrun : World .microseconds where
  ledger :=
    (Ledger.empty.create (booking 1 4 0 10) (by decide)).create (booking 2 4 0 20) (by decide)
  running executionId := executionId = 1 ∨ executionId = 2

def oneOverrunsTwice : World .microseconds where
  ledger :=
    (Ledger.empty.create (booking 1 4 0 10) (by decide)).create (booking 1 4 0 20) (by decide)
  running executionId := executionId = 1

def minute : Request := ⟨booking 3 10 30 90, by decide⟩

theorem reclaimSucceeds_twoOverrun :
    ReclaimSucceeds noRow twoOverrun minute (30 * 10 ^ 9) (30 * 10 ^ 9) :=
  (reclaimSucceeds_iff ⟨by decide, by decide +kernel, by decide +kernel⟩).mpr (by decide +kernel)

/-- Stopping the one execution would free all eight engines. It is stopped for the
first reservation, which counts for four, and then once more for the second. -/
theorem reclaim_fails_oneOverrunsTwice :
    Reclaimable noRow oneOverrunsTwice minute (30 * 10 ^ 9) (30 * 10 ^ 9) ∧
      ¬ReclaimSucceeds noRow oneOverrunsTwice minute (30 * 10 ^ 9) (30 * 10 ^ 9) := by
  refine ⟨⟨by decide, by decide +kernel, by decide +kernel⟩, ?_⟩
  rintro ⟨stopped, -, hreserve⟩
  have hrefused : (reserve lifecycleStop noRow (30 * 10 ^ 9) (30 * 10 ^ 9) oneOverrunsTwice
      minute.1).2 = .error (.stop "run: not running") := by decide +kernel
  rw [hreserve] at hrefused
  cases hrefused

end Honryu.Quota
