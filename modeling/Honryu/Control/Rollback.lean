import Honryu.Control.Questions
import Honryu.Lib.Alone

/-!
What a trigger that failed leaves behind.

`Trigger` reserves, opens the run and marks the scenarios. If a reservation is refused, it
releases what it has reserved. If no scenario could be marked, it closes the run. It does
neither anywhere else, so what is left behind depends on which question failed.
-/

namespace Honryu.Control

open Call Lifecycle Quota

variable {p : Precision} (cfg : Config) (executionId : ℤ)

/-! ### What is expected -/

structure RolledBack (before after : Store p) : Prop where
  ledger : ∀ r ∈ after.ledger.rows, r ∈ before.ledger.rows
  marker : after.marker executionId = none
  marks : ∀ scenarioId, (executionId, scenarioId) ∉ after.marks

structure Clean (s : Store p) : Prop where
  marker : s.marker executionId = none
  marks : ∀ scenarioId, (executionId, scenarioId) ∉ s.marks

def Config.tenant : Option ℤ := (cfg.execution executionId).bind (·.tenantId)

/-- Which question may fail, and in which state. -/
def Harmless (before : Store p) : Op × Store p → Prop
  -- what was reserved before this cluster refused
  | (.releaseReservations e, s) => e = executionId → ∀ r ∈ s.ledger.rows, r ∈ before.ledger.rows
  -- the reservations are not released any more
  | (.getPendingCorrelationId _, _) | (.insertRun _, _) => cfg.tenant executionId = none
  -- the marker is there, and stays
  | (.insertHistory _ _ _, _) => False
  -- the run is closed again only if this was the only scenario
  | (.markScenarioRunning _ _, _) =>
      cfg.tenant executionId = none ∧ (cfg.profile executionId).length = 1
  | _ => True

/-! ### Reserving -/

/-- What is asked to reserve for an execution that has no open run. Other executions may
be stopped. -/
def ReservingFor : Op → Prop
  | .createReservation q => q.1.executionId = executionId
  | .lockTenant _ _ | .unlockTenant _ _ => True
  | .clearScenarioRunning e _ | .releaseReservations e | .endHistory e _ | .deleteRun e _ =>
      e ≠ executionId
  | o => Ending o

/-- For the execution nothing has changed but that there may be more reservations. -/
structure Apart (s s' : Store p) : Prop where
  marker : s'.marker executionId = s.marker executionId
  marks : ∀ scenarioId, (executionId, scenarioId) ∈ s'.marks ↔ (executionId, scenarioId) ∈ s.marks
  kept : ∀ r ∈ s.ledger.rows, r.executionId = executionId → r ∈ s'.ledger.rows
  added : ∀ r ∈ s'.ledger.rows, r ∈ s.ledger.rows ∨ r.executionId = executionId
  nextId : s.ledger.nextId ≤ s'.ledger.nextId

variable {cfg executionId} {s s' s'' : Store p}

theorem Apart.refl (s : Store p) : Apart executionId s s :=
  ⟨rfl, fun _ => Iff.rfl, fun _ hr _ => hr, fun _ => .inl, le_rfl⟩

theorem Apart.trans (h : Apart executionId s s') (h' : Apart executionId s' s'') :
    Apart executionId s s'' where
  marker := h'.marker.trans h.marker
  marks x := (h'.marks x).trans (h.marks x)
  kept r hr he := h'.kept r (h.kept r hr he) he
  added r hr := (h'.added r hr).elim (h.added r) .inr
  nextId := h.nextId.trans h'.nextId

theorem Apart.of_same (hmarker : s'.marker executionId = s.marker executionId)
    (hmarks : s'.marks = s.marks) (hledger : s'.ledger = s.ledger) : Apart executionId s s' := by
  refine ⟨hmarker, fun x => by rw [hmarks], ?_, ?_, hledger ▸ le_rfl⟩
  · rw [hledger]
    exact fun _ hr _ => hr
  · rw [hledger]
    exact fun _ => .inl

theorem apart_effect {o : Op} (h : ReservingFor executionId o) (s : Store p) :
    Apart executionId s (effect cfg s o) := by
  cases o with
  | createReservation q =>
      refine ⟨rfl, fun _ => Iff.rfl, fun r hr _ => List.mem_append_left _ hr, fun r hr => ?_,
        (lt_add_one _).le⟩
      rcases List.mem_append.mp hr with hr | hr
      · exact .inl hr
      · obtain rfl := List.mem_singleton.mp hr
        exact .inr h
  | clearScenarioRunning e x =>
      refine ⟨rfl, fun y => ?_, fun _ hr _ => hr, fun _ => .inl, le_rfl⟩
      have hne : (executionId, y) ≠ (e, x) := fun heq => h (congrArg Prod.fst heq).symm
      simp [effect, hne]
  | releaseReservations e =>
      refine ⟨rfl, fun _ => Iff.rfl, fun r hr he => ?_, fun r hr => ?_, le_rfl⟩
      · exact List.mem_filter.mpr ⟨hr, decide_eq_true (he.trans_ne (Ne.symm h))⟩
      · exact .inl (List.mem_of_mem_filter hr)
  | deleteRun e onBehalf =>
      exact .of_same (Function.update_of_ne (Ne.symm h) _ _) rfl rfl
  | insertRun e => exact h.elim
  | markScenarioRunning e x => exact h.elim
  | deleteReservation id => exact h.elim
  | _ => exact .of_same rfl rfl rfl

theorem Looking.reservingFor {o : Op} (h : Looking o) : ReservingFor executionId o := by
  cases o <;> first | exact h.elim | exact h | trivial

theorem EndingOf.reservingFor {e : ℤ} {o : Op} (h : EndingOf e o) (hne : e ≠ executionId) :
    ReservingFor executionId o := by
  cases o <;> first | trivial | exact (show _ = _ from h) ▸ hne

theorem Looking.effect_eq {o : Op} (h : Looking o) (s : Store p) : effect cfg s o = s := by
  cases o <;> first | rfl | exact h.elim

def LookedAt (s : Store p) (log : List (Op × Store p)) (s' : Store p) : Prop :=
  s' = s ∧ ∀ m ∈ log, Looking m.1

theorem LookedAt.refl (s : Store p) : LookedAt s [] s := ⟨rfl, List.forall_mem_nil _⟩

theorem LookedAt.one {o : Op} (h : Looking o) (s : Store p) : LookedAt s [(o, s)] s :=
  ⟨rfl, List.forall_mem_singleton.mpr h⟩

theorem LookedAt.append {log log' : List (Op × Store p)} (h : LookedAt s log s')
    (h' : LookedAt s' log' s'') : LookedAt s (log ++ log') s'' :=
  ⟨h'.1.trans h.1, List.forall_mem_append.mpr ⟨h.2, h'.2⟩⟩

theorem sure_of_looking {α : Type} {c : Proc α} (hc : c.Asks Looking) (s : Store p) :
    c.Sure (server cfg) s fun log _ s' => LookedAt s log s' := by
  have hsame : ∀ o, Looking o → ∀ view s', s' = s → ((server cfg).perform view o s').2 = s := by
    rintro o ho view s' rfl
    exact ho.effect_eq s'
  exact (hc.sure hsame rfl).mono fun log r s' h => ⟨h.1, fun m hm => (h.2 m hm).1⟩

variable (executionId) in
def Reserving (s : Store p) (log : List (Op × Store p)) (s' : Store p) : Prop :=
  Apart executionId s s' ∧ ∀ m ∈ log, ReservingFor executionId m.1

theorem Reserving.refl (s : Store p) : Reserving executionId s [] s :=
  ⟨.refl s, List.forall_mem_nil _⟩

theorem Reserving.one {o : Op} (h : ReservingFor executionId o) (s : Store p) :
    Reserving executionId s [(o, s)] s :=
  ⟨.refl s, List.forall_mem_singleton.mpr h⟩

variable (cfg) in
theorem Reserving.asked {o : Op} (h : ReservingFor executionId o) (s : Store p) :
    Reserving executionId s [] (effect cfg s o) :=
  ⟨apart_effect h s, List.forall_mem_nil _⟩

theorem Reserving.append {log log' : List (Op × Store p)} (h : Reserving executionId s log s')
    (h' : Reserving executionId s' log' s'') : Reserving executionId s (log ++ log') s'' :=
  ⟨h.1.trans h'.1, List.forall_mem_append.mpr ⟨h.2, h'.2⟩⟩

theorem LookedAt.reserving {log : List (Op × Store p)} (h : LookedAt s log s') :
    Reserving executionId s log s' := by
  obtain ⟨rfl, hlog⟩ := h
  exact ⟨.refl _, fun m hm => (hlog m hm).reservingFor⟩

theorem sure_of_reservingFor {α : Type} {c : Proc α} (hc : c.Asks (ReservingFor executionId))
    (s : Store p) : c.Sure (server cfg) s fun log _ s' => Reserving executionId s log s' := by
  have hapart : ∀ o, ReservingFor executionId o → ∀ view s', Apart executionId s s' →
      Apart executionId s ((server cfg).perform view o s').2 :=
    fun o ho view s' h => h.trans (apart_effect ho s')
  exact (hc.sure hapart (.refl s)).mono fun log r s' h => ⟨h.1, fun m hm => (h.2 m hm).1⟩

/-- The execution itself is not overrunning, as it has no open run. -/
theorem sure_overrunning (now : ℤ) (all : List Reservation) (hmarker : s.marker executionId = none) :
    (overrunning now all).Sure (server cfg) s fun log r s' => LookedAt s log s' ∧
      ∀ overrun, r = some (.ok overrun) → ∀ x ∈ overrun, x.executionId ≠ executionId := by
  induction all with
  | nil =>
      refine ⟨.refl s, fun overrun h => ?_⟩
      cases h
      exact List.forall_mem_nil _
  | cons r rest ih =>
      rw [overrunning]
      split
      · exact ih
      · refine ⟨fun view => ih.bind (fun log overrun s' h => ?_) (fun log e s' h => ⟨h.1, by simp⟩)
          fun log s' h => ⟨h.1, by simp⟩, fun e _ => ⟨.one (by trivial) s, by simp⟩,
          .one (by trivial) s, by simp⟩
        refine ⟨h.1.append (.refl s'), fun overrun' heq => ?_⟩
        cases heq
        have hrest := h.2 overrun rfl
        split
        · rename_i hrunning
          refine List.forall_mem_cons.mpr ⟨fun heq => ?_, hrest⟩
          rw [heq, hmarker] at hrunning
          cases hrunning
        · exact hrest

theorem sure_usedCapacity (q : Request) (hmarker : s.marker executionId = none) :
    (usedCapacity q).Sure (server cfg) s fun log r s' => LookedAt s log s' ∧
      ∀ x, r = some (.ok x) → ∀ y ∈ x.2, y.executionId ≠ executionId := by
  refine ⟨fun _ => ⟨fun _ => ⟨fun _ => ?_, nofun, .one (by trivial) s, nofun⟩,
    fun e _ => ⟨.one (by trivial) s, nofun⟩, .one (by trivial) s, nofun⟩,
    fun e _ => ⟨.one (by trivial) s, nofun⟩, .one (by trivial) s, nofun⟩
  refine (sure_overrunning _ _ hmarker).bind (fun log overrun s' h => ?_)
    (fun log e s' h => ⟨h.1, nofun⟩) fun log s' h => ⟨h.1, nofun⟩
  refine ⟨h.1.append (.refl s'), fun x heq => ?_⟩
  cases heq
  exact h.2 _ rfl

variable (executionId) in
def NewRow (s s' : Store p) : Prop :=
  ∃ r ∈ s'.ledger.rows, r.executionId = executionId ∧ s.ledger.nextId ≤ r.id

theorem NewRow.of_apart (h : NewRow executionId s s') (h' : Apart executionId s' s'') :
    NewRow executionId s s'' := by
  obtain ⟨r, hr, he, hid⟩ := h
  exact ⟨r, h'.kept r hr he, he, hid⟩

theorem sure_reserveLocked (q : Request) (hq : q.1.executionId = executionId)
    (hmarker : s.marker executionId = none) :
    (reserveLocked cfg q).Sure (server cfg) s fun log r s' =>
      Reserving executionId s log s' ∧ ∀ x, r = some (.ok x) → NewRow executionId s s' := by
  have hquota : ReservingFor executionId (.getQuota q.1.tenantId q.1.cluster) := trivial
  refine ⟨fun view => ?_, fun e _ => ⟨.one hquota s, nofun⟩, .one hquota s, nofun⟩
  refine (sure_usedCapacity q hmarker).bind (fun log x s' h => ?_)
    (fun log e s' h => ⟨h.1.reserving, nofun⟩) fun log s' h => ⟨h.1.reserving, nofun⟩
  obtain ⟨hlooked, hoverrun⟩ := h
  have hfirst : Reserving executionId s log s' := hlooked.reserving
  have hothers : (usedAfterReclaim cfg q (cfg.quota q.1.tenantId q.1.cluster).effective x.1 x.2).Asks
      (ReservingFor executionId) :=
    asks_usedAfterReclaim cfg q _ _ trivial fun y hy o ho => ho.reservingFor (hoverrun x rfl y hy)
  refine (sure_of_reservingFor hothers s').bind (fun log' used s'' h => ?_)
    (fun log' e s'' h => ⟨hfirst.append h, nofun⟩) fun log' s'' h => ⟨hfirst.append h, nofun⟩
  have hask : ReservingFor executionId (.createReservation q) := hq
  split
  · exact ⟨hfirst.append (h.append (.refl s'')), nofun⟩
  · refine ⟨fun view => ⟨?_, fun _ _ => ?_⟩, fun e _ => ⟨?_, nofun⟩, ?_, nofun⟩
    · exact hfirst.append (h.append (.asked cfg hask s''))
    · exact ⟨_, List.mem_append_right _ (List.mem_singleton_self _), hq, (hfirst.append h).1.nextId⟩
    · exact hfirst.append (h.append (.one hask s''))
    · exact hfirst.append (h.append (.one hask s''))

theorem sure_reserve (r : Reservation) (hr : r.executionId = executionId)
    (hmarker : s.marker executionId = none) :
    (reserve cfg r).Sure (server cfg) s fun log result s' =>
      Reserving executionId s log s' ∧ ∀ x, result = some (.ok x) → NewRow executionId s s' := by
  unfold reserve
  split
  · exact ⟨.refl s, nofun⟩
  · rename_i hvalid
    have hlock : ReservingFor executionId (.lockTenant r.tenantId r.cluster) := trivial
    have hunlock : ReservingFor executionId (.unlockTenant r.tenantId r.cluster) := trivial
    refine Sure.bind (sure_of_reservingFor (asks_need.mpr hlock) s) (fun log _ s' h => ?_)
      (fun log e s' h => ⟨h, nofun⟩) fun log s' h => ⟨h, nofun⟩
    refine Sure.attempt_bind (sure_reserveLocked ⟨r, hvalid⟩ hr (h.1.marker.trans hmarker))
      (fun log' result s'' h' => ?_) fun log' s'' h' => ⟨h.append h'.1, nofun⟩
    refine ⟨fun view => ?_, nofun, h.append (h'.1.append (.one hunlock s'')), nofun⟩
    have hdone := h.append (h'.1.append (.asked cfg hunlock s''))
    cases result with
    | error e => exact ⟨hdone, nofun⟩
    | ok x =>
        refine ⟨hdone, fun _ _ => ?_⟩
        obtain ⟨row, hrow, he, hid⟩ := h'.2 x rfl
        exact ⟨row, hrow, he, h.1.nextId.trans hid⟩

theorem ReservingFor.harmless {m : Op × Store p} (h : ReservingFor executionId m.1)
    (before : Store p) : Harmless cfg executionId before m := by
  obtain ⟨o, s⟩ := m
  cases o <;> first | exact fun heq => absurd heq h | exact h.elim | trivial

variable (cfg executionId) in
/-- How it ends if a cluster does not admit the run: what was reserved is released, unless
this fails. -/
structure GaveUp (s : Store p) (log : List (Op × Store p)) (s' : Store p) : Prop where
  marker : s'.marker executionId = s.marker executionId
  marks : ∀ scenarioId, (executionId, scenarioId) ∈ s'.marks ↔ (executionId, scenarioId) ∈ s.marks
  ledger : (∀ r ∈ s'.ledger.rows, r ∈ s.ledger.rows) ↔ ∀ m ∈ log, Harmless cfg executionId s m

theorem GaveUp.after {log log' : List (Op × Store p)} (h : GaveUp cfg executionId s log' s')
    (hlog : ∀ m ∈ log, ReservingFor executionId m.1) : GaveUp cfg executionId s (log ++ log') s' := by
  refine ⟨h.marker, h.marks, h.ledger.trans ?_⟩
  rw [List.forall_mem_append]
  exact (and_iff_right fun m hm => (hlog m hm).harmless s).symm

theorem gaveUp_released (hbase : Apart executionId s s') :
    GaveUp cfg executionId s [] (effect cfg s' (.releaseReservations executionId)) where
  marker := hbase.marker
  marks := hbase.marks
  ledger := by
    refine ⟨fun _ => List.forall_mem_nil _, fun _ r hr => ?_⟩
    obtain ⟨hr, hother⟩ := List.mem_filter.mp hr
    exact (hbase.added r hr).resolve_right (of_decide_eq_true hother)

theorem gaveUp_notReleased (hbase : Apart executionId s s') :
    GaveUp cfg executionId s [(.releaseReservations executionId, s')] s' where
  marker := hbase.marker
  marks := hbase.marks
  ledger := by
    rw [List.forall_mem_singleton]
    exact ⟨fun h _ => h, fun h => h rfl⟩

/-- The loop over the clusters, some of which may have admitted the run already. -/
theorem sure_reserveAll {start : Store p} (hstart : Apart executionId start s)
    {requests : List Reservation} (hrequests : ∀ r ∈ requests, r.executionId = executionId)
    (hmarker : s.marker executionId = none) :
    (reserveAll cfg executionId requests).Sure (server cfg) s fun log result s' =>
      (result = some (.ok ()) → Reserving executionId s log s' ∧
        (requests ≠ [] → NewRow executionId s s')) ∧
      ∀ e, result = some (.error e) → GaveUp cfg executionId start log s' := by
  induction requests generalizing s with
  | nil => exact ⟨fun _ => ⟨.refl s, fun h => absurd rfl h⟩, nofun⟩
  | cons r rest ih =>
      obtain ⟨hr, hrest⟩ := List.forall_mem_cons.mp hrequests
      refine Sure.attempt_bind (sure_reserve r hr hmarker) (fun log result s' h => ?_)
        fun log s' h => ⟨nofun, nofun⟩
      have hapart := hstart.trans h.1.1
      cases result with
      | ok x =>
          refine (ih hapart hrest (h.1.1.marker.trans hmarker)).mono fun log' result s'' h' =>
            ⟨fun hok => ?_, fun e he => (h'.2 e he).after h.1.2⟩
          have hdone := (h'.1 hok).1
          exact ⟨h.1.append hdone, fun _ => (h.2 x rfl).of_apart hdone.1⟩
      | error e =>
          refine ⟨fun view => ⟨nofun, fun _ _ => ?_⟩, fun _ _ => ⟨nofun, fun _ _ => ?_⟩, nofun, nofun⟩
          · exact (gaveUp_released hapart).after h.1.2
          · exact (gaveUp_notReleased hapart).after h.1.2

theorem sure_reserveRun {exe : SizedExecution} (hexe : cfg.execution executionId = some exe)
    (hmarker : s.marker executionId = none) :
    (reserveRun cfg executionId exe).Sure (server cfg) s fun log result s' =>
      (result = some (.ok ()) → Reserving executionId s log s' ∧
        if exe.tenantId = none then s' = s else NewRow executionId s s') ∧
      ∀ e, result = some (.error e) → GaveUp cfg executionId s log s' := by
  unfold reserveRun
  cases htenant : exe.tenantId with
  | none => exact ⟨fun _ => ⟨.refl s, rfl⟩, nofun⟩
  | some tenantId =>
      refine ⟨fun view => ?_, nofun, nofun, nofun⟩
      simp only [reduceCtorEq, if_false]
      change (reserveSized cfg executionId
        (triggerReservations cfg.parseQuantity exe s.clock)).Sure (server cfg) s _
      cases hrequests : triggerReservations cfg.parseQuantity exe s.clock with
      | error e =>
          refine ⟨nofun, fun _ _ => ⟨rfl, fun _ => Iff.rfl, ?_⟩⟩
          exact ⟨fun _ => List.forall_mem_nil _, fun _ _ => id⟩
      | ok requests =>
          obtain ⟨engineUnits, -, rfl⟩ := triggerReservations_of_tenant htenant hrequests
          have hown : ∀ r ∈ exe.clusters.map
              (runReservation exe.toExecution tenantId engineUnits s.clock),
              r.executionId = executionId := by
            intro r hr
            obtain ⟨cluster, -, rfl⟩ := List.mem_map.mp hr
            exact cfg.execution_id executionId exe hexe
          refine (sure_reserveAll (.refl s) hown hmarker).mono fun log result s' h =>
            ⟨fun hok => ⟨(h.1 hok).1, (h.1 hok).2 ?_⟩, h.2⟩
          exact fun hnil => exe.clusters_ne_nil (List.map_eq_nil_iff.mp hnil)

/-! ### Opening the run -/

variable (executionId) in
/-- What is left behind if a question fails after everything has been reserved. -/
def Leaves (exe : SizedExecution) (s s' : Store p) : Op → Prop
  | .getPendingCorrelationId _ | .insertRun _ => s'.marker executionId = none ∧ s'.marks = s.marks
  | .insertHistory _ _ _ => s'.marker executionId ≠ none
  | .markScenarioRunning _ _ =>
      if exe.profile.length = 1 then s'.marker executionId = none ∧ s'.marks = s.marks
      else s'.marker executionId ≠ none
  | _ => False

theorem sure_startRun (exe : SizedExecution) (correlationId : String)
    (hmarker : s.marker executionId = none) :
    (startRun executionId correlationId).Sure (server cfg) s fun log result s' =>
      s'.ledger = s.ledger ∧ s'.marks = s.marks ∧
        (∀ runId, result = some (.ok runId) → log = [] ∧ s'.marker executionId ≠ none) ∧
        ∀ e, result = some (.error e) → ∃ o at', log = [(o, at')] ∧ Leaves executionId exe s s' o := by
  have hopen : (effect cfg s (.insertRun executionId)).marker executionId ≠ none := by
    simp [effect, hmarker]
  refine Sure.need_bind (fun view runId _ => ?_) (fun view e h => ?_)
    (fun e _ => ⟨rfl, rfl, nofun, fun _ _ => ⟨_, _, rfl, hmarker, rfl⟩⟩) ⟨rfl, rfl, nofun, nofun⟩
  · refine Sure.need_bind (fun view _ _ => ⟨rfl, rfl, fun _ _ => ⟨rfl, hopen⟩, nofun⟩) nofun
      (fun e _ => ⟨rfl, rfl, nofun, fun _ _ => ⟨_, _, rfl, hopen⟩⟩) ⟨rfl, rfl, nofun, nofun⟩
  · simp [server, reply, hmarker] at h

variable (executionId) in
/-- What is done while scenarios are marked. If marking failed for all of them, nothing has
changed. -/
structure Marking (scenarios : List LoadProfile.Entry) (s : Store p) (log : List (Op × Store p))
    (s' : Store p) : Prop where
  ledger : s'.ledger = s.ledger
  marker : s'.marker = s.marker
  length_le : log.length ≤ scenarios.length
  marks : log.length = scenarios.length → s'.marks = s.marks
  asked : ∀ m ∈ log, ∃ scenarioId, m.1 = .markScenarioRunning executionId scenarioId

theorem sure_markScenarios (scenarios : List LoadProfile.Entry) (s : Store p) :
    (markScenarios executionId scenarios).Sure (server cfg) s fun log result s' =>
      Marking executionId scenarios s log s' ∧
        ∀ x, result = some x → ∃ failed, x = .ok failed ∧ failed.length = log.length := by
  induction scenarios generalizing s with
  | nil =>
      refine ⟨⟨rfl, rfl, le_rfl, fun _ => rfl, List.forall_mem_nil _⟩, fun x hx => ?_⟩
      cases hx
      exact ⟨[], rfl, rfl⟩
  | cons e rest ih =>
      -- the rest never makes up for a scenario that was marked
      have hmarked : ∀ {log s'}, Marking executionId rest (effect cfg s
          (.markScenarioRunning executionId e.scenarioId)) log s' →
            Marking executionId (e :: rest) s log s' := fun h =>
        ⟨h.ledger, h.marker, Nat.le_succ_of_le h.length_le,
          fun heq => absurd heq (Nat.lt_succ_of_le h.length_le).ne, h.asked⟩
      have hfailed : ∀ {log s'}, Marking executionId rest s log s' →
          Marking executionId (e :: rest) s
            ((.markScenarioRunning executionId e.scenarioId, s) :: log) s' := fun h =>
        ⟨h.ledger, h.marker, Nat.succ_le_succ h.length_le,
          fun heq => h.marks (Nat.succ.inj heq), List.forall_mem_cons.mpr ⟨⟨_, rfl⟩, h.asked⟩⟩
      refine ⟨fun view => ?_, fun err _ => ?_, ?_⟩
      · refine Sure.bind_ret ((ih _).mono fun log result s' h => ⟨hmarked h.1, fun x hx => ?_⟩)
        obtain ⟨y, hy, rfl⟩ := Option.map_eq_some_iff.mp hx
        obtain ⟨failed, rfl, hlength⟩ := h.2 y hy
        exact ⟨failed, rfl, hlength⟩
      · refine Sure.bind_ret ((ih _).mono fun log result s' h => ⟨hfailed h.1, fun x hx => ?_⟩)
        obtain ⟨y, hy, rfl⟩ := Option.map_eq_some_iff.mp hx
        obtain ⟨failed, rfl, hlength⟩ := h.2 y hy
        exact ⟨e.scenarioId :: failed, rfl, congrArg Nat.succ hlength⟩
      · exact ⟨⟨rfl, rfl, Nat.succ_le_succ (Nat.zero_le _), fun _ => rfl,
          List.forall_mem_singleton.mpr ⟨_, rfl⟩⟩, nofun⟩

theorem sure_stopRun (onBehalf : Option ℤ) (s : Store p) :
    (stopRun executionId onBehalf).Sure (server cfg) s fun log _ s' =>
      s'.ledger = s.ledger ∧ s'.marks = s.marks ∧ (log = [] → s'.marker executionId = none) := by
  refine Sure.need_bind (fun view current h => ?_) nofun (fun _ _ => ⟨rfl, rfl, nofun⟩)
    ⟨rfl, rfl, nofun⟩
  cases current with
  | none => exact ⟨rfl, rfl, fun _ => Except.ok.inj h⟩
  | some runId =>
      refine Sure.need_bind (fun view _ _ => ?_) nofun (fun _ _ => ⟨rfl, rfl, nofun⟩)
        ⟨rfl, rfl, nofun⟩
      refine sure_need.mpr ⟨fun view => ⟨rfl, rfl, fun _ => ?_⟩, fun _ _ => ⟨rfl, rfl, nofun⟩, rfl, rfl,
        nofun⟩
      exact Function.update_self _ _ _

theorem sure_rollBack (exe : SizedExecution) (failed : List ℤ) (s : Store p) :
    (rollBack executionId exe failed).Sure (server cfg) s fun log result s' =>
      s'.ledger = s.ledger ∧ s'.marks = s.marks ∧ (∀ x, result = some x → x = .ok ()) ∧
        (log = [] → s'.marker executionId =
          if failed.length = exe.profile.length then none else s.marker executionId) := by
  unfold rollBack
  split
  · refine Sure.bind_ret (Sure.attempt ((sure_stopRun none s).mono fun log r s' h =>
      ⟨h.1, h.2.1, fun x hx => ?_, h.2.2⟩))
    obtain ⟨_, hy, rfl⟩ := Option.map_eq_some_iff.mp hx
    obtain ⟨_, -, rfl⟩ := Option.map_eq_some_iff.mp hy
    rfl
  · exact ⟨rfl, rfl, fun x hx => by cases hx; rfl, fun _ => rfl⟩

theorem sure_recordLaunch (exe : SizedExecution) (s : Store p) :
    (recordLaunch executionId exe).Sure (server cfg) s fun _ result s' =>
      s'.ledger = s.ledger ∧ ∀ e, result ≠ some (.error e) := by
  have hstart : ∀ o (s : Store p), (effect cfg s o).ledger = s.ledger →
      (bestEffort o).Sure (server cfg) s fun _ result s' =>
        s'.ledger = s.ledger ∧ ∀ e, result ≠ some (.error e) :=
    fun o s h => ⟨fun _ => ⟨h, nofun⟩, fun _ _ => ⟨rfl, nofun⟩, rfl, nofun⟩
  have hproject : (query (.getProject executionId)).Sure (server cfg) s fun _ _ s' => s' = s :=
    sure_need.mpr ⟨fun _ => rfl, fun _ _ => rfl, rfl⟩
  refine hproject.attempt_bind (fun _ owner s' h => ?_) fun _ s' h => ⟨congrArg _ h, nofun⟩
  subst h
  cases owner with
  | ok owner => exact hstart _ s' rfl
  | error e => exact ⟨rfl, nofun⟩

theorem sure_openRun {exe : SizedExecution} (hexe : cfg.execution executionId = some exe)
    (hmarker : s.marker executionId = none) :
    (openRun executionId exe).Sure (server cfg) s fun log result s' =>
      s'.ledger = s.ledger ∧ (log.length ≤ 1 → ∀ e, result = some (.error e) →
        ∃ o at', log = [(o, at')] ∧ Leaves executionId exe s s' o) := by
  refine Sure.need_bind (fun view correlationId _ => ?_) (fun view e h => ?_)
    (fun e _ => ⟨rfl, fun _ _ _ => ⟨_, _, rfl, hmarker, rfl⟩⟩) ⟨rfl, nofun⟩
  · refine (sure_startRun exe correlationId hmarker).bind (fun log runId s₁ h => ?_)
      (fun log e s₁ h => ⟨h.1, fun _ _ _ => h.2.2.2 e rfl⟩) fun log s₁ h => ⟨h.1, nofun⟩
    obtain ⟨hledger, hmarks, hok, -⟩ := h
    obtain ⟨rfl, hopen⟩ := hok runId rfl
    have htouch : (bestEffort (.touchActivity executionId)).Sure (server cfg) s₁ fun _ result s₂ =>
        (s₂.ledger = s₁.ledger ∧ s₂.marks = s₁.marks ∧ s₂.marker = s₁.marker) ∧
          ∀ e, result ≠ some (.error e) :=
      ⟨fun _ => ⟨⟨rfl, rfl, rfl⟩, nofun⟩, fun _ _ => ⟨⟨rfl, rfl, rfl⟩, nofun⟩, ⟨rfl, rfl, rfl⟩, nofun⟩
    refine htouch.bind (fun logt _ s₂ ht => ?_) (fun logt e s₂ ht => absurd rfl (ht.2 e))
      fun logt s₂ ht => ⟨ht.1.1.trans hledger, nofun⟩
    obtain ⟨⟨hledger₂, hmarks₂, hmarker₂⟩, -⟩ := ht
    refine (sure_markScenarios exe.profile s₂).bind (fun logm failed s₃ hm => ?_)
      (fun logm e s₃ hm => absurd (hm.2 _ rfl) nofun)
      fun logm s₃ hm => ⟨hm.1.ledger.trans (hledger₂.trans hledger), nofun⟩
    obtain ⟨hmarking, hfailed⟩ := hm
    obtain ⟨_, heq, hlength⟩ := hfailed _ rfl
    cases heq
    refine (sure_rollBack exe failed s₃).bind (fun logr _ s₄ hr => ?_)
      (fun logr e s₄ hr => absurd (hr.2.2.1 _ rfl) nofun)
      fun logr s₄ hr => ⟨hr.1.trans (hmarking.ledger.trans (hledger₂.trans hledger)), nofun⟩
    obtain ⟨hledger₄, hmarks₄, -, hmarker₄⟩ := hr
    have hledgers := hledger₄.trans (hmarking.ledger.trans (hledger₂.trans hledger))
    split
    · refine (sure_recordLaunch exe s₄).mono fun log result s₅ h => ⟨h.1.trans hledgers, ?_⟩
      exact fun _ e he => absurd he (h.2 e)
    · rename_i hsome
      refine ⟨hledgers, fun hone _ _ => ?_⟩
      -- it was one scenario that could not be marked, and nothing else went wrong
      have hpos : 0 < logm.length := by
        rw [← hlength]
        exact List.length_pos_iff.mpr fun hnil => hsome (by simp [hnil])
      simp only [List.nil_append, List.append_nil, List.length_append] at hone
      obtain rfl : logt = [] := List.length_eq_zero_iff.mp (by omega)
      obtain rfl : logr = [] := List.length_eq_zero_iff.mp (by omega)
      have hlogm : logm.length = 1 := by omega
      obtain ⟨m, rfl⟩ := List.length_eq_one_iff.mp hlogm
      obtain ⟨scenarioId, hm⟩ := hmarking.asked m (List.mem_singleton_self _)
      refine ⟨m.1, m.2, rfl, ?_⟩
      rw [hm, Leaves]
      have hclosed := hmarker₄ rfl
      rw [hlength, List.length_singleton] at hclosed
      by_cases hprofile : exe.profile.length = 1
      · rw [if_pos hprofile]
        rw [if_pos hprofile.symm] at hclosed
        exact ⟨hclosed, hmarks₄.trans ((hmarking.marks hprofile.symm).trans (hmarks₂.trans hmarks))⟩
      · rw [if_neg hprofile]
        rw [if_neg (Ne.symm hprofile), hmarking.marker, hmarker₂] at hclosed
        exact hclosed ▸ hopen
  · simp [server, reply, hexe] at h

/-! ### The whole of it -/

theorem sure_triggerChecks (s : Store p) :
    (triggerChecks executionId).Sure (server cfg) s fun log result s' => LookedAt s log s' ∧
      ∀ exe, result = some (.ok exe) →
        cfg.execution executionId = some exe ∧ s.marker executionId = none := by
  refine (sure_of_looking (asks_triggerChecks executionId) s).and ?_
  refine Sure.need_bind (fun view exe hexe => ?_) (fun _ _ _ => nofun) (fun _ _ => nofun) nofun
  refine Sure.need_bind (fun view frozen _ => ?_) (fun _ _ _ => nofun) (fun _ _ => nofun) nofun
  cases frozen with
  | some campaign => exact nofun
  | none =>
      refine Sure.need_bind (fun view scenarios _ => ?_) (fun _ _ _ => nofun) (fun _ _ => nofun) nofun
      refine (sure_of_looking ((asks_ensureTestFiles _).mono fun _ => Surveying.looking) s).bind
        (fun _ _ s₁ h => ?_) (fun _ _ _ _ => nofun) fun _ _ _ => nofun
      obtain rfl := h.1
      refine Sure.need_bind (fun view current hcurrent => ?_) (fun _ _ _ => nofun) (fun _ _ => nofun) nofun
      refine (sure_of_looking ((asks_executionStatusAcross _ _).mono fun _ => Surveying.looking) s₁).bind
        (fun _ poolSize s₂ h => ?_) (fun _ _ _ _ => nofun) fun _ _ _ => nofun
      obtain rfl := h.1
      refine (sure_of_looking ((asks_requireReady _ _).mono fun _ => Surveying.looking) s₂).bind
        (fun _ _ s₃ h => ?_) (fun _ _ _ _ => nofun) fun _ _ _ => nofun
      obtain rfl := h.1
      split
      · exact nofun
      · rename_i hok
        refine Sure.need_bind (fun view orphans _ => ?_) (fun _ _ _ => nofun) (fun _ _ => nofun) nofun
        split
        · intro exe' heq
          cases heq
          refine ⟨found_eq_ok.mp hexe, ?_⟩
          rw [Except.ok.inj hcurrent]
          exact Option.isNone_iff_eq_none.mp (Option.isSome_eq_false_iff.mp (canTrigger_ok hok).1)
        · exact nofun

theorem GaveUp.rolledBack_iff {log : List (Op × Store p)} (h : GaveUp cfg executionId s log s') :
    RolledBack executionId s s' ↔
      Clean executionId s ∧ ∀ m ∈ log, Harmless cfg executionId s m := by
  constructor
  · intro hback
    exact ⟨⟨h.marker.symm.trans hback.marker, fun x hx => hback.marks x ((h.marks x).mpr hx)⟩,
      h.ledger.mp hback.ledger⟩
  · rintro ⟨hclean, hharmless⟩
    exact ⟨h.ledger.mpr hharmless, h.marker.trans hclean.marker,
      fun x hx => hclean.marks x ((h.marks x).mp hx)⟩

theorem LookedAt.gaveUp {log : List (Op × Store p)} (h : LookedAt s log s') :
    GaveUp cfg executionId s log s' := by
  obtain ⟨rfl, hlog⟩ := h
  exact ⟨rfl, fun _ => Iff.rfl, fun _ m hm => (hlog m hm).reservingFor.harmless _, fun _ _ => id⟩

theorem rolledBack_reserved_iff {exe : SizedExecution} (hmarker : s.marker executionId = none)
    (hapart : Apart executionId s s')
    (hreserved : if exe.tenantId = none then s' = s else NewRow executionId s s')
    (hledger : s''.ledger = s'.ledger) (hclosed : s''.marker executionId = none)
    (hmarks : s''.marks = s'.marks) :
    RolledBack executionId s s'' ↔ Clean executionId s ∧ exe.tenantId = none := by
  constructor
  · intro hback
    refine ⟨⟨hmarker, fun x hx => hback.marks x ?_⟩, ?_⟩
    · rw [hmarks]
      exact (hapart.marks x).mpr hx
    · by_contra htenant
      rw [if_neg htenant] at hreserved
      obtain ⟨r, hr, -, hid⟩ := hreserved
      have hold : r ∈ s.ledger.rows := hback.ledger r (hledger ▸ hr)
      exact hid.not_gt (s.ledger.id_lt r hold)
  · rintro ⟨hclean, htenant⟩
    rw [if_pos htenant] at hreserved
    subst hreserved
    exact ⟨fun r hr => hledger ▸ hr, hclosed, hmarks ▸ hclean.marks⟩

theorem sure_trigger (cfg : Config) (executionId : ℤ) (s : Store p) :
    (trigger cfg executionId).Sure (server cfg) s fun log result s' =>
      log.length ≤ 1 → ∀ e, result = some (.error e) → (RolledBack executionId s s' ↔
        Clean executionId s ∧ ∀ m ∈ log, Harmless cfg executionId s m) := by
  refine (sure_triggerChecks s).bind (fun log₁ exe s₁ h₁ => ?_)
    (fun _ _ _ h _ _ _ => h.1.gaveUp.rolledBack_iff) fun _ _ _ => nofun
  obtain ⟨⟨rfl, hlog₁⟩, hpassed⟩ := h₁
  obtain ⟨hexe, hmarker⟩ := hpassed exe rfl
  refine (sure_reserveRun hexe hmarker).bind (fun log₂ _ s₂ h₂ => ?_)
    (fun _ e _ h _ _ _ => ((h.2 e rfl).after fun m hm => (hlog₁ m hm).reservingFor).rolledBack_iff)
    fun _ _ _ => nofun
  obtain ⟨hreserving, hreserved⟩ := h₂.1 rfl
  refine (sure_openRun hexe (hreserving.1.marker.trans hmarker)).mono
    fun log₃ result s₃ h₃ hone e he => ?_
  -- what failed is the question that this part failed with
  simp only [List.length_append] at hone
  obtain ⟨o, at', rfl, hleaves⟩ := h₃.2 (by omega) e he
  rw [List.length_singleton] at hone
  obtain rfl : log₁ = [] := List.length_eq_zero_iff.mp (by omega)
  obtain rfl : log₂ = [] := List.length_eq_zero_iff.mp (by omega)
  have htenant : cfg.tenant executionId = exe.tenantId := by simp [Config.tenant, hexe]
  have hprofile : cfg.profile executionId = exe.profile := by simp [Config.profile, hexe]
  rw [List.nil_append, List.nil_append, List.forall_mem_singleton]
  have hreserved' := rolledBack_reserved_iff hmarker hreserving.1 hreserved h₃.1
  cases o with
  | getPendingCorrelationId _ =>
      rw [Harmless, htenant]
      exact hreserved' hleaves.1 hleaves.2
  | insertRun _ =>
      rw [Harmless, htenant]
      exact hreserved' hleaves.1 hleaves.2
  | insertHistory _ _ _ => exact ⟨fun hback => absurd hback.marker hleaves, fun h => h.2.elim⟩
  | markScenarioRunning _ _ =>
      rw [Harmless, htenant, hprofile]
      rw [Leaves] at hleaves
      by_cases hone : exe.profile.length = 1
      · rw [if_pos hone] at hleaves
        rw [hreserved' hleaves.1 hleaves.2, and_iff_left hone]
      · rw [if_neg hone] at hleaves
        exact ⟨fun hback => absurd hback.marker hleaves, fun h => absurd h.2.2 hone⟩
  | _ => exact hleaves.elim

/-- A trigger that failed has rolled back everything if and only if the execution had
no open run and no marks before, and the question that failed, if one did, is a harmless
one. -/
theorem trigger_rolledBack_iff (cfg : Config) (executionId : ℤ) (views : ℕ → View)
    (fault : Option ℕ) (s : Store p) (e : Failure)
    (hfailed : ((trigger cfg executionId).alone (server cfg) views
      (fault.map fun k => (k, .fails)) s).result = some (.error e)) :
    RolledBack executionId s ((trigger cfg executionId).alone (server cfg) views
        (fault.map fun k => (k, .fails)) s).state ↔
      Clean executionId s ∧ ∀ m ∈ ((trigger cfg executionId).alone (server cfg) views
        (fault.map fun k => (k, .fails)) s).mishaps, Harmless cfg executionId s m := by
  refine (sure_trigger cfg executionId s).alone views _ ?_ e hfailed
  refine (length_mishaps_alone _ _ _ _ _).trans ?_
  cases fault with
  | none => exact Nat.zero_le 1
  | some k => exact le_rfl

def faultyTrigger (fault : ℕ) : Course Op Failure Unit (Store .microseconds) :=
  (trigger smallConfig 1).alone (server smallConfig) (fun _ => .ready 2) (some (fault, .fails)) .new

/-- The reservation cannot be made. -/
theorem rolledBack_notReserved :
    (faultyTrigger 13).result = some (.error .unavailable) ∧
      (RolledBack 1 .new (faultyTrigger 13).state ↔
        Clean 1 (.new : Store .microseconds) ∧
          ∀ m ∈ (faultyTrigger 13).mishaps, Harmless smallConfig 1 .new m) := by
  have hfailed : (faultyTrigger 13).result = some (.error .unavailable) := by decide +kernel
  exact ⟨hfailed,
    trigger_rolledBack_iff smallConfig 1 (fun _ => .ready 2) (some 13) .new .unavailable hfailed⟩

/-- The marker is there, and the history row could not be inserted. -/
theorem not_rolledBack_noHistory :
    (faultyTrigger 17).result = some (.error .unavailable) ∧
      ¬RolledBack 1 .new (faultyTrigger 17).state := by
  have hmarker : (faultyTrigger 17).state.marker 1 = some 1 := by decide +kernel
  exact ⟨by decide +kernel, fun h => absurd (hmarker.symm.trans h.marker) nofun⟩

end Honryu.Control
