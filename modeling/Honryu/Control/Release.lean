import Honryu.Control.Questions
import Honryu.Lib.Alone

/-!
What a run holds, and who gives it back when the run ends.

A run marks its scenarios as running, opens a launch and reserves capacity. One who stops or purges
an execution gives all of this back, apart from the marks of scenarios that are no longer in the load
profile. Whoever else closes a run only deletes its marker.
-/

namespace Honryu.Control

open Call Lifecycle Metrics Quota

variable {p : Precision} (cfg : Config)

/-! ### How a run ends -/

inductive EndingCall
  | ingest (batch : Batch)
  | stop
  | purge
  | reconcile
  | reconcileAbandoned (after : ℤ)

def EndingCall.body (executionId : ℤ) : EndingCall → Proc Unit
  | .ingest batch => Control.ingest cfg batch
  | .stop => Control.stop cfg executionId
  | .purge => Control.purge cfg executionId
  | .reconcile => Control.reconcile cfg
  | .reconcileAbandoned after => Control.reconcileAbandoned cfg after

section Released

variable (executionId : ℤ) (call : EndingCall) (input : ℕ → View) (mishap : Option (ℕ × Mishap))
  (s : Store p)

def ending : Course Op Failure Unit (Store p) :=
  (call.body cfg executionId).alone (server cfg) input mishap s

structure Ends : Prop where
  running : ∃ runId, s.marker executionId = some runId
  returned : (ending cfg executionId call input mishap s).result = some (.ok ())
  closed : (ending cfg executionId call input mishap s).state.marker executionId = none

/-- No scenario of the execution is marked, its launch is closed, and none of the reservations is
there that were made for the run. -/
structure Released (made : List ℤ) : Prop where
  marks : ∀ m ∈ s.marks, m.1 ≠ executionId
  launch : s.usage.active executionId = none
  reservations : ∀ r ∈ s.ledger.rows, r.id ∉ made

def isFinish : Op → Bool
  | .finishLaunch _ _ => true
  | _ => false

def isRelease : Op → Bool
  | .releaseReservations _ => true
  | _ => false

/-- One who stops or purges the execution gives back what the run holds, as far as its scenarios
are in the load profile, and nothing happens to the questions whose failure is ignored. Anybody
else gives back nothing. -/
def GivenBack (made : List ℤ) (mishaps : List (Op × Store p)) : EndingCall → Prop
  | .stop | .purge =>
      (∀ m ∈ s.marks, m.1 = executionId → m.2 ∈ (cfg.profile executionId).map (·.scenarioId)) ∧
        (struck isFinish mishaps = true → s.usage.active executionId = none) ∧
          (struck isRelease mishaps = true → ∀ r ∈ s.ledger.rows, r.id ∉ made)
  | _ => Released executionId s made

end Released

/-! ### Calls that give back nothing -/

section Keeping

def Unreleasing : Op → Prop
  | .markScenarioRunning _ _ | .clearScenarioRunning _ _ | .startLaunch _ _ _ _ | .finishLaunch _ _
  | .createReservation _ | .deleteReservation _ | .releaseReservations _ => False
  | _ => True

structure SameHoldings (s s' : Store p) : Prop where
  marks : s'.marks = s.marks
  usage : s'.usage = s.usage
  ledger : s'.ledger = s.ledger

variable {cfg} {s s' : Store p} {executionId : ℤ}

theorem SameHoldings.refl (s : Store p) : SameHoldings s s := ⟨rfl, rfl, rfl⟩

theorem SameHoldings.released_iff (h : SameHoldings s s') (made : List ℤ) :
    Released executionId s' made ↔ Released executionId s made := by
  constructor
  · rintro ⟨hmarks, hlaunch, hreservations⟩
    rw [h.marks] at hmarks
    rw [h.usage] at hlaunch
    rw [h.ledger] at hreservations
    exact ⟨hmarks, hlaunch, hreservations⟩
  · rintro ⟨hmarks, hlaunch, hreservations⟩
    rw [← h.marks] at hmarks
    rw [← h.usage] at hlaunch
    rw [← h.ledger] at hreservations
    exact ⟨hmarks, hlaunch, hreservations⟩

theorem Unreleasing.sameHoldings {o : Op} (ho : Unreleasing o) (h : SameHoldings s s') :
    SameHoldings s (effect cfg s' o) := by
  cases o <;> first | exact ho.elim | exact ⟨h.marks, h.usage, h.ledger⟩

theorem Unreleasing.not_hit {o : Op} (ho : Unreleasing o) :
    isFinish o = false ∧ isRelease o = false := by
  cases o <;> first | exact ho.elim | exact ⟨rfl, rfl⟩

theorem sure_sameHoldings {α : Type} {c : Proc α} (hc : c.Asks Unreleasing) (s : Store p) :
    c.Sure (server cfg) s fun log _ s' =>
      SameHoldings s s' ∧ struck isFinish log = false ∧ struck isRelease log = false := by
  have hkeep : ∀ o, Unreleasing o → ∀ view s', SameHoldings s s' →
      SameHoldings s ((server cfg).perform view o s').2 := fun o ho _ _ h => ho.sameHoldings h
  refine (hc.sure hkeep (.refl s)).mono fun log r s' h => ⟨h.1, ?_, ?_⟩
  · exact List.any_eq_false.mpr fun m hm => by rw [(h.2 m hm).1.not_hit.1]; exact nofun
  · exact List.any_eq_false.mpr fun m hm => by rw [(h.2 m hm).1.not_hit.2]; exact nofun

theorem Looking.unreleasing {o : Op} (h : Looking o) : Unreleasing o := by
  cases o <;> first | exact h.elim | trivial

theorem FinalisingOf.unreleasing {o : Op} (h : FinalisingOf executionId o) : Unreleasing o := by
  cases o <;> first | exact h.elim | trivial

theorem ClosingOf.unreleasing {o : Op} (h : ClosingOf executionId o) : Unreleasing o := by
  cases o <;> first | exact h.elim | trivial

theorem asks_stopRun_unreleasing (onBehalf : Option ℤ) :
    (stopRun executionId onBehalf).Asks Unreleasing :=
  (asks_stopRun _ _).mono fun _ => ClosingOf.unreleasing

variable (cfg)

theorem asks_ingest (batch : Batch) : (ingest cfg batch).Asks Unreleasing := by
  refine .need trivial fun current => ?_
  cases current with
  | none =>
      exact .bind (asks_recordOrphan (fun _ => Looking.unreleasing) batch fun _ => trivial) fun _ =>
        trivial
  | some runId =>
      dsimp only
      split
      · trivial
      · exact .need trivial fun _ => asks_complete cfg (fun _ => Looking.unreleasing) batch runId
          fun _ ho => ho.finalisingOf.unreleasing

theorem asks_reconcile : (reconcile cfg).Asks Unreleasing :=
  .need trivial fun rows => asks_reconcileEach cfg (fun _ => Looking.unreleasing) rows
    fun _ _ _ ho => ho.finalisingOf.unreleasing

theorem asks_reconcileAbandoned (after : ℤ) : (reconcileAbandoned cfg after).Asks Unreleasing := by
  unfold reconcileAbandoned
  split
  · trivial
  · exact .need trivial fun rows => asks_reconcileAbandonedEach cfg (fun _ => Looking.unreleasing)
      after rows fun _ _ _ ho => ho.finalisingOf.unreleasing

end Keeping

/-! ### Tearing down -/

section Teardown

variable {cfg} {s : Store p} {executionId : ℤ}

structure TornDown (executionId : ℤ) (scenarios : List LoadProfile.Entry) (s : Store p)
    (log : List (Op × Store p)) (s' : Store p) : Prop where
  marks : ∀ m, m ∈ s'.marks ↔
    m ∈ s.marks ∧ ¬(m.1 = executionId ∧ m.2 ∈ scenarios.map (·.scenarioId))
  active : s'.usage.active executionId =
    if struck isFinish log then s.usage.active executionId else none
  ledger : s'.ledger = if struck isRelease log then s.ledger else s.ledger.release executionId

theorem sure_clearScenarios (scenarios : List LoadProfile.Entry) :
    (clearScenarios executionId scenarios).Sure (server cfg) s fun log r s' => r = some (.ok ()) →
      (∀ m, m ∈ s'.marks ↔
        m ∈ s.marks ∧ ¬(m.1 = executionId ∧ m.2 ∈ scenarios.map (·.scenarioId))) ∧
      s'.usage = s.usage ∧ s'.ledger = s.ledger ∧
        struck isFinish log = false ∧ struck isRelease log = false := by
  induction scenarios generalizing s with
  | nil => exact fun _ => ⟨fun m => by simp, rfl, rfl, rfl, rfl⟩
  | cons e rest ih =>
      refine Sure.need_bind (fun view _ _ => ?_) (fun _ _ _ => nofun) (fun _ _ => nofun) nofun
      refine ih.mono fun log r s' h hr => ?_
      obtain ⟨hmarks, hrest⟩ := h hr
      refine ⟨fun m => ?_, hrest⟩
      rw [hmarks]
      simp only [server, effect, List.mem_filter, decide_eq_true_eq, List.map_cons, List.mem_cons,
        ne_eq, Prod.ext_iff]
      tauto

theorem sure_finishLaunch (vu : ℤ) :
    (bestEffort (.finishLaunch executionId vu)).Sure (server cfg) s fun log r s' =>
      s'.marks = s.marks ∧ s'.ledger = s.ledger ∧ struck isRelease log = false ∧
        (r = some (.ok ()) → s'.usage.active executionId =
          if struck isFinish log then s.usage.active executionId else none) :=
  ⟨fun _ => ⟨rfl, rfl, rfl, fun _ => Usage.Launches.active_finish ..⟩,
    fun _ _ => ⟨rfl, rfl, rfl, fun _ => rfl⟩, rfl, rfl, rfl, nofun⟩

theorem sure_releaseReservations :
    (bestEffort (.releaseReservations executionId)).Sure (server cfg) s fun log r s' =>
      s'.marks = s.marks ∧ s'.usage = s.usage ∧ struck isFinish log = false ∧
        (r = some (.ok ()) → s'.ledger =
          if struck isRelease log then s.ledger else s.ledger.release executionId) :=
  ⟨fun _ => ⟨rfl, rfl, rfl, fun _ => rfl⟩, fun _ _ => ⟨rfl, rfl, rfl, fun _ => rfl⟩, rfl, rfl, rfl,
    nofun⟩

theorem sure_teardown (onBehalf : Option ℤ) :
    (teardown cfg executionId onBehalf).Sure (server cfg) s fun log r s' => r = some (.ok ()) →
      TornDown executionId (cfg.profile executionId) s log s' := by
  have htouch : (bestEffort (.touchActivity executionId)).Asks Unreleasing :=
    asks_besides.mpr trivial
  refine (sure_sameHoldings htouch s).bind (fun log₀ _ s₀ h₀ => ?_) (fun _ _ _ _ => nofun)
    fun _ _ _ => nofun
  refine Sure.need_bind (fun view scenarios hscenarios => ?_) (fun _ _ _ => nofun) (fun _ _ => nofun)
    nofun
  cases hscenarios
  refine (sure_clearScenarios _).bind (fun log₁ _ s₁ h₁ => ?_) (fun _ _ _ _ => nofun) fun _ _ _ => nofun
  refine (sure_finishLaunch _).bind (fun log₂ _ s₂ h₂ => ?_) (fun _ _ _ _ => nofun) fun _ _ _ => nofun
  refine sure_releaseReservations.bind (fun log₃ _ s₃ h₃ => ?_) (fun _ _ _ _ => nofun)
    fun _ _ _ => nofun
  refine (sure_sameHoldings ?_ s₃).mono fun log₄ r s₄ h₄ hr => ?_
  · refine .bind (.attempt (asks_need.mpr trivial)) fun current => ?_
    split
    · exact .bind
        (.attempt ((asks_finalizeStopped cfg _ _ _).mono fun _ => FinalisingOf.unreleasing))
        fun _ => asks_stopRun_unreleasing _
    · exact asks_stopRun_unreleasing _
  · obtain ⟨hsame₀, hfinish₀, hrelease₀⟩ := h₀
    obtain ⟨hmarks₁, husage₁, hledger₁, hfinish₁, hrelease₁⟩ := h₁ rfl
    obtain ⟨hmarks₂, hledger₂, hrelease₂, hactive₂⟩ := h₂
    obtain ⟨hmarks₃, husage₃, hfinish₃, hledger₃⟩ := h₃
    obtain ⟨hsame₄, hfinish₄, hrelease₄⟩ := h₄
    refine ⟨fun m => ?_, ?_, ?_⟩
    · rw [hsame₄.marks, hmarks₃, hmarks₂, hmarks₁, ← hsame₀.marks]
      rfl
    · rw [hsame₄.usage, husage₃, hactive₂ rfl, husage₁, ← hsame₀.usage]
      simp only [struck_append, hfinish₀, hfinish₁, hfinish₃, hfinish₄, Bool.false_or, Bool.or_false]
      rfl
    · rw [hsame₄.ledger, hledger₃ rfl, hledger₂, hledger₁, ← hsame₀.ledger]
      simp only [struck_append, hrelease₀, hrelease₁, hrelease₂, hrelease₄, Bool.false_or,
        Bool.or_false]
      rfl

/-- What follows a teardown and has nothing to do with what the run held. -/
theorem TornDown.then {scenarios : List LoadProfile.Entry} {log log' : List (Op × Store p)}
    {s' s'' : Store p} (h : TornDown executionId scenarios s log s') (hsame : SameHoldings s' s'')
    (hfinish : struck isFinish log' = false) (hrelease : struck isRelease log' = false) :
    TornDown executionId scenarios s (log ++ log') s'' := by
  refine ⟨fun m => ?_, ?_, ?_⟩
  · rw [hsame.marks, h.marks]
  · rw [hsame.usage, h.active, struck_append, hfinish, Bool.or_false]
  · rw [hsame.ledger, h.ledger, struck_append, hrelease, Bool.or_false]

theorem sure_stop :
    (stop cfg executionId).Sure (server cfg) s fun log r s' => r = some (.ok ()) →
      TornDown executionId (cfg.profile executionId) s log s' := by
  refine Sure.need_bind (fun view current _ => ?_) (fun _ _ _ => nofun) (fun _ _ => nofun) nofun
  split
  · exact nofun
  · exact sure_teardown current

theorem sure_purge {runId : ℤ} (hrun : s.marker executionId = some runId) :
    (purge cfg executionId).Sure (server cfg) s fun log r s' => r = some (.ok ()) →
      TornDown executionId (cfg.profile executionId) s log s' := by
  have hteardown : (teardownAndCapture cfg executionId).Sure (server cfg) s fun log r s' =>
      r = some (.ok ()) → TornDown executionId (cfg.profile executionId) s log s' := by
    refine Sure.need_bind (fun view current hcurrent => ?_) (fun _ _ _ => nofun) (fun _ _ => nofun)
      nofun
    obtain rfl : current = some runId := (Except.ok.inj hcurrent).symm.trans hrun
    exact sure_teardown _
  refine Sure.need_bind (fun view exe _ => ?_) (fun _ _ _ => nofun) (fun _ _ => nofun) nofun
  refine hteardown.bind (fun log _ s₁ h₁ => ?_) (fun _ _ _ _ => nofun) fun _ _ _ => nofun
  have hpurge : (purgeClusters executionId exe.clusters).Asks Unreleasing :=
    (asks_purgeClusters _ _).mono fun o ho => by cases o <;> first | exact ho.elim | trivial
  exact (sure_sameHoldings hpurge s₁).mono fun log' r s₂ h₂ _ => (h₁ rfl).then h₂.1 h₂.2.1 h₂.2.2

theorem TornDown.released_iff {log : List (Op × Store p)} {s' : Store p} {made : List ℤ}
    (h : TornDown executionId (cfg.profile executionId) s log s')
    (hmade : ∀ r ∈ s.ledger.rows, r.id ∈ made → r.executionId = executionId) :
    Released executionId s' made ↔ GivenBack cfg executionId s made log .stop := by
  constructor
  · rintro ⟨hmarks, hlaunch, hreservations⟩
    refine ⟨fun m hm hexe => ?_, fun hstruck => ?_, fun hstruck r hr => ?_⟩
    · by_contra hnot
      exact hmarks m ((h.marks m).mpr ⟨hm, fun hin => hnot hin.2⟩) hexe
    · rwa [h.active, if_pos hstruck] at hlaunch
    · rw [h.ledger, if_pos hstruck] at hreservations
      exact hreservations r hr
  · rintro ⟨hmarks, hlaunch, hreservations⟩
    refine ⟨fun m hm hexe => ?_, ?_, fun r hr hin => ?_⟩
    · obtain ⟨hold, hnot⟩ := (h.marks m).mp hm
      exact hnot ⟨hexe, hmarks m hold hexe⟩
    · rw [h.active]
      split
      · rename_i hstruck
        exact hlaunch hstruck
      · rfl
    · rw [h.ledger] at hr
      split at hr
      · rename_i hstruck
        exact hreservations hstruck r hr hin
      · obtain ⟨hrow, hother⟩ := List.mem_filter.mp hr
        exact of_decide_eq_true hother (hmade r hrow hin)

end Teardown

/-- What a run held is given back when it ends, if and only if it is stopped or purged, its
scenarios are in the load profile, and the questions whose failure is ignored do not fail; or if there
was nothing to give back. -/
theorem released_iff_givenBack (executionId : ℤ) (call : EndingCall) (input : ℕ → View)
    (mishap : Option (ℕ × Mishap)) (s : Store p) (made : List ℤ)
    (hmade : ∀ r ∈ s.ledger.rows, r.id ∈ made → r.executionId = executionId)
    (h : Ends cfg executionId call input mishap s) :
    Released executionId (ending cfg executionId call input mishap s).state made ↔
      GivenBack cfg executionId s made (ending cfg executionId call input mishap s).mishaps call := by
  obtain ⟨runId, hrun⟩ := h.running
  have hkeeps : ∀ {call : EndingCall}, (call.body cfg executionId).Asks Unreleasing →
      (Released executionId (ending cfg executionId call input mishap s).state made ↔
        Released executionId s made) := fun hasks =>
    ((sure_sameHoldings hasks s).alone input mishap).1.released_iff made
  cases call with
  | ingest batch => exact hkeeps (asks_ingest cfg batch)
  | stop => exact (sure_stop.alone input mishap h.returned).released_iff hmade
  | purge => exact ((sure_purge hrun).alone input mishap h.returned).released_iff hmade
  | reconcile => exact hkeeps (asks_reconcile cfg)
  | reconcileAbandoned after => exact hkeeps (asks_reconcileAbandoned cfg after)

/-! ### A run that is stopped, and one that completes -/

def openedAlone : Store .microseconds :=
  ((trigger smallConfig 1).alone (server smallConfig) (fun _ => .ready 2) none .new).state

/-- It is stopped. -/
theorem released_stopped :
    Released 1 (ending smallConfig 1 .stop (fun _ => .ready 2) none openedAlone).state
      (openedAlone.ledger.rows.map (·.id)) :=
  (released_iff_givenBack smallConfig 1 .stop (fun _ => .ready 2) none openedAlone
    (openedAlone.ledger.rows.map (·.id)) (by decide +kernel)
    ⟨⟨1, by decide +kernel⟩, by decide +kernel, by decide +kernel⟩).mpr
      ⟨by decide +kernel, by decide +kernel, by decide +kernel⟩

def oneLeft : Store .microseconds :=
  ((ingest smallConfig (lastPush 0)).alone (server smallConfig) (fun _ => .ready 2) none
    openedAlone).state

/-- The run completes, and its scenario is still marked as running. -/
theorem not_released_completed :
    Ends smallConfig 1 (.ingest (lastPush 1)) (fun _ => .ready 2) none oneLeft ∧
      ¬Released 1 (ending smallConfig 1 (.ingest (lastPush 1)) (fun _ => .ready 2) none oneLeft).state
        (openedAlone.ledger.rows.map (·.id)) := by
  refine ⟨⟨⟨1, by decide +kernel⟩, by decide +kernel, by decide +kernel⟩, fun h => ?_⟩
  exact absurd rfl (h.marks (1, 1) (by decide +kernel))

end Honryu.Control
