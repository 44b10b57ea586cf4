import Honryu.Campaigns.Campaign
import Honryu.Control.Smooth

/-!
The drain pass: what is already running when a campaign becomes active, and is not to run
beside it, is stopped.

A new run is refused by `IsFrozen`, which asks all active campaigns. The pass goes campaign by
campaign, and looks at what is deployed on the default cluster only.
-/

namespace Honryu.Campaigns

open Call Control

variable {p : Quota.Precision} {cat : Catalogue} (cfg : Config) (st : Store cat)

/-! ### The pass -/

/-- `InScopeExecutions`. -/
def inScopeExecutions (campaignId : ℤ) : Proc (List ℤ) :=
  match st.get campaignId with
  | none => Call.fail .notFound
  | some c => do
      let deployed ← query (.deployedExecutions "")
      return inScope cat c (deployed.map (·.1))

/-- The inner loop of `drainOnce`. -/
def drainExecutions : List ℤ → Proc Unit
  | [] => return ()
  | executionId :: rest => do
      match ← Call.attempt (query (.currentRun executionId .toKnow)) with
      | .ok (some _) => do
          let _ ← Call.attempt (stop cfg executionId)
          drainExecutions rest
      | _ => drainExecutions rest

def drainCampaigns : List Campaign → Proc Unit
  | [] => return ()
  | c :: rest => do
      match ← Call.attempt (inScopeExecutions st c.id) with
      | .ok executions => do
          drainExecutions cfg executions
          drainCampaigns rest
      | .error _ => drainCampaigns rest

/-- `drainOnce` stops what is running in the scope of an active campaign. -/
def drainOnce (now : ℤ) : Proc Unit := drainCampaigns cfg st (st.active now)

/-! ### What it comes to -/

structure Drained (out : ℤ → Prop) (s s' : Control.Store p) : Prop where
  gone : ∀ e, out e → s'.marker e = none
  kept : ∀ e, ¬out e → s'.marker e = s.marker e

variable {cfg st} {out out' : ℤ → Prop} {s s' s'' : Control.Store p} {had : View → Prop} {view : View}

theorem Drained.trans (h : Drained out s s') (h' : Drained out' s' s'') :
    Drained (fun e => out e ∨ out' e) s s'' := by
  refine ⟨fun e he => ?_, fun e he => ?_⟩
  · by_cases hlater : out' e
    · exact h'.gone e hlater
    · rw [h'.kept e hlater, h.gone e (he.resolve_right hlater)]
  · rw [not_or] at he
    rw [h'.kept e he.2, h.kept e he.1]

theorem Drained.congr (h : Drained out s s') (hiff : ∀ e, out' e ↔ out e) : Drained out' s s' :=
  ⟨fun e he => h.gone e ((hiff e).mp he), fun e he => h.kept e (mt (hiff e).mpr he)⟩

theorem Drained.idle {executionId : ℤ} (h : s.marker executionId = none) :
    Drained (· = executionId) s s :=
  ⟨fun _ he => he ▸ h, fun _ _ => rfl⟩

theorem Drained.stopped {executionId : ℤ}
    (h : s'.marker = Function.update s.marker executionId none) :
    Drained (· = executionId) s s' := by
  refine ⟨fun e he => ?_, fun e he => ?_⟩
  · rw [h, he, Function.update_self]
  · rw [h, Function.update_of_ne he]

theorem smoothly_drainExecutions (executions : List ℤ) :
    (drainExecutions cfg executions).Smoothly (server cfg) had s fun r s' =>
      r = .ok () ∧ Drained (· ∈ executions) s s' := by
  induction executions generalizing s with
  | nil => exact ⟨rfl, ⟨fun _ he => absurd he List.not_mem_nil, fun _ _ => rfl⟩⟩
  | cons executionId rest ih =>
      have hrest : ∀ s', Drained (· = executionId) s s' →
          (drainExecutions cfg rest).Smoothly (server cfg) had s' fun r s'' =>
            r = .ok () ∧ Drained (· ∈ executionId :: rest) s s'' := by
        intro s' hfirst
        exact ih.mono fun r s'' h => ⟨h.1, (hfirst.trans h.2).congr fun e => List.mem_cons⟩
      refine Smoothly.attempt_need_bind fun view _ => ?_
      have hreply : ((server cfg).perform view (.currentRun executionId .toKnow) s).1 =
          .ok (s.marker executionId) := rfl
      rw [hreply]
      cases hrun : s.marker executionId with
      | none => exact hrest s (.idle hrun)
      | some runId =>
          exact Smoothly.attempt_bind (smoothly_stop hrun) fun _ s' h => hrest s' (.stopped h.2)

theorem smoothly_drainCampaigns {campaigns : List Campaign} (h : ∀ c ∈ campaigns, c ∈ st.rows) :
    (drainCampaigns cfg st campaigns).Smoothly (server cfg) (· = view) s fun r s' =>
      r = .ok () ∧ Drained
        (fun e => ∃ c ∈ campaigns, e ∈ inScope cat c ((view.deployed "").map (·.1))) s s' := by
  induction campaigns generalizing s with
  | nil => exact ⟨rfl, ⟨fun _ ⟨_, hc, _⟩ => absurd hc List.not_mem_nil, fun _ _ => rfl⟩⟩
  | cons c rest ih =>
      obtain ⟨hc, hrest⟩ := List.forall_mem_cons.mp h
      rw [drainCampaigns, inScopeExecutions, Store.get_of_mem hc]
      rintro _ rfl
      refine (smoothly_drainExecutions _).bind (fun _ s' h => ?_) fun e s' h => nomatch h.1
      exact (ih hrest).mono fun r s'' h' => ⟨h'.1, (h.2.trans h'.2).congr fun e => by simp⟩

/-! ### Freeze and drain -/

variable (cfg st) in
/-- The executions that a drain pass stops are those that are running and frozen. -/
def FreezeAgrees (now : ℤ) (view : View) (s : Control.Store p) : Prop :=
  ∀ executionId projectId, cat.projectOf executionId = some projectId →
    (s.marker executionId).isSome →
      (((drainOnce cfg st now).alone (server cfg) (fun _ => view) none s).state.marker executionId = none ↔
        (isFrozen st now projectId executionId).isSome)

variable (st) in
/-- What is running and no active campaign of its project designates is deployed on the default
cluster. What is running there and some active campaign designates, all active campaigns that
include its project do. -/
structure Uncontested (now : ℤ) (view : View) (s : Control.Store p) : Prop where
  within : ∀ executionId projectId, cat.projectOf executionId = some projectId →
    (s.marker executionId).isSome → (∃ c ∈ st.active now, c.Includes projectId) →
      (∀ c ∈ st.active now, ¬c.Designates executionId) →
        executionId ∈ (view.deployed "").map (·.1)
  alike : ∀ executionId projectId, cat.projectOf executionId = some projectId →
    (s.marker executionId).isSome → executionId ∈ (view.deployed "").map (·.1) →
      ∀ c ∈ st.active now, ∀ c' ∈ st.active now, c.Designates executionId →
        c'.Includes projectId → c'.Designates executionId

variable (cfg) in
theorem stopped_iff (now : ℤ) {executionId projectId : ℤ}
    (hproject : cat.projectOf executionId = some projectId) (hrun : (s.marker executionId).isSome) :
    ((drainOnce cfg st now).alone (server cfg) (fun _ => view) none s).state.marker executionId = none ↔
      executionId ∈ (view.deployed "").map (·.1) ∧
        ∃ c ∈ st.active now, c.Includes projectId ∧ ¬c.Designates executionId := by
  have hrows : ∀ c ∈ st.active now, c ∈ st.rows := fun c hc => List.mem_of_mem_filter hc
  have hpass : (drainCampaigns cfg st (st.active now)).Smoothly (server cfg) (· = view) s _ :=
    smoothly_drainCampaigns hrows
  obtain ⟨r, -, -, hdrained⟩ := hpass.alone (fun _ => view) fun _ => rfl
  have hscope : (∃ c ∈ st.active now, executionId ∈ inScope cat c ((view.deployed "").map (·.1))) ↔
      executionId ∈ (view.deployed "").map (·.1) ∧
        ∃ c ∈ st.active now, c.Includes projectId ∧ ¬c.Designates executionId := by
    simp only [mem_inScope, hproject, Option.some_inj, exists_eq_left']
    tauto
  rw [← hscope]
  refine ⟨fun hgone => ?_, hdrained.gone executionId⟩
  by_contra hnot
  rw [drainOnce, hdrained.kept executionId hnot] at hgone
  rw [hgone] at hrun
  cases hrun

/-- The drain pass stops what is frozen, and nothing else, as long as this is deployed where the
pass looks and the active campaigns agree on who is designated. -/
theorem freezeAgrees_iff (cfg : Config) (st : Store cat) (now : ℤ) (view : View)
    (s : Control.Store p) : FreezeAgrees cfg st now view s ↔ Uncontested st now view s := by
  constructor
  · intro h
    refine ⟨fun e q hq hrun hincludes hnone => ?_, fun e q hq hrun hdeployed c hc c' hc' hdes hincl => ?_⟩
    · have hfrozen := (isSome_isFrozen st now hq).mpr ⟨hnone, hincludes⟩
      exact ((stopped_iff cfg now hq hrun).mp ((h e q hq hrun).mpr hfrozen)).1
    · by_contra hnot
      have hstopped := (stopped_iff cfg now hq hrun).mpr ⟨hdeployed, c', hc', hincl, hnot⟩
      exact ((isSome_isFrozen st now hq).mp ((h e q hq hrun).mp hstopped)).1 c hc hdes
  · intro h e q hq hrun
    rw [stopped_iff cfg now hq hrun, isSome_isFrozen st now hq]
    constructor
    · rintro ⟨hdeployed, c', hc', hincl, hnot⟩
      exact ⟨fun c hc hdes => hnot (h.alike e q hq hrun hdeployed c hc c' hc' hdes hincl),
        c', hc', hincl⟩
    · rintro ⟨hnone, c, hc, hincl⟩
      exact ⟨h.within e q hq hrun ⟨c, hc, hincl⟩ hnone, c, hc, hincl, hnone c hc⟩

/-! ### Two campaigns of one project -/

def oneProject : Catalogue :=
  { execution := fun executionId =>
      if executionId = 1 ∨ executionId = 2 then some ⟨1, .normal⟩ else none
    project := fun projectId => if projectId = 1 then some (some 1) else none }

def campaignFor (executionId : ℤ) : Campaign :=
  { id := 0, name := "c", tenantId := 1, window := ⟨0, 10 ^ 9⟩, services := [⟨1, executionId⟩]
    abortedAt := none }

def twoCampaigns : Store oneProject :=
  (Store.empty.insert (campaignFor 1) (by decide) (by decide)).insert (campaignFor 2) (by decide) (by decide)

def firstRunning : Control.Store .microseconds :=
  { Control.Store.new with marker := fun executionId => if executionId = 1 then some 1 else none }

theorem not_freezeAgrees_twoCampaigns :
    ¬FreezeAgrees smallConfig twoCampaigns 0 { View.ready 2 with deployed := fun _ => [(1, 0)] }
      firstRunning := by
  intro h
  have hagrees := h 1 1 (by decide) (by decide)
  exact absurd hagrees (by decide +kernel)

end Honryu.Campaigns
