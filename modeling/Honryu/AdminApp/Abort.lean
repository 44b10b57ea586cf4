import Honryu.Campaigns.Drain
import Honryu.Control.Sweep

/-!
The kill switch: everything that a scope describes is torn down.

What is to be torn down is looked for on one cluster, which is the default one for a tenant and for a
campaign. An execution is then removed from the clusters that its row names. So a deployment is
missed that is not on the cluster that is looked at, and engines are left behind that are not on a
cluster of the row.
-/

namespace Honryu.AdminApp

open Call Control

/-! ### Scopes -/

inductive Scope
  | tenant (tenantId : ℤ)
  | cluster (ref : String)
  | campaign (campaignId : ℤ)
  deriving DecidableEq

inductive Target
  | scope (sc : Scope)
  | executionList (ids : List ℤ)
  deriving DecidableEq

/-- `strconv.ParseInt`, for 64 bits. -/
def parseInt (value : String) : Option ℤ :=
  let (sign, digits) := Text.splitSign value.toList
  (Text.digits? digits).bind fun n =>
    if -2 ^ 63 ≤ sign * n ∧ sign * n < 2 ^ 63 then some (sign * n) else none

/-- `parseExecutionList`: the ids that stand between commas. -/
def parseExecutionList (value : String) : Option (List ℤ) :=
  (((value.toList.splitOn ',').map fun part => Text.trimSpace (String.ofList part)).filter
    (· ≠ "")).mapM parseInt

/-- What a scope and its value stand for. Anything else is `ErrScopeInvalid`. -/
def parseTarget (scope value : String) : Option Target :=
  match scope with
  | "execution_list" => (parseExecutionList value).map .executionList
  | "campaign" => (parseInt value).map fun id => .scope (.campaign id)
  | "tenant" => (parseInt value).map fun id => .scope (.tenant id)
  | "cluster" => some (.scope (.cluster value))
  | _ => none

example : parseTarget "execution_list" "7, ,-3" = some (.executionList [7, -3]) := by decide +kernel

section Service

variable {p : Quota.Precision} {cat : Campaigns.Catalogue} (cfg : Config) (st : Campaigns.Store cat)

/-- `deployedExecutionIDs`. -/
def deployedExecutionIds (cluster : String) : Proc (List ℤ) := do
  let deployed ← query (.deployedExecutions cluster)
  return deployed.map (·.1)

/-- The loop of `deployedExecutionsForTenant`. An execution without a row is passed over. -/
def ofTenant (tenantId : ℤ) : List ℤ → Proc (List ℤ)
  | [] => return []
  | executionId :: rest => do
      match ← Call.attempt (query (.getExecution executionId)) with
      | .error _ => ofTenant tenantId rest
      | .ok exe =>
          let out ← ofTenant tenantId rest
          return if exe.tenantId = some tenantId then executionId :: out else out

/-- `campaignExecutionIDs`: what a drain pass stops, and what is designated. -/
def campaignExecutionIds (campaignId : ℤ) : Proc (List ℤ) :=
  match st.get campaignId with
  | none => Call.fail .notFound
  | some c => do
      let inScope ← Campaigns.inScopeExecutions st campaignId
      let deployed ← query (.deployedExecutions "")
      let designated := (c.services.map (·.executionId)).filter (· ∈ deployed.map (·.1))
      return (inScope ++ designated).insertionSort (· ≤ ·)

/-- `matchingExecutions`. -/
def matchingExecutions : Target → Proc (List ℤ)
  | .executionList ids => return ids
  | .scope (.campaign campaignId) => campaignExecutionIds st campaignId
  | .scope (.tenant tenantId) => do
      let ids ← deployedExecutionIds ""
      ofTenant tenantId ids
  | .scope (.cluster ref) => deployedExecutionIds ref

/-- The loop of `Abort`. What cannot be purged is left out. -/
def purgeEach : List ℤ → Proc (List ℤ)
  | [] => return []
  | executionId :: rest => do
      let purged ← Call.attempt (purge cfg executionId)
      let aborted ← purgeEach rest
      return if purged.isOk then executionId :: aborted else aborted

def closeCampaign (now : ℤ) : Target → Except Campaigns.ServiceError (Campaigns.Store cat)
  | .scope (.campaign campaignId) => st.abort campaignId now
  | _ => .ok st

/-- `Abort` returns what it has torn down, and what has become of the campaigns. -/
def abort (now : ℤ) (target : Target) :
    Proc (List ℤ × Except Campaigns.ServiceError (Campaigns.Store cat)) := do
  let targets ← matchingExecutions st target
  let aborted ← purgeEach cfg targets
  return (aborted.insertionSort (· ≤ ·), closeCampaign st now target)

/-! ### What a scope describes -/

/-- The executions that a scope describes, wherever they are deployed. -/
def Describes (pods : Pods) (executionId : ℤ) : Scope → Prop
  | .tenant tenantId => ∃ exe ∈ cfg.execution executionId, exe.tenantId = some tenantId
  | .cluster ref => pods.holds ref executionId
  | .campaign campaignId => ∃ c ∈ st.get campaignId,
      c.Designates executionId ∨ ∃ projectId ∈ cat.projectOf executionId, c.Includes projectId

def Scope.looksAt : Scope → String
  | .cluster ref => ref
  | .tenant _ | .campaign _ => ""

def clustersOf (executionId : ℤ) : List String := (cfg.execution executionId).elim [] (·.clusters)

/-- No call fails: every execution that is deployed has its row, and the campaign exists. A cluster
lists an execution once. -/
structure Answered (pods : Pods) (sc : Scope) : Prop where
  distinct : ∀ cluster, ((pods cluster).map (·.1)).Nodup
  known : ∀ cluster executionId, pods.holds cluster executionId → (cfg.execution executionId).isSome
  campaign : ∀ campaignId, sc = .campaign campaignId → (st.get campaignId).isSome

/-- Everything that is deployed and that the scope describes is torn down. What is returned is
returned once, and has no engines left on any cluster. -/
def Complete (now : ℤ) (views : ℕ → View) (sc : Scope) (s : Control.Store p) (pods : Pods) : Prop :=
  let course := (abort cfg st now (.scope sc)).alone (podServer cfg) views none (s, pods)
  ∃ ids closed, course.result = some (.ok (ids, .ok closed)) ∧ ids.Nodup ∧
    (∀ executionId ∈ ids, ∀ cluster, ¬course.state.2.holds cluster executionId) ∧
    ∀ executionId, Describes cfg st pods executionId sc →
      (∃ cluster, pods.holds cluster executionId) → executionId ∈ ids

/-- Whatever the scope describes is deployed on the cluster that is looked at, and on no cluster that
its row does not name. -/
def Placed (sc : Scope) (pods : Pods) : Prop :=
  ∀ executionId cluster, Describes cfg st pods executionId sc → pods.holds cluster executionId →
    pods.holds sc.looksAt executionId ∧ cluster ∈ clustersOf cfg executionId

end Service

/-! ### Purging -/

section Purging

variable {p : Quota.Precision} {cfg : Config} {s : Control.Store p} {pods : Pods}
  {x : Control.Store p × Pods} {executionId : ℤ}

def Spares (o : Op) : Prop := ∀ pods : Pods, removed pods o = pods

/-- What does not remove engines goes as it does without them. -/
theorem smoothly_podServer {α : Type} {c : Proc α} {Q : Except Failure α → Control.Store p → Prop}
    (hc : c.Smoothly (server cfg) (fun _ => True) s Q) (hasks : c.Asks Spares) :
    c.Smoothly (podServer cfg) (fun _ => True) (s, pods) fun r x => Q r x.1 ∧ x.2 = pods := by
  induction c generalizing s with
  | ret a => exact ⟨hc, rfl⟩
  | fail e => exact ⟨hc, rfl⟩
  | ask o next ih =>
      intro view _
      have hpods : removed pods o = pods := hasks.1 pods
      simp only [podServer, hpods]
      exact ih _ (hc { view with deployed := pods } trivial) (hasks.2 _)

theorem spares_of_finalisingOf {o : Op} (h : FinalisingOf executionId o) : Spares o := by
  intro pods
  cases o <;> first | rfl | exact h.elim

theorem asks_teardown_spares (onBehalf : Option ℤ) :
    (teardown cfg executionId onBehalf).Asks Spares := by
  have hrfl : ∀ {o : Op}, ClearingOf executionId o → Spares o := by
    intro o h pods
    cases o <;> first | rfl | exact h.elim
  have hstop := (asks_stopRun executionId onBehalf).mono fun _ ho =>
    spares_of_finalisingOf ho.finalisingOf
  refine .besides (fun _ => rfl) (.need (fun _ => rfl) fun scenarios =>
    .bind ((asks_clearScenarios _ _).mono fun _ => hrfl) fun _ =>
    .besides (fun _ => rfl) (.besides (fun _ => rfl)
      (.bind (.attempt (asks_need.mpr fun _ => rfl)) fun current => ?_)))
  split
  · exact .bind (.attempt ((asks_finalizeStopped cfg _ _ _).mono fun _ => spares_of_finalisingOf))
      fun _ => hstop
  · exact hstop

/-- `teardownAndCapture` succeeds, and removes nothing. -/
theorem smoothly_teardownAndCapture :
    (teardownAndCapture cfg executionId).Smoothly (podServer cfg) (fun _ => True) (s, pods)
      fun r x => r = .ok () ∧ x.2 = pods := by
  have hteardown : ∀ onBehalf, (teardown cfg executionId onBehalf).Smoothly (podServer cfg)
      (fun _ => True) (s, pods) fun r x => r = .ok () ∧ x.2 = pods := fun onBehalf =>
    (smoothly_podServer (smoothly_teardown onBehalf) (asks_teardown_spares onBehalf)).mono
      fun r x h => ⟨h.1.1, h.2⟩
  refine Smoothly.need_bind fun view _ => ⟨s.marker executionId, rfl, ?_⟩
  cases s.marker executionId with
  | some runId => exact hteardown _
  | none =>
      refine Smoothly.attempt_need_bind fun view _ => ?_
      split
      · exact hteardown _
      · exact ⟨rfl, rfl⟩

theorem holds_remove {cluster cluster' : String} {executionId' : ℤ} :
    (pods.remove cluster executionId).holds cluster' executionId' ↔
      pods.holds cluster' executionId' ∧ ¬(executionId' = executionId ∧ cluster' = cluster) := by
  by_cases h : cluster' = cluster
  · subst h
    simp [Pods.remove, Pods.holds]
  · simp [Pods.remove, Pods.holds, h]

theorem smoothly_purgeClusters (clusters : List String) :
    (purgeClusters executionId clusters).Smoothly (podServer cfg) (fun _ => True) x fun r x' =>
      r = .ok () ∧ ∀ cluster e, x'.2.holds cluster e ↔
        x.2.holds cluster e ∧ ¬(e = executionId ∧ cluster ∈ clusters) := by
  induction clusters generalizing x with
  | nil => exact ⟨rfl, fun cluster e => by simp⟩
  | cons first rest ih =>
      refine Smoothly.need_bind fun view _ => ⟨(), rfl, ih.mono fun r x' h => ?_⟩
      refine ⟨h.1, fun cluster e => ?_⟩
      rw [h.2]
      change (x.2.remove first executionId).holds cluster e ∧ _ ↔ _
      rw [holds_remove, List.mem_cons]
      tauto

/-- `Purge` of an execution that has its row removes it from the clusters of the row. -/
theorem smoothly_purge (h : (cfg.execution executionId).isSome) :
    (purge cfg executionId).Smoothly (podServer cfg) (fun _ => True) x fun r x' =>
      r = .ok () ∧ ∀ cluster e, x'.2.holds cluster e ↔
        x.2.holds cluster e ∧ ¬(e = executionId ∧ cluster ∈ clustersOf cfg executionId) := by
  obtain ⟨exe, hexe⟩ := Option.isSome_iff_exists.mp h
  refine Smoothly.need_bind fun view _ => ⟨exe, found_eq_ok.mpr hexe, ?_⟩
  refine smoothly_teardownAndCapture.bind (fun _ x' h => ?_) fun e x' h => nomatch h.1
  have hpods : x'.2 = x.2 := h.2
  rw [clustersOf, hexe, Option.elim_some, ← hpods]
  exact smoothly_purgeClusters exe.clusters

theorem smoothly_purgeEach {targets : List ℤ} (h : ∀ e ∈ targets, (cfg.execution e).isSome) :
    (purgeEach cfg targets).Smoothly (podServer cfg) (fun _ => True) x fun r x' =>
      r = .ok targets ∧ ∀ cluster e, x'.2.holds cluster e ↔
        x.2.holds cluster e ∧ ¬(e ∈ targets ∧ cluster ∈ clustersOf cfg e) := by
  induction targets generalizing x with
  | nil => exact ⟨rfl, fun cluster e => by simp⟩
  | cons first rest ih =>
      obtain ⟨hfirst, hrest⟩ := List.forall_mem_cons.mp h
      refine Smoothly.attempt_bind (smoothly_purge hfirst) fun r x' hpurged => ?_
      obtain ⟨rfl, hpurged⟩ := hpurged
      refine (ih hrest).bind (fun aborted x'' h => ?_) fun e x'' h => nomatch h.1
      obtain ⟨haborted, hholds⟩ := h
      cases haborted
      refine ⟨rfl, fun cluster e => ?_⟩
      rw [hholds, hpurged, List.mem_cons]
      by_cases he : e = first
      · subst he
        tauto
      · simp only [he, false_and, false_or, not_false_eq_true, and_true]

end Purging

/-! ### Aborting -/

section Aborting

variable {p : Quota.Precision} {cat : Campaigns.Catalogue} {cfg : Config} {st : Campaigns.Store cat}
  {sc : Scope} {pods : Pods} {x : Control.Store p × Pods}

theorem smoothly_ofTenant (tenantId : ℤ) (ids : List ℤ) :
    (ofTenant tenantId ids).Smoothly (podServer cfg) (fun _ => True) x fun r x' =>
      x' = x ∧ r = .ok (ids.filter fun e => (cfg.execution e).any (·.tenantId = some tenantId)) := by
  induction ids with
  | nil => exact ⟨rfl, rfl⟩
  | cons executionId rest ih =>
      refine Smoothly.attempt_need_bind fun view _ => ?_
      have hreply : ((podServer cfg).perform view (.getExecution executionId) x).1 =
          found (cfg.execution executionId) := rfl
      rw [hreply]
      cases hexe : cfg.execution executionId with
      | none => exact ih.mono fun r x' h => ⟨h.1, by rw [h.2, List.filter_cons, hexe]; rfl⟩
      | some exe =>
          refine ih.bind (fun out x' h => ?_) fun e x' h => nomatch h.2
          obtain ⟨hx, hout⟩ := h
          cases hout
          refine ⟨hx, ?_⟩
          rw [List.filter_cons, hexe]
          simp only [Option.any_some, decide_eq_true_eq]

theorem nodup_designated {c : Campaigns.Campaign} (hc : c ∈ st.rows) :
    (c.services.map (·.executionId)).Nodup := by
  have hprojects := Campaigns.Campaign.nodup_of_validate (st.valid c hc)
  refine (List.nodup_map_iff_inj_on (List.Nodup.of_map _ hprojects)).mpr fun x hx y hy heq => ?_
  refine List.inj_on_of_nodup_map hprojects hx hy (Option.some_inj.mp ?_)
  rw [← st.owns c hc x hx, ← st.owns c hc y hy, heq]

/-- What is matched: what the scope describes and is deployed on the cluster that is looked at. -/
theorem smoothly_matchingExecutions (h : Answered cfg st x.2 sc) :
    (matchingExecutions st (.scope sc)).Smoothly (podServer cfg) (fun _ => True) x fun r x' =>
      x' = x ∧ ∃ targets, r = .ok targets ∧ targets.Nodup ∧
        ∀ e, e ∈ targets ↔ Describes cfg st x.2 e sc ∧ x.2.holds sc.looksAt e := by
  cases sc with
  | cluster ref =>
      exact Smoothly.need_bind fun view _ =>
        ⟨x.2 ref, rfl, rfl, _, rfl, h.distinct ref, fun e => (and_self_iff).symm⟩
  | tenant tenantId =>
      refine fun view _ => (smoothly_ofTenant tenantId ((x.2 "").map (·.1))).mono fun r x' hr =>
        ⟨hr.1, _, hr.2, (h.distinct "").filter _, fun e => ?_⟩
      rw [List.mem_filter, Option.any_eq_true, and_comm]
      simp only [decide_eq_true_eq]
      rfl
  | campaign campaignId =>
      obtain ⟨c, hc⟩ := Option.isSome_iff_exists.mp (h.campaign campaignId rfl)
      have hrow : c ∈ st.rows := List.mem_of_find?_eq_some hc
      simp only [matchingExecutions, campaignExecutionIds, Campaigns.inScopeExecutions, hc]
      intro view _ view' _
      refine ⟨rfl, _, rfl, ?_, fun e => ?_⟩
      · rw [(List.perm_insertionSort _ _).nodup_iff, List.nodup_append]
        refine ⟨?_, (nodup_designated hrow).filter _, fun e he e' he' heq => ?_⟩
        · rw [Campaigns.inScope, (List.perm_insertionSort _ _).nodup_iff]
          exact (h.distinct "").filter _
        · subst heq
          obtain ⟨svc, hsvc, rfl⟩ := List.mem_map.mp (List.mem_of_mem_filter he')
          exact (Campaigns.mem_inScope.mp he).2.1 ⟨svc, hsvc, rfl⟩
      · rw [List.mem_insertionSort, List.mem_append, Campaigns.mem_inScope, List.mem_filter]
        change e ∈ (x.2 "").map (·.1) ∧ ¬c.Designates e ∧ _ ∨
            _ ∧ decide (e ∈ (x.2 "").map (·.1)) = true ↔
          (∃ c ∈ st.get campaignId, _) ∧ e ∈ (x.2 "").map (·.1)
        have hdesignates : e ∈ c.services.map (·.executionId) ↔ c.Designates e := by
          simp [Campaigns.Campaign.Designates]
        simp only [hc, Option.mem_def, Option.some.injEq, exists_eq_left', hdesignates,
          decide_eq_true_eq]
        by_cases hnamed : c.Designates e
        · simp [hnamed]
        · simp [hnamed, and_comm]

/-- The kill switch is complete and honest if and only if whatever the scope describes is deployed
on the cluster that is looked at, and on no cluster that its row does not name. -/
theorem complete_iff (now : ℤ) (views : ℕ → View) (s : Control.Store p)
    (h : Answered cfg st pods sc) :
    Complete cfg st now views sc s pods ↔ Placed cfg st sc pods := by
  have hrun : (abort cfg st now (.scope sc)).Smoothly (podServer cfg) (fun _ => True) (s, pods)
      fun r x => ∃ targets closed, r = .ok (targets, .ok closed) ∧ targets.Nodup ∧
        (∀ e, e ∈ targets ↔ Describes cfg st pods e sc ∧ pods.holds sc.looksAt e) ∧
        ∀ cluster e, x.2.holds cluster e ↔
          pods.holds cluster e ∧ ¬(e ∈ targets ∧ cluster ∈ clustersOf cfg e) := by
    refine (smoothly_matchingExecutions h).bind ?_ fun e x hx => nomatch hx.2
    rintro targets _ ⟨rfl, _, htargets, hnodup, hmem⟩
    cases htargets
    have hknown : ∀ e ∈ targets, (cfg.execution e).isSome := fun e he =>
      h.known _ e ((hmem e).mp he).2
    refine (smoothly_purgeEach hknown).bind ?_ fun e x hx => nomatch hx.1
    rintro aborted x ⟨haborted, hholds⟩
    cases haborted
    obtain ⟨closed, hclosed⟩ : ∃ closed, closeCampaign st now (.scope sc) = .ok closed := by
      cases sc with
      | tenant | cluster => exact ⟨st, rfl⟩
      | campaign campaignId =>
          have hfound : ¬(st.get campaignId).isNone := by
            rw [Option.isNone_iff_eq_none, ← Ne, Option.ne_none_iff_isSome]
            exact h.campaign campaignId rfl
          exact ⟨_, if_neg hfound⟩
    have hperm := List.perm_insertionSort (· ≤ ·) targets
    refine ⟨_, closed, by rw [hclosed], hperm.nodup_iff.mpr hnodup, fun e => ?_,
      fun cluster e => ?_⟩
    · rw [hperm.mem_iff, hmem]
    · rw [hholds, hperm.mem_iff]
  obtain ⟨_, hresult, targets, closed, rfl, hnodup, hmem, hholds⟩ :=
    hrun.alone views fun _ => trivial
  constructor
  · rintro ⟨ids, closed', hids, -, hgone, hall⟩
    cases hresult.symm.trans hids
    intro e cluster hdescribed hdeployed
    have he := hall e hdescribed ⟨cluster, hdeployed⟩
    refine ⟨((hmem e).mp he).2, ?_⟩
    by_contra hcluster
    exact hgone e he cluster ((hholds cluster e).mpr ⟨hdeployed, fun hboth => hcluster hboth.2⟩)
  · intro hplaced
    refine ⟨targets, closed, hresult, hnodup, fun e he cluster hleft => ?_, fun e hdescribed => ?_⟩
    · obtain ⟨hdeployed, hnot⟩ := (hholds cluster e).mp hleft
      exact hnot ⟨he, (hplaced e cluster ((hmem e).mp he).1 hdeployed).2⟩
    · rintro ⟨cluster, hdeployed⟩
      exact (hmem e).mpr ⟨hdescribed, (hplaced e cluster hdescribed hdeployed).1⟩

end Aborting

/-! ### An execution on another cluster -/

def onEu : Pods := fun cluster => if cluster = "eu" then [(1, -10)] else []

def noCampaigns : Campaigns.Store ⟨fun _ => none, fun _ => none⟩ := .empty

theorem holds_onEu {cluster : String} {executionId : ℤ} :
    onEu.holds cluster executionId ↔ cluster = "eu" ∧ executionId = 1 := by
  by_cases h : cluster = "eu" <;> simp [Pods.holds, onEu, h]

theorem answered_onEu (sc : Scope) (h : ∀ campaignId, sc ≠ .campaign campaignId) :
    Answered smallConfig noCampaigns onEu sc := by
  refine ⟨fun cluster => ?_, fun cluster executionId hholds => ?_, fun id hsc => absurd hsc (h id)⟩
  · by_cases hcluster : cluster = "eu" <;> simp [onEu, hcluster]
  · rw [(holds_onEu.mp hholds).2]
    rfl

/-- The switch for the cluster finds it. -/
theorem complete_clusterEu :
    Answered smallConfig noCampaigns onEu (.cluster "eu") ∧
      Complete smallConfig noCampaigns 0 (fun _ => .ready 2) (.cluster "eu")
        (.new : Control.Store .microseconds) onEu := by
  have hanswered := answered_onEu (.cluster "eu") nofun
  refine ⟨hanswered, (complete_iff 0 (fun _ => .ready 2) .new hanswered).mpr ?_⟩
  intro executionId cluster hdescribed hholds
  obtain ⟨rfl, rfl⟩ := holds_onEu.mp hholds
  exact ⟨hdescribed, by decide⟩

/-- The switch for its tenant does not. -/
theorem not_complete_tenant :
    Answered smallConfig noCampaigns onEu (.tenant 1) ∧
      ¬Complete smallConfig noCampaigns 0 (fun _ => .ready 2) (.tenant 1)
        (.new : Control.Store .microseconds) onEu := by
  refine ⟨answered_onEu _ nofun, ?_⟩
  rintro ⟨ids, closed, hids, -, -, hall⟩
  have hnone : (((abort smallConfig noCampaigns 0 (.scope (.tenant 1))).alone (podServer smallConfig)
      (fun _ => .ready 2) none ((.new : Control.Store .microseconds), onEu)).result.bind
        Except.toOption).map (·.1) = some [] := by decide +kernel
  rw [hids] at hnone
  have hempty : ids = [] := Option.some.inj hnone
  have hmem := hall 1 ⟨smallExecution, rfl, rfl⟩ ⟨"eu", holds_onEu.mpr ⟨rfl, rfl⟩⟩
  rw [hempty] at hmem
  cases hmem

end Honryu.AdminApp
