import Honryu.Lib.Extremes
import Honryu.Lifecycle.Provision

/-!
How many pods there are, and how many are waited for.

A deploy plans no more pods for an entry than it has virtual users. A trigger, the
completion of a run and the search for stranded runs count the entry's engines. A
scenario that is named twice has one set of pods, and is waited for twice.
-/

namespace Honryu.Lifecycle

open LoadProfile Progress

/-! ### What the rest of the system counts -/

/-- `readyPods` of a scenario on a cluster, when every pod is ready. -/
def readyPods (pods : List Pod) (scenarioId : ℤ) (cluster : String) : ℤ :=
  pods.countP fun pod => pod.site = (scenarioId, cluster)

/-- The pool size `ExecutionStatus` reports for a cluster, when every pod is
ready. -/
def poolSize (exe : Execution) (pods : List Pod) (cluster : String) : ℤ :=
  (exe.profile.map fun e => readyPods pods e.scenarioId cluster).sum

/-- What is waited for is what a deploy makes, whatever pods there were before:
the pods of every entry are as many as it has engines; when they are ready, a run
is admitted; when they have all sent their final push, the run has finished; and
when all of those were orphaned, the run is known to be stranded. -/
structure CountsAgree (exe : Execution) (now : ℕ) : Prop where
  perEntry : ∀ before, ∀ e ∈ exe.profile, ∀ c ∈ exe.clusters,
    readyPods (provision now before exe.provisions) e.scenarioId c = e.engines
  admitted : ∀ before,
    let pool := (exe.clusters.map (poolSize exe (provision now before exe.provisions))).sum
    canTrigger (derivePhase pool false) exe pool = .ok ()
  everyCluster : ∀ before (view : Plane.TriggerView),
    view.poolSize = poolSize exe (provision now before exe.provisions) →
      Plane.requireEveryClusterReady exe view = .ok ()
  finished : ∀ (v : Visit) (bs : List ProgressBatch) (p : Plane) (runId : ℤ),
    p.progress = Repository.applyAll v bs →
      (∀ pod ∈ provision now [] exe.provisions, ∃ b ∈ bs,
        b.Valid ∧ b.runId = runId ∧ b.shardKey = pod.shardKey ∧ b.final = true) →
      p.allShardsFinished exe runId = true
  orphaned : ∀ orphans : List OrphanCompletion,
    (∀ pod ∈ provision now [] exe.provisions, ∃ oc ∈ orphans,
      oc.scenarioId = pod.scenarioId ∧ oc.shardIndex = pod.shardIndex) →
      orphansCoverProfile orphans exe.profile = true

/-! ### Targets -/

theorem nodup_foldlM_addFanOutTarget {targets out out' : List String} (hout : out.Nodup)
    (h : targets.foldlM addFanOutTarget out = .ok out') : out'.Nodup := by
  induction targets generalizing out with
  | nil =>
      cases h
      exact hout
  | cons t targets ih =>
      rw [List.foldlM_cons, Checked.bind_eq_ok] at h
      obtain ⟨mid, hmid, hrest⟩ := h
      refine ih ?_ hrest
      simp only [addFanOutTarget] at hmid
      split at hmid
      · cases hmid
        exact hout
      · split at hmid
        · cases hmid
        case isFalse hnew =>
          cases hmid
          exact hout.append (List.nodup_singleton _) (List.disjoint_singleton.mpr hnew)

theorem nodup_clusters {exe : Execution} {targets : List String}
    (h : normalizeFanOutTargets targets = .ok exe.fanOutTargets) : exe.clusters.Nodup := by
  rw [Execution.clusters]
  split
  · exact nodup_foldlM_addFanOutTarget List.nodup_nil h
  · exact List.nodup_singleton _

/-! ### The calls of a valid profile -/

def callOf (e : Entry) (cluster : String) : DeployCall :=
  { scenarioId := e.scenarioId, cluster, indexes := (List.range (pods e)).map Nat.cast }

section Calls

variable {exe : Execution}

theorem deployCalls_eq {clusters : List String} {profile : List Entry}
    (hvalid : ∀ e ∈ profile, e.Valid) :
    deployCalls clusters profile = profile.flatMap fun e => clusters.map (callOf e) := by
  induction profile with
  | nil => rfl
  | cons e profile ih =>
      rw [deployCalls, plan_eq (hvalid e List.mem_cons_self), List.flatMap_cons,
        ih fun x hx => hvalid x (List.mem_cons_of_mem _ hx)]
      simp only [List.map_map]
      rfl

theorem mem_provisions (hvalid : ∀ e ∈ exe.profile, e.Valid) {call : DeployCall} :
    call ∈ exe.provisions ↔ ∃ e ∈ exe.profile, ∃ c ∈ exe.clusters, callOf e c = call := by
  rw [Execution.provisions, deployCalls_eq hvalid, List.mem_flatMap]
  simp only [List.mem_map]

theorem nodup_site_provisions (hvalid : ∀ e ∈ exe.profile, e.Valid) (hclusters : exe.clusters.Nodup) :
    (exe.provisions.map DeployCall.site).Nodup ↔ (exe.profile.map (·.scenarioId)).Nodup := by
  have hsites : exe.provisions.map DeployCall.site =
      (exe.profile.map (·.scenarioId)).flatMap fun s => exe.clusters.map fun c => (s, c) := by
    rw [Execution.provisions, deployCalls_eq hvalid, List.map_flatMap, List.flatMap_map]
    simp only [List.map_map]
    rfl
  rw [hsites, List.nodup_flatMap]
  constructor
  · rintro ⟨-, hdisjoint⟩
    refine hdisjoint.imp fun {s s'} h heq => ?_
    obtain ⟨c, hc⟩ := List.exists_mem_of_ne_nil _ exe.clusters_ne_nil
    exact h (List.mem_map_of_mem hc) (heq ▸ List.mem_map_of_mem hc)
  · intro hnodup
    refine ⟨fun s _ => hclusters.map fun c c' h => (Prod.mk.inj h).2, hnodup.imp fun {s s'} hne => ?_⟩
    intro x hx hx'
    obtain ⟨c, -, rfl⟩ := List.mem_map.mp hx
    obtain ⟨c', -, h⟩ := List.mem_map.mp hx'
    exact hne (Prod.mk.inj h).1.symm

theorem sum_length_provisions (hvalid : ∀ e ∈ exe.profile, e.Valid) :
    (((exe.provisions.map (·.indexes.length)).sum : ℕ) : ℤ) =
      (exe.profile.map fun e => min e.engines e.concurrency).sum * exe.clusters.length := by
  have hsum : ∀ profile : List Entry, (∀ e ∈ profile, e.Valid) →
      ((((profile.flatMap fun e => exe.clusters.map (callOf e)).map (·.indexes.length)).sum : ℕ) : ℤ) =
        (profile.map fun e => min e.engines e.concurrency).sum * exe.clusters.length := by
    intro profile hprofile
    induction profile with
    | nil => simp
    | cons e profile ih =>
        have hpods := cast_pods (hprofile e List.mem_cons_self)
        have hcall : ∀ c, (callOf e c).indexes.length = pods e := by simp [callOf]
        rw [List.flatMap_cons, List.map_append, List.sum_append, Nat.cast_add,
          ih fun x hx => hprofile x (List.mem_cons_of_mem _ hx), List.map_map, List.map_cons,
          List.sum_cons, add_mul, ← hpods]
        simp [Function.comp_def, hcall, mul_comm]
  rw [Execution.provisions, deployCalls_eq hvalid, hsum _ hvalid]

theorem indexes_ne_nil (hvalid : ∀ e ∈ exe.profile, e.Valid) :
    ∀ call ∈ exe.provisions, call.indexes ≠ [] := by
  intro call hcall
  obtain ⟨e, he, c, -, rfl⟩ := (mem_provisions hvalid).mp hcall
  have := pods_pos (hvalid e he)
  simp only [callOf, ne_eq, List.map_eq_nil_iff, List.range_eq_nil]
  omega

theorem nodup_indexes (hvalid : ∀ e ∈ exe.profile, e.Valid) :
    ∀ call ∈ exe.provisions, call.indexes.Nodup := by
  intro call hcall
  obtain ⟨e, -, c, -, rfl⟩ := (mem_provisions hvalid).mp hcall
  exact List.nodup_range.map Nat.cast_injective

end Calls

/-! ### Shards that have finished -/

def finishedKeys (bs : List ProgressBatch) (runId : ℤ) : List ShardKey :=
  ((ledgers bs runId).shards.toList.filter (·.2.finished)).map (·.1)

section Finished

variable {bs : List ProgressBatch} {runId : ℤ}

theorem mem_finishedKeys {k : ShardKey} :
    k ∈ finishedKeys bs runId ↔
      ∃ b ∈ bs, b.Valid ∧ b.runId = runId ∧ b.shardKey = k ∧ b.final = true := by
  rw [← finished_ledgers_iff, finishedKeys, List.mem_map]
  constructor
  · rintro ⟨⟨k, s⟩, hmem, rfl⟩
    rw [List.mem_filter, TallyMap.mem_toList_iff] at hmem
    rw [hmem.1]
    exact hmem.2
  · intro h
    cases hs : (ledgers bs runId).shards[k]? with
    | none => simp [hs] at h
    | some s =>
        rw [hs, Option.elim_some] at h
        exact ⟨(k, s), List.mem_filter.mpr ⟨TallyMap.mem_toList_iff.mpr hs, h⟩, rfl⟩

theorem nodup_finishedKeys : (finishedKeys bs runId).Nodup :=
  (TallyMap.nodup_toList _).sublist (List.filter_sublist.map _)

theorem countP_finished (v : Visit) :
    ((Repository.applyAll v bs).shardStates runId).countP (·.finished) =
      (finishedKeys bs runId).length := by
  have hshards : ((Repository.applyAll v bs).run runId).shards = (ledgers bs runId).shards :=
    congrArg (fun l : ℤ → Ledger => (l runId).shards) (Repository.ledger_applyAll v bs)
  rw [Repository.shardStates, hshards, List.countP_map, finishedKeys, List.length_map,
    List.countP_eq_length_filter]
  rfl

/-- A run has finished when as many shards have as its profile has engines, on
every cluster. -/
theorem allShardsFinished_iff {exe : Execution} {p : Plane} {v : Visit}
    (hp : p.progress = Repository.applyAll v bs) :
    p.allShardsFinished exe runId = true ↔
      exe.totalEngines ≠ 0 ∧
        exe.totalEngines * exe.clusters.length ≤ (finishedKeys bs runId).length := by
  have hplanned : (if exe.isFanOut then exe.totalEngines * exe.fanOutTargets.length
      else exe.totalEngines) = exe.totalEngines * exe.clusters.length := by
    rw [Execution.clusters]
    split <;> simp
  simp only [Plane.allShardsFinished, hp, countP_finished, hplanned]
  split <;> simp [*]

end Finished

/-! ### When the counts agree -/

section Agreeing

variable {exe : Execution} {now : ℕ} (hvalid : ∀ e ∈ exe.profile, e.Valid)
  (hsites : (exe.provisions.map DeployCall.site).Nodup)
  (hengines : ∀ e ∈ exe.profile, e.engines ≤ e.concurrency)
include hvalid hsites

theorem mem_provision_callOf {e : Entry} (he : e ∈ exe.profile) {c : String} (hc : c ∈ exe.clusters)
    {pod : Pod} (hpod : pod ∈ (callOf e c).pods now) : pod ∈ provision now [] exe.provisions := by
  have hcall : callOf e c ∈ exe.provisions := (mem_provisions hvalid).mpr ⟨e, he, c, hc, rfl⟩
  rw [← filter_site_provision now [] hsites hcall] at hpod
  exact List.mem_of_mem_filter hpod

include hengines

omit hsites in
theorem cast_pods_of_engines_le {e : Entry} (he : e ∈ exe.profile) : (pods e : ℤ) = e.engines := by
  rw [cast_pods (hvalid e he), min_eq_left (hengines e he)]

theorem readyPods_provision (before : List Pod) {e : Entry} (he : e ∈ exe.profile) {c : String}
    (hc : c ∈ exe.clusters) :
    readyPods (provision now before exe.provisions) e.scenarioId c = e.engines := by
  have hcall : callOf e c ∈ exe.provisions := (mem_provisions hvalid).mpr ⟨e, he, c, hc, rfl⟩
  have hfilter := filter_site_provision now before hsites hcall
  rw [readyPods, List.countP_eq_length_filter, ← cast_pods_of_engines_le hvalid hengines he]
  exact congrArg (Nat.cast ∘ List.length) hfilter |>.trans (by simp [DeployCall.pods, callOf])

theorem poolSize_provision (before : List Pod) {c : String} (hc : c ∈ exe.clusters) :
    poolSize exe (provision now before exe.provisions) c = exe.totalEngines :=
  congrArg List.sum (List.map_congr_left fun _ he =>
    readyPods_provision hvalid hsites hengines before he hc)

theorem canTrigger_provision (before : List Pod) (hne : exe.profile ≠ [])
    (hpositive : 0 < exe.totalEngines) :
    let pool := (exe.clusters.map (poolSize exe (provision now before exe.provisions))).sum
    canTrigger (derivePhase pool false) exe pool = .ok () := by
  intro pool
  have hpool : pool = exe.clusters.length * exe.totalEngines := by
    have hmap : exe.clusters.map (poolSize exe (provision now before exe.provisions)) =
        exe.clusters.map fun _ => exe.totalEngines :=
      List.map_congr_left fun c hc => poolSize_provision hvalid hsites hengines before hc
    simp [pool, hmap]
  have hle : exe.totalEngines ≤ pool := by
    have hclusters : 0 < exe.clusters.length := List.length_pos_iff.mpr exe.clusters_ne_nil
    rw [hpool]
    exact le_mul_of_one_le_left hpositive.le (by exact_mod_cast hclusters)
  have hphase : derivePhase pool false = .deployed := by
    simp [derivePhase, hpositive.trans_le hle]
  simp only [canTrigger, if_neg hne, hphase, if_neg hle.not_gt]

theorem requireEveryClusterReady_provision (before : List Pod) {view : Plane.TriggerView}
    (hview : view.poolSize = poolSize exe (provision now before exe.provisions)) :
    Plane.requireEveryClusterReady exe view = .ok () := by
  have hready : exe.fanOutTargets.find? (fun c => view.poolSize c < exe.totalEngines) = none := by
    refine List.find?_eq_none.mpr fun c hc => ?_
    have hfanOut : exe.isFanOut = true := by
      simpa [Execution.isFanOut] using List.ne_nil_of_mem hc
    have hcluster : c ∈ exe.clusters := by rwa [Execution.clusters, if_pos hfanOut]
    simp [hview, poolSize_provision hvalid hsites hengines before hcluster]
  rw [Plane.requireEveryClusterReady, hready]

theorem orphansCoverProfile_provision (hne : exe.profile ≠ []) {orphans : List OrphanCompletion}
    (h : ∀ pod ∈ provision now [] exe.provisions, ∃ oc ∈ orphans,
      oc.scenarioId = pod.scenarioId ∧ oc.shardIndex = pod.shardIndex) :
    orphansCoverProfile orphans exe.profile = true := by
  rw [orphansCoverProfile, Bool.and_eq_true, List.all_eq_true]
  refine ⟨fun e he => List.all_eq_true.mpr fun i hi => ?_, by simpa using hne⟩
  obtain ⟨c, hc⟩ := List.exists_mem_of_ne_nil _ exe.clusters_ne_nil
  have hpods := cast_pods_of_engines_le hvalid hengines he
  have hi' : i ∈ List.range (pods e) := by
    rw [List.mem_range] at hi ⊢
    omega
  have hpod : { scenarioId := e.scenarioId, shardIndex := i, cluster := c, deployedAt := now } ∈
      (callOf e c).pods now :=
    List.mem_map.mpr ⟨i, List.mem_map_of_mem hi', rfl⟩
  obtain ⟨oc, hoc, horphan⟩ := h _ (mem_provision_callOf hvalid hsites he hc hpod)
  exact List.any_eq_true.mpr ⟨oc, hoc, by simpa using horphan⟩

theorem length_provision_provisions (now : ℕ) :
    ((provision now [] exe.provisions).length : ℤ) = exe.totalEngines * exe.clusters.length := by
  have hmin : exe.profile.map (fun e => min e.engines e.concurrency) =
      exe.profile.map (·.engines) :=
    List.map_congr_left fun e he => min_eq_left (hengines e he)
  rw [length_provision hsites, sum_length_provisions hvalid, hmin]
  rfl

end Agreeing

def finalOf (pod : Pod) : ProgressBatch :=
  { runId := 1, scenarioId := pod.scenarioId, shardIndex := pod.shardIndex, cluster := pod.cluster
    streamId := "", final := true, exitCode := some 0, intervals := [] }

section Disagreeing

variable {exe : Execution} {now : ℕ}

theorem valid_finalOf (hvalid : ∀ e ∈ exe.profile, e.Valid) {pod : Pod}
    (hpod : pod ∈ provision now [] exe.provisions) : (finalOf pod).Valid := by
  obtain ⟨call, hcall, hsite⟩ := exists_site_of_mem_provision hpod
  obtain ⟨e, he, c, -, rfl⟩ := (mem_provisions hvalid).mp hcall
  have hscenario : pod.scenarioId = e.scenarioId := congrArg Prod.fst hsite
  have hpos : 0 < pod.scenarioId := hscenario ▸ (hvalid e he).scenarioId
  rw [ProgressBatch.valid_iff]
  exact ⟨one_pos, hpos, by simp [finalOf]⟩

/-- If the pods of a deploy are enough to finish a run, none was left out. -/
theorem length_le_of_finished (hvalid : ∀ e ∈ exe.profile, e.Valid) (h : CountsAgree exe now) :
    exe.totalEngines * exe.clusters.length ≤ (provision now [] exe.provisions).length := by
  let bs := (provision now [] exe.provisions).map finalOf
  let p : Plane := { Plane.new with progress := .applyAll .sorted bs }
  have hp : p.progress = .applyAll .sorted bs := rfl
  have hfinished := (allShardsFinished_iff hp).mp <| h.finished .sorted bs p 1 hp fun pod hpod =>
    ⟨finalOf pod, List.mem_map_of_mem hpod, valid_finalOf hvalid hpod, rfl, rfl, rfl⟩
  refine hfinished.2.trans ?_
  rw [← List.length_map (f := Pod.shardKey), Nat.cast_le]
  refine nodup_finishedKeys.length_le_of_subset fun k hk => ?_
  obtain ⟨b, hb, -, -, rfl, -⟩ := mem_finishedKeys.mp hk
  obtain ⟨pod, hpod, rfl⟩ := List.mem_map.mp hb
  exact List.mem_map_of_mem hpod

end Disagreeing

theorem engines_le_of_sum_eq {profile : List Entry}
    (h : (profile.map fun e => min e.engines e.concurrency).sum = (profile.map (·.engines)).sum)
    {e : Entry} (he : e ∈ profile) : e.engines ≤ e.concurrency := by
  have hdiff : (profile.map fun e => e.engines - min e.engines e.concurrency).sum = 0 := by
    rw [← add_eq_right (b := (profile.map fun e => min e.engines e.concurrency).sum),
      ← List.sum_map_add, h]
    exact congrArg List.sum (List.map_congr_left fun e _ => sub_add_cancel _ _)
  have hzero := Extremes.eq_zero_of_sum_eq_zero
    (List.forall_mem_map.mpr fun x _ => sub_nonneg.mpr (min_le_left _ _)) hdiff
    (List.mem_map_of_mem he)
  have hle := min_le_right e.engines e.concurrency
  omega

/-- What is waited for is what a deploy makes exactly if no entry has more engines
than users, and no scenario is named twice. -/
theorem countsAgree_iff (exe : Execution) (now : ℕ) (targets : List String)
    (hvalid : validate exe.profile = .ok ())
    (htargets : normalizeFanOutTargets targets = .ok exe.fanOutTargets) :
    CountsAgree exe now ↔
      (∀ e ∈ exe.profile, e.engines ≤ e.concurrency) ∧
        (exe.profile.map (·.scenarioId)).Nodup := by
  obtain ⟨hne, hvalid⟩ := validate_eq_ok.mp hvalid
  rw [← nodup_site_provisions hvalid (nodup_clusters htargets)]
  constructor
  · intro h
    -- the engines that are waited for, the pods there are, the shards asked for, the engines again
    have hclusters : 0 < exe.clusters.length := List.length_pos_iff.mpr exe.clusters_ne_nil
    have hwaited := length_le_of_finished hvalid h
    have hasked := Int.ofNat_le.mpr (length_provision_le now exe.provisions)
    rw [sum_length_provisions hvalid] at hasked
    have hplanned : (exe.profile.map fun e => min e.engines e.concurrency).sum *
        exe.clusters.length ≤ exe.totalEngines * exe.clusters.length :=
      mul_le_mul_of_nonneg_right (List.sum_le_sum fun e _ => min_le_left _ _) (Nat.cast_nonneg _)
    constructor
    · have hsum : (exe.profile.map fun e => min e.engines e.concurrency).sum = exe.totalEngines :=
        mul_right_cancel₀ (Nat.cast_ne_zero.mpr hclusters.ne')
          (le_antisymm hplanned (hwaited.trans hasked))
      exact fun e he => engines_le_of_sum_eq hsum he
    · refine nodup_site_of_length_eq now (indexes_ne_nil hvalid) ?_
      refine Nat.cast_injective (R := ℤ) (Eq.trans ?_ (sum_length_provisions hvalid).symm)
      exact le_antisymm hasked (hplanned.trans hwaited)
  · rintro ⟨hengines, hsites⟩
    have hpositive : 0 < exe.totalEngines :=
      List.sum_pos _ (List.forall_mem_map.mpr fun e he => (hvalid e he).engines) (by simpa using hne)
    refine
      { perEntry := fun before e he c hc => readyPods_provision hvalid hsites hengines before he hc
        admitted := fun before =>
          canTrigger_provision hvalid hsites hengines before hne hpositive
        everyCluster := fun before view hview =>
          requireEveryClusterReady_provision hvalid hsites hengines before hview
        finished := fun v bs p runId hp hfinal => ?_
        orphaned := fun orphans => orphansCoverProfile_provision hvalid hsites hengines hne }
    rw [allShardsFinished_iff hp, ← length_provision_provisions hvalid hsites hengines now]
    refine ⟨hpositive.ne', ?_⟩
    rw [← List.length_map (f := Pod.shardKey), Nat.cast_le]
    refine (nodup_shardKey_provision (nodup_indexes hvalid)).length_le_of_subset fun k hk => ?_
    obtain ⟨pod, hpod, rfl⟩ := List.mem_map.mp hk
    exact mem_finishedKeys.mpr (hfinal pod hpod)

theorem countsAgree_oneEngine : CountsAgree oneEngine.exe 0 :=
  (countsAgree_iff oneEngine.exe 0 [] (by decide +kernel) rfl).mpr
    ⟨by decide, by decide⟩

def namedTwice : Execution :=
  { executionId := 1, cluster := "", fanOutTargets := [], profile := [oneUser 1, oneUser 1] }

/-- Two engines for one user: there is one pod, and the run is refused. Two entries
of one scenario: there is one pod, and the run does not finish with it. -/
theorem not_countsAgree_spareEngine :
    let spare : Execution :=
      { executionId := 1, cluster := "", fanOutTargets := [], profile := [oneUser 2] }
    (validate spare.profile = .ok () ∧ provision 0 [] spare.provisions = [engineOf 0] ∧
        canTrigger (derivePhase 1 false) spare 1 = .error .enginesNotReady ∧
          ¬CountsAgree spare 0) ∧
      validate namedTwice.profile = .ok () ∧
        provision 0 [] namedTwice.provisions = [engineOf 0] ∧ ¬CountsAgree namedTwice 0 := by
  intro spare
  have hspare : provision 0 [] spare.provisions = [engineOf 0] := by decide +kernel
  have htwice : provision 0 [] namedTwice.provisions = [engineOf 0] := by decide +kernel
  refine ⟨⟨by decide +kernel, hspare, rfl, fun h => ?_⟩, by decide +kernel, htwice, fun h => ?_⟩
  · have hpods := h.perEntry [] (oneUser 2) List.mem_cons_self "" List.mem_cons_self
    rw [hspare] at hpods
    exact absurd hpods (by decide +kernel)
  · let bs := [finalOf (engineOf 0)]
    let p : Plane := { Plane.new with progress := .applyAll .sorted bs }
    have hfinished := h.finished .sorted bs p 1 rfl (by
      rw [htwice]
      exact List.forall_mem_singleton.mpr
        ⟨finalOf (engineOf 0), List.mem_singleton_self _, by decide +kernel, rfl, rfl, rfl⟩)
    exact absurd hfinished (by decide +kernel)

end Honryu.Lifecycle
