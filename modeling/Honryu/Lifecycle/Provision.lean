import Honryu.Lifecycle.System

/-!
The pods that a deploy leaves.

A call of the scheduler replaces the pods of its scenario on its cluster. The
calls of a deploy leave a pod for every shard they ask for, unless two of them are
for the same scenario and cluster.
-/

namespace Honryu.Lifecycle

open Progress

def Pod.site (pod : Pod) : ℤ × String := (pod.scenarioId, pod.cluster)

def Pod.shardKey (pod : Pod) : ShardKey :=
  { scenarioId := pod.scenarioId, cluster := pod.cluster, shardIndex := pod.shardIndex }

def DeployCall.site (call : DeployCall) : ℤ × String := (call.scenarioId, call.cluster)

def DeployCall.pods (now : ℕ) (call : DeployCall) : List Pod :=
  call.indexes.map fun shardIndex =>
    { scenarioId := call.scenarioId, shardIndex, cluster := call.cluster, deployedAt := now }

variable {now : ℕ} {pods : List Pod} {calls : List DeployCall} {call : DeployCall} {pod : Pod}

theorem DeployCall.site_of_mem_pods (h : pod ∈ call.pods now) : pod.site = call.site := by
  obtain ⟨i, -, rfl⟩ := List.mem_map.mp h
  rfl

theorem deployScenario_eq (now : ℕ) (pods : List Pod) (call : DeployCall) :
    deployScenario now pods call = (pods.filter (·.site ≠ call.site)) ++ call.pods now := by
  simp [deployScenario, Pod.site, DeployCall.site, DeployCall.pods, Prod.ext_iff]

theorem provision_concat (now : ℕ) (pods : List Pod) (calls : List DeployCall) (call : DeployCall) :
    provision now pods (calls ++ [call]) =
      ((provision now pods calls).filter (·.site ≠ call.site)) ++ call.pods now := by
  rw [provision, List.foldl_append, List.foldl_cons, List.foldl_nil, deployScenario_eq]
  rfl

/-! ### Every deploy -/

theorem exists_site_of_mem_provision (h : pod ∈ provision now [] calls) :
    ∃ call ∈ calls, pod.site = call.site := by
  induction calls using List.reverseRecOn with
  | nil => cases h
  | append_singleton calls call ih =>
      rw [provision_concat, List.mem_append] at h
      rcases h with h | h
      · obtain ⟨c, hc, hsite⟩ := ih (List.mem_of_mem_filter h)
        exact ⟨c, List.mem_append_left _ hc, hsite⟩
      · exact ⟨call, by simp, DeployCall.site_of_mem_pods h⟩

theorem nodup_shardKey_provision (h : ∀ call ∈ calls, call.indexes.Nodup) :
    ((provision now [] calls).map Pod.shardKey).Nodup := by
  induction calls using List.reverseRecOn with
  | nil => exact List.nodup_nil
  | append_singleton calls call ih =>
      have hcalls : ((provision now [] calls).map Pod.shardKey).Nodup :=
        ih fun c hc => h c (List.mem_append_left _ hc)
      rw [provision_concat, List.map_append]
      refine List.Nodup.append (hcalls.sublist (List.filter_sublist.map _)) ?_ ?_
      · rw [DeployCall.pods, List.map_map]
        exact (h call (by simp)).map fun i j hij => congrArg ShardKey.shardIndex hij
      · intro k hk hk'
        obtain ⟨old, hold, rfl⟩ := List.mem_map.mp hk
        obtain ⟨new, hnew, hkey⟩ := List.mem_map.mp hk'
        have hsite : old.site = call.site := by
          rw [← DeployCall.site_of_mem_pods hnew]
          exact Prod.ext (congrArg ShardKey.scenarioId hkey.symm)
            (congrArg ShardKey.cluster hkey.symm)
        exact absurd hsite (by simpa using (List.mem_filter.mp hold).2)

theorem length_provision_concat_le (now : ℕ) (pods : List Pod) (calls : List DeployCall)
    (call : DeployCall) :
    (provision now pods (calls ++ [call])).length ≤
      (provision now pods calls).length + call.indexes.length := by
  rw [provision_concat, List.length_append, DeployCall.pods, List.length_map]
  exact Nat.add_le_add_right (List.length_filter_le _ _) _

theorem length_provision_le (now : ℕ) (calls : List DeployCall) :
    (provision now [] calls).length ≤ (calls.map (·.indexes.length)).sum := by
  induction calls using List.reverseRecOn with
  | nil => exact le_rfl
  | append_singleton calls call ih =>
      rw [List.map_append, List.sum_append, List.map_singleton, List.sum_singleton]
      exact (length_provision_concat_le now [] calls call).trans (Nat.add_le_add_right ih _)

/-- A call is not undone by a later one: there are pods where it made some. -/
theorem exists_mem_provision (now : ℕ) (hindexes : ∀ call ∈ calls, call.indexes ≠ []) (h : call ∈ calls) :
    ∃ pod ∈ provision now [] calls, pod.site = call.site := by
  induction calls using List.reverseRecOn with
  | nil => cases h
  | append_singleton calls last ih =>
      obtain ⟨i, hi⟩ := List.exists_mem_of_ne_nil _ (hindexes last (by simp))
      have hnew : ∃ pod ∈ provision now [] (calls ++ [last]), pod.site = last.site := by
        rw [provision_concat]
        exact ⟨_, List.mem_append_right _ (List.mem_map_of_mem hi), rfl⟩
      by_cases hsite : call.site = last.site
      · rwa [hsite]
      · have hmem : call ∈ calls := by
          rcases List.mem_append.mp h with h | h
          · exact h
          · exact absurd (congrArg DeployCall.site (List.mem_singleton.mp h)) hsite
        obtain ⟨pod, hpod, hpodSite⟩ := ih (fun c hc => hindexes c (List.mem_append_left _ hc)) hmem
        rw [provision_concat]
        refine ⟨pod, List.mem_append_left _ (List.mem_filter.mpr ⟨hpod, ?_⟩), hpodSite⟩
        simpa [hpodSite] using hsite

/-- If a pod is left for every shard that was asked for, no two calls were for the
same scenario and cluster. -/
theorem nodup_site_of_length_eq (now : ℕ) (hindexes : ∀ call ∈ calls, call.indexes ≠ [])
    (h : (provision now [] calls).length = (calls.map (·.indexes.length)).sum) :
    (calls.map DeployCall.site).Nodup := by
  induction calls using List.reverseRecOn with
  | nil => exact List.nodup_nil
  | append_singleton calls call ih =>
      have hindexes' : ∀ c ∈ calls, c.indexes ≠ [] := fun c hc =>
        hindexes c (List.mem_append_left _ hc)
      have hle := length_provision_le now calls
      rw [provision_concat, List.length_append, DeployCall.pods, List.length_map, List.map_append,
        List.sum_append, List.map_singleton, List.sum_singleton, Nat.add_right_cancel_iff] at h
      have hfilter := List.length_filter_le (·.site ≠ call.site) (provision now [] calls)
      rw [List.map_append, List.map_singleton]
      refine List.Nodup.append (ih hindexes' (by omega)) (List.nodup_singleton _) ?_
      rw [List.disjoint_singleton]
      intro hmem
      obtain ⟨earlier, hearlier, hsite⟩ := List.mem_map.mp hmem
      obtain ⟨pod, hpod, hpodSite⟩ := exists_mem_provision now hindexes' hearlier
      have hall := List.length_filter_eq_length_iff.mp (le_antisymm hfilter (by omega)) pod hpod
      simp [hpodSite, hsite] at hall

/-! ### Deploys that name every scenario and cluster once -/

theorem filter_site_provision (now : ℕ) (pods : List Pod)
    (hsites : (calls.map DeployCall.site).Nodup) (h : call ∈ calls) :
    (provision now pods calls).filter (·.site = call.site) = call.pods now := by
  have hown : ∀ c : DeployCall, (c.pods now).filter (·.site = c.site) = c.pods now := fun c =>
    List.filter_eq_self.mpr fun pod hpod => by simpa using DeployCall.site_of_mem_pods hpod
  induction calls using List.reverseRecOn with
  | nil => cases h
  | append_singleton calls last ih =>
      rw [List.map_append, List.map_singleton, List.nodup_append] at hsites
      rw [provision_concat, List.filter_append, List.filter_filter]
      rcases List.mem_append.mp h with h | h
      · have hne : call.site ≠ last.site :=
          hsites.2.2 _ (List.mem_map_of_mem h) _ List.mem_cons_self
        have hnone : (last.pods now).filter (·.site = call.site) = [] :=
          List.filter_eq_nil_iff.mpr fun pod hpod => by
            simpa [DeployCall.site_of_mem_pods hpod] using hne.symm
        rw [hnone, List.append_nil, ← ih hsites.1 h]
        refine List.filter_congr fun pod _ => ?_
        by_cases hpod : pod.site = call.site
        · simp [hpod, hne]
        · simp [hpod]
      · obtain rfl := List.mem_singleton.mp h
        rw [hown]
        simp

theorem length_provision (hsites : (calls.map DeployCall.site).Nodup) :
    (provision now [] calls).length = (calls.map (·.indexes.length)).sum := by
  induction calls using List.reverseRecOn with
  | nil => rfl
  | append_singleton calls call ih =>
      rw [List.map_append, List.map_singleton, List.nodup_append] at hsites
      have hkeep : (provision now [] calls).filter (·.site ≠ call.site) =
          provision now [] calls := by
        refine List.filter_eq_self.mpr fun pod hpod => ?_
        obtain ⟨c, hc, hsite⟩ := exists_site_of_mem_provision hpod
        simpa [hsite] using hsites.2.2 _ (List.mem_map_of_mem hc) _ List.mem_cons_self
      rw [provision_concat, hkeep, List.length_append, ih hsites.1, DeployCall.pods,
        List.length_map]
      simp

end Honryu.Lifecycle
