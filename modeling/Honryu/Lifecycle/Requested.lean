import Honryu.Lifecycle.LoadSplit
import Honryu.Report.Requested

/-!
The load a report says was requested, against the load that was deployed.

A report multiplies an entry's users by its engines. A deploy splits them among
the engines, and makes the whole set of pods again for every cluster.
-/

namespace Honryu.Lifecycle

open LoadProfile Compile Report

def deployed (figure : Taurus.Execution → ℤ) (specs : List DeploySpec) : ℤ :=
  (specs.map fun spec => (spec.shards.map fun s => s.config.peak figure).sum).sum

def deployedRate (e : Entry) : ℤ :=
  if e.mode = .staircase then max e.throughput (pods e) else e.throughput

/-! ### The load of an entry -/

def Toolchain.Outline.peak (o : Toolchain.Outline) (g : Block → ℤ) : ℤ :=
  if o.sequential then (o.blocks.map g).foldl max 0 else (o.blocks.map g).sum

theorem map_peak (g : Block → ℤ) (specs : List ShardSpec) :
    (specs.map fun s => s.config.peak (g ∘ .ofExecution)) =
      (specs.map ShardSpec.outline).map fun o => o.peak g := by
  rw [List.map_map]
  refine List.map_congr_left fun s _ => ?_
  rw [Function.comp_apply, Taurus.Config.peak, Toolchain.Outline.peak, ShardSpec.outline,
    List.map_map]

/-- The last row of a table is the largest of every pod's shares. -/
theorem foldl_max_rows {e : Entry} (c : StaircaseStep → ℤ) (hone : ∀ j, 1 ≤ c (e.row j))
    (hmono : ∀ j k, j ≤ k → c (e.row j) ≤ c (e.row k)) (hsteps : 0 < e.steps.toNat) (i : ℕ) :
    ((List.range e.steps.toNat).map fun j => max 1 (split (c (e.row j)) (pods e) i)).foldl max 0 =
      max 1 (split (c (e.row (e.steps.toNat - 1))) (pods e) i) := by
  refine Extremes.foldl_max_eq ?_ ?_ (zero_le_one.trans (le_max_left _ _))
  · exact List.mem_map.mpr ⟨_, List.mem_range.mpr (Nat.sub_lt hsteps one_pos), rfl⟩
  · refine List.forall_mem_map.mpr fun j hj => max_le_max_left _ (split_mono ?_ (hmono _ _ ?_))
    · exact zero_le_one.trans (hone j)
    · have := List.mem_range.mp hj
      omega

section Entry

variable {t : Toolchain} {entry : Entry} {shards : List Shard} {specs : List ShardSpec}
  {files : TallyMap String String} (hvalid : entry.Valid)
  (hplan : plan entry entry.engines = .ok shards)
  (hspecs : t.compileShards entry shards = .ok (specs, files))
include hvalid hplan hspecs

theorem peak_flat (hmode : entry.mode ≠ .staircase) :
    (specs.map fun s => s.config.peak (·.concurrency)) =
        (List.range (pods entry)).map (fun i : ℕ => split entry.concurrency (pods entry) i) ∧
      (specs.map fun s => s.config.peak (·.throughput)) =
        (List.range (pods entry)).map (fun i : ℕ => split entry.throughput (pods entry) i) := by
  have houtline := outline_flat hvalid hmode hplan hspecs
  constructor
  · refine (map_peak Block.concurrency specs).trans ?_
    rw [houtline, List.map_map]
    exact List.map_congr_left fun i _ => List.sum_singleton
  · refine (map_peak Block.throughput specs).trans ?_
    rw [houtline, List.map_map]
    exact List.map_congr_left fun i _ => List.sum_singleton

theorem peak_staircase (hmode : entry.mode = .staircase) :
    (specs.map fun s => s.config.peak (·.concurrency)) =
        (List.range (pods entry)).map (fun i : ℕ => max 1 (split entry.concurrency (pods entry) i)) ∧
      (specs.map fun s => s.config.peak (·.throughput)) =
        (List.range (pods entry)).map (fun i : ℕ => max 1 (split entry.throughput (pods entry) i)) := by
  have houtline := outline_staircase hvalid hmode hplan hspecs
  have hsteps : 0 < entry.steps.toNat := zero_lt_two.trans_le (hvalid.two_le_steps hmode)
  have hlast := hvalid.row_last hmode
  constructor
  · refine (map_peak Block.concurrency specs).trans ?_
    rw [houtline, List.map_map, ← hlast.1]
    refine List.map_congr_left fun i _ => ?_
    refine Eq.trans (congrArg (List.foldl max 0) List.map_map) ?_
    exact foldl_max_rows (·.concurrency) (fun j => (entry.one_le_row j).1)
      (fun _ _ h => (hvalid.row_mono h).1) hsteps i
  · refine (map_peak Block.throughput specs).trans ?_
    rw [houtline, List.map_map, ← hlast.2]
    refine List.map_congr_left fun i _ => ?_
    refine Eq.trans (congrArg (List.foldl max 0) List.map_map) ?_
    exact foldl_max_rows (·.throughput) (fun j => (entry.one_le_row j).2)
      (fun _ _ h => (hvalid.row_mono h).2) hsteps i

theorem sum_peak_entry :
    (specs.map fun s => s.config.peak (·.concurrency)).sum = entry.concurrency ∧
      (specs.map fun s => s.config.peak (·.throughput)).sum = deployedRate entry := by
  have hpods := pods_pos hvalid
  have hconcurrency : (pods entry : ℤ) ≤ entry.concurrency := cast_pods hvalid ▸ min_le_right _ _
  by_cases hmode : entry.mode = .staircase
  · have hpeak := peak_staircase hvalid hplan hspecs hmode
    rw [hpeak.1, hpeak.2, sum_max_one_split hpods hvalid.concurrency.le,
      sum_max_one_split hpods hvalid.throughput, deployedRate, if_pos hmode,
      max_eq_left hconcurrency]
    exact ⟨rfl, rfl⟩
  · have hpeak := peak_flat hvalid hplan hspecs hmode
    rw [hpeak.1, hpeak.2, sum_split hpods hvalid.concurrency.le, sum_split hpods hvalid.throughput,
      deployedRate, if_neg hmode]
    exact ⟨rfl, rfl⟩

end Entry

/-! ### The load of a deploy -/

section Deploy

variable {exe : Deployment} {ctx : DeployContext} {profile : List Entry} {specs : List DeploySpec}

theorem deployed_deploySpecs (hvalid : ∀ e ∈ profile, e.Valid)
    (h : exe.deploySpecs ctx profile = (specs, none)) :
    deployed (·.concurrency) specs = exe.clusters.length * (profile.map (·.concurrency)).sum ∧
      deployed (·.throughput) specs = exe.clusters.length * (profile.map deployedRate).sum := by
  induction profile generalizing specs with
  | nil =>
      cases h
      simp [deployed]
  | cons ep profile ih =>
      obtain ⟨first, rest, hfirst, hrest, rfl⟩ := Deployment.deploySpecs_cons h
      obtain ⟨shards, shardSpecs, files, hplan, hspecs, rfl⟩ :=
        Deployment.deployEntry_eq_ok hfirst
      have hentry := sum_peak_entry (hvalid ep List.mem_cons_self) hplan hspecs
      have hprofile := ih (fun e he => hvalid e (List.mem_cons_of_mem _ he)) hrest
      simp only [deployed] at hprofile
      simp only [deployed, List.map_append, List.sum_append, hprofile, List.map_map,
        Function.comp_def, hentry, List.map_const', List.sum_replicate, nsmul_eq_mul, List.map_cons,
        List.sum_cons, mul_add, and_self]

theorem virtualUsers_eq (profile : List Entry) :
    virtualUsers profile = (profile.map fun e => e.engines * e.concurrency).sum := by
  rw [virtualUsers, List.sum_eq_foldl, List.foldl_map]

end Deploy

theorem le_deployedRate (e : Entry) : e.throughput ≤ deployedRate e := by
  rw [deployedRate]
  split
  · exact le_max_left _ _
  · exact le_rfl

theorem deployedRate_of_one {e : Entry} (h : e.Valid) (hengines : e.engines = 1) :
    deployedRate e = e.throughput := by
  have hpods : (pods e : ℤ) ≤ 1 := by
    rw [cast_pods h, hengines]
    exact min_le_left _ _
  rw [deployedRate]
  split
  case isTrue hmode =>
    have := h.throughput_pos hmode
    exact max_eq_left (by omega)
  case isFalse => rfl

structure RequestedDeployed (profile : List Entry) (specs : List DeploySpec) : Prop where
  concurrency : (requestedLoad profile).concurrency = deployed (·.concurrency) specs
  throughput : (requestedLoad profile).throughput = deployed (·.throughput) specs

/-- The users an entry is accounted for, beyond those a number of clusters are
given. -/
def surplusUsers (clusters : ℕ) (e : Entry) : ℤ := (e.engines - clusters) * e.concurrency

theorem requestedDeployed_iff_sums {exe : Deployment} {ctx : DeployContext}
    {specs : List DeploySpec} (hvalid : ∀ e ∈ exe.profile, e.Valid)
    (hdeploy : exe.deploySpecs ctx exe.profile = (specs, none)) :
    RequestedDeployed exe.profile specs ↔
      (exe.profile.map (surplusUsers exe.clusters.length)).sum = 0 ∧
        (exe.profile.map (·.throughput)).sum =
          exe.clusters.length * (exe.profile.map deployedRate).sum := by
  have hdeployed := deployed_deploySpecs hvalid hdeploy
  have husers : (requestedLoad exe.profile).concurrency =
      (exe.profile.map (surplusUsers exe.clusters.length)).sum +
        deployed (·.concurrency) specs := by
    rw [requestedLoad_eq, virtualUsers_eq, hdeployed.1, ← List.sum_map_mul_left, ← List.sum_map_add]
    exact congrArg List.sum (List.map_congr_left fun e _ => by rw [surplusUsers]; ring)
  have hrate : (requestedLoad exe.profile).throughput =
      (((exe.profile.map (·.throughput)).sum : ℤ) : ℚ) := by
    rw [requestedLoad_eq]
  constructor
  · rintro ⟨hconcurrency, hthroughput⟩
    rw [hrate, hdeployed.2, Int.cast_inj] at hthroughput
    exact ⟨by omega, hthroughput⟩
  · rintro ⟨hconcurrency, hthroughput⟩
    exact ⟨by rw [husers, hconcurrency, zero_add], by rw [hrate, hdeployed.2, hthroughput]⟩

theorem deployedRate_of_zero {e : Entry} (h : e.Valid) (hzero : e.throughput = 0) :
    deployedRate e = 0 := by
  rw [deployedRate, if_neg, hzero]
  exact fun hmode => (h.throughput_pos hmode).ne' hzero

/-- On one cluster every engine beyond the first is a surplus. -/
theorem engines_eq_one_of_surplus {profile : List Entry} (hvalid : ∀ e ∈ profile, e.Valid)
    (hsurplus : (profile.map (surplusUsers 1)).sum = 0) : ∀ e ∈ profile, e.engines = 1 := by
  intro e he
  have hterms : ∀ x ∈ profile.map (surplusUsers 1), 0 ≤ x := by
    refine List.forall_mem_map.mpr fun x hx => mul_nonneg ?_ (hvalid x hx).concurrency.le
    have hengines := (hvalid x hx).engines
    omega
  have hterm := Extremes.eq_zero_of_sum_eq_zero hterms hsurplus (List.mem_map_of_mem he)
  have hzero := (mul_eq_zero.mp hterm).resolve_right (hvalid e he).concurrency.ne'
  omega

/-- On two clusters or more every rate is deployed at least twice. -/
theorem throughput_eq_zero_of_clusters {profile : List Entry} (hvalid : ∀ e ∈ profile, e.Valid)
    {clusters : ℕ} (htwo : 2 ≤ clusters)
    (h : (profile.map (·.throughput)).sum = clusters * (profile.map deployedRate).sum) :
    ∀ e ∈ profile, e.throughput = 0 := by
  have hnonneg : ∀ x ∈ profile.map (·.throughput), 0 ≤ x :=
    List.forall_mem_map.mpr fun e he => (hvalid e he).throughput
  have hrates : (profile.map (·.throughput)).sum ≤ (profile.map deployedRate).sum :=
    List.sum_le_sum fun e _ => le_deployedRate e
  have hsum := List.sum_nonneg hnonneg
  have htwice : 2 * (profile.map deployedRate).sum ≤ clusters * (profile.map deployedRate).sum :=
    mul_le_mul_of_nonneg_right (by exact_mod_cast htwo) (hsum.trans hrates)
  have hzero : (profile.map (·.throughput)).sum = 0 := by omega
  exact fun e he => Extremes.eq_zero_of_sum_eq_zero hnonneg hzero (List.mem_map_of_mem he)

/-- The requested load is the deployed one exactly if there is one cluster and one
engine for every entry; or if no entry has a rate, and the engines come to the
number of clusters, weighted by the users. -/
theorem requestedDeployed_iff (exe : Deployment) (ctx : DeployContext) {specs : List DeploySpec}
    (hvalid : validate exe.profile = .ok ())
    (hdeploy : exe.deploySpecs ctx exe.profile = (specs, none)) :
    RequestedDeployed exe.profile specs ↔
      (exe.clusters.length = 1 ∧ ∀ e ∈ exe.profile, e.engines = 1) ∨
      (2 ≤ exe.clusters.length ∧ (∀ e ∈ exe.profile, e.throughput = 0) ∧
        (exe.profile.map (surplusUsers exe.clusters.length)).sum = 0) := by
  obtain ⟨-, hvalid⟩ := validate_eq_ok.mp hvalid
  rw [requestedDeployed_iff_sums hvalid hdeploy]
  constructor
  · rintro ⟨hsurplus, hthroughput⟩
    rcases Nat.eq_or_lt_of_le (List.length_pos_iff.mpr exe.clusters_ne_nil) with hone | htwo
    · rw [← hone] at hsurplus
      exact .inl ⟨hone.symm, engines_eq_one_of_surplus hvalid hsurplus⟩
    · exact .inr ⟨htwo, throughput_eq_zero_of_clusters hvalid htwo hthroughput, hsurplus⟩
  · rintro (⟨hone, hengines⟩ | ⟨-, hzero, hsurplus⟩)
    · rw [hone, Nat.cast_one, one_mul]
      refine ⟨List.sum_eq_zero (List.forall_mem_map.mpr fun e he => ?_), ?_⟩
      · rw [surplusUsers, hengines e he, Nat.cast_one, sub_self, zero_mul]
      · exact congrArg List.sum (List.map_congr_left fun e he =>
          (deployedRate_of_one (hvalid e he) (hengines e he)).symm)
    · have hrate : ∀ e ∈ exe.profile, deployedRate e = 0 :=
        fun e he => deployedRate_of_zero (hvalid e he) (hzero e he)
      refine ⟨hsurplus, ?_⟩
      rw [List.sum_eq_zero (List.forall_mem_map.mpr hzero),
        List.sum_eq_zero (List.forall_mem_map.mpr hrate), mul_zero]

def oneJmx : Deployment := jmxDeployment [] [ratedEntry 1 5]

def twoJmx : Deployment := jmxDeployment [] [ratedEntry 2 5]

def fanOutJmx : Deployment := jmxDeployment ["east", "west"] [ratedEntry 1 5]

theorem requestedDeployed_oneJmx :
    (oneJmx.deploySpecs jmxContext oneJmx.profile).2 = none ∧
      RequestedDeployed oneJmx.profile (oneJmx.deploySpecs jmxContext oneJmx.profile).1 := by
  have hdeploy : (oneJmx.deploySpecs jmxContext oneJmx.profile).2 = none := by decide +kernel
  exact ⟨hdeploy, (requestedDeployed_iff oneJmx jmxContext (by decide)
    (Deployment.deploySpecs_eq hdeploy)).mpr (.inl (by decide))⟩

/-- Two users on two engines are reported as four; one user on each of two
clusters is reported as one. -/
theorem not_requestedDeployed_twoJmx :
    (validate twoJmx.profile = .ok () ∧ (twoJmx.deploySpecs jmxContext twoJmx.profile).2 = none ∧
        ¬RequestedDeployed twoJmx.profile (twoJmx.deploySpecs jmxContext twoJmx.profile).1) ∧
      validate fanOutJmx.profile = .ok () ∧
        (fanOutJmx.deploySpecs jmxContext fanOutJmx.profile).2 = none ∧
        ¬RequestedDeployed fanOutJmx.profile
          (fanOutJmx.deploySpecs jmxContext fanOutJmx.profile).1 :=
  ⟨⟨by decide, by decide +kernel, fun h => absurd h.concurrency (by decide +kernel)⟩,
    by decide, by decide +kernel, fun h => absurd h.concurrency (by decide +kernel)⟩

end Honryu.Lifecycle
