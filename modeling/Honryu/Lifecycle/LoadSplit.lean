import Honryu.Lifecycle.Deploy

/-!
How an entry's load comes out in the configs of its pods.

A flat entry is split evenly, its rate as well as its users; a rate below the
number of pods leaves some of them a rate of zero, which means no limit at all. A
staircase is split step by step, with at least one of each for every pod; what
its pods do together in a step is the step's row of the table, or the number of
pods if that is larger.
-/

namespace Honryu.Lifecycle

open LoadProfile Compile

/-! ### Reading the configs of a deploy -/

def figures (figure : Taurus.Execution → ℤ) (specs : List ShardSpec) : List ℤ :=
  specs.flatMap fun s => s.config.execution.map figure

def column (figure : Taurus.Execution → ℤ) (specs : List ShardSpec) (j : ℕ) : List ℤ :=
  specs.filterMap fun s => (s.config.execution[j]?).map figure

section Figures

variable (g : Block → ℤ) (specs : List ShardSpec)

theorem figures_eq :
    figures (g ∘ .ofExecution) specs =
      (specs.map ShardSpec.outline).flatMap fun o => o.blocks.map g := by
  simp [figures, ShardSpec.outline, List.flatMap_map]

theorem column_eq (j : ℕ) :
    column (g ∘ .ofExecution) specs j =
      (specs.map ShardSpec.outline).filterMap fun o => (o.blocks[j]?).map g := by
  simp [column, ShardSpec.outline, List.filterMap_map, Function.comp_def]

end Figures

theorem zipIdx_map_range {α : Type} (f : ℕ → α) (n : ℕ) :
    ((List.range n).map f).zipIdx = (List.range n).map fun i => (f i, i) := by
  refine List.ext_getElem (by simp) fun k _ _ => ?_
  simp

section Planned

variable {t : Toolchain} {entry : Entry} {shards : List Shard} {specs : List ShardSpec}
  {files : TallyMap String String}

theorem outline_planned (hvalid : entry.Valid) (hplan : plan entry entry.engines = .ok shards)
    (hspecs : t.compileShards entry shards = .ok (specs, files)) :
    specs.map ShardSpec.outline = (List.range (pods entry)).map fun i : ℕ =>
      { index := i
        blocks := (Toolchain.shardTests entry (pods entry) i (shardOf entry i)).1.map .ofEntry
        sequential := (Toolchain.shardTests entry (pods entry) i (shardOf entry i)).2 &&
          decide (1 < (Toolchain.shardTests entry (pods entry) i (shardOf entry i)).1.length) } := by
  rw [plan_eq hvalid, Except.ok.injEq] at hplan
  subst hplan
  rw [Toolchain.compileShards_outline hspecs, zipIdx_map_range, List.map_map]
  simp only [Function.comp_def, List.length_map, List.length_range]
  rfl

/-- The pods of a flat entry: one execution each, with the pod's share. -/
theorem outline_flat (hvalid : entry.Valid) (hmode : entry.mode ≠ .staircase)
    (hplan : plan entry entry.engines = .ok shards)
    (hspecs : t.compileShards entry shards = .ok (specs, files)) :
    specs.map ShardSpec.outline = (List.range (pods entry)).map fun i : ℕ =>
      { index := i
        blocks :=
          [{ concurrency := split entry.concurrency (pods entry) i
             throughput := split entry.throughput (pods entry) i
             rampup := entry.rampup * second, hold := entry.duration * second }]
        sequential := false } := by
  have hsteps : ¬1 < entry.steps := fun h => hmode (hvalid.one_lt_steps.mp h)
  rw [outline_planned hvalid hplan hspecs]
  refine List.map_congr_left fun i _ => ?_
  simp only [Toolchain.shardTests, if_neg hsteps, List.map_singleton, Block.ofEntry, shardOf,
    Bool.false_and]

/-- The pods of a staircase: every step of the table, with the pod's share. -/
theorem outline_staircase (hvalid : entry.Valid) (hmode : entry.mode = .staircase)
    (hplan : plan entry entry.engines = .ok shards)
    (hspecs : t.compileShards entry shards = .ok (specs, files)) :
    specs.map ShardSpec.outline = (List.range (pods entry)).map fun i : ℕ =>
      { index := i
        blocks := (List.range entry.steps.toNat).map fun j =>
          { concurrency := max 1 (split (entry.row j).concurrency (pods entry) i)
            throughput := max 1 (split (entry.row j).throughput (pods entry) i)
            rampup := 0, hold := entry.duration * second }
        sequential := true } := by
  have hsteps : 1 < entry.steps := hvalid.one_lt_steps.mpr hmode
  have hlength : 1 < entry.steps.toNat := hvalid.two_le_steps hmode
  rw [outline_planned hvalid hplan hspecs]
  refine List.map_congr_left fun i _ => ?_
  simp only [Toolchain.shardTests, if_pos hsteps, hvalid.staircaseSteps_eq hmode, List.map_map, List.length_map,
    List.length_range, hlength, decide_true, Bool.and_true, Function.comp_def, Block.ofEntry,
    Toolchain.stepEntry, zero_mul]

end Planned

/-! ### Flat entries -/

section Flat

variable {t : Toolchain} {entry : Entry} {shards : List Shard} {specs : List ShardSpec}
  {files : TallyMap String String} (hvalid : entry.Valid) (hmode : entry.mode ≠ .staircase)
  (hplan : plan entry entry.engines = .ok shards)
  (hspecs : t.compileShards entry shards = .ok (specs, files))
include hvalid hmode hplan hspecs

theorem figures_flat (g : Block → ℤ) :
    figures (g ∘ .ofExecution) specs = (List.range (pods entry)).map fun i : ℕ =>
      g { concurrency := split entry.concurrency (pods entry) i
          throughput := split entry.throughput (pods entry) i
          rampup := entry.rampup * second, hold := entry.duration * second } := by
  rw [figures_eq, outline_flat hvalid hmode hplan hspecs, List.flatMap_map]
  exact List.map_eq_flatMap.symm

theorem length_execution_flat {s : ShardSpec} (hs : s ∈ specs) : s.config.execution.length = 1 := by
  have hmem : s.outline ∈ specs.map ShardSpec.outline := List.mem_map_of_mem hs
  rw [outline_flat hvalid hmode hplan hspecs, List.mem_map] at hmem
  obtain ⟨i, -, hi⟩ := hmem
  simpa [ShardSpec.outline] using (congrArg (fun o => o.blocks.length) hi).symm

end Flat

/-- The configs of a flat entry's pods split its load evenly, and if the entry
has a rate, none of them is without a limit. -/
structure FlatSplit (entry : Entry) (specs : List ShardSpec) : Prop where
  single : ∀ s ∈ specs, s.config.execution.length = 1
  users : ∀ c ∈ figures (·.concurrency) specs, 1 ≤ c
  even : ∀ c ∈ figures (·.concurrency) specs, ∀ c' ∈ figures (·.concurrency) specs, c ≤ c' + 1
  total : (figures (·.concurrency) specs).sum = entry.concurrency
  rate : 0 < entry.throughput →
    (∀ r ∈ figures (·.throughput) specs, 1 ≤ r) ∧
      (figures (·.throughput) specs).sum = entry.throughput

/-- The split of a flat entry is even and complete; none of its pods is left
without a limit exactly if there is a request a second for each of them. -/
theorem flatSplit_iff (t : Toolchain) {entry : Entry} {shards : List Shard}
    {specs : List ShardSpec} {files : TallyMap String String} (hvalid : entry.validate = .ok ())
    (hmode : entry.mode ≠ .staircase) (hplan : plan entry entry.engines = .ok shards)
    (hspecs : t.compileShards entry shards = .ok (specs, files)) :
    FlatSplit entry specs ↔
      entry.throughput = 0 ∨ min entry.engines entry.concurrency ≤ entry.throughput := by
  rw [entry.validate_eq_ok] at hvalid
  have hpods := pods_pos hvalid
  have hcast := cast_pods hvalid
  have husers : figures (·.concurrency) specs =
      (List.range (pods entry)).map fun i : ℕ => split entry.concurrency (pods entry) i :=
    figures_flat hvalid hmode hplan hspecs Block.concurrency
  have hrates : figures (·.throughput) specs =
      (List.range (pods entry)).map fun i : ℕ => split entry.throughput (pods entry) i :=
    figures_flat hvalid hmode hplan hspecs Block.throughput
  rw [← hcast]
  constructor
  · intro h
    rcases hvalid.throughput.eq_or_lt with hzero | hpos
    · exact .inl hzero.symm
    · -- the last pod has the smallest share
      have hlast := (h.rate hpos).1 (split entry.throughput (pods entry) (pods entry - 1 : ℕ)) (by
        rw [hrates]
        exact List.mem_map_of_mem (List.mem_range.mpr (Nat.sub_lt hpods one_pos)))
      exact .inr ((one_le_split_last hpods hvalid.throughput).mp hlast)
  · intro h
    have hconcurrency : (pods entry : ℤ) ≤ entry.concurrency := hcast ▸ min_le_right _ _
    refine
      { single := fun s hs => length_execution_flat hvalid hmode hplan hspecs hs
        users := ?_, even := ?_, total := ?_, rate := ?_ }
    · rw [husers, List.forall_mem_map]
      exact fun i _ => one_le_split hpods hconcurrency
    · rw [husers, List.forall_mem_map]
      intro i _
      rw [List.forall_mem_map]
      exact fun j _ => split_le_succ hvalid.concurrency.le
    · rw [husers, sum_split hpods hvalid.concurrency.le]
    · intro hpos
      have hrate : (pods entry : ℤ) ≤ entry.throughput := h.resolve_left hpos.ne'
      rw [hrates, sum_split hpods hvalid.throughput, List.forall_mem_map]
      exact ⟨fun i _ => one_le_split hpods hrate, rfl⟩

/-- Five requests a second between two pods. -/
theorem flatSplit_twoPods :
    ∃ specs files,
      jmxTools.compileShards (ratedEntry 2 5) ((List.range 2).map (shardOf (ratedEntry 2 5))) =
        .ok (specs, files) ∧ FlatSplit (ratedEntry 2 5) specs := by
  obtain ⟨⟨specs, files⟩, hspecs, -⟩ := Checked.exists_ok (b := [3, 2])
    (x := jmxTools.compileShards (ratedEntry 2 5) ((List.range 2).map (shardOf (ratedEntry 2 5))))
    (g := fun r => figures (·.throughput) r.1) (by decide +kernel)
  exact ⟨specs, files, hspecs,
    (flatSplit_iff jmxTools (by decide) (by decide) (by rfl) hspecs).mpr (by decide)⟩

/-- One request a second between two pods: the second has no limit. -/
theorem not_flatSplit_twoPods :
    (ratedEntry 2 1).validate = .ok () ∧
      plan (ratedEntry 2 1) (ratedEntry 2 1).engines =
        .ok ((List.range 2).map (shardOf (ratedEntry 2 1))) ∧
      ∃ specs files,
        jmxTools.compileShards (ratedEntry 2 1) ((List.range 2).map (shardOf (ratedEntry 2 1))) =
          .ok (specs, files) ∧ ¬FlatSplit (ratedEntry 2 1) specs := by
  obtain ⟨⟨specs, files⟩, hspecs, hrates⟩ := Checked.exists_ok (b := [1, 0])
    (x := jmxTools.compileShards (ratedEntry 2 1) ((List.range 2).map (shardOf (ratedEntry 2 1))))
    (g := fun r => figures (·.throughput) r.1) (by decide +kernel)
  refine ⟨by decide, by rfl, specs, files, hspecs, fun h => ?_⟩
  have hzero := (h.rate (by decide)).1 0 (by rw [hrates]; decide)
  exact absurd hzero (by decide)

/-! ### Staircases -/

section Staircase

variable {t : Toolchain} {entry : Entry} {shards : List Shard} {specs : List ShardSpec}
  {files : TallyMap String String} (hvalid : entry.Valid) (hmode : entry.mode = .staircase)
  (hplan : plan entry entry.engines = .ok shards)
  (hspecs : t.compileShards entry shards = .ok (specs, files))
include hvalid hmode hplan hspecs

theorem column_staircase (g : Block → ℤ) {j : ℕ} (hj : j < entry.steps.toNat) :
    column (g ∘ .ofExecution) specs j = (List.range (pods entry)).map fun i : ℕ =>
      g { concurrency := max 1 (split (entry.row j).concurrency (pods entry) i)
          throughput := max 1 (split (entry.row j).throughput (pods entry) i)
          rampup := 0, hold := entry.duration * second } := by
  rw [column_eq, outline_staircase hvalid hmode hplan hspecs, List.filterMap_map,
    ← List.filterMap_eq_map]
  refine List.filterMap_congr fun i _ => ?_
  simp [hj]

theorem sum_column_staircase {j : ℕ} (hj : j < entry.steps.toNat) :
    (column (·.concurrency) specs j).sum = max (entry.row j).concurrency (pods entry) ∧
      (column (·.throughput) specs j).sum = max (entry.row j).throughput (pods entry) := by
  have hrow := entry.one_le_row j
  have hpods := pods_pos hvalid
  constructor
  · rw [← sum_max_one_split hpods (by omega)]
    exact congrArg List.sum (column_staircase hvalid hmode hplan hspecs Block.concurrency hj)
  · rw [← sum_max_one_split hpods (by omega)]
    exact congrArg List.sum (column_staircase hvalid hmode hplan hspecs Block.throughput hj)

theorem blocks_staircase {s : ShardSpec} (hs : s ∈ specs) :
    s.config.isSequential = true ∧ s.config.execution.length = entry.steps.toNat ∧
      ∀ x ∈ s.config.execution, 1 ≤ x.concurrency ∧ 1 ≤ x.throughput := by
  have hmem : s.outline ∈ specs.map ShardSpec.outline := List.mem_map_of_mem hs
  rw [outline_staircase hvalid hmode hplan hspecs, List.mem_map] at hmem
  obtain ⟨i, -, hi⟩ := hmem
  rw [ShardSpec.outline, Toolchain.Outline.mk.injEq] at hi
  refine ⟨hi.2.2.symm, by simpa using (congrArg List.length hi.2.1).symm, fun x hx => ?_⟩
  have hblock : Block.ofExecution x ∈ s.config.execution.map Block.ofExecution :=
    List.mem_map_of_mem hx
  rw [← hi.2.1, List.mem_map] at hblock
  obtain ⟨j, -, hj⟩ := hblock
  have hfigures := Block.mk.inj hj
  exact ⟨hfigures.1 ▸ le_max_left _ _, hfigures.2.1 ▸ le_max_left _ _⟩

theorem length_specs : specs.length = pods entry := by
  simpa using congrArg List.length (outline_staircase hvalid hmode hplan hspecs)

end Staircase

/-- The pods of a staircase deliver its step table: every pod carries every step,
with a user and a rate; together they do what a row asks for, and less than one
more for each pod; the steps rise, and the last is the ceiling. -/
structure TableDelivered (entry : Entry) (specs : List ShardSpec) : Prop where
  every : ∀ s ∈ specs, s.config.isSequential = true ∧
    s.config.execution.length = (staircaseSteps entry.concurrency entry.throughput entry.steps).length
  least : ∀ s ∈ specs, ∀ x ∈ s.config.execution, 1 ≤ x.concurrency ∧ 1 ≤ x.throughput
  users : ∀ (j : ℕ) (row : StaircaseStep),
    (staircaseSteps entry.concurrency entry.throughput entry.steps)[j]? = some row →
      row.concurrency ≤ (column (·.concurrency) specs j).sum ∧
        (column (·.concurrency) specs j).sum < row.concurrency + specs.length
  rates : ∀ (j : ℕ) (row : StaircaseStep),
    (staircaseSteps entry.concurrency entry.throughput entry.steps)[j]? = some row →
      row.throughput ≤ (column (·.throughput) specs j).sum ∧
        (column (·.throughput) specs j).sum < row.throughput + specs.length
  rising : ∀ j : ℕ, j + 1 < (staircaseSteps entry.concurrency entry.throughput entry.steps).length →
    (column (·.concurrency) specs j).sum ≤ (column (·.concurrency) specs (j + 1)).sum ∧
      (column (·.throughput) specs j).sum ≤ (column (·.throughput) specs (j + 1)).sum
  ceiling : ∀ j : ℕ, j + 1 = (staircaseSteps entry.concurrency entry.throughput entry.steps).length →
    (column (·.concurrency) specs j).sum = entry.concurrency ∧
      (column (·.throughput) specs j).sum = entry.throughput

/-- The pods of a staircase deliver its table exactly if there is a request a
second for each of them at the ceiling. -/
theorem tableDelivered_iff (t : Toolchain) {entry : Entry} {shards : List Shard}
    {specs : List ShardSpec} {files : TallyMap String String} (hvalid : entry.validate = .ok ())
    (hmode : entry.mode = .staircase) (hplan : plan entry entry.engines = .ok shards)
    (hspecs : t.compileShards entry shards = .ok (specs, files)) :
    TableDelivered entry specs ↔ min entry.engines entry.concurrency ≤ entry.throughput := by
  rw [entry.validate_eq_ok] at hvalid
  have hpods := pods_pos hvalid
  have hcast := cast_pods hvalid
  have htwo := hvalid.two_le_steps hmode
  have hlength := hvalid.length_staircaseSteps hmode
  have hsums := fun {j : ℕ} => sum_column_staircase hvalid hmode hplan hspecs (j := j)
  have hlast := hvalid.row_last hmode
  have hspecsLength := length_specs hvalid hmode hplan hspecs
  rw [← hcast]
  constructor
  · intro h
    have hceiling := (h.ceiling (entry.steps.toNat - 1) (by omega)).2
    rw [(hsums (by omega)).2, hlast.2] at hceiling
    exact hceiling ▸ le_max_right _ _
  · intro hrate
    have hconcurrency : (pods entry : ℤ) ≤ entry.concurrency := hcast ▸ min_le_right _ _
    refine
      { every := fun s hs => ?_
        least := fun s hs => (blocks_staircase hvalid hmode hplan hspecs hs).2.2
        users := fun j row h => ?_, rates := fun j row h => ?_
        rising := fun j hj => ?_, ceiling := fun j hj => ?_ }
    · rw [hlength]
      exact ⟨(blocks_staircase hvalid hmode hplan hspecs hs).1,
        (blocks_staircase hvalid hmode hplan hspecs hs).2.1⟩
    · obtain ⟨hj, rfl⟩ := hvalid.eq_row_of_getElem? hmode h
      have hone := entry.one_le_row j
      rw [(hsums hj).1, hspecsLength]
      omega
    · obtain ⟨hj, rfl⟩ := hvalid.eq_row_of_getElem? hmode h
      have hone := entry.one_le_row j
      rw [(hsums hj).2, hspecsLength]
      omega
    · rw [hlength] at hj
      have hmono := hvalid.row_mono (Nat.le_succ j)
      rw [(hsums (by omega)).1, (hsums (by omega)).2, (hsums hj).1, (hsums hj).2]
      exact ⟨max_le_max_right _ hmono.1, max_le_max_right _ hmono.2⟩
    · rw [hlength] at hj
      obtain rfl : j = entry.steps.toNat - 1 := by omega
      rw [(hsums (by omega)).1, (hsums (by omega)).2, hlast.1, hlast.2]
      exact ⟨max_eq_left hconcurrency, max_eq_left hrate⟩

def twoSteps (throughput : ℤ) : Entry :=
  { ratedEntry 2 throughput with mode := .staircase, steps := 2 }

theorem tableDelivered_twoSteps :
    ∃ specs files,
      jmxTools.compileShards (twoSteps 5) ((List.range 2).map (shardOf (twoSteps 5))) =
        .ok (specs, files) ∧ TableDelivered (twoSteps 5) specs := by
  obtain ⟨⟨specs, files⟩, hspecs, -⟩ := Checked.exists_ok (b := [3, 2])
    (x := jmxTools.compileShards (twoSteps 5) ((List.range 2).map (shardOf (twoSteps 5))))
    (g := fun r => column (·.throughput) r.1 1) (by decide +kernel)
  exact ⟨specs, files, hspecs,
    (tableDelivered_iff jmxTools (by decide) (by decide) (by rfl) hspecs).mpr (by decide)⟩

/-- A ceiling of one request a second, of which each of two pods holds one. -/
theorem not_tableDelivered_twoSteps :
    (twoSteps 1).validate = .ok () ∧
      plan (twoSteps 1) (twoSteps 1).engines = .ok ((List.range 2).map (shardOf (twoSteps 1))) ∧
      ∃ specs files,
        jmxTools.compileShards (twoSteps 1) ((List.range 2).map (shardOf (twoSteps 1))) =
          .ok (specs, files) ∧ ¬TableDelivered (twoSteps 1) specs := by
  obtain ⟨⟨specs, files⟩, hspecs, hrates⟩ := Checked.exists_ok (b := [1, 1])
    (x := jmxTools.compileShards (twoSteps 1) ((List.range 2).map (shardOf (twoSteps 1))))
    (g := fun r => column (·.throughput) r.1 1) (by decide +kernel)
  refine ⟨by decide, by rfl, specs, files, hspecs, fun h => ?_⟩
  have hceiling := (h.ceiling 1 (by decide +kernel)).2
  rw [hrates] at hceiling
  exact absurd hceiling (by decide)

end Honryu.Lifecycle
