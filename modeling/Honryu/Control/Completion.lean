import Honryu.Control.Questions
import Honryu.Lib.Alone
import Honryu.Lib.Walk
import Honryu.Progress.Shards

/-!
Whether a run that is closed as completed has completed.

A push closes a run if as many shards have finished as are planned, whichever these are. A
reconciliation closes it if the completions that found no run name every scenario and shard of the
load profile, on whichever cluster.
-/

namespace Honryu.Control

open Call Lifecycle Metrics Progress Quota Schedules

variable {p : Precision} (cfg : Config)

/-! ### What is planned -/

def PlannedShard (exe : Execution) (k : ShardKey) : Prop :=
  k.cluster ∈ exe.clusters ∧ ∃ entry ∈ exe.profile,
    entry.scenarioId = k.scenarioId ∧ 0 ≤ k.shardIndex ∧ k.shardIndex < entry.engines

def plannedKeys (exe : Execution) : List ShardKey :=
  exe.clusters.flatMap fun cluster => exe.profile.flatMap fun entry =>
    (List.range entry.engines.toNat).map fun (i : ℕ) =>
      { scenarioId := entry.scenarioId, cluster, shardIndex := i }

section PlannedShard

variable {exe : Execution} {k : ShardKey}

theorem mem_plannedKeys : k ∈ plannedKeys exe ↔ PlannedShard exe k := by
  simp only [plannedKeys, List.mem_flatMap, List.mem_map, List.mem_range, PlannedShard]
  constructor
  · rintro ⟨cluster, hcluster, entry, hentry, i, hi, rfl⟩
    exact ⟨hcluster, entry, hentry, rfl, Int.natCast_nonneg i, Int.lt_toNat.mp hi⟩
  · rintro ⟨hcluster, entry, hentry, hscenario, hlo, hhi⟩
    refine ⟨k.cluster, hcluster, entry, hentry, k.shardIndex.toNat, by omega, ?_⟩
    exact ShardKey.ext hscenario rfl (Int.toNat_of_nonneg hlo)

theorem length_plannedKeys (h : ∀ entry ∈ exe.profile, 0 ≤ entry.engines) :
    ((plannedKeys exe).length : ℤ) = exe.clusters.length * exe.totalEngines := by
  have hprofile : ∀ profile : List LoadProfile.Entry, (∀ entry ∈ profile, 0 ≤ entry.engines) →
      (((profile.map fun entry => entry.engines.toNat).sum : ℕ) : ℤ) =
        (profile.map (·.engines)).sum := by
    intro profile hprofile
    induction profile with
    | nil => rfl
    | cons entry rest ih =>
        obtain ⟨hentry, hrest⟩ := List.forall_mem_cons.mp hprofile
        rw [List.map_cons, List.sum_cons, List.map_cons, List.sum_cons, Nat.cast_add, ih hrest,
          Int.toNat_of_nonneg hentry]
  simp only [plannedKeys, List.length_flatMap, List.length_map, List.length_range,
    List.map_const', List.sum_replicate, smul_eq_mul, Nat.cast_mul]
  rw [hprofile _ h, Execution.totalEngines]

/-- As many planned shards as there are planned ones are all of them. -/
theorem mem_of_card_le (h : ∀ entry ∈ exe.profile, 0 ≤ entry.engines) {keys : Finset ShardKey}
    (hkeys : ∀ k ∈ keys, PlannedShard exe k)
    (hcard : (exe.clusters.length * exe.totalEngines : ℤ) ≤ keys.card) (hk : PlannedShard exe k) :
    k ∈ keys := by
  have hsubset : keys ⊆ (plannedKeys exe).toFinset := fun k hk =>
    List.mem_toFinset.mpr (mem_plannedKeys.mpr (hkeys k hk))
  have hle : (plannedKeys exe).toFinset.card ≤ keys.card := by
    refine (List.toFinset_card_le _).trans ?_
    rw [← length_plannedKeys h] at hcard
    exact Int.ofNat_le.mp hcard
  rw [Finset.eq_of_subset_of_card_le hsubset hle]
  exact List.mem_toFinset.mpr (mem_plannedKeys.mpr hk)

end PlannedShard

/-! ### Runs that are closed -/

/-- Runs of certain executions may have been closed, and what was known of finished shards may have
been discarded. -/
structure Closes (ok : ℤ → Prop) (s s' : Store p) : Prop where
  nextRun : s'.nextRun = s.nextRun
  orphans : s'.orphans = s.orphans
  finished : ∀ runId k, s'.progress.hasFinished runId k = true →
    s.progress.hasFinished runId k = true
  marker : ∀ e, s'.marker e = s.marker e ∨ ok e ∧ s'.marker e = none

section Closes

variable {cfg} {ok : ℤ → Prop} {executionId : ℤ} {s s' : Store p}

theorem Closes.refl (ok : ℤ → Prop) (s : Store p) : Closes ok s s :=
  ⟨rfl, rfl, fun _ _ h => h, fun _ => .inl rfl⟩

theorem hasFinished_discard (table : ProgressTable) (r : Repository) {runId runId' : ℤ}
    {k : ShardKey}
    (h : Repository.hasFinished
      ⟨Function.update r.run runId (discardTable table (r.run runId))⟩ runId' k = true) :
    r.hasFinished runId' k = true := by
  by_cases hrun : runId' = runId
  · subst hrun
    simp only [Repository.hasFinished, Function.update_self] at h ⊢
    cases table with
    | shards => simp [discardTable] at h
    | _ => exact h
  · simpa only [Repository.hasFinished, Function.update_of_ne hrun] using h

theorem FinalisingOf.closes {o : Op} (ho : FinalisingOf executionId o) (hok : ok executionId)
    (h : Closes ok s s') : Closes ok s (effect cfg s' o) := by
  cases o with
  | deleteRun e onBehalf =>
      obtain rfl : e = executionId := ho
      refine ⟨h.nextRun, h.orphans, h.finished, fun x => ?_⟩
      by_cases hx : x = e
      · exact .inr ⟨hx ▸ hok, by rw [hx]; exact Function.update_self ..⟩
      · rw [show (effect cfg s' (.deleteRun e onBehalf)).marker x = s'.marker x from
          Function.update_of_ne hx _ _]
        exact h.marker x
  | discard table runId =>
      exact ⟨h.nextRun, h.orphans, fun _ _ hk => h.finished _ _ (hasFinished_discard _ _ hk),
        h.marker⟩
  | _ => first | exact ho.elim | exact ⟨h.nextRun, h.orphans, h.finished, h.marker⟩

theorem Closes.allowed {runId : ℤ} (h : Closes ok s s') (hrun : s.marker executionId = some runId)
    (hclosed : s'.marker executionId = none) : ok executionId := by
  rcases h.marker executionId with hsame | ⟨hok, -⟩
  · exact nomatch hrun.symm.trans (hsame.symm.trans hclosed)
  · exact hok

/-- A part that ends a run of an execution whose runs may be closed. -/
theorem sure_closes {α : Type} {c : Proc α} (hc : c.Asks (FinalisingOf executionId))
    (hok : ok executionId) (h : Closes ok s s') :
    c.Sure (server cfg) s' fun _ _ s'' => Closes ok s s'' := by
  have hkeep : ∀ o, FinalisingOf executionId o → ∀ view s', Closes ok s s' →
      Closes ok s ((server cfg).perform view o s').2 := fun o ho _ _ h => ho.closes hok h
  exact (hc.sure hkeep h).mono fun _ _ _ h => h.1

end Closes

/-! ### Pushes and reconciliation passes -/

def CountReached (exe : Execution) (runId : ℤ) (s : Store p) : Prop :=
  (exe.totalEngines * exe.clusters.length : ℤ) ≤ (s.progress.shardStates runId).countP (·.finished)

inductive Taken (batch : Batch) (s : Store p) : Store p → Prop
  | same : Taken batch s s
  | orphaned (finishedAt : ℕ) : batch.final = true → s.marker batch.executionId = none →
      Taken batch s (effect cfg s (.recordOrphanCompletion batch.executionId
        { scenarioId := batch.scenarioId, shardIndex := batch.shardIndex
          exitCode := batch.exitCode, finishedAt }))
  | absorbed (runId : ℤ) (s' : Store p) : s.marker batch.executionId = some runId →
      Closes (fun e => e = batch.executionId ∧ batch.final = true ∧
          ∃ exe, cfg.execution e = some exe ∧
            CountReached exe.toExecution runId (effect cfg s (.absorb (.ofBatch runId batch))))
        (effect cfg s (.absorb (.ofBatch runId batch))) s' →
      Taken batch s s'

section Taken

variable {s : Store p} {batch : Batch} {executionId runId : ℤ}

/-- The completion check changes nothing. If it says so, as many shards have finished as are
planned. -/
theorem sure_allShardsFinished :
    (allShardsFinished executionId runId).Sure (server cfg) s fun _ r s' => s' = s ∧
      (r = some (.ok true) → ∃ exe, cfg.execution executionId = some exe ∧
        CountReached exe.toExecution runId s) := by
  refine Sure.need_bind (fun _ states hstates => ?_) (fun _ _ _ => ⟨rfl, nofun⟩)
    (fun _ _ => ⟨rfl, nofun⟩) ⟨rfl, nofun⟩
  refine Sure.need_bind (fun _ profile hprofile => ?_) (fun _ _ _ => ⟨rfl, nofun⟩)
    (fun _ _ => ⟨rfl, nofun⟩) ⟨rfl, nofun⟩
  cases hstates
  cases hprofile
  dsimp only
  split
  · exact ⟨rfl, nofun⟩
  · refine Sure.need_bind (fun _ exe hexe => ?_) (fun _ _ _ => ⟨rfl, nofun⟩)
      (fun _ _ => ⟨rfl, nofun⟩) ⟨rfl, nofun⟩
    have hexe : cfg.execution executionId = some exe := found_eq_ok.mp hexe
    refine ⟨rfl, fun hdone => ⟨exe, hexe, ?_⟩⟩
    have hdone := of_decide_eq_true (Except.ok.inj (Option.some.inj hdone))
    rw [Config.profile, hexe] at hdone
    rw [CountReached, Execution.clusters]
    split at hdone
    · rename_i hfan
      rwa [if_pos hfan]
    · rename_i hfan
      rwa [if_neg hfan, List.length_singleton, Nat.cast_one, mul_one]

theorem sure_ingest :
    (ingest cfg batch).Sure (server cfg) s fun _ _ s' => Taken cfg batch s s' := by
  refine Sure.need_bind (fun _ current hcurrent => ?_) (fun _ _ _ => .same) (fun _ _ => .same) .same
  cases hcurrent
  cases hrun : s.marker batch.executionId with
  | none =>
      have horphan : (recordOrphan batch).Sure (server cfg) s
          fun _ _ s' => Taken cfg batch s s' := by
        unfold recordOrphan
        split
        · rename_i hfinal
          refine Sure.need_bind (fun _ finishedAt _ => ?_) (fun _ _ _ => .same) (fun _ _ => .same)
            .same
          exact sure_need.mpr ⟨fun _ => .orphaned _ hfinal hrun, fun _ _ => .same, .same⟩
        · exact .same
      exact horphan.bind (fun _ _ _ h => h) (fun _ _ _ h => h) fun _ _ h => h
  | some runId =>
      dsimp only
      split
      · exact .same
      · have habsorbed : ∀ {s'}, _ → Taken cfg batch s s' := fun h => .absorbed runId _ hrun h
        refine Sure.need_bind (fun _ _ _ => ?_) (fun _ _ _ => habsorbed (.refl _ _))
          (fun _ _ => .same) .same
        unfold complete
        split
        · rename_i hfinal
          refine (sure_allShardsFinished cfg).bind (fun _ done s' h => ?_) (fun _ _ s' h => ?_)
            fun _ s' h => ?_
          · obtain ⟨rfl, hdone⟩ := h
            cases done with
            | false => exact habsorbed (.refl _ _)
            | true =>
                exact (sure_closes (asks_finalizeCompleted cfg _ _) ⟨rfl, hfinal, hdone rfl⟩
                  (.refl _ _)).mono fun _ _ _ h => habsorbed h
          · obtain ⟨rfl, -⟩ := h
            exact habsorbed (.refl _ _)
          · obtain ⟨rfl, -⟩ := h
            exact habsorbed (.refl _ _)
        · exact habsorbed (.refl _ _)

/-- A reconciliation closes only runs of executions whose load profile is covered. -/
theorem sure_reconcile :
    (reconcile cfg).Sure (server cfg) s fun _ _ s' =>
      Closes (fun e => orphansCoverProfile (s.orphans e) (cfg.profile e) = true) s s' := by
  let ok := fun e => orphansCoverProfile (s.orphans e) (cfg.profile e) = true
  have heach : ∀ rows s', Closes ok s s' →
      (reconcileEach cfg rows).Sure (server cfg) s' fun _ _ s'' => Closes ok s s'' := by
    intro rows
    induction rows with
    | nil => exact fun s' h => h
    | cons row rest ih =>
        intro s' h
        refine Sure.need_bind (fun _ orphans horphans => ?_) (fun _ _ _ => h) (fun _ _ => h) h
        cases horphans
        split
        · exact ih s' h
        · refine Sure.need_bind (fun _ profile hprofile => ?_) (fun _ _ _ => h) (fun _ _ => h) h
          cases hprofile
          split
          · exact ih s' h
          · rename_i hcovered
            have hok : ok row.executionId := by
              rw [h.orphans, Bool.not_eq_true, Bool.not_eq_false'] at hcovered
              exact hcovered
            refine (sure_closes (asks_finalize cfg _ _ _ _) hok h).bind (fun _ _ s'' h => ?_)
              (fun _ _ _ h => h) fun _ _ h => h
            refine
              (sure_closes ((asks_stopRun _ _).mono fun _ => ClosingOf.finalisingOf) hok h).bind
              (fun _ _ s'' h => ih s'' h) (fun _ _ _ h => h) fun _ _ h => h
  refine Sure.need_bind (fun _ rows _ => heach rows s (.refl _ s)) (fun _ _ _ => .refl _ s)
    (fun _ _ => .refl _ s) (.refl _ s)

theorem sure_startRun_closes (correlationId : String) :
    (startRun executionId correlationId).Sure (server cfg) s fun _ _ s' =>
      Closes (fun _ => False) s s' ∨
        Closes (fun _ => False) (effect cfg s (.insertRun executionId)) s' := by
  have hhistory : ∀ s' : Store p, ∀ runId, Closes (fun _ => False) s'
      (effect cfg s' (.insertHistory runId executionId correlationId)) := fun _ _ =>
    ⟨rfl, rfl, fun _ _ h => h, fun _ => .inl rfl⟩
  refine Sure.need_bind (fun _ runId _ => ?_) (fun _ _ _ => .inr (.refl _ _))
    (fun _ _ => .inl (.refl _ s)) (.inl (.refl _ s))
  exact Sure.need_bind (fun _ _ _ => .inr (hhistory _ _)) (fun _ _ _ => .inr (hhistory _ _))
    (fun _ _ => .inr (.refl _ _)) (.inr (.refl _ _))

end Taken

/-! ### Finals -/

structure Final where
  batch : Batch
  current : Option ℤ

def Final.key (f : Final) : ShardKey :=
  { scenarioId := f.batch.scenarioId, cluster := f.batch.cluster, shardIndex := f.batch.shardIndex }

structure Final.Reports (f : Final) (executionId runId : ℤ) (k : ShardKey) : Prop where
  final : f.batch.final = true
  execution : f.batch.executionId = executionId
  key : f.key = k
  current : f.current = some runId ∨ f.current = none

structure Deliveries (p : Precision) where
  store : Store p
  finals : List Final

inductive Delivery
  | push (batch : Batch)
  | reconcile
  | opens (executionId : ℤ) (correlationId : String)

def Delivery.call : Delivery → Proc Unit
  | .push batch => ingest cfg batch
  | .reconcile => Control.reconcile cfg
  | .opens executionId correlationId => do
      let _ ← startRun executionId correlationId
      return ()

def Delivery.finals (s : Store p) : Delivery → List Final
  | .push batch => if batch.final then [⟨batch, s.marker batch.executionId⟩] else []
  | _ => []

namespace Deliveries

def new : Deliveries p := { store := .new, finals := [] }

def step (d : Deliveries p) (a : Attempt Delivery View) : Deliveries p :=
  { store := ((a.kind.call cfg).alone (server cfg) a.inputs a.mishap d.store).state
    finals := d.finals ++ a.kind.finals d.store }

/-- If a push or a reconciliation closes the run of an execution, all planned shards have
finished. -/
def CompletesWhole (executionId : ℤ) (d : Deliveries p) (a : Attempt Delivery View) : Prop :=
  ∀ runId exe k, d.store.marker executionId = some runId →
    (d.step cfg a).store.marker executionId = none → cfg.execution executionId = some exe →
    PlannedShard exe.toExecution k → ∃ f ∈ (d.step cfg a).finals, f.Reports executionId runId k

/-- The last batches of an execution are those of planned shards, and no load profile has a
negative number of engines. A reconciliation finds the load profile covered only if the execution
runs on one cluster. -/
def AsPlanned (executionId : ℤ) (d : Deliveries p) (a : Attempt Delivery View) : Prop :=
  ∀ exe, cfg.execution executionId = some exe →
    match a.kind with
    | .push batch => batch.executionId = executionId → batch.final = true →
        (∀ entry ∈ exe.profile, 0 ≤ entry.engines) ∧
          PlannedShard exe.toExecution (Final.key ⟨batch, none⟩)
    | .reconcile => orphansCoverProfile (d.store.orphans executionId) exe.profile = true →
        ∀ c ∈ exe.clusters, ∀ c' ∈ exe.clusters, c = c'
    | .opens _ _ => True

structure Accounted (executionId : ℤ) (d : Deliveries p) : Prop where
  final : ∀ f ∈ d.finals, f.batch.final = true
  planned : ∀ f ∈ d.finals, f.batch.executionId = executionId →
    ∀ exe, cfg.execution executionId = some exe → PlannedShard exe.toExecution f.key
  fresh : ∀ runId k, d.store.nextRun ≤ runId → d.store.progress.hasFinished runId k ≠ true
  below : ∀ e runId, d.store.marker e = some runId → runId < d.store.nextRun
  apart : ∀ e e' runId, d.store.marker e = some runId → d.store.marker e' = some runId → e = e'
  finished : ∀ runId k, d.store.marker executionId = some runId →
    d.store.progress.hasFinished runId k = true →
    ∃ f ∈ d.finals, f.batch.executionId = executionId ∧ f.key = k ∧ f.current = some runId
  orphaned : ∀ oc ∈ d.store.orphans executionId, ∃ f ∈ d.finals,
    f.batch.executionId = executionId ∧ f.batch.scenarioId = oc.scenarioId ∧
      f.batch.shardIndex = oc.shardIndex ∧ f.current = none

theorem sure_opens {s : Store p} (e : ℤ) (correlationId : String) :
    ((Delivery.opens e correlationId).call cfg).Sure (server cfg) s fun _ _ s' =>
      Closes (fun _ => False) s s' ∨ Closes (fun _ => False) (effect cfg s (.insertRun e)) s' :=
  (sure_startRun_closes cfg correlationId).bind (fun _ _ _ h => h) (fun _ _ _ h => h) fun _ _ h => h

section Accounted

variable {cfg} {executionId : ℤ} {s s' : Store p} {finals : List Final} {batch : Batch}

theorem accounted_new : Accounted cfg executionId (new : Deliveries p) :=
  ⟨nofun, nofun, fun _ _ _ => nofun, nofun, nofun, nofun, nofun⟩

theorem Accounted.push {new : List Final} (h : Accounted cfg executionId ⟨s, finals⟩)
    (hfinal : ∀ f ∈ new, f.batch.final = true)
    (hplanned : ∀ f ∈ new, f.batch.executionId = executionId →
      ∀ exe, cfg.execution executionId = some exe → PlannedShard exe.toExecution f.key) :
    Accounted cfg executionId ⟨s, finals ++ new⟩ where
  final f hf := (List.mem_append.mp hf).elim (h.final f) (hfinal f)
  planned f hf := (List.mem_append.mp hf).elim (h.planned f) (hplanned f)
  fresh := h.fresh
  below := h.below
  apart := h.apart
  finished runId k hrun hk :=
    let ⟨f, hf, hreports⟩ := h.finished runId k hrun hk
    ⟨f, List.mem_append_left _ hf, hreports⟩
  orphaned oc hoc :=
    let ⟨f, hf, hreports⟩ := h.orphaned oc hoc
    ⟨f, List.mem_append_left _ hf, hreports⟩

theorem Accounted.closes {ok : ℤ → Prop} (h : Accounted cfg executionId ⟨s, finals⟩)
    (hcloses : Closes ok s s') : Accounted cfg executionId ⟨s', finals⟩ := by
  have hmarker : ∀ e runId, s'.marker e = some runId → s.marker e = some runId := by
    intro e runId hrun
    rcases hcloses.marker e with hsame | ⟨-, hnone⟩
    · exact hsame ▸ hrun
    · exact nomatch hnone.symm.trans hrun
  refine ⟨h.final, h.planned, fun runId k hle hk => ?_, fun e runId hrun => ?_,
    fun e e' runId hrun hrun' => h.apart _ _ _ (hmarker _ _ hrun) (hmarker _ _ hrun'),
    fun runId k hrun hk => h.finished _ _ (hmarker _ _ hrun) (hcloses.finished _ _ hk), ?_⟩
  · exact h.fresh runId k (hcloses.nextRun ▸ hle) (hcloses.finished _ _ hk)
  · exact (h.below e runId (hmarker _ _ hrun)).trans_eq hcloses.nextRun.symm
  · intro oc hoc
    exact h.orphaned oc (hcloses.orphans ▸ hoc)

theorem Accounted.absorb {runId : ℤ} (h : Accounted cfg executionId ⟨s, finals⟩)
    (hrun : s.marker batch.executionId = some runId)
    (hpushed : batch.final = true → (⟨batch, some runId⟩ : Final) ∈ finals) :
    Accounted cfg executionId ⟨effect cfg s (.absorb (.ofBatch runId batch)), finals⟩ := by
  refine ⟨h.final, h.planned, fun runId' k hle hk => ?_, h.below, h.apart,
    fun runId' k hrun' hk => ?_, h.orphaned⟩
  · rcases Repository.hasFinished_apply.mp hk with hk | ⟨-, hsame, -⟩
    · exact h.fresh runId' k hle hk
    · obtain rfl : runId = runId' := hsame
      exact absurd (h.below _ _ hrun) (not_lt.mpr hle)
  · rcases Repository.hasFinished_apply.mp hk with hk | ⟨-, hsame, hkey, hfinal⟩
    · exact h.finished runId' k hrun' hk
    · obtain rfl : runId = runId' := hsame
      exact ⟨_, hpushed hfinal, h.apart _ _ _ hrun hrun', hkey, rfl⟩

theorem Accounted.orphan {oc : OrphanCompletion} (h : Accounted cfg executionId ⟨s, finals⟩)
    (hscenario : batch.scenarioId = oc.scenarioId) (hshard : batch.shardIndex = oc.shardIndex)
    (hpushed : (⟨batch, none⟩ : Final) ∈ finals) :
    Accounted cfg executionId
      ⟨effect cfg s (.recordOrphanCompletion batch.executionId oc), finals⟩ := by
  refine ⟨h.final, h.planned, h.fresh, h.below, h.apart, h.finished, fun oc' hoc' => ?_⟩
  by_cases hexe : executionId = batch.executionId
  · subst hexe
    rw [show (effect cfg s (.recordOrphanCompletion batch.executionId oc)).orphans batch.executionId =
      _ from Function.update_self ..] at hoc'
    rcases List.mem_append.mp hoc' with hold | hnew
    · exact h.orphaned oc' (List.mem_of_mem_filter hold)
    · obtain rfl := List.mem_singleton.mp hnew
      exact ⟨_, hpushed, rfl, hscenario, hshard, rfl⟩
  · rw [show (effect cfg s (.recordOrphanCompletion batch.executionId oc)).orphans executionId =
      s.orphans executionId from Function.update_of_ne hexe _ _] at hoc'
    exact h.orphaned oc' hoc'

theorem marker_insertRun_of_some {runId : ℤ} (hrun : s.marker executionId = some runId) (e : ℤ) :
    (effect cfg s (.insertRun e)).marker executionId = some runId := by
  simp only [effect]
  split
  · exact hrun
  · rename_i hnone
    have hne : executionId ≠ e := by
      rintro rfl
      exact hnone (by rw [hrun]; rfl)
    rw [Function.update_of_ne hne, hrun]

theorem Accounted.insertRun (h : Accounted cfg executionId ⟨s, finals⟩) (e : ℤ) :
    Accounted cfg executionId ⟨effect cfg s (.insertRun e), finals⟩ := by
  by_cases hrun : (s.marker e).isSome = true
  · rw [show effect cfg s (.insertRun e) = s by simp only [effect, hrun, if_true]]
    exact h
  · have hmarker : ∀ x, (effect cfg s (.insertRun e)).marker x =
        if x = e then some s.nextRun else s.marker x := by
      intro x
      simp only [effect, if_neg hrun, Function.update_apply]
    have hnext : (effect cfg s (.insertRun e)).nextRun = s.nextRun + 1 := by
      simp only [effect, if_neg hrun]
    refine ⟨h.final, h.planned, fun runId k hle => h.fresh runId k ?_, fun x runId hx => ?_,
      fun x y runId hx hy => ?_, fun runId k hx hk => ?_, h.orphaned⟩
    · rw [hnext] at hle
      exact (Int.le_add_one le_rfl).trans hle
    · rw [hmarker] at hx
      rw [hnext]
      split at hx
      · exact Option.some.inj hx ▸ Int.lt_succ _
      · exact (h.below x runId hx).trans (Int.lt_succ _)
    · rw [hmarker] at hx hy
      split at hx <;> split at hy
      · exact Eq.trans ‹x = e› ‹y = e›.symm
      · exact absurd (h.below y runId hy) (by rw [← Option.some.inj hx]; exact lt_irrefl _)
      · exact absurd (h.below x runId hx) (by rw [← Option.some.inj hy]; exact lt_irrefl _)
      · exact h.apart x y runId hx hy
    · rw [hmarker] at hx
      split at hx
      · exact absurd hk (h.fresh runId k (Option.some.inj hx).le)
      · exact h.finished runId k hx hk

theorem Accounted.delivered {d : Deliveries p} {a : Attempt Delivery View}
    (h : Accounted cfg executionId d) (hok : AsPlanned cfg executionId d a) :
    Accounted cfg executionId ⟨d.store, d.finals ++ a.kind.finals d.store⟩ := by
  obtain ⟨delivery, views, mishap⟩ := a
  have hnew : ∀ f ∈ delivery.finals d.store, f.batch.final = true ∧
      (f.batch.executionId = executionId →
        ∀ exe, cfg.execution executionId = some exe → PlannedShard exe.toExecution f.key) := by
    intro f hf
    cases delivery with
    | push batch =>
        simp only [Delivery.finals] at hf
        split at hf
        · rename_i hfinal
          obtain rfl := List.mem_singleton.mp hf
          exact ⟨hfinal, fun hexe exe hex => (hok exe hex hexe hfinal).2⟩
        · exact nomatch hf
    | _ => exact nomatch hf
  exact h.push (fun f hf => (hnew f hf).1) fun f hf => (hnew f hf).2

theorem Accounted.taken (h : Accounted cfg executionId ⟨s, finals⟩)
    (htaken : Taken cfg batch s s')
    (hpushed : batch.final = true → (⟨batch, s.marker batch.executionId⟩ : Final) ∈ finals) :
    Accounted cfg executionId ⟨s', finals⟩ := by
  cases htaken with
  | same => exact h
  | orphaned finishedAt hfinal hnone => exact h.orphan rfl rfl (hnone ▸ hpushed hfinal)
  | absorbed runId s' hrun hcloses => exact (h.absorb hrun (hrun ▸ hpushed)).closes hcloses

theorem mem_delivered (d : Deliveries p) (batch : Batch) (hfinal : batch.final = true) :
    (⟨batch, d.store.marker batch.executionId⟩ : Final) ∈
      d.finals ++ (Delivery.push batch).finals d.store := by
  refine List.mem_append_right _ ?_
  rw [Delivery.finals, if_pos hfinal]
  exact List.mem_singleton_self _

theorem Accounted.step {d : Deliveries p} {a : Attempt Delivery View}
    (h : Accounted cfg executionId d) (hok : AsPlanned cfg executionId d a) :
    Accounted cfg executionId (d.step cfg a) := by
  have hdelivered := h.delivered hok
  obtain ⟨delivery, views, mishap⟩ := a
  cases delivery with
  | push batch =>
      exact hdelivered.taken ((sure_ingest cfg).alone views mishap) (mem_delivered d batch)
  | reconcile => exact hdelivered.closes ((sure_reconcile cfg).alone views mishap)
  | opens e correlationId =>
      rcases (sure_opens cfg e correlationId).alone views mishap with hsame | hopened
      · exact hdelivered.closes hsame
      · exact (hdelivered.insertRun e).closes hopened

/-- As many shards of the open run have finished as are planned, so all of them have. -/
theorem Accounted.reports_of_countReached {runId : ℤ} {exe : SizedExecution} {k : ShardKey}
    (h : Accounted cfg executionId ⟨s, finals⟩) (hrun : s.marker executionId = some runId)
    (hexe : cfg.execution executionId = some exe)
    (hengines : ∀ entry ∈ exe.profile, 0 ≤ entry.engines)
    (hcount : CountReached exe.toExecution runId s) (hk : PlannedShard exe.toExecution k) :
    ∃ f ∈ finals, f.Reports executionId runId k := by
  obtain ⟨keys, hcard, hkeys⟩ := s.progress.exists_countP_finished runId
  have hplanned : ∀ k ∈ keys, PlannedShard exe.toExecution k := by
    intro k hk
    obtain ⟨f, hf, hof, rfl, -⟩ := h.finished runId k hrun (hkeys k hk)
    exact h.planned f hf hof exe hexe
  rw [CountReached, ← hcard, mul_comm] at hcount
  obtain ⟨f, hf, hof, hkey, hcurrent⟩ :=
    h.finished runId k hrun (hkeys k (mem_of_card_le hengines hplanned hcount hk))
  exact ⟨f, hf, h.final f hf, hof, hkey, .inl hcurrent⟩

/-- Completions name every scenario and shard. On one cluster, these are the planned ones. -/
theorem Accounted.reports_of_covered {runId : ℤ} {exe : SizedExecution} {k : ShardKey}
    (h : Accounted cfg executionId ⟨s, finals⟩) (hexe : cfg.execution executionId = some exe)
    (hcovered : orphansCoverProfile (s.orphans executionId) exe.profile = true)
    (hone : ∀ c ∈ exe.clusters, ∀ c' ∈ exe.clusters, c = c') (hk : PlannedShard exe.toExecution k) :
    ∃ f ∈ finals, f.Reports executionId runId k := by
  obtain ⟨hcluster, entry, hentry, hscenario, hlo, hhi⟩ := hk
  rw [orphansCoverProfile, Bool.and_eq_true, List.all_eq_true] at hcovered
  have hall := List.all_eq_true.mp (hcovered.1 entry hentry) k.shardIndex.toNat
    (List.mem_range.mpr (by omega))
  obtain ⟨oc, hoc, hmatch⟩ := List.any_eq_true.mp hall
  obtain ⟨hscenario', hshard'⟩ := of_decide_eq_true hmatch
  obtain ⟨f, hf, hof, hfs, hfi, hnone⟩ := h.orphaned oc hoc
  have hfc := (h.planned f hf hof exe hexe).1
  refine ⟨f, hf, h.final f hf, hof, ShardKey.ext ?_ (hone _ hfc _ hcluster) ?_, .inr hnone⟩
  · exact hfs.trans (hscenario'.trans hscenario)
  · exact hfi.trans (hshard'.trans (Int.toNat_of_nonneg hlo))

theorem Accounted.reports_of_taken {runId : ℤ} {exe : SizedExecution} {k : ShardKey}
    (h : Accounted cfg executionId ⟨s, finals⟩) (htaken : Taken cfg batch s s')
    (hpushed : batch.final = true → (⟨batch, s.marker batch.executionId⟩ : Final) ∈ finals)
    (hrun : s.marker executionId = some runId) (hclosed : s'.marker executionId = none)
    (hexe : cfg.execution executionId = some exe)
    (hengines : batch.executionId = executionId → batch.final = true →
      ∀ entry ∈ exe.profile, 0 ≤ entry.engines)
    (hk : PlannedShard exe.toExecution k) : ∃ f ∈ finals, f.Reports executionId runId k := by
  cases htaken with
  | same => exact nomatch hrun.symm.trans hclosed
  | orphaned finishedAt hfinal hnone => exact nomatch hrun.symm.trans hclosed
  | absorbed runId' s' hrun' hcloses =>
      obtain ⟨rfl, hfinal, exe', hexe', hcount⟩ := hcloses.allowed hrun hclosed
      obtain rfl : runId = runId' := Option.some.inj (hrun.symm.trans hrun')
      obtain rfl : exe = exe' := Option.some.inj (hexe.symm.trans hexe')
      exact (h.absorb hrun (hrun ▸ hpushed)).reports_of_countReached hrun hexe (hengines rfl hfinal)
        hcount hk

/-- A step that goes as planned completes a run only if all planned shards have finished. -/
theorem Accounted.completesWhole {d : Deliveries p} {a : Attempt Delivery View}
    (h : Accounted cfg executionId d) (hok : AsPlanned cfg executionId d a) :
    CompletesWhole cfg executionId d a := by
  intro runId exe k hrun hclosed hexe hk
  have hdelivered := h.delivered hok
  have hok := hok exe hexe
  obtain ⟨delivery, views, mishap⟩ := a
  cases delivery with
  | push batch =>
      exact hdelivered.reports_of_taken ((sure_ingest cfg).alone views mishap)
        (mem_delivered d batch)
        hrun hclosed hexe (fun hof hfinal => (hok hof hfinal).1) hk
  | reconcile =>
      have hcovered := ((sure_reconcile cfg).alone views mishap).allowed hrun hclosed
      rw [Config.profile, hexe] at hcovered
      exact hdelivered.reports_of_covered hexe hcovered (hok hcovered) hk
  | opens e correlationId =>
      rcases (sure_opens cfg e correlationId).alone views mishap with hsame | hopened
      · exact (hsame.allowed hrun hclosed).elim
      · exact (hopened.allowed (marker_insertRun_of_some hrun e) hclosed).elim

end Accounted

/-- A run is closed as completed only if every planned shard has finished, as long as the last batches
of the execution are those of planned shards, and a reconciliation finds its load profile covered
only if it runs on one cluster. -/
theorem completesWhole_run (executionId : ℤ) (attempts : List (Attempt Delivery View))
    (h : Walk.Along (step cfg) (AsPlanned cfg executionId) (new : Deliveries p) attempts) :
    Walk.Along (step cfg) (CompletesWhole cfg executionId) (new : Deliveries p) attempts :=
  Walk.Along.of_invariant (fun _ _ hd hok => hd.step hok) (fun _ _ hd hok => hd.completesWhole hok)
    accounted_new h

/-! ### Two shards that finish, and others -/

abbrev calm (delivery : Delivery) : Attempt Delivery View := .calm delivery (.ready 2)

def bothFinish : List (Attempt Delivery View) :=
  [calm (.opens 1 ""), calm (.push (lastPush 0)), calm (.push (lastPush 1))]

theorem asPlanned_lastPush {d : Deliveries p} {shardIndex : ℤ} (hlo : 0 ≤ shardIndex)
    (hhi : shardIndex < 2) : AsPlanned smallConfig 1 d (calm (.push (lastPush shardIndex))) := by
  intro exe hexe _ _
  obtain rfl : smallExecution = exe := Option.some.inj hexe
  have hcluster : "eu" ∈ smallExecution.clusters := by decide
  exact ⟨by decide, hcluster, minuteEntry, by decide, rfl, hlo, hhi⟩

theorem completesWhole_bothFinish :
    (Walk.run (step smallConfig) (new : Deliveries .microseconds) bothFinish).store.marker 1 = none ∧
      Walk.Along (step smallConfig) (CompletesWhole smallConfig 1) (new : Deliveries .microseconds)
        bothFinish :=
  ⟨by decide +kernel, completesWhole_run smallConfig 1 bothFinish
    ⟨fun _ _ => trivial, asPlanned_lastPush (by decide) (by decide),
      asPlanned_lastPush (by decide) (by decide), trivial⟩⟩

def fanOutConfig : Config :=
  { smallConfig with
    execution := fun executionId => if executionId = 1 then some fanOutExecution else none
    execution_id := by
      intro executionId exe h
      split at h
      · cases h
        exact Eq.symm ‹_›
      · cases h }

def finishesEarly : List (Attempt Delivery View) :=
  [calm (.push { lastPush 0 with runId := 0 }), calm (.push { lastPush 1 with runId := 0 }),
    calm (.opens 1 ""), calm .reconcile]

theorem not_completesWhole_of_none {executionId : ℤ} {d : Deliveries p}
    {a : Attempt Delivery View} (runId : ℤ) (exe : SizedExecution) (k : ShardKey)
    (hrun : d.store.marker executionId = some runId)
    (hclosed : (d.step cfg a).store.marker executionId = none)
    (hexe : cfg.execution executionId = some exe) (hk : k ∈ plannedKeys exe.toExecution)
    (hnone : ((d.step cfg a).finals.all fun f => f.key ≠ k) = true) :
    ¬CompletesWhole cfg executionId d a := by
  intro h
  obtain ⟨f, hf, hreports⟩ := h runId exe k hrun hclosed hexe (mem_plannedKeys.mp hk)
  exact of_decide_eq_true (List.all_eq_true.mp hnone f hf) hreports.key

/-- The run is closed though the second shard has not finished, because of a shard that is not
planned. And it is closed though no shard has finished on the other cluster. -/
theorem not_completesWhole_otherShard :
    ¬Walk.Along (step smallConfig) (CompletesWhole smallConfig 1) (new : Deliveries .microseconds)
        [calm (.opens 1 ""), calm (.push (lastPush 0)), calm (.push (lastPush 7))] ∧
      ¬Walk.Along (step fanOutConfig) (CompletesWhole fanOutConfig 1)
        (new : Deliveries .microseconds) finishesEarly := by
  constructor
  · intro h
    refine not_completesWhole_of_none smallConfig 1 smallExecution
      { scenarioId := 1, cluster := "eu", shardIndex := 1 } ?_ ?_ rfl ?_ ?_ h.2.2.1
    all_goals decide +kernel
  · intro h
    refine not_completesWhole_of_none fanOutConfig 1 fanOutExecution
      { scenarioId := 1, cluster := "us", shardIndex := 0 } ?_ ?_ rfl ?_ ?_ h.2.2.2.1
    all_goals decide +kernel

end Deliveries

end Honryu.Control
