import Honryu.Lifecycle.Runs
import Honryu.MetricsApp.Service
import Honryu.Progress.Series

/-!
Whether the split of a report by cluster adds up to the report.

The split counts a row if its key has not been seen before, the engine's own
aggregate row among them. The report counts a row if its sequence lies past the
watermark of its shard, but not the aggregate row. What the two figures come to
over a whole run is the sum over its rows, each row counted by the one rule or by
the other.
-/

namespace Honryu.MetricsApp

open Metrics Progress Report
open Lifecycle (Execution Plane oneUser readyView)

/-! ### Counts add up -/

instance : Zero ClusterCounts := ⟨{ samples := 0, failed := 0 }⟩

instance : Add ClusterCounts := ⟨fun a b =>
  { samples := a.samples + b.samples, failed := a.failed + b.failed }⟩

instance : AddCommMonoid ClusterCounts where
  add_assoc _ _ _ := ClusterCounts.ext (add_assoc _ _ _) (add_assoc _ _ _)
  zero_add _ := ClusterCounts.ext (zero_add _) (zero_add _)
  add_zero _ := ClusterCounts.ext (add_zero _) (add_zero _)
  add_comm _ _ := ClusterCounts.ext (add_comm _ _) (add_comm _ _)
  nsmul := nsmulRec

def countSamples : ClusterCounts →+ ℤ where
  toFun := ClusterCounts.samples
  map_zero' := rfl
  map_add' _ _ := rfl

def countFailed : ClusterCounts →+ ℤ where
  toFun := ClusterCounts.failed
  map_zero' := rfl
  map_add' _ _ := rfl

def ClusterTally.counts (t : ClusterTally) (runId : ℤ) : TallyMap String ClusterCounts :=
  (t[runId]?).getD 0

theorem ClusterTally.counts_add (t : ClusterTally) (runId : ℤ) (cluster : String) (iv : Interval)
    (id : ℤ) :
    (t.add runId cluster iv).counts id =
      t.counts id + if runId = id then .single cluster ⟨iv.samples, iv.failed⟩ else 0 := by
  rw [counts, counts, add, TallyMap.getElem?_insert_eq_ite]
  split
  case isTrue h =>
    rw [Option.getD_some, ← TallyMap.insert_getD_add, h]
    rfl
  case isFalse => rw [add_zero]

def clusterResult (outcome : Taurus.Outcome) (p : String × ClusterCounts) : ClusterResult :=
  { cluster := p.1, outcome, samples := p.2.samples, failed := p.2.failed }

theorem ClusterTally.snapshot_eq (v : Visit) (t : ClusterTally) (runId : ℤ)
    (outcome : Taurus.Outcome) :
    t.snapshot v runId outcome = (t.counts runId).toList.map (clusterResult outcome) := by
  rw [snapshot, counts]
  cases t[runId]? with
  | none => rfl
  | some counts =>
      simp only [v.sort_keys]
      exact TallyMap.keys_map_getD counts _ fun name cur => clusterResult outcome (name, cur)

/-! ### What becomes of a row -/

/-- A row that was pushed into a run: whether its key was new, and whether its
sequence lay past the watermark. -/
structure Row where
  cluster : String
  interval : Interval
  tallied : Bool
  absorbed : Bool

def Row.reported (r : Row) : Bool := r.absorbed && r.interval.label ≠ totalLabel

def Row.counts (r : Row) : TallyMap String ClusterCounts :=
  .single r.cluster ⟨r.interval.samples, r.interval.failed⟩

/-- The rows of a batch, by the keys seen before and the watermark. -/
def batchRows (batch : Batch) (watermark : ℤ) : List String → List Interval → List Row
  | _, [] => []
  | seen, iv :: ivs =>
      let (seen, new) := mark seen (intervalKey batch iv)
      { cluster := batch.cluster, interval := iv, tallied := new
        absorbed := watermark < iv.seq } :: batchRows batch watermark seen ivs

def talliedCounts (rows : List Row) : TallyMap String ClusterCounts :=
  ((rows.filter (·.tallied)).map Row.counts).sum

def absorbedRows (rows : List Row) : List Interval := (rows.filter (·.absorbed)).map (·.interval)

theorem talliedCounts_append (xs ys : List Row) :
    talliedCounts (xs ++ ys) = talliedCounts xs + talliedCounts ys := by
  simp [talliedCounts]

theorem absorbedRows_append (xs ys : List Row) :
    absorbedRows (xs ++ ys) = absorbedRows xs ++ absorbedRows ys := by
  simp [absorbedRows]

theorem absorbedRows_batchRows (batch : Batch) (watermark : ℤ) (seen : List String)
    (ivs : List Interval) :
    absorbedRows (batchRows batch watermark seen ivs) = ivs.filter fun iv => watermark < iv.seq := by
  induction ivs generalizing seen with
  | nil => rfl
  | cons iv ivs ih =>
      rw [batchRows, absorbedRows, List.filter_cons, List.filter_cons]
      split
      · rw [List.map_cons]
        exact congrArg _ (ih _)
      · exact ih _

/-- The loop of `Ingest` tallies the rows whose keys are new, and touches nothing
else that is kept of a run. -/
theorem recordRow_foldl (runId : ℤ) (batch : Batch) (watermark : ℤ) (s : Service)
    (ivs : List Interval) :
    let s' := ivs.foldl (Service.recordRow runId batch) s
    s'.plane = s.plane ∧ s'.reports = s.reports ∧
      ∀ id, s'.clusterTally.counts id = s.clusterTally.counts id +
        if runId = id then talliedCounts (batchRows batch watermark s.seen ivs) else 0 := by
  induction ivs generalizing s with
  | nil => exact ⟨rfl, rfl, fun id => by simp [talliedCounts, batchRows]⟩
  | cons iv ivs ih =>
      obtain ⟨hplane, hreports, hcounts⟩ := ih (Service.recordRow runId batch s iv)
      rw [List.foldl_cons]
      by_cases hseen : intervalKey batch iv ∈ s.seen
      · have hrow : Service.recordRow runId batch s iv = s := by
          simp [Service.recordRow, mark, hseen]
        rw [hrow] at hplane hreports hcounts ⊢
        refine ⟨hplane, hreports, fun id => ?_⟩
        rw [hcounts]
        simp [batchRows, mark, hseen, talliedCounts]
      · have hrow : Service.recordRow runId batch s iv =
            { s with
              seen := intervalKey batch iv :: s.seen
              clusterTally := s.clusterTally.add runId batch.cluster iv } := by
          simp [Service.recordRow, mark, hseen]
        rw [hrow] at hplane hreports hcounts ⊢
        refine ⟨hplane, hreports, fun id => ?_⟩
        rw [hcounts, ClusterTally.counts_add, add_assoc]
        split
        · simp [batchRows, mark, hseen, talliedCounts, Row.counts]
        · simp

namespace Service

variable {cfg : Config} {now : ℕ} {s s' : Service} {runId : ℤ} {batch : Batch}

theorem plane_recordRows (s : Service) (runId : ℤ) (batch : Batch) :
    (s.recordRows runId batch).plane = s.plane :=
  (recordRow_foldl runId batch 0 s batch.intervals).1

/-! ### What an event does to a run -/

def accepts (s : Service) (batch : Batch) : Option ℤ :=
  s.plane.current.filter fun runId =>
    (batch.runId = 0 ∨ batch.runId = runId) ∧ (ProgressBatch.ofBatch runId batch).Valid

def taken (cfg : Config) (s : Service) (runId : ℤ) (batch : Batch) : Service :=
  let s := s.recordRows runId batch
  { s with plane :=
    { s.plane with progress := s.plane.progress.apply cfg.visit (.ofBatch runId batch) } }

theorem plane_taken (cfg : Config) (s : Service) (runId : ℤ) (batch : Batch) :
    (s.taken cfg runId batch).plane =
      { s.plane with progress := s.plane.progress.apply cfg.visit (.ofBatch runId batch) } := by
  simp only [taken, plane_recordRows]

def intake (cfg : Config) (s : Service) : Event → Service
  | .ingest batch =>
      match s.accepts batch with
      | some runId => s.taken cfg runId batch
      | none => s
  | _ => s

def rowsIn (s : Service) (runId : ℤ) : Event → List Row
  | .ingest batch =>
      if s.accepts batch = some runId then
        batchRows batch ((s.plane.progress.ledger runId).enter (.ofBatch runId batch)).seq s.seen
          batch.intervals
      else []
  | _ => []

def rowsOf (cfg : Config) (runId : ℤ) : Service → List (ℕ × Event) → List Row
  | _, [] => []
  | s, e :: events => s.rowsIn runId e.2 ++ rowsOf cfg runId (s.perform cfg e.1 e.2) events

structure Keeps (s s' : Service) : Prop where
  reports : s'.reports = s.reports
  progress : s'.plane.progress = s.plane.progress
  clusterTally : s'.clusterTally = s.clusterTally

structure Finishes (cfg : Config) (runId : ℤ) (s s' : Service) : Prop where
  reports : ∃ now outcome, s'.reports = saveReport s.reports (s.buildReport cfg now runId outcome)
  progress : s'.plane.progress = s.plane.progress.discard runId
  clusterTally : ∀ id, id ≠ runId → s'.clusterTally.counts id = s.clusterTally.counts id
  ended : ∃ r, s'.plane.history[runId]? = some r ∧ r.ended ≠ none


theorem keeps_rfl : Keeps s s := ⟨rfl, rfl, rfl⟩

theorem accepts_eq_some :
    s.accepts batch = some runId ↔
      s.plane.current = some runId ∧ (batch.runId = 0 ∨ batch.runId = runId) ∧
        (ProgressBatch.ofBatch runId batch).Valid := by
  rw [accepts, Option.filter_eq_some_iff, decide_eq_true_iff]

theorem ingest_of_accepts_none (h : s.accepts batch = none) (cfg : Config) (now : ℕ) :
    Keeps s (s.ingest cfg now batch).1 := by
  unfold ingest
  cases hcurrent : s.plane.current with
  | none =>
      dsimp only
      split
      · exact ⟨rfl, rfl, rfl⟩
      · exact keeps_rfl
  | some runId =>
      dsimp only
      split
      · exact keeps_rfl
      case isFalse hstale =>
        split
        · exact keeps_rfl
        case h_2 hvalid =>
          have haccepts : s.accepts batch = some runId :=
            accepts_eq_some.mpr ⟨hcurrent, by tauto, hvalid⟩
          rw [h] at haccepts
          cases haccepts

theorem ingest_of_accepts (h : s.accepts batch = some runId) (cfg : Config) (now : ℕ) :
    s.ingest cfg now batch =
      let s := s.taken cfg runId batch
      if batch.final ∧ s.plane.allShardsFinished cfg.exe runId then
        let s := s.finalizeCompleted cfg now runId
        ({ s with seen := [], clusterTally := s.clusterTally.erase runId }, none)
      else (s, none) := by
  obtain ⟨hcurrent, hrun, hvalid⟩ := accepts_eq_some.mp h
  have hstale : ¬(batch.runId ≠ 0 ∧ batch.runId ≠ runId) := by tauto
  have hok : (ProgressBatch.ofBatch runId batch).validate = .ok () := hvalid
  have habsorb := Repository.absorb_of_valid cfg.visit (s.recordRows runId batch).plane.progress hvalid
  simp only [ingest, hcurrent, if_neg hstale, hok, habsorb]
  rfl

/-- To what is stored of an execution, `Ingest` of the service does what `Ingest` of
the control plane does. -/
theorem ingest_plane (cfg : Config) (now : ℕ) (s : Service) (batch : Batch) :
    ((s.ingest cfg now batch).1.plane, (s.ingest cfg now batch).2) =
      s.plane.ingest cfg.exe cfg.visit now batch := by
  cases haccepts : s.accepts batch with
  | some runId =>
      obtain ⟨hcurrent, hrun, hvalid⟩ := accepts_eq_some.mp haccepts
      have hstale : ¬(batch.runId ≠ 0 ∧ batch.runId ≠ runId) := by tauto
      have habsorb := Repository.absorb_of_valid cfg.visit s.plane.progress hvalid
      have hplane := s.plane_taken cfg runId batch
      rw [ingest_of_accepts haccepts, Plane.ingest]
      simp only [hcurrent, if_neg hstale, habsorb]
      rw [← hcurrent, ← hplane]
      by_cases hdone :
          batch.final ∧ (s.taken cfg runId batch).plane.allShardsFinished cfg.exe runId
      · rw [if_pos hdone, if_pos hdone]
        rfl
      · rw [if_neg hdone, if_neg hdone]
  | none =>
      unfold ingest Plane.ingest
      cases hcurrent : s.plane.current with
      | none => rfl
      | some runId =>
          dsimp only
          split
          · rfl
          case isFalse hstale =>
            cases hvalid : (ProgressBatch.ofBatch runId batch).validate with
            | error e => simp only [Repository.absorb, hvalid, bind, Except.bind]
            | ok =>
                rw [accepts_eq_some.mpr ⟨hcurrent, by tauto, hvalid⟩] at haccepts
                cases haccepts

theorem moves_teardown (hs : s.plane.Sound) (cfg : Config) (now : ℕ) :
    Plane.Moves now s.plane (s.teardown cfg now).plane := by
  unfold teardown
  cases s.plane.current with
  | none => exact Plane.moves_stopRun hs now
  | some runId =>
      have hfinalize := Plane.moves_finalize hs now runId
      exact hfinalize.trans (Plane.moves_stopRun hfinalize.sound now)

theorem stop_eq_ok (h : s.stop cfg now = .ok s') : s' = s.teardown cfg now := by
  unfold stop at h
  obtain ⟨_, -, h⟩ := Checked.bind_eq_ok.mp h
  cases h
  rfl

theorem moves_perform (hs : s.plane.Sound) (cfg : Config) (now : ℕ) (e : Event) :
    Plane.Moves now s.plane (s.perform cfg now e).plane := by
  cases e with
  | deploy prepared =>
      simp only [perform]
      split
      · exact .refl hs
      case h_2 plane hdeploy => exact Plane.moves_deploy hs hdeploy now
  | trigger view => exact Plane.moves_trigger hs cfg.exe view now
  | ingest batch =>
      have hplane : (s.ingest cfg now batch).1.plane =
          (s.plane.ingest cfg.exe cfg.visit now batch).1 :=
        congrArg Prod.fst (ingest_plane cfg now s batch)
      rw [perform, hplane]
      exact Plane.moves_ingest hs cfg.exe cfg.visit now batch
  | stop =>
      simp only [perform]
      split
      · exact .refl hs
      case h_2 s' hstop =>
        rw [stop_eq_ok hstop]
        exact moves_teardown hs cfg now
  | purge => exact moves_teardown hs cfg now
  | reconcile =>
      simp only [perform, reconcile]
      split
      case h_1 runId _ =>
        split
        · exact .refl hs
        · have hfinalize := Plane.moves_finalize hs now runId
          exact hfinalize.trans (Plane.moves_stopRun hfinalize.sound now)
      case h_2 => exact .refl hs

theorem ended_finalize {p : Plane} (hp : p.Sound) (hcurrent : p.current = some runId) (now : ℕ) :
    ∃ r, (p.finalize now runId).history[runId]? = some r ∧ r.ended ≠ none := by
  obtain ⟨r, hr, -⟩ := hp.open_run runId hcurrent
  refine ⟨{ r with ended := some now }, ?_, by simp⟩
  simp [Plane.finalize, Plane.closeRun, Plane.stopRun, hcurrent, TallyMap.updateRow, hr]

theorem ended_of_moves {p p' : Plane} (h : Plane.Moves now p p')
    (hended : ∃ r, p.history[runId]? = some r ∧ r.ended ≠ none) :
    ∃ r, p'.history[runId]? = some r ∧ r.ended ≠ none := by
  obtain ⟨r, hr, hne⟩ := hended
  obtain ⟨r', hr', -, hkept, -⟩ := h.advances.old runId r hr
  exact ⟨r', hr', by rwa [hkept hne]⟩

theorem finishes_finalize (hs : s.plane.Sound) (hcurrent : s.plane.current = some runId)
    (cfg : Config) (now : ℕ) (outcome : Taurus.Outcome) :
    Finishes cfg runId s (s.finalize cfg now runId outcome) where
  reports := ⟨now, outcome, rfl⟩
  progress := by
    simp only [finalize, Plane.finalize, Plane.closeRun, hcurrent, if_true]
    exact Plane.progress_stopRun _ _
  clusterTally _ _ := rfl
  ended := ended_finalize hs hcurrent now

theorem Finishes.stopRun (h : Finishes cfg runId s s') (hs : s'.plane.Sound) (now : ℕ) :
    Finishes cfg runId s { s' with plane := s'.plane.stopRun now } where
  reports := h.reports
  progress := by
    rw [← h.progress]
    exact Plane.progress_stopRun _ _
  clusterTally := h.clusterTally
  ended := ended_of_moves (Plane.moves_stopRun hs now) h.ended

theorem sound_finalize (hs : s.plane.Sound) (cfg : Config) (now : ℕ) (outcome : Taurus.Outcome) :
    (s.finalize cfg now runId outcome).plane.Sound :=
  (Plane.moves_finalize hs now runId).sound

theorem teardown_cases (hs : s.plane.Sound) (cfg : Config) (now : ℕ) :
    Keeps s (s.teardown cfg now) ∨ ∃ runId, Finishes cfg runId s (s.teardown cfg now) := by
  unfold teardown
  cases hcurrent : s.plane.current with
  | none =>
      exact .inl ⟨rfl, Plane.progress_stopRun _ _, rfl⟩
  | some runId =>
      exact .inr ⟨runId, (finishes_finalize hs hcurrent cfg now _).stopRun
        (sound_finalize hs cfg now _) now⟩

theorem sound_taken (hs : s.plane.Sound) (cfg : Config) (runId : ℤ) (batch : Batch) :
    (s.taken cfg runId batch).plane.Sound := by
  rw [plane_taken]
  exact ⟨hs.id_lt, hs.open_run⟩

/-- After what it takes in, an event keeps everything or ends a run. -/
theorem perform_cases (hs : s.plane.Sound) (cfg : Config) (now : ℕ) (e : Event) :
    Keeps (s.intake cfg e) (s.perform cfg now e) ∨
      ∃ runId, Finishes cfg runId (s.intake cfg e) (s.perform cfg now e) := by
  cases e with
  | deploy prepared =>
      simp only [perform]
      split
      · exact .inl keeps_rfl
      case h_2 plane hdeploy =>
        obtain ⟨-, rfl⟩ := Plane.deploy_eq_ok hdeploy
        exact .inl ⟨rfl, rfl, rfl⟩
  | trigger view => exact .inl ⟨rfl, Plane.progress_trigger _ _ _ _, rfl⟩
  | ingest batch =>
      simp only [perform, intake]
      cases haccepts : s.accepts batch with
      | none => exact .inl (ingest_of_accepts_none haccepts cfg now)
      | some runId =>
          obtain ⟨hcurrent, -, -⟩ := accepts_eq_some.mp haccepts
          have hcurrent' : (s.taken cfg runId batch).plane.current = some runId := by
            rw [plane_taken]
            exact hcurrent
          rw [ingest_of_accepts haccepts]
          dsimp only
          split
          · have hfinishes := finishes_finalize (sound_taken hs cfg runId batch) hcurrent' cfg now
              (Taurus.combineOutcomes
                (((s.taken cfg runId batch).plane.progress.shardStates runId).map
                  (·.exitCode.getD (-1))))
            refine .inr ⟨runId, hfinishes.reports, hfinishes.progress, fun id hid => ?_,
              hfinishes.ended⟩
            rw [← hfinishes.clusterTally id hid]
            simp [ClusterTally.counts, Std.ExtTreeMap.getElem?_erase, Ne.symm hid, finalizeCompleted]
          · exact .inl keeps_rfl
  | stop =>
      simp only [perform]
      split
      · exact .inl keeps_rfl
      case h_2 s' hstop =>
        rw [stop_eq_ok hstop]
        exact teardown_cases hs cfg now
  | purge =>
      rcases teardown_cases hs cfg now with h | ⟨runId, h⟩
      · exact .inl ⟨h.reports, h.progress, h.clusterTally⟩
      · exact .inr ⟨runId, h.reports, h.progress, h.clusterTally, h.ended⟩
  | reconcile =>
      simp only [perform, reconcile]
      split
      case h_1 runId hcurrent =>
        split
        · exact .inl keeps_rfl
        · exact .inr ⟨runId, (finishes_finalize hs hcurrent cfg now _).stopRun
            (sound_finalize hs cfg now _) now⟩
      case h_2 => exact .inl keeps_rfl

end Service

/-! ### The split of a report -/

def SplitReport.AddsUp (r : SplitReport) : Prop :=
  (r.clusterResults.map (·.samples)).sum = r.achieved.samples ∧
    (r.clusterResults.map (·.failed)).sum = r.achieved.failed

def figure (f : Interval → ℤ) (rows : List Row) (p : Row → Bool) : ℤ :=
  ((rows.filter p).map fun r => f r.interval).sum

theorem figure_add_figure (f : Interval → ℤ) (rows : List Row) (p q : Row → Bool) :
    figure f rows (fun r => p r && q r) + figure f rows (fun r => p r && !q r) = figure f rows p := by
  induction rows with
  | nil => rfl
  | cons r rows ih =>
      simp only [figure, List.filter_cons] at ih ⊢
      cases p r <;> cases q r <;> simp <;> omega

/-- Two ways of counting rows come to the same exactly if the rows that only the
one counts come to what the rows that only the other counts come to. -/
theorem figure_eq_iff (f : Interval → ℤ) (rows : List Row) (p q : Row → Bool) :
    figure f rows p = figure f rows q ↔
      figure f rows (fun r => p r && !q r) = figure f rows fun r => q r && !p r := by
  have hp := figure_add_figure f rows p q
  have hq := figure_add_figure f rows q p
  simp only [Bool.and_comm (q _) (p _)] at hq
  omega

def hasNamedRow (rows : List Row) : Bool := rows.any fun r => r.tallied && r.cluster ≠ ""

def splits (rows : List Row) (r : Row) : Bool := hasNamedRow rows && r.tallied

/-- The rows that only the split counts have as many samples and failures as the
rows that only the report counts. -/
def Balanced (rows : List Row) : Prop :=
  (figure Interval.samples rows (fun r => splits rows r && !r.reported) =
      figure Interval.samples rows fun r => r.reported && !splits rows r) ∧
    figure Interval.failed rows (fun r => splits rows r && !r.reported) =
      figure Interval.failed rows fun r => r.reported && !splits rows r

instance (rows : List Row) : Decidable (Balanced rows) := inferInstanceAs (Decidable (_ ∧ _))

theorem sum_absorbedRows (f : Interval → ℤ) (rows : List Row) :
    ((absorbedRows rows).map fun iv => if iv.label = totalLabel then 0 else f iv).sum =
      figure f rows Row.reported := by
  induction rows with
  | nil => rfl
  | cons r rows ih =>
      simp only [absorbedRows, figure, Row.reported, List.filter_cons, List.map_map] at ih ⊢
      by_cases habsorbed : r.absorbed = true
      · by_cases hlabel : r.interval.label = totalLabel
        · simp [habsorbed, hlabel, ih]
        · simp [habsorbed, hlabel, ih]
      · simp [habsorbed, ih]

theorem hasNamedCluster_talliedCounts (rows : List Row) (outcome : Taurus.Outcome) :
    hasNamedCluster ((talliedCounts rows).toList.map (clusterResult outcome)) =
      hasNamedRow rows := by
  have hkey (k : String) : (∃ cur, (k, cur) ∈ (talliedCounts rows).toList) ↔
      ∃ r ∈ rows, r.tallied = true ∧ r.cluster = k := by
    have hnone : (talliedCounts rows)[k]? = none ↔
        ∀ r ∈ rows.filter (·.tallied), r.cluster ≠ k :=
      TallyMap.getElem?_sum_single_eq_none
    simp only [TallyMap.mem_toList_iff, ← Option.ne_none_iff_exists', ne_eq, hnone, List.mem_filter]
    simp
  rw [Bool.eq_iff_iff, hasNamedCluster, hasNamedRow, List.any_eq_true, List.any_eq_true]
  constructor
  · rintro ⟨_, hmem, hname⟩
    obtain ⟨⟨k, cur⟩, hp, rfl⟩ := List.mem_map.mp hmem
    obtain ⟨r, hr, htallied, rfl⟩ := (hkey k).mp ⟨cur, hp⟩
    exact ⟨r, hr, Bool.and_eq_true_iff.mpr ⟨htallied, hname⟩⟩
  · rintro ⟨r, hr, hnamed⟩
    rw [Bool.and_eq_true] at hnamed
    obtain ⟨cur, hp⟩ := (hkey r.cluster).mpr ⟨r, hr, hnamed.1, rfl⟩
    exact ⟨_, List.mem_map_of_mem hp, hnamed.2⟩

theorem sum_clusterResults (outcome : Taurus.Outcome) (rows : List Row) (f : ClusterCounts →+ ℤ)
    (g : ClusterResult → ℤ) (h : Interval → ℤ) (hg : ∀ p, g (clusterResult outcome p) = f p.2)
    (hh : ∀ iv : Interval, f ⟨iv.samples, iv.failed⟩ = h iv) :
    (((talliedCounts rows).toList.map (clusterResult outcome)).map g).sum =
      figure h rows (·.tallied) := by
  have hsum := TallyMap.sumBy_sum_single f Row.cluster
    (fun r => (⟨r.interval.samples, r.interval.failed⟩ : ClusterCounts)) (rows.filter (·.tallied))
  rw [List.map_map]
  simp only [Function.comp_def, hg]
  refine hsum.trans (congrArg List.sum (List.map_congr_left fun r _ => hh r.interval))

namespace Service

variable {cfg : Config} {now : ℕ} {s s' : Service} {runId : ℤ} {rows : List Row}

theorem addsUp_buildReport (htallied : s.clusterTally.counts runId = talliedCounts rows)
    (habsorbed : (s.plane.progress.ledger runId).tally = intervalsTally (absorbedRows rows))
    (cfg : Config) (now : ℕ) (outcome : Taurus.Outcome) :
    (s.buildReport cfg now runId outcome).AddsUp ↔ Balanced rows := by
  have hlabels : (restore (s.plane.progress.snapshot runId)).labels =
      (intervalsTally (absorbedRows rows)).labels := by
    rw [← habsorbed, ← Repository.tally_restore_snapshot]
    rfl
  have htotals := totals_eq cfg.visit (restore (s.plane.progress.snapshot runId))
  rw [hlabels, sumBy_labels, sumBy_labels] at htotals
  have hsamples : (s.buildReport cfg now runId outcome).achieved.samples =
      figure Interval.samples rows Row.reported := by
    rw [← sum_absorbedRows]
    exact congrArg Prod.fst htotals
  have hfailed : (s.buildReport cfg now runId outcome).achieved.failed =
      figure Interval.failed rows Row.reported := by
    rw [← sum_absorbedRows]
    exact congrArg (·.2.1) htotals
  have hrows : (s.buildReport cfg now runId outcome).clusterResults =
      if hasNamedRow rows then (talliedCounts rows).toList.map (clusterResult outcome) else [] := by
    rw [← hasNamedCluster_talliedCounts rows outcome, ← htallied, ← ClusterTally.snapshot_eq cfg.visit]
    rfl
  have hsplit : ∀ (f : ClusterCounts →+ ℤ) (g : ClusterResult → ℤ) (h : Interval → ℤ),
      (∀ p, g (clusterResult outcome p) = f p.2) →
      (∀ iv : Interval, f ⟨iv.samples, iv.failed⟩ = h iv) →
      ((s.buildReport cfg now runId outcome).clusterResults.map g).sum =
        figure h rows (splits rows) := by
    intro f g h hg hh
    rw [hrows]
    cases hnamed : hasNamedRow rows with
    | true =>
        have hsplits : splits rows = (·.tallied) := funext fun r => by simp [splits, hnamed]
        rw [if_pos rfl, sum_clusterResults outcome rows f g h hg hh, hsplits]
    | false =>
        have hsplits : splits rows = fun _ => false := funext fun r => by simp [splits, hnamed]
        simp [figure, hsplits]
  rw [SplitReport.AddsUp, hsamples, hfailed,
    hsplit countSamples _ Interval.samples (fun _ => rfl) fun _ => rfl,
    hsplit countFailed _ Interval.failed (fun _ => rfl) fun _ => rfl]
  exact and_congr (figure_eq_iff _ _ _ _) (figure_eq_iff _ _ _ _)

/-- A run whose report is not stored: what was tallied and what was absorbed are
the sums over its rows. -/
structure Open (runId : ℤ) (s : Service) (rows : List Row) : Prop where
  unsaved : s.reports[runId]? = none
  tallied : s.clusterTally.counts runId = talliedCounts rows
  absorbed : (s.plane.progress.ledger runId).tally = intervalsTally (absorbedRows rows)

structure Done (runId : ℤ) (s : Service) (rows : List Row) : Prop where
  ended : ∃ r, s.plane.history[runId]? = some r ∧ r.ended ≠ none
  report : ∃ report, s.reports[runId]? = some report ∧ (report.AddsUp ↔ Balanced rows)

theorem getElem?_saveReport (reports : TallyMap ℤ SplitReport) (report : SplitReport) (id : ℤ) :
    (saveReport reports report)[id]? =
      (reports[id]?).or (if report.runId = id then some report else none) := by
  rw [saveReport]
  by_cases hid : report.runId = id
  · subst hid
    cases hreport : reports[report.runId]? with
    | none => simp
    | some r => simp [hreport]
  · rw [if_neg hid, Option.or_none]
    split
    · rfl
    · rw [TallyMap.getElem?_insert_eq_ite, if_neg hid]

theorem Open.intake (h : Open runId s rows) (cfg : Config) (e : Event) :
    Open runId (s.intake cfg e) (rows ++ s.rowsIn runId e) := by
  cases e with
  | ingest batch =>
      simp only [Service.intake, rowsIn]
      cases haccepts : s.accepts batch with
      | none => simpa using h
      | some r =>
          obtain ⟨-, -, hvalid⟩ := accepts_eq_some.mp haccepts
          have hrows := recordRow_foldl r batch
            ((s.plane.progress.ledger r).enter (.ofBatch r batch)).seq s batch.intervals
          obtain ⟨-, hreports, hcounts⟩ := hrows
          have hledger : (s.taken cfg r batch).plane.progress.ledger =
              Function.update s.plane.progress.ledger r
                ((s.plane.progress.ledger r).absorb (.ofBatch r batch)) := by
            rw [plane_taken]
            simp only [Repository.ledger_apply, absorbInto, if_pos hvalid]
            rfl
          refine ⟨?_, ?_, ?_⟩
          · rw [← h.unsaved]
            exact congrArg (·[runId]?) hreports
          · refine (hcounts runId).trans ?_
            rw [h.tallied]
            by_cases hrun : r = runId
            · subst hrun
              simp [talliedCounts_append]
            · simp [hrun]
          · dsimp only
            rw [hledger]
            by_cases hrun : r = runId
            · subst hrun
              rw [Function.update_self, if_pos rfl, absorbedRows_append, absorbedRows_batchRows,
                intervalsTally_append, ← h.absorbed]
              rfl
            · rw [Function.update_of_ne (Ne.symm hrun), h.absorbed]
              simp [hrun]
  | _ => simpa [rowsIn, Service.intake] using h

theorem Open.keeps (h : Open runId s rows) (hkeeps : Keeps s s') : Open runId s' rows where
  unsaved := hkeeps.reports ▸ h.unsaved
  tallied := hkeeps.clusterTally ▸ h.tallied
  absorbed := hkeeps.progress ▸ h.absorbed

theorem Open.finishes (h : Open runId s rows) {r : ℤ} (hfinishes : Finishes cfg r s s') :
    Open runId s' rows ∨ Done runId s' rows := by
  obtain ⟨now, outcome, hreports⟩ := hfinishes.reports
  have hreport := getElem?_saveReport s.reports (s.buildReport cfg now r outcome) runId
  rw [← hreports, h.unsaved, Option.none_or] at hreport
  have hid : (s.buildReport cfg now r outcome).runId = r := rfl
  by_cases hrun : r = runId
  · subst hrun
    refine .inr ⟨hfinishes.ended, _, hreport.trans (if_pos hid), ?_⟩
    exact addsUp_buildReport h.tallied h.absorbed cfg now outcome
  · refine .inl ⟨?_, ?_, ?_⟩
    · rw [hreport, if_neg (hid ▸ hrun)]
    · rw [hfinishes.clusterTally runId (Ne.symm hrun), h.tallied]
    · rw [hfinishes.progress, ← h.absorbed]
      simp [Repository.ledger, Repository.discard, Ne.symm hrun]

theorem Done.rowsIn_eq_nil (h : Done runId s rows) (hs : s.plane.Sound) (e : Event) :
    s.rowsIn runId e = [] := by
  obtain ⟨r, hr, hended⟩ := h.ended
  cases e with
  | ingest batch =>
      refine if_neg fun haccepts => ?_
      obtain ⟨r', hr', hopen⟩ := hs.open_run runId (accepts_eq_some.mp haccepts).1
      rw [hr, Option.some_inj] at hr'
      exact hended (hr' ▸ hopen)
  | _ => rfl

theorem reports_intake (s : Service) (cfg : Config) (e : Event) :
    (s.intake cfg e).reports = s.reports := by
  cases e with
  | ingest batch =>
      simp only [Service.intake]
      split
      case h_1 runId _ => exact (recordRow_foldl runId batch 0 s batch.intervals).2.1
      · rfl
  | _ => rfl

theorem Done.perform (h : Done runId s rows) (hs : s.plane.Sound) (cfg : Config) (now : ℕ)
    (e : Event) : Done runId (s.perform cfg now e) rows := by
  obtain ⟨report, hreport, hiff⟩ := h.report
  refine ⟨ended_of_moves (moves_perform hs cfg now e) h.ended, report, ?_, hiff⟩
  rw [← reports_intake s cfg e] at hreport
  rcases perform_cases hs cfg now e with hkeeps | ⟨r, hfinishes⟩
  · rwa [hkeeps.reports]
  · obtain ⟨now, outcome, hreports⟩ := hfinishes.reports
    rw [hreports, getElem?_saveReport, hreport, Option.some_or]

theorem follows_perform (hs : s.plane.Sound) (h : Open runId s rows ∨ Done runId s rows)
    (cfg : Config) (now : ℕ) (e : Event) :
    Open runId (s.perform cfg now e) (rows ++ s.rowsIn runId e) ∨
      Done runId (s.perform cfg now e) (rows ++ s.rowsIn runId e) := by
  rcases h with h | h
  · have hintake := h.intake cfg e
    rcases perform_cases hs cfg now e with hkeeps | ⟨r, hfinishes⟩
    · exact .inl (hintake.keeps hkeeps)
    · exact hintake.finishes hfinishes
  · rw [h.rowsIn_eq_nil hs, List.append_nil]
    exact .inr (h.perform hs cfg now e)

theorem follows_run (hs : s.plane.Sound) (h : Open runId s rows ∨ Done runId s rows)
    (cfg : Config) (events : List (ℕ × Event)) :
    Open runId (s.run cfg events) (rows ++ rowsOf cfg runId s events) ∨
      Done runId (s.run cfg events) (rows ++ rowsOf cfg runId s events) := by
  induction events generalizing s rows with
  | nil => simpa [run, rowsOf] using h
  | cons e events ih =>
      have hnext := ih (moves_perform hs cfg e.1 e.2).sound (follows_perform hs h cfg e.1 e.2)
      rwa [List.append_assoc] at hnext

def Unused (plane : Plane) (reports : TallyMap ℤ SplitReport) : Prop :=
  ∀ runId, plane.nextRun ≤ runId →
    plane.progress.ledger runId = .empty ∧ reports[runId]? = none

/-- For a run that begins and ends in one process, the split of its report adds up
exactly if the rows that were counted on one side only balance. -/
theorem addsUp_iff (cfg : Config) {plane : Plane} {reports : TallyMap ℤ SplitReport}
    (hplane : plane.Sound) (hunused : Unused plane reports) (events : List (ℕ × Event)) {runId : ℤ}
    (hrun : plane.nextRun ≤ runId) {report : SplitReport}
    (hreport : ((boot plane reports).run cfg events).reports[runId]? = some report) :
    report.AddsUp ↔ Balanced (rowsOf cfg runId (boot plane reports) events) := by
  obtain ⟨hledger, hnone⟩ := hunused runId hrun
  have hopen : Open runId (boot plane reports) [] :=
    ⟨hnone, rfl, congrArg Ledger.tally hledger⟩
  rcases follows_run (s := boot plane reports) hplane (.inl hopen) cfg events with h | h
  · rw [h.unsaved] at hreport
    cases hreport
  · obtain ⟨report', hreport', hiff⟩ := h.report
    rw [hreport, Option.some_inj] at hreport'
    subst hreport'
    exact hiff

/-! ### One run -/

def oneTarget : Config where
  exe := { executionId := 1, cluster := "", fanOutTargets := ["eu"], profile := [oneUser 1] }
  engine := ⟨"jmeter"⟩
  correlationId _ := ""
  visit := .sorted

def onePush (intervals : List Interval) : List (ℕ × Event) :=
  [(1, .trigger readyView),
    (2, .ingest
      { executionId := 1, scenarioId := 1, runId := 0, shardIndex := 0, streamId := "a", intervals
        cluster := "eu", final := true, exitCode := some 0 })]

def requestRow : Interval :=
  { zeroInterval with seq := 1, timestamp := 7, label := "checkout", samples := 5, failed := 1 }

def aggregateRow : Interval := { requestRow with seq := 2, label := totalLabel }

theorem sound_new : Plane.new.Sound := ⟨by simp [Plane.new], by simp [Plane.new]⟩

theorem unused_new : Unused Plane.new ∅ := fun _ _ => ⟨rfl, by simp⟩

theorem addsUp_oneRow :
    ∃ report,
      ((boot .new ∅).run oneTarget (onePush [requestRow])).reports[(1 : ℤ)]? = some report ∧
        report.AddsUp := by
  have hsome : (((boot .new ∅).run oneTarget (onePush [requestRow])).reports[(1 : ℤ)]?).isSome := by
    decide +kernel
  obtain ⟨report, hreport⟩ := Option.isSome_iff_exists.mp hsome
  exact ⟨report, hreport, (addsUp_iff oneTarget sound_new unused_new _ (by decide) hreport).mpr
    (by decide +kernel)⟩

/-- The engine's own row is tallied beside the row of its request: the only cluster
of the run has twice the samples of the run. -/
theorem not_addsUp_aggregateRow :
    ∃ report,
      ((boot .new ∅).run oneTarget (onePush [requestRow, aggregateRow])).reports[(1 : ℤ)]? =
          some report ∧
        (report.achieved.samples, report.achieved.failed) = (5, 1) ∧
        report.clusterResults.map (fun r => (r.cluster, r.samples, r.failed)) = [("eu", 10, 2)] ∧
        ¬report.AddsUp := by
  have hfigures : (((boot .new ∅).run oneTarget
      (onePush [requestRow, aggregateRow])).reports[(1 : ℤ)]?).map (fun report =>
        ((report.achieved.samples, report.achieved.failed),
          report.clusterResults.map fun r => (r.cluster, r.samples, r.failed))) =
      some ((5, 1), [("eu", 10, 2)]) := by
    decide +kernel
  obtain ⟨report, hreport, heq⟩ := Option.map_eq_some_iff.mp hfigures
  obtain ⟨hachieved, hclusters⟩ := Prod.mk.inj heq
  refine ⟨report, hreport, hachieved, hclusters, fun h => ?_⟩
  have hsum := congrArg (fun l => (l.map fun r : String × ℤ × ℤ => r.2.1).sum) hclusters
  simp only [List.map_map] at hsum
  have hsamples := h.1.symm.trans hsum
  rw [(Prod.mk.inj hachieved).1] at hsamples
  exact absurd hsamples (by decide)

end Service

end Honryu.MetricsApp
