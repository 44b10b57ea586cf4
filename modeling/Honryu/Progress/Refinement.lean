import Honryu.Progress.Memory
import Honryu.Progress.SqlLedger

/-!
The two progress stores keep the same ledger, so what is read back from them is
the same: the accumulator restored from a snapshot, the series, and every
shard's position and completion.
-/

namespace Honryu.Progress

open Metrics Report

/-! ### Reading the SQL store back -/

def SignatureRow.tally (r : SignatureRow) : ErrorTally :=
  { count := r.count, exemplars := r.exemplars.getD [] }

theorem entry_scanLabelProgress (t : LabelTable (id : String → String)) :
    (t.rows.toList.map fun p => (Repository.scanLabelProgress p).entry) =
      (t.rows.mapValues LabelRow.state).toList := by
  rw [TallyMap.toList_mapValues]
  refine List.map_congr_left fun p hp => ?_
  have hlabel : p.2.label = p.1 := t.collate_label p.1 p.2 (TallyMap.mem_toList_iff.mp hp)
  refine Prod.ext hlabel (LabelState.ext rfl rfl rfl ?_)
  exact zero_add (p.2.latency.getD ∅)

/-- The accumulator restored from the SQL store is what its rows hold. -/
theorem Repository.restore_snapshot (r : Repository) (runId : ℤ) :
    restore (r.snapshot runId) =
      { labels := (r.run runId).labels.rows.mapValues LabelRow.state
        seconds := (r.run runId).seconds
        signatures := (r.run runId).signatures.mapValues SignatureRow.tally } := by
  refine Accumulator.ext ?_ ?_ ?_
  · refine TallyMap.insertMany_of_perm ?_
    rw [snapshot, List.map_map, ← entry_scanLabelProgress]
    exact .refl _
  · refine TallyMap.insertMany_of_perm ?_
    rw [snapshot, List.map_map]
    exact (List.map_id _).symm ▸ .refl _
  · refine TallyMap.insertMany_of_perm ?_
    rw [TallyMap.toList_mapValues]
    refine ((List.perm_insertionSort _ _).map _).trans ?_
    rw [List.map_map]
    exact .refl _

theorem Repository.tally_restore_snapshot (r : Repository) (runId : ℤ) :
    (restore (r.snapshot runId)).tally = (r.ledger runId).tally := by
  rw [restore_snapshot]
  refine Tally.ext rfl rfl ?_
  exact TallyMap.mapValues_mapValues SignatureRow.tally ErrorTally.count _

/-! ### Reading the in-memory store back -/

theorem Memory.tally_restore_snapshot (v : Visit) (p : Memory) (runId : ℤ) :
    (restore (p.snapshot v runId)).tally = (p.ledger runId).tally := by
  unfold snapshot ledger run
  cases p.runs[runId]? with
  | none => rfl
  | some run => exact congrArg Accumulator.tally (Report.restore_snapshot v run.acc)

def seriesInterval (p : ℤ × SeriesSecond) : Interval :=
  { zeroInterval with
    timestamp := p.1, concurrency := max p.2.engine p.2.labels, samples := p.2.samples
    failed := p.2.failed, bytes := p.2.bytes, latency := p.2.latency.getD ∅ }

theorem Memory.listIntervalsByRun_eq (v : Visit) (p : Memory) (runId : ℤ) :
    p.listIntervalsByRun v runId = (p.ledger runId).series.toList.map seriesInterval := by
  rw [← v.sort_map_list _ seriesInterval Interval.timestamp fun _ => rfl]
  refine congrArg _ (List.map_congr_left fun q _ => ?_)
  simp only [seriesInterval, max_comm q.2.engine, max_def_lt]

theorem Repository.listIntervalsByRun_eq (r : Repository) (runId : ℤ) :
    r.listIntervalsByRun runId = (r.ledger runId).series.toList.map seriesInterval := rfl

theorem Memory.shardStates_eq (v : Visit) (p : Memory) (runId : ℤ) :
    p.shardStates v runId = (p.ledger runId).shards.toList.map ShardState.ofEntry := by
  unfold shardStates ledger run
  cases p.runs[runId]? with
  | none => rfl
  | some run => exact congrArg (List.map _) (v.sort_list run.shards)

/-! ### The stores agree -/

/-- After every sequence of batches whose sequences count up, the SQL store and
the in-memory store hold the same measurements of every run but for the
wordings of failures, the same series and the same shards. -/
theorem sql_refines_memory (v v' : Visit) {bs : List ProgressBatch}
    (hinc : ∀ b ∈ bs, b.Increasing) (runId : ℤ) :
    let sql := Repository.applyAll v bs
    let memory := Memory.applyAll v' bs
    (restore (sql.snapshot runId)).tally = (restore (memory.snapshot v' runId)).tally ∧
      (sql.run runId).series.rows = (memory.series[runId]?).getD ∅ ∧
      sql.listIntervalsByRun runId = memory.listIntervalsByRun v' runId ∧
      (sql.run runId).shards = (memory.run runId).shards ∧
      sql.shardStates runId = memory.shardStates v' runId := by
  have hledger : (Repository.applyAll v bs).ledger runId = (Memory.applyAll v' bs).ledger runId := by
    rw [Repository.ledger_applyAll, Memory.ledger_applyAll v' hinc]
  refine ⟨?_, ?_, ?_, ?_, ?_⟩
  · rw [Repository.tally_restore_snapshot, Memory.tally_restore_snapshot, hledger]
  · exact congrArg Ledger.series hledger
  · rw [Repository.listIntervalsByRun_eq, Memory.listIntervalsByRun_eq, hledger]
  · exact congrArg Ledger.shards hledger
  · rw [Memory.shardStates_eq, ← hledger]
    rfl

def oneRequest (streamId : String) : ProgressBatch :=
  { runId := 1, scenarioId := 1, shardIndex := 0, cluster := "", streamId, final := false,
    exitCode := none
    intervals := [{ zeroInterval with seq := 1, timestamp := 1, label := "GET /", samples := 1 }] }

/-- A pod that was restarted after its first push. -/
theorem sql_refines_memory_restart :
    (Repository.applyAll .sorted [oneRequest "first", oneRequest "second"]).shardStates 1 =
      (Memory.applyAll .sorted [oneRequest "first", oneRequest "second"]).shardStates .sorted 1 :=
  (sql_refines_memory .sorted .sorted (by decide) 1).2.2.2.2

end Honryu.Progress
