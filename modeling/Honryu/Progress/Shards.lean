import Honryu.Progress.SqlLedger
import Mathlib.Data.Finset.Card

/-!
Which shards of a run have finished.
-/

namespace Honryu.Progress.Repository

variable {v : Visit} {r : Repository} {b : ProgressBatch} {runId : ℤ} {k : ShardKey}

def hasFinished (r : Repository) (runId : ℤ) (k : ShardKey) : Bool :=
  ((r.run runId).shards[k]?).elim false (·.finished)

theorem hasFinished_apply :
    (r.apply v b).hasFinished runId k = true ↔
      r.hasFinished runId k = true ∨
        b.Valid ∧ b.runId = runId ∧ b.shardKey = k ∧ b.final = true := by
  have hledger : ∀ r : Repository, r.hasFinished runId k =
      ((r.ledger runId).shards[k]?).elim false (·.finished) := fun _ => rfl
  rw [hledger, hledger, ledger_apply]
  by_cases hvalid : b.Valid
  · rw [shard_absorbInto _ hvalid]
    by_cases hk : b.runId = runId ∧ b.shardKey = k
    · obtain ⟨rfl, rfl⟩ := hk
      rw [if_pos ⟨rfl, rfl⟩, Option.elim_some, ShardStream.advance, Bool.or_eq_true, Ledger.enter,
        ShardStream.finished_enter]
      simp [hvalid]
    · rw [if_neg hk]
      exact (or_iff_left fun h => hk ⟨h.2.1, h.2.2.1⟩).symm
  · rw [absorbInto, if_neg hvalid]
    exact (or_iff_left fun h => hvalid h.1).symm

/-- As many shards of a run have finished as there are different ones. -/
theorem exists_countP_finished (r : Repository) (runId : ℤ) :
    ∃ keys : Finset ShardKey, keys.card = (r.shardStates runId).countP (·.finished) ∧
      ∀ k ∈ keys, r.hasFinished runId k = true := by
  have hnodup : (((r.run runId).shards.toList.filter (·.2.finished)).map Prod.fst).Nodup :=
    (TallyMap.nodup_toList _).sublist (List.filter_sublist.map _)
  refine ⟨_, (List.toFinset_card_of_nodup hnodup).trans ?_, fun k hk => ?_⟩
  · rw [List.length_map, shardStates, List.countP_map, List.countP_eq_length_filter]
    rfl
  · obtain ⟨⟨k, st⟩, hst, rfl⟩ := List.mem_map.mp (List.mem_toFinset.mp hk)
    obtain ⟨hrow, hfinished⟩ := List.mem_filter.mp hst
    rw [hasFinished, TallyMap.mem_toList_iff.mp hrow]
    exact hfinished

end Honryu.Progress.Repository
