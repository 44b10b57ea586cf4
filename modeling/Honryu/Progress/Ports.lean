import Honryu.Report.Second

/-!
The working state of a run: the batch a shard pushes into it, what makes a
batch acceptable, and the position of each shard in its own stream.
-/

namespace Honryu.Progress

open Metrics

/-! ### Batches -/

/-- Why a batch cannot be absorbed. The last of them names the shard, the
second and the label its message is formatted with. -/
inductive ProgressError
  | runRequired
  | scenarioRequired
  | unsequencedBatch (shard second : ℤ) (label : String)
  deriving DecidableEq

/-- `ProgressBatch` is one shard's push, on its way into a run's working state. -/
structure ProgressBatch where
  runId : ℤ
  scenarioId : ℤ
  shardIndex : ℤ
  cluster : String
  streamId : String
  final : Bool
  exitCode : Option ℤ
  intervals : List Interval
  deriving DecidableEq

/-- The batch `Ingest` absorbs for what a sidecar pushed, into the run that is
open. -/
def ProgressBatch.ofBatch (runId : ℤ) (batch : Batch) : ProgressBatch :=
  { runId, scenarioId := batch.scenarioId, shardIndex := batch.shardIndex,
    cluster := batch.cluster, streamId := batch.streamId, final := batch.final,
    exitCode := batch.exitCode, intervals := batch.intervals }

/-- `Validate` rejects a batch that cannot be absorbed safely. -/
def ProgressBatch.validate (b : ProgressBatch) : Except ProgressError Unit :=
  if b.runId ≤ 0 then .error .runRequired
  else if b.scenarioId ≤ 0 then .error .scenarioRequired
  else
    match b.intervals.find? fun iv => iv.seq ≤ 0 with
    | some iv => .error (.unsequencedBatch b.shardIndex iv.timestamp iv.label)
    | none => .ok ()

def ProgressBatch.Valid (b : ProgressBatch) : Prop := b.validate = .ok ()

theorem ProgressBatch.valid_iff (b : ProgressBatch) :
    b.Valid ↔ 0 < b.runId ∧ 0 < b.scenarioId ∧ ∀ iv ∈ b.intervals, 0 < iv.seq := by
  unfold Valid validate
  by_cases hrun : b.runId ≤ 0
  · simp [hrun, not_lt.mpr hrun]
  · by_cases hscenario : b.scenarioId ≤ 0
    · simp [hrun, hscenario, not_lt.mpr hscenario]
    · cases hfind : b.intervals.find? fun iv => iv.seq ≤ 0 with
      | some iv =>
          have hseq : iv.seq ≤ 0 := by simpa using List.find?_some hfind
          simp only [hrun, hscenario, if_false, reduceCtorEq, false_iff, not_and]
          intro _ _ hall
          exact absurd (hall iv (List.mem_of_find?_eq_some hfind)) (not_lt.mpr hseq)
      | none =>
          have hall : ∀ iv ∈ b.intervals, 0 < iv.seq := by simpa using hfind
          simpa [hrun, hscenario] using ⟨not_le.mp hrun, not_le.mp hscenario, hall⟩

instance (b : ProgressBatch) : Decidable b.Valid := decidable_of_iff _ b.valid_iff.symm

def ProgressBatch.Increasing (b : ProgressBatch) : Prop :=
  b.intervals.Pairwise fun x y => x.seq < y.seq

instance (b : ProgressBatch) : Decidable b.Increasing :=
  inferInstanceAs (Decidable (b.intervals.Pairwise fun x y => x.seq < y.seq))

/-! ### Shards -/

/-- `shardKey` identifies a pod within a run. The index alone cannot: it
repeats across the scenarios of a run and across the clusters of a fan-out. -/
@[ext] structure ShardKey where
  scenarioId : ℤ
  cluster : String
  shardIndex : ℤ
  deriving DecidableEq

def ShardKey.order (k : ShardKey) : ℤ ×ₗ String ×ₗ ℤ :=
  toLex (k.scenarioId, toLex (k.cluster, k.shardIndex))

theorem ShardKey.order_injective : Function.Injective ShardKey.order := by
  intro a b h
  simp only [order, EmbeddingLike.apply_eq_iff_eq, Prod.mk.injEq] at h
  exact ShardKey.ext h.1 h.2.1 h.2.2

instance : LinearOrder ShardKey := LinearOrder.lift' ShardKey.order ShardKey.order_injective

def ProgressBatch.shardKey (b : ProgressBatch) : ShardKey :=
  { scenarioId := b.scenarioId, cluster := b.cluster, shardIndex := b.shardIndex }

/-- `shardStream` is one pod's position in its own stream, and how it ended. -/
@[ext] structure ShardStream where
  streamId : String
  seq : ℤ
  finished : Bool
  exitCode : Option ℤ
  deriving DecidableEq

/-- `ShardState` is one shard's completion state within a run. -/
structure ShardState where
  scenarioId : ℤ
  shardIndex : ℤ
  cluster : String
  finished : Bool
  exitCode : Option ℤ
  deriving DecidableEq

def ShardState.ofEntry (p : ShardKey × ShardStream) : ShardState :=
  { scenarioId := p.1.scenarioId, shardIndex := p.1.shardIndex, cluster := p.1.cluster,
    finished := p.2.finished, exitCode := p.2.exitCode }

end Honryu.Progress
