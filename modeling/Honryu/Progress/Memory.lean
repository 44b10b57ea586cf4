import Honryu.Progress.Ledger

/-!
The in-memory progress store: one accumulator per run, fed interval by
interval, and the run's series beside it. It keeps the ledger exactly when the
sequences of every batch count up, because its mark moves with each interval.
-/

namespace Honryu.Progress

open Metrics Report

/-! ### The store -/

/-- `progressRun` is the working state of one run. -/
structure ProgressRun where
  acc : Accumulator
  shards : TallyMap ShardKey ShardStream

/-- `ReportProgress`, the in-memory store. The series is not part of a run's
working state: it outlives `Discard`. -/
structure Memory where
  runs : TallyMap ℤ ProgressRun
  series : TallyMap ℤ (TallyMap ℤ SeriesSecond)

namespace Memory

def new : Memory := { runs := ∅, series := ∅ }

def run (p : Memory) (runId : ℤ) : ProgressRun :=
  (p.runs[runId]?).getD { acc := newAccumulator, shards := ∅ }

/-- One second of `absorbSeries`. -/
def absorbSecond (seconds : TallyMap ℤ SeriesSecond) (group : ℤ × List Interval) :
    TallyMap ℤ SeriesSecond :=
  let (merged, engine) := mergeSecond group.2
  let row := (seconds[group.1]?).getD
    { engine := 0, labels := 0, samples := 0, failed := 0, bytes := 0, latency := none }
  let row := { row with
    engine := row.engine + engine
    labels := row.labels + merged.concurrency
    samples := row.samples + merged.samples
    failed := row.failed + merged.failed
    bytes := row.bytes + merged.bytes }
  seconds.insert group.1
    (if merged.latency.isEmpty then row
    else { row with latency := some ((row.latency.getD ∅).merge merged.latency) })

def absorbSeries (v : Visit) (seconds : TallyMap ℤ SeriesSecond) (fresh : List Interval) :
    TallyMap ℤ SeriesSecond :=
  (v.list (TallyMap.groupBy Interval.timestamp fresh)).foldl absorbSecond seconds

/-- One interval of `Absorb`: the run's accumulator, what was fresh and the
shard's sequence so far. -/
def absorbInterval (s : Accumulator × List Interval × ℤ) (iv : Interval) :
    Accumulator × List Interval × ℤ :=
  let (acc, fresh, seq) := s
  if iv.seq ≤ seq then (acc, fresh, seq) else (acc.add iv, fresh ++ [iv], iv.seq)

def position (shards : TallyMap ShardKey ShardStream) (b : ProgressBatch) : ShardStream :=
  let shard := (shards[b.shardKey]?).getD
    { streamId := b.streamId, seq := 0, finished := false, exitCode := none }
  if shard.streamId ≠ b.streamId then { shard with streamId := b.streamId, seq := 0 } else shard

def record (shard : ShardStream) (b : ProgressBatch) (seq : ℤ) : ShardStream :=
  let shard := { shard with seq }
  let shard := if b.final then { shard with finished := true } else shard
  if b.exitCode.isSome then { shard with exitCode := b.exitCode } else shard

/-- What `Absorb` does under the lock. -/
def absorbLocked (v : Visit) (p : Memory) (b : ProgressBatch) : Memory :=
  let run := p.run b.runId
  let shard := position run.shards b
  let (acc, fresh, seq) := b.intervals.foldl absorbInterval (run.acc, [], shard.seq)
  { runs := p.runs.insert b.runId
      { acc, shards := run.shards.insert b.shardKey (record shard b seq) }
    series := p.series.insert b.runId
      (absorbSeries v ((p.series[b.runId]?).getD ∅) fresh) }

def absorb (v : Visit) (p : Memory) (b : ProgressBatch) : Except ProgressError Memory := do
  b.validate
  return p.absorbLocked v b

def snapshot (v : Visit) (p : Memory) (runId : ℤ) : Snapshot :=
  match p.runs[runId]? with
  | some run => run.acc.snapshot v
  | none => { labels := [], seconds := [], signatures := [] }

def shardStates (v : Visit) (p : Memory) (runId : ℤ) : List ShardState :=
  match p.runs[runId]? with
  | some run => ((v.list run.shards).insertionSort fun x y => x.1 ≤ y.1).map ShardState.ofEntry
  | none => []

/-- `ListIntervalsByRun` returns the run's series, ascending by second. -/
def listIntervalsByRun (v : Visit) (p : Memory) (runId : ℤ) : List Interval :=
  ((v.list ((p.series[runId]?).getD ∅)).map fun (ts, row) =>
    { zeroInterval with
      timestamp := ts, samples := row.samples, failed := row.failed, bytes := row.bytes
      concurrency := if row.labels < row.engine then row.engine else row.labels
      latency := row.latency.getD ∅ }).insertionSort
    fun x y => x.timestamp ≤ y.timestamp

def discard (p : Memory) (runId : ℤ) : Memory := { p with runs := p.runs.erase runId }

def apply (v : Visit) (p : Memory) (b : ProgressBatch) : Memory :=
  match p.absorb v b with
  | .ok p' => p'
  | .error _ => p

def applyAll (v : Visit) (bs : List ProgressBatch) : Memory := bs.foldl (apply v) new

/-! ### The series adds up -/

theorem absorbSecond_eq (seconds : TallyMap ℤ SeriesSecond) (ts : ℤ) (rows : List Interval) :
    absorbSecond seconds (ts, rows) =
      seconds + TallyMap.single ts (rows.map seriesPart).sum := by
  rw [← ofMerged_mergeSecond, ← TallyMap.insert_getD_add]
  simp only [absorbSecond]
  generalize mergeSecond rows = m
  refine congrArg (seconds.insert ts) ?_
  by_cases h : m.1.latency.isEmpty
  · have hnone : nonempty? m.1.latency = none := by rw [nonempty?, if_pos h]
    rw [if_pos h]
    refine SeriesSecond.ext rfl rfl rfl rfl rfl ?_
    exact (Option.add_none _).symm.trans (congrArg _ hnone.symm)
  · have hsome : nonempty? m.1.latency = some m.1.latency := by rw [nonempty?, if_neg h]
    rw [if_neg h]
    refine SeriesSecond.ext rfl rfl rfl rfl rfl ?_
    exact (Option.some_getD_add _ _).trans (congrArg _ hsome.symm)

theorem absorbSeries_eq (v : Visit) (seconds : TallyMap ℤ SeriesSecond)
    (fresh : List Interval) :
    absorbSeries v seconds fresh = seconds + seriesOf fresh := by
  have hfold : ∀ (l : List (ℤ × List Interval)) (seconds : TallyMap ℤ SeriesSecond),
      l.foldl absorbSecond seconds =
        seconds + (l.map fun g => TallyMap.single g.1 (g.2.map seriesPart).sum).sum := by
    intro l
    induction l with
    | nil => simp
    | cons g l ih =>
        intro seconds
        rw [List.foldl_cons, ih, absorbSecond_eq, List.map_cons, List.sum_cons, add_assoc]
  have hgroups := TallyMap.sum_single_map_toList (fun l => (l.map seriesPart).sum)
    (TallyMap.groupBy Interval.timestamp fresh)
  rw [absorbSeries, hfold, ((v.perm _).map _).sum_eq, hgroups, TallyMap.mapValues_groupBy,
    seriesOf]

/-! ### The store keeps the ledger -/

def ledger (p : Memory) (runId : ℤ) : Ledger :=
  { tally := (p.run runId).acc.tally
    series := (p.series[runId]?).getD ∅
    shards := (p.run runId).shards }

/-- When sequences count up, the moving mark skips what the mark at the
beginning of the batch would skip. -/
theorem foldl_absorbInterval (acc : Accumulator) (fresh : List Interval) (mark : ℤ)
    {ivs : List Interval} (hivs : ivs.Pairwise fun x y => x.seq < y.seq) :
    ivs.foldl absorbInterval (acc, fresh, mark) =
      let new := ivs.filter fun iv => mark < iv.seq
      (acc.addAll new, fresh ++ new, highest mark new) := by
  induction ivs generalizing acc fresh mark with
  | nil => simp [highest]
  | cons iv ivs ih =>
      rw [List.pairwise_cons] at hivs
      rw [List.foldl_cons, absorbInterval]
      by_cases h : iv.seq ≤ mark
      · rw [if_pos h, ih _ _ _ hivs.2, List.filter_cons_of_neg (by simpa using h)]
      · have hlt : mark < iv.seq := not_le.mp h
        have hrest : (ivs.filter fun x => iv.seq < x.seq) = ivs.filter fun x => mark < x.seq := by
          refine List.filter_congr fun x hx => ?_
          have := hivs.1 x hx
          simp [this, hlt.trans this]
        rw [if_neg h, ih _ _ _ hivs.2, List.filter_cons_of_pos (by simpa using hlt), hrest]
        simp [Accumulator.addAll, highest, max_eq_right hlt.le]

@[simp] theorem ledger_new (runId : ℤ) : new.ledger runId = .empty := by
  refine Ledger.ext ?_ ?_ ?_ <;> simp [ledger, run, new, Ledger.empty, TallyMap.empty_eq_zero]

theorem position_eq (shards : TallyMap ShardKey ShardStream) (b : ProgressBatch) :
    position shards b = .enter shards[b.shardKey]? b.streamId := by
  simp only [position, ite_not]
  rfl

theorem record_eq (shard : ShardStream) (b : ProgressBatch) :
    record shard b (highest shard.seq (b.fresh shard.seq)) = shard.advance b := by
  unfold record ShardStream.advance
  cases b.final <;> cases b.exitCode <;> simp

theorem absorbLocked_eq (v : Visit) (p : Memory) {b : ProgressBatch} (hinc : b.Increasing) :
    p.absorbLocked v b =
      let l := p.ledger b.runId
      { runs := p.runs.insert b.runId
          { acc := (p.run b.runId).acc.addAll (l.fresh b)
            shards := l.shards.insert b.shardKey ((l.enter b).advance b) }
        series := p.series.insert b.runId (l.series + seriesOf (l.fresh b)) } := by
  simp only [absorbLocked, foldl_absorbInterval _ _ _ hinc, List.nil_append, absorbSeries_eq]
  rw [← record_eq, ← ProgressBatch.fresh, position_eq]
  rfl

theorem ledger_absorbLocked (v : Visit) (p : Memory) {b : ProgressBatch}
    (hinc : b.Increasing) :
    (p.absorbLocked v b).ledger =
      Function.update p.ledger b.runId ((p.ledger b.runId).absorb b) := by
  rw [absorbLocked_eq v p hinc]
  funext r
  by_cases hr : r = b.runId
  · subst hr
    rw [Function.update_self]
    refine Ledger.ext ?_ ?_ ?_
    · simp [ledger, run, Ledger.absorb, Accumulator.tally_addAll]
    · simp [ledger, Ledger.absorb]
    · simp [ledger, run, Ledger.absorb]
  · rw [Function.update_of_ne hr]
    simp [ledger, run, TallyMap.getElem?_insert_eq_ite, Ne.symm hr]

theorem ledger_apply (v : Visit) (p : Memory) {b : ProgressBatch} (hinc : b.Increasing) :
    (p.apply v b).ledger = absorbInto p.ledger b := by
  unfold apply absorb absorbInto
  by_cases hvalid : b.Valid
  · rw [if_pos hvalid, hvalid]
    exact ledger_absorbLocked v p hinc
  · rw [if_neg hvalid]
    cases herror : b.validate with
    | ok => exact absurd herror hvalid
    | error e => rfl

/-- The store keeps the ledger over every sequence of batches. -/
theorem ledger_applyAll (v : Visit) {bs : List ProgressBatch} (hinc : ∀ b ∈ bs, b.Increasing) :
    (applyAll v bs).ledger = ledgers bs := by
  induction bs using List.reverseRecOn with
  | nil => exact funext ledger_new
  | append_singleton bs b ih =>
      rw [applyAll, List.foldl_append, List.foldl_cons, List.foldl_nil, ledgers_concat,
        ledger_apply v _ (hinc b (by simp)), ← applyAll, ih fun x hx => hinc x (by simp [hx])]

end Memory

end Honryu.Progress
