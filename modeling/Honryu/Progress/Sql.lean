import Honryu.Lib.RowMerge
import Honryu.Progress.Ledger

/-!
The SQL progress store: five tables, and the transaction that merges a batch
into them. What is new in a batch is first accumulated on its own, and the
snapshot of that small accumulator is then added to the stored rows, by the
database where a column is a number and by the program where it is a JSON
document.

A table is given as the rows of one run, keyed by the rest of the primary key.
Whole numbers and texts are unbounded here: the widths of the columns are not
part of the model.
-/

namespace Honryu.Progress

open Metrics Report

/-! ### `report_progress_label` -/

/-- A row of `report_progress_label`. Its label is spelled as the insert that
created the row spelled it. -/
structure LabelRow where
  label : String
  samples : ℤ
  failed : ℤ
  latency : Option Histogram
  codes : Option (TallyMap String ℤ)
  deriving DecidableEq

/-- The label rows of a run, keyed by what the collation of the column makes
of the label. A document of response codes is never empty: a label whose engine
reports none has none. -/
@[ext] structure LabelTable {κ : Type} [LinearOrder κ] (collate : String → κ) where
  rows : TallyMap κ LabelRow
  collate_label : ∀ (k : κ) (r : LabelRow), rows[k]? = some r → collate r.label = k
  codes_ne : ∀ (k : κ) (r : LabelRow), rows[k]? = some r → r.codes ≠ some ∅

/-- `mergeCodes` adds a batch's response-code counts to what is stored. Both
empty stays missing. -/
def mergeCodes (stored delta : Option (TallyMap String ℤ)) : Option (TallyMap String ℤ) :=
  let stored := stored.getD ∅
  let delta := delta.getD ∅
  if stored.isEmpty && delta.isEmpty then none else some (stored.merge delta)

theorem mergeCodes_ne (stored delta : Option (TallyMap String ℤ)) :
    mergeCodes stored delta ≠ some ∅ := by
  simp only [mergeCodes, Bool.and_eq_true, isEmpty_eq_true_iff, TallyMap.merge_eq_add]
  split
  case isTrue => simp
  case isFalse h =>
    rw [Ne, Option.some_inj, TallyMap.empty_eq_zero, TallyMap.add_eq_zero]
    exact h

def mergedLatency (stored : Option LabelRow) (l : LabelProgress) : Histogram :=
  (Histogram.merge ∅ ((stored.bind (·.latency)).getD ∅)).merge l.latency

def mergedCodes (stored : Option LabelRow) (l : LabelProgress) : Option (TallyMap String ℤ) :=
  mergeCodes (stored.bind (·.codes)) l.codes

/-- The statements of `mergeLabels`. The database finds a label's row under
the collation; the program looks up what it read by the label's exact text. -/
def labelMerge {κ : Type} (collate : String → κ) : RowMerge κ String LabelRow LabelProgress where
  key l := collate l.label
  name l := l.label
  rowName _ r := r.label
  blank l := { label := l.label, samples := 0, failed := 0, latency := none, codes := none }
  fresh stored l :=
    { label := l.label, samples := l.samples, failed := l.failed,
      latency := some (mergedLatency stored l), codes := mergedCodes stored l }
  update stored l r :=
    { r with
      samples := r.samples + l.samples
      failed := r.failed + l.failed
      latency := some (mergedLatency stored l)
      codes := mergedCodes stored l }

section MergeLabels

variable {κ : Type} [LinearOrder κ] {collate : String → κ}

/-- `mergeLabels` folds a batch's measurements into every label's stored progress. -/
def mergeLabels (t : LabelTable collate) (labels : List LabelProgress) : LabelTable collate where
  rows := (labelMerge collate).run t.rows labels
  collate_label := (labelMerge collate).forall_run (P := fun k r => collate r.label = k) labels
    t.collate_label (fun _ => rfl) (fun _ _ => rfl) fun _ _ _ h => h
  codes_ne := (labelMerge collate).forall_run (P := fun _ r => r.codes ≠ some ∅) labels
    t.codes_ne (fun _ => by simp [labelMerge]) (fun _ _ => mergeCodes_ne _ _)
    fun _ _ _ _ => mergeCodes_ne _ _

def LabelTable.empty : LabelTable collate where
  rows := ∅
  collate_label := by simp
  codes_ne := by simp

end MergeLabels

/-! ### `report_progress_second` -/

def secondRow (sec : SecondProgress) : SecondState :=
  { engine := sec.engine, labels := sec.labels, latSum := sec.latencySum,
    latSamples := sec.latencySamples, labelLatency := none }

def addSecond (sec : SecondProgress) (r : SecondState) : SecondState :=
  { r with
    engine := r.engine + sec.engine
    labels := r.labels + sec.labels
    latSum := r.latSum + sec.latencySum
    latSamples := r.latSamples + sec.latencySamples }

/-- The first loop of `mergeProgress`, one statement per second. -/
def mergeSeconds (t : TallyMap ℤ SecondState) (seconds : List SecondProgress) :
    TallyMap ℤ SecondState :=
  TallyMap.upsertAll (·.second) secondRow addSecond t seconds

def mergedLabelLatency (stored : Option SecondState) (sec : SecondProgress) :
    TallyMap String LabelLatencyTally :=
  ((stored.bind (·.labelLatency)).getD ∅).merge (sec.labelLatency.getD ∅)

/-- The statements of `mergeSecondLabels`. -/
def secondLabelMerge : RowMerge ℤ ℤ SecondState SecondProgress where
  key sec := sec.second
  name sec := sec.second
  rowName k _ := k
  blank _ := { engine := 0, labels := 0, latSum := 0, latSamples := 0, labelLatency := none }
  fresh stored sec :=
    { engine := 0, labels := 0, latSum := 0, latSamples := 0,
      labelLatency := some (mergedLabelLatency stored sec) }
  update stored sec r := { r with labelLatency := some (mergedLabelLatency stored sec) }

/-- `mergeSecondLabels` folds a batch's per-label tallies into the seconds that
carry one. The rows exist already, so nothing is opened. -/
def mergeSecondLabels (t : TallyMap ℤ SecondState) (seconds : List SecondProgress) :
    TallyMap ℤ SecondState :=
  secondLabelMerge.write t (seconds.filter fun sec => !(sec.labelLatency.getD ∅).isEmpty)

/-! ### `report_progress_signature` -/

/-- A row of `report_progress_signature`; the signature is its key. -/
structure SignatureRow where
  count : ℤ
  exemplars : Option (List String)
  deriving DecidableEq

def mergedExemplars (stored : Option SignatureRow) (sig : ErrorSignature) : List String :=
  mergeExemplars ((stored.bind (·.exemplars)).getD []) sig.exemplars

/-- The statements of `mergeSignatures`. -/
def signatureMerge : RowMerge Signature Signature SignatureRow ErrorSignature where
  key sig := sig.signature
  name sig := sig.signature
  rowName k _ := k
  blank _ := { count := 0, exemplars := none }
  fresh stored sig := { count := sig.count, exemplars := some (mergedExemplars stored sig) }
  update stored sig r :=
    { count := r.count + sig.count, exemplars := some (mergedExemplars stored sig) }

def mergeSignatures (t : TallyMap Signature SignatureRow) (sigs : List ErrorSignature) :
    TallyMap Signature SignatureRow :=
  signatureMerge.run t sigs

/-! ### `execution_report_series` -/

/-- `seriesRow` is one second's worth of new measurements. -/
structure SeriesRow where
  second : ℤ
  engine : ℤ
  labels : ℤ
  samples : ℤ
  failed : ℤ
  bytes : ℤ
  latency : Histogram
  hasBuckets : Bool
  hasBuckets_eq : hasBuckets = !latency.isEmpty

def SeriesRow.ofMerged (second : ℤ) (m : Interval × ℤ) : SeriesRow :=
  { second, engine := m.2, labels := m.1.concurrency, samples := m.1.samples,
    failed := m.1.failed, bytes := m.1.bytes, latency := m.1.latency,
    hasBuckets := !m.1.latency.isEmpty, hasBuckets_eq := rfl }

/-- The rows of the series. A second without buckets has no latency document. -/
@[ext] structure SeriesTable where
  rows : TallyMap ℤ SeriesSecond
  latency_ne : ∀ (k : ℤ) (r : SeriesSecond), rows[k]? = some r → r.latency ≠ some ∅

def mergedSeriesLatency (stored : Option SeriesSecond) (row : SeriesRow) : Option Histogram :=
  let stored := (stored.bind (·.latency)).getD ∅
  if row.hasBuckets || !stored.isEmpty then
    some ((Histogram.merge ∅ stored).merge row.latency)
  else none

/-- The statements of `mergeSeriesSeconds`. -/
def seriesMerge : RowMerge ℤ ℤ SeriesSecond SeriesRow where
  key row := row.second
  name row := row.second
  rowName k _ := k
  blank _ :=
    { engine := 0, labels := 0, samples := 0, failed := 0, bytes := 0, latency := none }
  fresh stored row :=
    { engine := row.engine, labels := row.labels, samples := row.samples, failed := row.failed,
      bytes := row.bytes, latency := mergedSeriesLatency stored row }
  update stored row r :=
    { engine := r.engine + row.engine, labels := r.labels + row.labels,
      samples := r.samples + row.samples, failed := r.failed + row.failed,
      bytes := r.bytes + row.bytes, latency := mergedSeriesLatency stored row }

theorem mergedSeriesLatency_ne (stored : Option SeriesSecond) (row : SeriesRow) :
    mergedSeriesLatency stored row ≠ some ∅ := by
  simp only [mergedSeriesLatency, row.hasBuckets_eq, Bool.or_eq_true, Bool.not_eq_true',
    Bool.eq_false_iff, ne_eq, isEmpty_eq_true_iff, Histogram.merge_eq, TallyMap.empty_eq_zero,
    zero_add]
  split
  case isTrue h =>
    rw [Option.some_inj, TallyMap.add_eq_zero]
    tauto
  case isFalse => simp

def seriesRows (v : Visit) (fresh : List Interval) : List SeriesRow :=
  let bySecond := TallyMap.groupBy Interval.timestamp fresh
  let seconds := (v.keys bySecond).insertionSort (· ≤ ·)
  seconds.map fun ts => .ofMerged ts (mergeSecond (bySecond.getD ts []))

/-- `mergeSeriesSeconds` adds a batch's fresh intervals to the run's series. -/
def mergeSeriesSeconds (v : Visit) (t : SeriesTable) (fresh : List Interval) : SeriesTable where
  rows := seriesMerge.run t.rows (seriesRows v fresh)
  latency_ne := seriesMerge.forall_run (P := fun _ r => r.latency ≠ some ∅) (seriesRows v fresh)
    t.latency_ne (fun _ => by simp [seriesMerge]) (fun _ _ => mergedSeriesLatency_ne _ _)
    fun _ _ _ _ => mergedSeriesLatency_ne _ _

/-! ### The transaction -/

@[ext] structure RunTables where
  shards : TallyMap ShardKey ShardStream
  seconds : TallyMap ℤ SecondState
  labels : LabelTable (id : String → String)
  signatures : TallyMap Signature SignatureRow
  series : SeriesTable

def RunTables.empty : RunTables :=
  { shards := ∅, seconds := ∅, labels := .empty, signatures := ∅,
    series := { rows := ∅, latency_ne := by simp } }

/-- `lockShard` takes the shard's row and returns the sequence already absorbed
from the batch's stream. -/
def lockShard (shards : TallyMap ShardKey ShardStream) (b : ProgressBatch) :
    TallyMap ShardKey ShardStream × ℤ :=
  let opened := ShardStream.opened b.streamId
  let shards := shards.upsert b.shardKey opened id
  -- the insert above has made the row exist
  let row := (shards[b.shardKey]?).getD opened
  if row.streamId ≠ b.streamId then
    (shards.updateRow b.shardKey fun r => { r with streamId := b.streamId, seq := 0 }, 0)
  else (shards, row.seq)

def mergeProgress (t : RunTables) (s : Snapshot) : RunTables :=
  { t with
    seconds := mergeSecondLabels (mergeSeconds t.seconds s.seconds) s.seconds
    labels := mergeLabels t.labels s.labels
    signatures := mergeSignatures t.signatures s.signatures }

/-- One interval of the loop in `Absorb`: the accumulator of what is new, the
new intervals and the highest sequence so far. -/
def absorbInterval (watermark : ℤ) (s : Accumulator × List Interval × ℤ) (iv : Interval) :
    Accumulator × List Interval × ℤ :=
  let (fresh, freshIntervals, highest) := s
  if iv.seq ≤ watermark then s
  else (fresh.add iv, freshIntervals ++ [iv], if highest < iv.seq then iv.seq else highest)

/-- The statements of `Absorb`, on the rows of the batch's run. -/
def absorbTx (v : Visit) (t : RunTables) (b : ProgressBatch) : RunTables :=
  let (shards, watermark) := lockShard t.shards b
  let (fresh, freshIntervals, highest) :=
    b.intervals.foldl (absorbInterval watermark) (newAccumulator, [], watermark)
  let t := { t with shards }
  let t := if freshIntervals ≠ [] then
    let t := mergeProgress t (fresh.snapshot v)
    { t with series := mergeSeriesSeconds v t.series freshIntervals } else t
  -- a batch without an exit code keeps the stored one
  { t with
    shards := t.shards.updateRow b.shardKey fun r =>
      { r with
        seq := highest, finished := r.finished || b.final
        exitCode := b.exitCode.or r.exitCode } }

structure Repository where
  run : ℤ → RunTables

namespace Repository

def new : Repository := ⟨fun _ => .empty⟩

/-- `Absorb` merges a shard's new intervals into the run's working state, in
one transaction. -/
def absorb (v : Visit) (r : Repository) (b : ProgressBatch) : Except ProgressError Repository := do
  b.validate
  return ⟨Function.update r.run b.runId (absorbTx v (r.run b.runId) b)⟩

def apply (v : Visit) (r : Repository) (b : ProgressBatch) : Repository :=
  match r.absorb v b with
  | .ok r' => r'
  | .error _ => r

def applyAll (v : Visit) (bs : List ProgressBatch) : Repository := bs.foldl (apply v) new

def scanLabelProgress (p : String × LabelRow) : LabelProgress :=
  { label := p.2.label, samples := p.2.samples, failed := p.2.failed,
    latency := p.2.latency.getD ∅, codes := p.2.codes }

def scanSignatureProgress (p : Signature × SignatureRow) : ErrorSignature :=
  { signature := p.1, count := p.2.count, exemplars := p.2.exemplars.getD [] }

def signatureOrder (e : ErrorSignature) : String ×ₗ String ×ₗ String :=
  toLex (e.signature.side.text, toLex (e.signature.responseCode, e.signature.label))

/-- `Snapshot` returns what a run has accumulated, ready for `Restore`. -/
def snapshot (r : Repository) (runId : ℤ) : Snapshot :=
  let t := r.run runId
  { labels := t.labels.rows.toList.map scanLabelProgress
    seconds := t.seconds.toList.map SecondProgress.ofEntry
    signatures := (t.signatures.toList.map scanSignatureProgress).insertionSort
      fun x y => signatureOrder x ≤ signatureOrder y }

def shardStates (r : Repository) (runId : ℤ) : List ShardState :=
  (r.run runId).shards.toList.map ShardState.ofEntry

/-- `ListIntervalsByRun` returns a run's per-second measurements, ascending by
second. -/
def listIntervalsByRun (r : Repository) (runId : ℤ) : List Interval :=
  (r.run runId).series.rows.toList.map fun (second, row) =>
    { zeroInterval with
      timestamp := second, concurrency := max row.engine row.labels, samples := row.samples
      failed := row.failed, bytes := row.bytes, latency := row.latency.getD ∅ }

def discard (r : Repository) (runId : ℤ) : Repository :=
  ⟨Function.update r.run runId { RunTables.empty with series := (r.run runId).series }⟩

end Repository

end Honryu.Progress
