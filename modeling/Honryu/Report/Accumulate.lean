import Honryu.Report.Signature

/-!
A run's report while it is still being measured: what one interval adds, and
the flat snapshot the state crosses a database in.
-/

namespace Honryu.Report

open Metrics

def totalLabel : String := "__total__"

/-! ### The accumulated state -/

/-- `labelState` is one request's measurements. `codes` is missing until a
response code arrives. -/
@[ext] structure LabelState where
  codes : Option (TallyMap String ℤ)
  samples : ℤ
  failed : ℤ
  latency : Histogram
  deriving DecidableEq

/-- `LabelLatencyTally` is one label's response-time tally within a second. -/
@[ext] structure LabelLatencyTally where
  sum : ℚ
  samples : ℤ
  deriving DecidableEq

/-- `secondState` holds the two readings a second's concurrency chooses
between and the second's response-time tally, overall and per label. -/
@[ext] structure SecondState where
  engine : ℤ
  labels : ℤ
  latSum : ℚ
  latSamples : ℤ
  labelLatency : Option (TallyMap String LabelLatencyTally)
  deriving DecidableEq

/-- What a signature is counted with. The source keeps the signature beside
it, in a map keyed by that same signature. -/
@[ext] structure ErrorTally where
  count : ℤ
  exemplars : List String
  deriving DecidableEq

/-- `Accumulator` is a run's report while it is still being measured. -/
@[ext] structure Accumulator where
  labels : TallyMap String LabelState
  seconds : TallyMap ℤ SecondState
  signatures : TallyMap Signature ErrorTally

def newAccumulator : Accumulator := { labels := ∅, seconds := ∅, signatures := ∅ }

namespace Accumulator

def second (a : Accumulator) (ts : ℤ) : SecondState :=
  (a.seconds[ts]?).getD
    { engine := 0, labels := 0, latSum := 0, latSamples := 0, labelLatency := none }

def addBucket (acc : SecondState × LabelLatencyTally) (bucket : ℚ × ℤ) :
    SecondState × LabelLatencyTally :=
  let sum := bucket.1 * bucket.2
  ({ acc.1 with latSum := acc.1.latSum + sum, latSamples := acc.1.latSamples + bucket.2 },
    { sum := acc.2.sum + sum, samples := acc.2.samples + bucket.2 })

/-- The buckets of a label row, summed in bucket order. -/
def addLatency (sec : SecondState) (label : String) (latency : Histogram) : SecondState :=
  if latency.isEmpty then sec
  else
    let tallies := sec.labelLatency.getD ∅
    let (sec, labelTally) :=
      latency.toList.foldl addBucket (sec, (tallies[label]?).getD { sum := 0, samples := 0 })
    { sec with labelLatency := some (tallies.insert label labelTally) }

def addSamples (st : LabelState) (iv : Interval) : LabelState :=
  let st := { st with
    samples := st.samples + iv.samples
    failed := st.failed + iv.failed
    latency := st.latency.merge iv.latency }
  if iv.responseCodes.isEmpty then st
  else { st with codes := some ((st.codes.getD ∅).merge iv.responseCodes) }

def addError (label : String) (signatures : TallyMap Signature ErrorTally) (e : ErrorGroup) :
    TallyMap Signature ErrorTally :=
  let sig := newSignature label e
  let existing := (signatures[sig]?).getD { count := 0, exemplars := [] }
  signatures.insert sig
    { count := existing.count + e.count
      exemplars := addExemplar existing.exemplars e.message }

/-- `Add` folds one interval into the run. The engine's own aggregate row
counts only with its concurrency: its requests are counted per label. -/
def add (a : Accumulator) (iv : Interval) : Accumulator :=
  let sec := a.second iv.timestamp
  if iv.label = totalLabel then
    { a with
      seconds := a.seconds.insert iv.timestamp
        { sec with engine := sec.engine + iv.concurrency } }
  else
    let sec := { sec with labels := sec.labels + iv.concurrency }
    let st := (a.labels[iv.label]?).getD
      { codes := none, samples := 0, failed := 0, latency := ∅ }
    { labels := a.labels.insert iv.label (addSamples st iv)
      seconds := a.seconds.insert iv.timestamp (addLatency sec iv.label iv.latency)
      signatures := iv.errors.foldl (addError iv.label) a.signatures }

def addAll (a : Accumulator) (ivs : List Interval) : Accumulator := ivs.foldl add a

@[simp] theorem addAll_nil (a : Accumulator) : a.addAll [] = a := rfl

theorem addAll_append (a : Accumulator) (xs ys : List Interval) :
    a.addAll (xs ++ ys) = (a.addAll xs).addAll ys :=
  List.foldl_append

end Accumulator

/-! ### Snapshots -/

/-- `LabelProgress` is one request's accumulated measurements. -/
structure LabelProgress where
  label : String
  samples : ℤ
  failed : ℤ
  latency : Histogram
  codes : Option (TallyMap String ℤ)
  deriving DecidableEq

/-- `SecondProgress` is one second's concurrency and response-time tally. -/
structure SecondProgress where
  second : ℤ
  engine : ℤ
  labels : ℤ
  latencySum : ℚ
  latencySamples : ℤ
  labelLatency : Option (TallyMap String LabelLatencyTally)
  deriving DecidableEq

/-- `Snapshot` is an accumulator's state in a form a store can write down. -/
structure Snapshot where
  labels : List LabelProgress
  seconds : List SecondProgress
  signatures : List ErrorSignature
  deriving DecidableEq

def LabelProgress.ofEntry (p : String × LabelState) : LabelProgress :=
  { label := p.1, samples := p.2.samples, failed := p.2.failed, latency := p.2.latency,
    codes := p.2.codes }

def LabelProgress.entry (l : LabelProgress) : String × LabelState :=
  (l.label,
    { codes := l.codes, samples := l.samples, failed := l.failed,
      latency := Histogram.merge ∅ l.latency })

def SecondProgress.ofEntry (p : ℤ × SecondState) : SecondProgress :=
  { second := p.1, engine := p.2.engine, labels := p.2.labels, latencySum := p.2.latSum,
    latencySamples := p.2.latSamples, labelLatency := p.2.labelLatency }

def SecondProgress.entry (s : SecondProgress) : ℤ × SecondState :=
  (s.second,
    { engine := s.engine, labels := s.labels, latSum := s.latencySum,
      latSamples := s.latencySamples, labelLatency := s.labelLatency })

def ErrorSignature.ofEntry (p : Signature × ErrorTally) : ErrorSignature :=
  { signature := p.1, count := p.2.count, exemplars := p.2.exemplars }

def ErrorSignature.entry (e : ErrorSignature) : Signature × ErrorTally :=
  (e.signature, { count := e.count, exemplars := e.exemplars })

/-- `Snapshot` exports the accumulated state, each part sorted. -/
def Accumulator.snapshot (v : Visit) (a : Accumulator) : Snapshot :=
  { labels := ((v.list a.labels).map LabelProgress.ofEntry).insertionSort
      fun x y => x.label ≤ y.label
    seconds := ((v.list a.seconds).map SecondProgress.ofEntry).insertionSort
      fun x y => x.second ≤ y.second
    signatures := ((v.list a.signatures).map ErrorSignature.ofEntry).insertionSort
      fun x y => x.signature.string ≤ y.signature.string }

def restore (s : Snapshot) : Accumulator :=
  { labels := (∅ : TallyMap String LabelState).insertMany (s.labels.map LabelProgress.entry)
    seconds := (∅ : TallyMap ℤ SecondState).insertMany (s.seconds.map SecondProgress.entry)
    signatures :=
      (∅ : TallyMap Signature ErrorTally).insertMany (s.signatures.map ErrorSignature.entry) }

/-! ### The round trip -/

theorem LabelProgress.entry_ofEntry (p : String × LabelState) : (ofEntry p).entry = p := by
  simp [ofEntry, entry, TallyMap.empty_eq_zero]

/-- The sorted parts of a snapshot are the maps in key order, whatever order
they were visited in. -/
theorem Accumulator.snapshot_eq (v : Visit) (a : Accumulator) :
    a.snapshot v =
      { labels := a.labels.toList.map LabelProgress.ofEntry
        seconds := a.seconds.toList.map SecondProgress.ofEntry
        signatures := a.signatures.toList.map ErrorSignature.ofEntry } := by
  simp only [snapshot, Snapshot.mk.injEq]
  refine ⟨?_, ?_, ?_⟩
  · exact v.sort_map_list a.labels LabelProgress.ofEntry (·.label) fun _ => rfl
  · exact v.sort_map_list a.seconds SecondProgress.ofEntry (·.second) fun _ => rfl
  · exact v.sort_map_list a.signatures ErrorSignature.ofEntry (·.signature) fun _ => rfl

/-- Restoring a snapshot gives back the accumulator it was taken of. -/
theorem restore_snapshot (v : Visit) (a : Accumulator) : restore (a.snapshot v) = a := by
  have hlabel : LabelProgress.entry ∘ LabelProgress.ofEntry = id :=
    funext LabelProgress.entry_ofEntry
  have hsecond : SecondProgress.entry ∘ SecondProgress.ofEntry = id := rfl
  have hsignature : ErrorSignature.entry ∘ ErrorSignature.ofEntry = id := rfl
  rw [Accumulator.snapshot_eq, restore]
  simp only [List.map_map, hlabel, hsecond, hsignature, List.map_id,
    TallyMap.insertMany_toList]

end Honryu.Report
