import Honryu.Lib.Locking
import Honryu.Progress.SqlLedger
import Mathlib.Data.Sum.Order

/-!
The row locks of `Absorb`.

The transaction of `Progress.Sql` is taken apart into its statements, each with
the rows it locks. Which statements follow the lock on the shard's row depends
on the sequence that is read there, so the transaction is a `Locking.Task`.

Rows are ordered by table, in the order `Absorb` comes to the tables, and
within a table by what the source sorts them by. A batch's rows are listed in
that order when they are first locked. The statements that follow in the same
table, and the last update of the shard's row, lock rows that are held already.
-/

namespace Honryu.Progress

open Metrics Report Locking

/-! ### Rows -/

inductive Row
  | shard (key : ShardKey)
  | second (second : ℤ)
  | label (label : String)
  | signature (signature : Signature)
  | series (second : ℤ)

namespace Row

/-- The place of a row in the order locks are taken in. -/
def place : Row → ShardKey ⊕ₗ ℤ ⊕ₗ String ⊕ₗ Signature ⊕ₗ ℤ
  | shard key => toLex (.inl key)
  | second s => toLex (.inr (toLex (.inl s)))
  | label l => toLex (.inr (toLex (.inr (toLex (.inl l)))))
  | signature sig => toLex (.inr (toLex (.inr (toLex (.inr (toLex (.inl sig)))))))
  | series s => toLex (.inr (toLex (.inr (toLex (.inr (toLex (.inr s)))))))

theorem place_injective : Function.Injective place := by
  intro r r' h
  cases r <;> cases r' <;> simp_all [place]

instance : LinearOrder Row := LinearOrder.lift' place place_injective

theorem lt_def {r r' : Row} : r < r' ↔ r.place < r'.place := Iff.rfl

def table : Row → ℕ
  | shard _ => 0
  | second _ => 1
  | label _ => 2
  | signature _ => 3
  | series _ => 4

theorem lt_of_table_lt {r r' : Row} (h : r.table < r'.table) : r < r' := by
  rw [lt_def]
  cases r <;> cases r' <;> simp [table] at h <;> simp [place]

theorem second_lt {s s' : ℤ} : second s < second s' ↔ s < s' := by simp [lt_def, place]

theorem label_lt {l l' : String} : label l < label l' ↔ l < l' := by simp [lt_def, place]

theorem signature_lt {sig sig' : Signature} : signature sig < signature sig' ↔ sig < sig' := by
  simp [lt_def, place]

theorem series_lt {s s' : ℤ} : series s < series s' ↔ s < s' := by simp [lt_def, place]

end Row

/-! ### Statements -/

abbrev Transaction := Task Row RunTables

def openShard (b : ProgressBatch) (t : RunTables) : RunTables :=
  { t with shards := t.shards.upsert b.shardKey (.opened b.streamId) id }

def resetShard (b : ProgressBatch) (t : RunTables) : RunTables :=
  { t with
    shards := t.shards.updateRow b.shardKey fun r => { r with streamId := b.streamId, seq := 0 } }

def advanceShard (b : ProgressBatch) (highest : ℤ) (t : RunTables) : RunTables :=
  { t with
    shards := t.shards.updateRow b.shardKey fun r =>
      { r with
        seq := highest, finished := r.finished || b.final
        exitCode := b.exitCode.or r.exitCode } }

def writeSecond (sec : SecondProgress) (t : RunTables) : RunTables :=
  { t with seconds := t.seconds.upsert sec.second (secondRow sec) (addSecond sec) }

def writeSecondLabels (pending : List SecondProgress) (stored : TallyMap ℤ SecondState)
    (t : RunTables) : RunTables :=
  { t with seconds := secondLabelMerge.writeFrom stored t.seconds pending }

def openLabels (labels : List LabelProgress) (t : RunTables) : RunTables :=
  { t with
    labels :=
      { rows := (labelMerge id).opened t.labels.rows labels
        collate_label := (labelMerge id).forall_opened (P := fun k r => id r.label = k) labels
          t.labels.collate_label fun _ => rfl
        codes_ne := (labelMerge id).forall_opened (P := fun _ r => r.codes ≠ some ∅) labels
          t.labels.codes_ne fun _ => by simp [labelMerge] } }

def writeLabels (labels : List LabelProgress) (stored : TallyMap String LabelRow)
    (t : RunTables) : RunTables :=
  { t with
    labels :=
      { rows := (labelMerge id).writeFrom stored t.labels.rows labels
        collate_label := (labelMerge id).forall_writeFrom (P := fun k r => id r.label = k) stored
          labels t.labels.collate_label (fun _ _ => rfl) fun _ _ _ h => h
        codes_ne := (labelMerge id).forall_writeFrom (P := fun _ r => r.codes ≠ some ∅) stored
          labels t.labels.codes_ne (fun _ _ => mergeCodes_ne _ _)
          fun _ _ _ _ => mergeCodes_ne _ _ } }

def openSignatures (sigs : List ErrorSignature) (t : RunTables) : RunTables :=
  { t with signatures := signatureMerge.opened t.signatures sigs }

def writeSignatures (sigs : List ErrorSignature) (stored : TallyMap Signature SignatureRow)
    (t : RunTables) : RunTables :=
  { t with signatures := signatureMerge.writeFrom stored t.signatures sigs }

def openSeries (rows : List SeriesRow) (t : RunTables) : RunTables :=
  { t with
    series :=
      { rows := seriesMerge.opened t.series.rows rows
        latency_ne := seriesMerge.forall_opened (P := fun _ r => r.latency ≠ some ∅) rows
          t.series.latency_ne fun _ => by simp [seriesMerge] } }

def writeSeries (rows : List SeriesRow) (stored : TallyMap ℤ SeriesSecond) (t : RunTables) :
    RunTables :=
  { t with
    series :=
      { rows := seriesMerge.writeFrom stored t.series.rows rows
        latency_ne := seriesMerge.forall_writeFrom (P := fun _ r => r.latency ≠ some ∅) stored
          rows t.series.latency_ne (fun _ _ => mergedSeriesLatency_ne _ _)
          fun _ _ _ _ => mergedSeriesLatency_ne _ _ } }

/-! ### The transaction -/

section Transaction

variable (scan : Scan Row)

/-- `lockShard`; what follows depends on the sequence it returns. -/
def lockShardTask (b : ProgressBatch) (next : ℤ → Transaction) : Transaction :=
  .write [.shard b.shardKey] (openShard b) <|
    .read scan [.shard b.shardKey] fun t =>
      let row := (t.shards[b.shardKey]?).getD (.opened b.streamId)
      if row.streamId ≠ b.streamId then .write [.shard b.shardKey] (resetShard b) (next 0)
      else next row.seq

/-- `mergeSecondLabels`. It opens no rows: they have just been written. -/
def mergeSecondLabelsTask (seconds : List SecondProgress) (next : Transaction) : Transaction :=
  let pending := seconds.filter fun sec => !(sec.labelLatency.getD ∅).isEmpty
  let rows := pending.map fun sec => Row.second sec.second
  if pending.isEmpty then next
  else
    .read scan rows fun t =>
      .write rows (writeSecondLabels pending (secondLabelMerge.stored t.seconds pending)) next

def mergeLabelsTask (labels : List LabelProgress) (next : Transaction) : Transaction :=
  .merge scan (labels.map fun l => .label l.label) (openLabels labels)
    (fun t => (labelMerge id).stored t.labels.rows labels) (writeLabels labels) next

def mergeSignaturesTask (sigs : List ErrorSignature) (next : Transaction) : Transaction :=
  .merge scan (sigs.map fun sig => .signature sig.signature) (openSignatures sigs)
    (fun t => signatureMerge.stored t.signatures sigs) (writeSignatures sigs) next

def mergeSeriesSecondsTask (v : Visit) (fresh : List Interval) (next : Transaction) :
    Transaction :=
  let rows := seriesRows v fresh
  .merge scan (rows.map fun row => .series row.second) (openSeries rows)
    (fun t => seriesMerge.stored t.series.rows rows) (writeSeries rows) next

def mergeProgressTask (s : Snapshot) (next : Transaction) : Transaction :=
  .writeEach (fun sec => .second sec.second) writeSecond s.seconds <|
    mergeSecondLabelsTask scan s.seconds <|
      mergeLabelsTask scan s.labels <|
        mergeSignaturesTask scan s.signatures next

def absorbTask (v : Visit) (b : ProgressBatch) : Transaction :=
  lockShardTask scan b fun watermark =>
    let (fresh, freshIntervals, highest) :=
      b.intervals.foldl (absorbInterval watermark) (newAccumulator, [], watermark)
    -- the last statement is on the row that was locked first
    let advance := Task.write [.shard b.shardKey] (advanceShard b highest) .commit
    if freshIntervals ≠ [] then
      mergeProgressTask scan (fresh.snapshot v) <|
        mergeSeriesSecondsTask scan v freshIntervals advance
    else advance

/-! ### Alone, it does what the transaction does -/

theorem alone_lockShardTask (b : ProgressBatch) (next : ℤ → Transaction) (t : RunTables) :
    (lockShardTask scan b next).alone t =
      (next (lockShard t.shards b).2).alone { t with shards := (lockShard t.shards b).1 } := by
  simp only [lockShardTask, Task.alone_write, Task.alone_read, lockShard, openShard]
  split
  case isTrue => rw [Task.alone_write]; rfl
  case isFalse => rfl

theorem alone_mergeSecondLabelsTask (seconds : List SecondProgress) (next : Transaction)
    (t : RunTables) :
    (mergeSecondLabelsTask scan seconds next).alone t =
      next.alone { t with seconds := mergeSecondLabels t.seconds seconds } := by
  simp only [mergeSecondLabelsTask, mergeSecondLabels]
  split
  case isTrue h => rw [List.isEmpty_iff.mp h]; rfl
  case isFalse => rw [Task.alone_read, Task.alone_write]; rfl

theorem alone_mergeLabelsTask (labels : List LabelProgress) (next : Transaction)
    (t : RunTables) :
    (mergeLabelsTask scan labels next).alone t =
      next.alone { t with labels := mergeLabels t.labels labels } := by
  refine Task.alone_merge scan next t fun hnil => ?_
  obtain rfl : labels = [] := by simpa using hnil
  rfl

theorem alone_mergeSignaturesTask (sigs : List ErrorSignature) (next : Transaction)
    (t : RunTables) :
    (mergeSignaturesTask scan sigs next).alone t =
      next.alone { t with signatures := mergeSignatures t.signatures sigs } := by
  refine Task.alone_merge scan next t fun hnil => ?_
  obtain rfl : sigs = [] := by simpa using hnil
  rfl

theorem alone_mergeSeriesSecondsTask (v : Visit) (fresh : List Interval) (next : Transaction)
    (t : RunTables) :
    (mergeSeriesSecondsTask scan v fresh next).alone t =
      next.alone { t with series := mergeSeriesSeconds v t.series fresh } := by
  refine Task.alone_merge scan next t fun hnil => ?_
  have hrows : seriesRows v fresh = [] := by simpa using hnil
  rw [hrows]
  rfl

theorem foldl_writeSecond (seconds : List SecondProgress) (t : RunTables) :
    seconds.foldl (fun t sec => writeSecond sec t) t =
      { t with seconds := mergeSeconds t.seconds seconds } := by
  induction seconds generalizing t with
  | nil => rfl
  | cons sec seconds ih => rw [List.foldl_cons, ih]; rfl

theorem alone_mergeProgressTask (s : Snapshot) (next : Transaction) (t : RunTables) :
    (mergeProgressTask scan s next).alone t = next.alone (mergeProgress t s) := by
  rw [mergeProgressTask, Task.alone_writeEach, alone_mergeSecondLabelsTask,
    alone_mergeLabelsTask, alone_mergeSignaturesTask, foldl_writeSecond]
  rfl

/-- The statements, run without interruption, are the transaction. -/
theorem alone_absorbTask (v : Visit) (b : ProgressBatch) (t : RunTables) :
    (absorbTask scan v b).alone t = absorbTx v t b := by
  rw [absorbTask, alone_lockShardTask]
  simp only [absorbTx]
  split
  case isTrue =>
    rw [alone_mergeProgressTask, alone_mergeSeriesSecondsTask, Task.alone_write]
    rfl
  case isFalse => rw [Task.alone_write]; rfl

/-! ### Locks are taken in order -/

def Before (table : ℕ) (held : Finset Row) : Prop := ∀ h ∈ held, h.table < table

variable {scan}

section Ordered

variable {held : Finset Row} {rows : List Row} {k : ℕ} {next : Transaction}

theorem Before.lt (hheld : Before k held) (hrows : ∀ r ∈ rows, r.table = k) :
    ∀ h ∈ held, ∀ r ∈ rows, h < r := by
  intro h hh r hr
  refine Row.lt_of_table_lt ?_
  rw [hrows r hr]
  exact hheld h hh

theorem Before.union (hheld : Before k held) (hrows : ∀ r ∈ rows, r.table = k) :
    Before (k + 1) (held ∪ rows.toFinset) := by
  intro h hh
  rcases Finset.mem_union.mp hh with hh | hh
  · exact Nat.lt_succ_of_lt (hheld h hh)
  · rw [hrows h (List.mem_toFinset.mp hh)]
    exact Nat.lt_succ_self k

theorem ordered_mergeTable {A : Type} {opened : RunTables → RunTables} {stored : RunTables → A}
    {written : A → RunTables → RunTables} (hheld : Before k held)
    (hrows : ∀ r ∈ rows, r.table = k) (hsorted : rows.Pairwise (· < ·))
    (hnext : ∀ held', held ⊆ held' → Before (k + 1) held' → next.Ordered held') :
    (Task.merge scan rows opened stored written next).Ordered held :=
  Task.ordered_merge hsorted (hheld.lt hrows)
    (hnext _ Finset.subset_union_left (hheld.union hrows))

theorem ordered_mergeSecondLabelsTask {seconds : List SecondProgress}
    (hrows : ∀ sec ∈ seconds, Row.second sec.second ∈ held) (hnext : next.Ordered held) :
    (mergeSecondLabelsTask scan seconds next).Ordered held := by
  simp only [mergeSecondLabelsTask]
  split
  case isTrue => exact hnext
  case isFalse =>
    have hpending : ∀ r ∈ (seconds.filter fun sec =>
        !(sec.labelLatency.getD ∅).isEmpty).map fun sec => Row.second sec.second, r ∈ held := by
      intro r hr
      obtain ⟨sec, hsec, rfl⟩ := List.mem_map.mp hr
      exact hrows sec (List.mem_of_mem_filter hsec)
    exact Task.ordered_read_of_held hpending fun t =>
      Task.ordered_write_of_held hpending hnext

/-- The rows of a snapshot are first locked in the order the snapshot lists
them in, which is sorted. -/
theorem ordered_mergeProgressTask (a : Accumulator) (v : Visit) (hheld : Before 1 held)
    (hnext : ∀ held', held ⊆ held' → Before 4 held' → next.Ordered held') :
    (mergeProgressTask scan (a.snapshot v) next).Ordered held := by
  have hseconds : ((a.snapshot v).seconds.map fun sec => Row.second sec.second).Pairwise
      (· < ·) := by
    rw [a.snapshot_eq, List.map_map, List.pairwise_map]
    exact a.seconds.pairwise_toList.imp Row.second_lt.mpr
  have hlabels : ((a.snapshot v).labels.map fun l => Row.label l.label).Pairwise (· < ·) := by
    rw [a.snapshot_eq, List.map_map, List.pairwise_map]
    exact a.labels.pairwise_toList.imp Row.label_lt.mpr
  have hsignatures : ((a.snapshot v).signatures.map fun sig =>
      Row.signature sig.signature).Pairwise (· < ·) := by
    rw [a.snapshot_eq, List.map_map, List.pairwise_map]
    exact a.signatures.pairwise_toList.imp Row.signature_lt.mpr
  have hone : ∀ r ∈ (a.snapshot v).seconds.map fun sec => Row.second sec.second, r.table = 1 := by
    simp [Row.table]
  -- table by table: seconds, seconds again, labels, signatures
  refine Task.ordered_writeEach hseconds (hheld.lt hone) ?_
  refine ordered_mergeSecondLabelsTask (fun sec hsec => ?_) ?_
  · exact Finset.mem_union_right _ (List.mem_toFinset.mpr (List.mem_map_of_mem hsec))
  refine ordered_mergeTable (hheld.union hone) (by simp [Row.table]) hlabels ?_
  intro held₁ hsub₁ hheld₁
  refine ordered_mergeTable hheld₁ (by simp [Row.table]) hsignatures ?_
  intro held₂ hsub₂ hheld₂
  exact hnext held₂ ((Finset.subset_union_left.trans hsub₁).trans hsub₂) hheld₂

theorem ordered_mergeSeriesSecondsTask (v : Visit) (fresh : List Interval)
    (hheld : Before 4 held) (hnext : ∀ held', held ⊆ held' → next.Ordered held') :
    (mergeSeriesSecondsTask scan v fresh next).Ordered held := by
  refine ordered_mergeTable hheld (by simp [Row.table]) ?_ fun held' hsub _ => hnext held' hsub
  rw [seriesRows_eq, List.map_map, List.pairwise_map]
  exact (TallyMap.pairwise_toList _).imp Row.series_lt.mpr

theorem ordered_lockShardTask {b : ProgressBatch} {next : ℤ → Transaction}
    (hnext : ∀ watermark, (next watermark).Ordered {.shard b.shardKey}) :
    (lockShardTask scan b next).Ordered ∅ := by
  refine Task.ordered_write (List.pairwise_singleton _ _) (by simp) ?_
  refine Task.ordered_read_of_held (by simp) fun t => ?_
  simp only [Finset.empty_union, List.toFinset_cons, List.toFinset_nil, insert_empty_eq]
  split
  case isTrue => exact Task.ordered_write_of_held (by simp) (hnext 0)
  case isFalse => exact hnext _

end Ordered

theorem ordered_absorbTask (v : Visit) (b : ProgressBatch) :
    (absorbTask scan v b).Ordered ∅ := by
  refine ordered_lockShardTask fun watermark => ?_
  have hshard : Before 1 {.shard b.shardKey} := by simp [Before, Row.table]
  -- the last statement locks the shard's row again, whatever else is held by then
  have hadvance (highest : ℤ) (held : Finset Row) (hheld : {.shard b.shardKey} ⊆ held) :
      (Task.write [.shard b.shardKey] (advanceShard b highest) .commit : Transaction).Ordered
        held :=
    Task.ordered_write_of_held (by simpa using hheld) trivial
  simp only
  split
  case isTrue =>
    refine ordered_mergeProgressTask _ v hshard fun held hsub hheld => ?_
    exact ordered_mergeSeriesSecondsTask v _ hheld fun held' hsub' =>
      hadvance _ held' (hsub.trans hsub')
  case isFalse => exact hadvance _ _ subset_rfl

end Transaction

/-! ### Concurrent transactions -/

/-- Any number of concurrent `Absorb`s of a run. In every state they reach, a
row that a transaction asks for and does not hold comes after all the rows it
holds; no transactions wait for each other in a circle; and all of them can be
brought to their end. -/
theorem absorb_deadlockFree {n : ℕ} (scan : Fin n → Scan Row) (v : Fin n → Visit)
    (batch : Fin n → ProgressBatch) (t : RunTables) (s : State (Fin n) Row RunTables)
    (hs : Reaches (.start t fun i => absorbTask (scan i) (v i) (batch i)) s) :
    (∀ i r next, s.task i = some (.lock r next) → r ∈ s.held i ∨ ∀ h ∈ s.held i, h < r) ∧
      (∀ i, ¬ Relation.TransGen (WaitsFor s) i i) ∧
      ∃ s', Relation.ReflTransGen Step s s' ∧ s'.Ended := by
  have hsound : Sound s := (sound_start fun i => ordered_absorbTask (v i) (batch i)).reaches hs
  refine ⟨fun i r next htask => ?_, hsound.acyclic, hsound.exists_ended⟩
  exact (hsound.ordered htask).1

def firstPush : ProgressBatch :=
  { runId := 1, scenarioId := 1, shardIndex := 0, cluster := "", streamId := "a",
    final := false, exitCode := none, intervals := [] }

/-- Two deliveries of it: one has the lock on the shard's row, and the other
waits for it. -/
theorem absorb_deadlockFree_twoDeliveries :
    ∃ s : State (Fin 2) Row RunTables,
      Reaches (.start .empty fun _ => absorbTask .listed .sorted firstPush) s ∧
        WaitsFor s 1 0 ∧ ¬ Relation.TransGen (WaitsFor s) 1 1 ∧
        ∃ s', Relation.ReflTransGen Step s s' ∧ s'.Ended := by
  have hstep : Step (.start .empty fun _ : Fin 2 => absorbTask .listed .sorted firstPush) _ :=
    .lock (i := 0) rfl fun _ _ => Finset.notMem_empty _
  have h := absorb_deadlockFree (fun _ => .listed) (fun _ => .sorted) (fun _ => firstPush)
    .empty _ hstep.reaches
  refine ⟨_, hstep.reaches, ⟨_, _, rfl, by decide, ?_⟩, h.2.1 1, h.2.2⟩
  simp

end Honryu.Progress
