import Honryu.Progress.Sql

/-!
The SQL store keeps the ledger. Every merge of the transaction adds the part of
the snapshot it is given to what its table shows, so a transaction adds what is
new in the batch, and the two writes of the shard's row move the mark.
-/

namespace Honryu.Progress

open Metrics Report

/-! ### What the tables show -/

def LabelRow.state (r : LabelRow) : LabelState :=
  { codes := r.codes, samples := r.samples, failed := r.failed, latency := r.latency.getD ∅ }

def RunTables.ledger (t : RunTables) : Ledger :=
  { tally :=
      { labels := t.labels.rows.mapValues LabelRow.state
        seconds := t.seconds
        counts := t.signatures.mapValues (·.count) }
    series := t.series.rows
    shards := t.shards }

def Repository.ledger (r : Repository) (runId : ℤ) : Ledger := (r.run runId).ledger

/-! ### Documents are never empty -/

section

variable {K V : Type} [LinearOrder K]

theorem nonempty?_ne (m : TallyMap K V) : nonempty? m ≠ some 0 := by
  by_cases h : m = 0
  · simp [h, nonempty?_zero]
  · simpa [nonempty?_of_ne_zero h] using h

theorem nonempty?_getD {x : Option (TallyMap K V)} (hx : x ≠ some 0) :
    nonempty? (x.getD 0) = x := by
  cases x with
  | none => rfl
  | some m => exact nonempty?_of_ne_zero fun h => hx (congrArg some h)

theorem document_add_ne [AddCommMonoid V] {x y : Option (TallyMap K V)}
    (hx : x ≠ some 0) (hy : y ≠ some 0) : x + y ≠ some 0 := by
  cases x with
  | none => rwa [Option.none_add]
  | some a =>
      cases y with
      | none => rwa [Option.add_none]
      | some b =>
          rw [Option.some_add_some, Ne, Option.some_inj, TallyMap.add_eq_zero]
          rintro ⟨rfl, -⟩
          exact hx rfl

end

theorem codes_ne_of_intervalsTally (ivs : List Interval) :
    ∀ (label : String) st, (intervalsTally ivs).labels[label]? = some st →
      st.codes ≠ some 0 := by
  induction ivs with
  | nil => simp [intervalsTally_nil, show (0 : Tally).labels = 0 from rfl]
  | cons iv ivs ih =>
      rw [intervalsTally_cons]
      refine TallyMap.forall_add (P := fun st : LabelState => st.codes ≠ some 0)
        (fun a b ha hb => document_add_ne ha hb) ?_ ih
      unfold intervalTally
      split
      · simp
      · exact TallyMap.forall_single (nonempty?_ne _)

theorem labelLatency_ne_of_intervalsTally (ivs : List Interval) :
    ∀ (second : ℤ) st, (intervalsTally ivs).seconds[second]? = some st →
      st.labelLatency ≠ some 0 := by
  have hpart (iv : Interval) : (secondPart iv).labelLatency ≠ some 0 := by
    cases h : nonempty? iv.latency with
    | none => simp [secondPart, latencyPart, h]
    | some l => simpa [secondPart, latencyPart, h] using TallyMap.single_ne_zero _ _
  induction ivs with
  | nil => simp [intervalsTally_nil, show (0 : Tally).seconds = 0 from rfl]
  | cons iv ivs ih =>
      rw [intervalsTally_cons]
      refine TallyMap.forall_add (P := fun st : SecondState => st.labelLatency ≠ some 0)
        (fun a b ha hb => document_add_ne ha hb) ?_ ih
      unfold intervalTally
      split
      · exact TallyMap.forall_single (by simp [enginePart])
      · exact TallyMap.forall_single (hpart iv)

/-! ### Each merge adds -/

theorem mergeCodes_eq {stored delta : Option (TallyMap String ℤ)} (hs : stored ≠ some 0)
    (hd : delta ≠ some 0) : mergeCodes stored delta = stored + delta := by
  calc mergeCodes stored delta
      = nonempty? (stored.getD 0 + delta.getD 0) := by
        simp only [mergeCodes, nonempty?, Bool.and_eq_true, isEmpty_eq_true_iff,
          TallyMap.add_eq_zero, TallyMap.empty_eq_zero, TallyMap.merge_eq_add]
    _ = stored + delta := by rw [nonempty?_add, nonempty?_getD hs, nonempty?_getD hd]

def labelDelta (l : LabelProgress) : LabelState :=
  { codes := l.codes, samples := l.samples, failed := l.failed, latency := l.latency }

theorem exact_labelMerge : (labelMerge (id : String → String)).Exact where
  name_eq _ := rfl
  rowName_blank _ := rfl

theorem mapValues_mergeLabels (t : LabelTable (id : String → String)) {ls : List LabelProgress}
    (hkeys : (ls.map (·.label)).Nodup) (hcodes : ∀ l ∈ ls, l.codes ≠ some 0) :
    (mergeLabels t ls).rows.mapValues LabelRow.state =
      t.rows.mapValues LabelRow.state +
        (ls.map fun l => TallyMap.single l.label (labelDelta l)).sum := by
  refine RowMerge.mapValues_run exact_labelMerge t.collate_label hkeys LabelRow.state labelDelta
    (fun _ _ => rfl) fun l hl r hr => ?_
  have hstored : r.codes ≠ some 0 := by
    rcases hr with rfl | hr
    · simp [labelMerge]
    · exact t.codes_ne _ r hr
  refine LabelState.ext (mergeCodes_eq hstored (hcodes l hl)) rfl rfl ?_
  change (0 + r.latency.getD ∅) + l.latency = r.latency.getD ∅ + l.latency
  rw [zero_add]

theorem exact_secondLabelMerge : secondLabelMerge.Exact where
  name_eq _ := rfl
  rowName_blank _ := rfl

theorem exact_signatureMerge : signatureMerge.Exact where
  name_eq _ := rfl
  rowName_blank _ := rfl

theorem exact_seriesMerge : seriesMerge.Exact where
  name_eq _ := rfl
  rowName_blank _ := rfl

theorem mapValues_mergeSignatures (t : TallyMap Signature SignatureRow)
    {sigs : List ErrorSignature} (hkeys : (sigs.map (·.signature)).Nodup) :
    (mergeSignatures t sigs).mapValues (·.count) =
      t.mapValues (·.count) +
        (sigs.map fun sig => TallyMap.single sig.signature sig.count).sum :=
  RowMerge.mapValues_run exact_signatureMerge (fun _ _ _ => rfl) hkeys (·.count) (·.count)
    (fun _ _ => rfl) fun _ _ _ _ => rfl

def labelLatencyPart (sec : SecondProgress) : SecondState :=
  { engine := 0, labels := 0, latSum := 0, latSamples := 0, labelLatency := sec.labelLatency }

theorem mergeSeconds_eq (t : TallyMap ℤ SecondState) {secs : List SecondProgress}
    (hkeys : (secs.map (·.second)).Nodup) :
    mergeSeconds t secs =
      t + (secs.map fun sec => TallyMap.single sec.second (secondRow sec)).sum := by
  have h : (mergeSeconds t secs).mapValues id = _ :=
    TallyMap.mapValues_upsertAll t hkeys id secondRow (fun _ _ => rfl)
    fun _ _ _ => SecondState.ext rfl rfl rfl rfl (Option.add_none _).symm
  rwa [TallyMap.mapValues_id, TallyMap.mapValues_id] at h

def pendingSeconds (secs : List SecondProgress) : List SecondProgress :=
  secs.filter fun sec => !(sec.labelLatency.getD ∅).isEmpty

theorem mergeSecondLabels_eq (t : TallyMap ℤ SecondState) {secs : List SecondProgress}
    (hkeys : (secs.map (·.second)).Nodup)
    (hrows : ∀ sec ∈ secs, ∃ r, t[sec.second]? = some r) :
    mergeSecondLabels t secs =
      t + ((pendingSeconds secs).map fun sec =>
        TallyMap.single sec.second (labelLatencyPart sec)).sum := by
  have hnodup : ((pendingSeconds secs).map (·.second)).Nodup :=
    hkeys.sublist (List.filter_sublist.map _)
  have h : (mergeSecondLabels t secs).mapValues id = _ :=
    RowMerge.mapValues_write exact_secondLabelMerge (t := t) (fun _ _ _ => rfl) hnodup id
      labelLatencyPart ?_
  · rwa [TallyMap.mapValues_id, TallyMap.mapValues_id] at h
  · intro sec hsec
    obtain ⟨hmem, hne⟩ := List.mem_filter.mp hsec
    obtain ⟨r, hr⟩ := hrows sec hmem
    refine ⟨r, hr, ?_⟩
    cases hdoc : sec.labelLatency with
    | none => simp [hdoc] at hne
    | some d =>
        refine SecondState.ext (add_zero _).symm (add_zero _).symm (add_zero _).symm
          (add_zero _).symm ?_
        change some (r.labelLatency.getD 0 + (sec.labelLatency).getD 0) =
          r.labelLatency + sec.labelLatency
        rw [hdoc, Option.getD_some, Option.some_getD_add]

def secondDelta (sec : SecondProgress) : SecondState := sec.entry.2

/-- The figures of every second and the documents of those that have one are
the seconds as a whole. -/
theorem sum_secondRow_add_pending {secs : List SecondProgress}
    (hdoc : ∀ sec ∈ secs, sec.labelLatency ≠ some 0) :
    (secs.map fun sec => TallyMap.single sec.second (secondRow sec)).sum +
        ((pendingSeconds secs).map fun sec =>
          TallyMap.single sec.second (labelLatencyPart sec)).sum =
      (secs.map fun sec => TallyMap.single sec.second (secondDelta sec)).sum := by
  induction secs with
  | nil => simp [pendingSeconds]
  | cons sec secs ih =>
      have ih := ih fun x hx => hdoc x (List.mem_cons_of_mem _ hx)
      have hsec := hdoc sec List.mem_cons_self
      have hwhole : secondRow sec + labelLatencyPart sec = secondDelta sec :=
        SecondState.ext (add_zero _) (add_zero _) (add_zero _) (add_zero _) (Option.none_add _)
      -- a second without a document is whole after the first statement
      cases hl : sec.labelLatency with
      | none =>
          have hrow : secondRow sec = secondDelta sec := by
            simp [secondRow, secondDelta, SecondProgress.entry, hl]
          have hskip : pendingSeconds (sec :: secs) = pendingSeconds secs :=
            List.filter_cons_of_neg (by simp [hl])
          rw [hskip, List.map_cons, List.sum_cons, add_assoc, ih, List.map_cons, List.sum_cons,
            hrow]
      | some d =>
          have hne : d ≠ 0 := fun h => hsec (by rw [hl, h])
          have htake : pendingSeconds (sec :: secs) = sec :: pendingSeconds secs := by
            refine List.filter_cons_of_pos ?_
            simpa [hl, ← isEmpty_eq_true_iff] using hne
          rw [htake, List.map_cons, List.sum_cons, List.map_cons, List.sum_cons,
            add_add_add_comm, ih, ← TallyMap.single_add, hwhole, List.map_cons, List.sum_cons]

theorem merge_seconds_eq (t : TallyMap ℤ SecondState) {secs : List SecondProgress}
    (hkeys : (secs.map (·.second)).Nodup) (hdoc : ∀ sec ∈ secs, sec.labelLatency ≠ some 0) :
    mergeSecondLabels (mergeSeconds t secs) secs =
      t + (secs.map fun sec => TallyMap.single sec.second (secondDelta sec)).sum := by
  rw [mergeSecondLabels_eq _ hkeys, mergeSeconds_eq t hkeys, add_assoc,
    sum_secondRow_add_pending hdoc]
  intro sec hsec
  exact ⟨_, TallyMap.getElem?_upsertAll_of_mem t hkeys hsec⟩

theorem mergedSeriesLatency_eq {r : SeriesSecond} (hr : r.latency ≠ some 0) (row : SeriesRow) :
    mergedSeriesLatency (some r) row = r.latency + nonempty? row.latency := by
  have hempty : (row.hasBuckets || !(r.latency.getD 0).isEmpty) =
      !(r.latency.getD 0 + row.latency).isEmpty := by
    rw [row.hasBuckets_eq, ← Bool.not_and, Bool.not_inj_iff, Bool.eq_iff_iff, Bool.and_eq_true,
      isEmpty_eq_true_iff, isEmpty_eq_true_iff, isEmpty_eq_true_iff, TallyMap.add_eq_zero,
      and_comm]
  calc mergedSeriesLatency (some r) row
      = nonempty? (r.latency.getD 0 + row.latency) := by
        simp only [mergedSeriesLatency, nonempty?, Option.bind_some, TallyMap.empty_eq_zero,
          hempty, Histogram.merge_eq, zero_add]
        cases (r.latency.getD 0 + row.latency).isEmpty <;> rfl
    _ = r.latency + nonempty? row.latency := by rw [nonempty?_add, nonempty?_getD hr]

def seriesDelta (row : SeriesRow) : SeriesSecond :=
  { engine := row.engine, labels := row.labels, samples := row.samples, failed := row.failed,
    bytes := row.bytes, latency := nonempty? row.latency }

theorem seriesRows_eq (v : Visit) (fresh : List Interval) :
    seriesRows v fresh = (TallyMap.groupBy Interval.timestamp fresh).toList.map fun p =>
      SeriesRow.ofMerged p.1 (mergeSecond p.2) := by
  simp only [seriesRows, v.sort_keys]
  exact TallyMap.keys_map_getD _ [] fun ts rows => SeriesRow.ofMerged ts (mergeSecond rows)

theorem mergeSeriesSeconds_rows (v : Visit) (t : SeriesTable) (fresh : List Interval) :
    (mergeSeriesSeconds v t fresh).rows = t.rows + seriesOf fresh := by
  have hkeys : ((seriesRows v fresh).map (·.second)).Nodup := by
    rw [seriesRows_eq, List.map_map]
    exact TallyMap.nodup_toList _
  have hsum : ((seriesRows v fresh).map fun row =>
      TallyMap.single row.second (seriesDelta row)).sum = seriesOf fresh := by
    have hgroups := TallyMap.sum_single_map_toList (fun l => (l.map seriesPart).sum)
      (TallyMap.groupBy Interval.timestamp fresh)
    rw [seriesOf, ← TallyMap.mapValues_groupBy Interval.timestamp seriesPart fresh, ← hgroups,
      seriesRows_eq, List.map_map]
    refine congrArg List.sum (List.map_congr_left fun p _ => ?_)
    exact congrArg (TallyMap.single p.1) (ofMerged_mergeSecond p.2)
  have h : (mergeSeriesSeconds v t fresh).rows.mapValues id = _ :=
    RowMerge.mapValues_run exact_seriesMerge (t := t.rows)
    (fun _ _ _ => rfl) hkeys id seriesDelta (fun _ _ => rfl) ?_
  · rw [TallyMap.mapValues_id, TallyMap.mapValues_id] at h
    exact h.trans (congrArg (t.rows + ·) hsum)
  · intro row _ r hr
    have hlatency : r.latency ≠ some 0 := by
      rcases hr with rfl | hr
      · simp [seriesMerge]
      · exact t.latency_ne _ r hr
    exact SeriesSecond.ext rfl rfl rfl rfl rfl (mergedSeriesLatency_eq hlatency row)

/-! ### The transaction as a whole -/

def absorbPiece (v : Visit) (t : RunTables) (ivs : List Interval) : RunTables :=
  let t := mergeProgress t ((newAccumulator.addAll ivs).snapshot v)
  { t with series := mergeSeriesSeconds v t.series ivs }

theorem absorbPiece_nil (v : Visit) (t : RunTables) : absorbPiece v t [] = t := by
  have hsnap : newAccumulator.snapshot v = { labels := [], seconds := [], signatures := [] } := by
    rw [Accumulator.snapshot_eq]
    rfl
  have hseries : seriesRows v [] = [] := by
    rw [seriesRows_eq]
    rfl
  have hlabels : mergeLabels t.labels [] = t.labels := rfl
  refine RunTables.ext rfl ?_ ?_ ?_ ?_
  · simp only [absorbPiece, mergeProgress, Accumulator.addAll_nil, hsnap]
    rfl
  · simp only [absorbPiece, mergeProgress, Accumulator.addAll_nil, hsnap, hlabels]
  · simp only [absorbPiece, mergeProgress, Accumulator.addAll_nil, hsnap]
    rfl
  · refine SeriesTable.ext ?_
    simp only [absorbPiece, mergeProgress, mergeSeriesSeconds, hseries, RowMerge.run_nil]

section Snapshot

variable (v : Visit) {a : Accumulator} {ivs : List Interval}

theorem mapValues_mergeLabels_snapshot (ha : a.tally = intervalsTally ivs)
    (t : LabelTable (id : String → String)) :
    (mergeLabels t (a.snapshot v).labels).rows.mapValues LabelRow.state =
      t.rows.mapValues LabelRow.state + a.labels := by
  have hlabels : (a.snapshot v).labels = a.labels.toList.map LabelProgress.ofEntry := by
    rw [Accumulator.snapshot_eq]
  rw [hlabels, mapValues_mergeLabels, List.map_map]
  · exact congrArg _ a.labels.sum_single_toList
  · rw [List.map_map]
    exact a.labels.nodup_toList
  · intro l hl
    obtain ⟨p, hp, rfl⟩ := List.mem_map.mp hl
    refine codes_ne_of_intervalsTally ivs p.1 p.2 ?_
    rw [← ha]
    exact TallyMap.mem_toList_iff.mp hp

theorem merge_seconds_snapshot (ha : a.tally = intervalsTally ivs)
    (t : TallyMap ℤ SecondState) :
    mergeSecondLabels (mergeSeconds t (a.snapshot v).seconds) (a.snapshot v).seconds =
      t + a.seconds := by
  have hseconds : (a.snapshot v).seconds = a.seconds.toList.map SecondProgress.ofEntry := by
    rw [Accumulator.snapshot_eq]
  rw [hseconds, merge_seconds_eq, List.map_map]
  · exact congrArg _ a.seconds.sum_single_toList
  · rw [List.map_map]
    exact a.seconds.nodup_toList
  · intro sec hsec
    obtain ⟨p, hp, rfl⟩ := List.mem_map.mp hsec
    refine labelLatency_ne_of_intervalsTally ivs p.1 p.2 ?_
    rw [← ha]
    exact TallyMap.mem_toList_iff.mp hp

theorem mapValues_mergeSignatures_snapshot (t : TallyMap Signature SignatureRow) :
    (mergeSignatures t (a.snapshot v).signatures).mapValues (·.count) =
      t.mapValues (·.count) + a.signatures.mapValues (·.count) := by
  have hsigs : (a.snapshot v).signatures =
      a.signatures.toList.map ErrorSignature.ofEntry := by
    rw [Accumulator.snapshot_eq]
  rw [hsigs, mapValues_mergeSignatures, List.map_map]
  · exact congrArg _ (TallyMap.sum_single_map_toList ErrorTally.count a.signatures)
  · rw [List.map_map]
    exact a.signatures.nodup_toList

end Snapshot

theorem ledger_absorbPiece (v : Visit) (t : RunTables) (ivs : List Interval) :
    (absorbPiece v t ivs).ledger =
      { tally := t.ledger.tally + intervalsTally ivs
        series := t.ledger.series + seriesOf ivs
        shards := t.ledger.shards } := by
  have ha : (newAccumulator.addAll ivs).tally = intervalsTally ivs := by
    rw [Accumulator.tally_addAll, tally_newAccumulator, zero_add]
  refine Ledger.ext (Tally.ext ?_ ?_ ?_) (mergeSeriesSeconds_rows v t.series ivs) rfl
  · rw [← ha]
    exact mapValues_mergeLabels_snapshot v ha t.labels
  · rw [← ha]
    exact merge_seconds_snapshot v ha t.seconds
  · rw [← ha]
    exact mapValues_mergeSignatures_snapshot v t.signatures

theorem foldl_absorbInterval (mark : ℤ) (a : Accumulator) (l : List Interval) (h : ℤ)
    (ivs : List Interval) :
    ivs.foldl (absorbInterval mark) (a, l, h) =
      let new := ivs.filter fun iv => mark < iv.seq
      (a.addAll new, l ++ new, highest h new) := by
  induction ivs generalizing a l h with
  | nil => simp [highest]
  | cons iv ivs ih =>
      rw [List.foldl_cons, absorbInterval]
      by_cases hseq : iv.seq ≤ mark
      · rw [if_pos hseq, ih, List.filter_cons_of_neg (by simpa using hseq)]
      · rw [if_neg hseq, ih, List.filter_cons_of_pos (by simpa using hseq), ← max_def_lt]
        simp [Accumulator.addAll, highest]

theorem lockShard_eq (shards : TallyMap ShardKey ShardStream) (b : ProgressBatch) :
    lockShard shards b =
      let s := ShardStream.enter shards[b.shardKey]? b.streamId
      (shards.insert b.shardKey s, s.seq) := by
  have hopen : shards.upsert b.shardKey (.opened b.streamId) id =
      shards.insert b.shardKey ((shards[b.shardKey]?).getD (.opened b.streamId)) := by
    rw [TallyMap.upsert]
    cases shards[b.shardKey]? <;> rfl
  have hrow (r : ShardStream) : (shards.insert b.shardKey r)[b.shardKey]? = some r := by
    rw [TallyMap.getElem?_insert_eq_ite, if_pos rfl]
  simp only [lockShard, hopen, hrow, Option.getD_some, TallyMap.updateRow_insert, ite_not,
    ShardStream.enter]
  split <;> rfl

/-- A transaction merges what lies past the mark and moves the mark. -/
theorem absorbTx_eq (v : Visit) (t : RunTables) (b : ProgressBatch) :
    absorbTx v t b =
      { absorbPiece v t (t.ledger.fresh b) with
        shards := t.shards.insert b.shardKey ((t.ledger.enter b).advance b) } := by
  have hmerge (t : RunTables) (new : List Interval) :
      (if new ≠ [] then
        let t := mergeProgress t ((newAccumulator.addAll new).snapshot v)
        { t with series := mergeSeriesSeconds v t.series new } else t) =
      absorbPiece v t new := by
    by_cases hnew : new = []
    · rw [if_neg (not_not.mpr hnew), hnew, absorbPiece_nil]
    · rw [if_pos hnew]
      rfl
  simp only [absorbTx, lockShard_eq, foldl_absorbInterval, List.nil_append, hmerge]
  refine RunTables.ext ?_ rfl rfl rfl rfl
  exact TallyMap.updateRow_insert _ _ _ _

theorem ledger_absorbTx (v : Visit) (t : RunTables) (b : ProgressBatch) :
    (absorbTx v t b).ledger = t.ledger.absorb b := by
  have hpiece := ledger_absorbPiece v t (t.ledger.fresh b)
  have htally := congrArg Ledger.tally hpiece
  have hseries := congrArg Ledger.series hpiece
  rw [absorbTx_eq]
  exact Ledger.ext htally hseries rfl

def absorbPieces (v : Visit) (t : RunTables) (ps : List (ShardKey × List Interval)) : RunTables :=
  ps.foldl (fun t p => absorbPiece v t p.2) t

theorem absorbPieces_shards (v : Visit) (t : RunTables) (ps : List (ShardKey × List Interval))
    (shards : TallyMap ShardKey ShardStream) :
    absorbPieces v { t with shards } ps = { absorbPieces v t ps with shards } := by
  induction ps generalizing t with
  | nil => rfl
  | cons p ps ih => exact ih (absorbPiece v t p.2)

/-- After any number of transactions the tables hold their pieces, merged one
after another, and the shards of the ledger. -/
theorem foldl_absorbTx (v : Visit) (t : RunTables) (bs : List ProgressBatch) :
    bs.foldl (absorbTx v) t =
      { absorbPieces v t (t.ledger.pieces bs) with
        shards := (bs.foldl Ledger.absorb t.ledger).shards } := by
  induction bs generalizing t with
  | nil => rfl
  | cons b bs ih =>
      have hledger := ledger_absorbTx v t b
      rw [List.foldl_cons, ih, hledger, absorbTx_eq, absorbPieces_shards]
      rfl

namespace Repository

theorem absorb_eq_ok {v : Visit} {r r' : Repository} {b : ProgressBatch}
    (h : r.absorb v b = .ok r') : b.Valid ∧ r' = r.apply v b := by
  refine ⟨?_, by rw [apply, h]⟩
  cases hvalid : b.validate with
  | ok => exact hvalid
  | error e =>
      rw [absorb, hvalid] at h
      cases h

theorem absorb_of_valid (v : Visit) (r : Repository) {b : ProgressBatch} (h : b.Valid) :
    r.absorb v b = .ok (r.apply v b) := by
  have hok : r.absorb v b =
      .ok ⟨Function.update r.run b.runId (absorbTx v (r.run b.runId) b)⟩ := by
    rw [absorb, show b.validate = .ok () from h]
    rfl
  rw [apply, hok]

theorem absorb_of_not_valid (v : Visit) (r : Repository) {b : ProgressBatch} (h : ¬b.Valid) :
    ∃ e, r.absorb v b = .error e := by
  cases hvalid : b.validate with
  | ok => exact absurd hvalid h
  | error e =>
      rw [absorb, hvalid]
      exact ⟨e, rfl⟩

theorem applyAll_concat (v : Visit) (bs : List ProgressBatch) (b : ProgressBatch) :
    applyAll v (bs ++ [b]) = (applyAll v bs).apply v b := by
  simp [applyAll]

theorem run_applyAll (v : Visit) (bs : List ProgressBatch) (runId : ℤ) :
    (applyAll v bs).run runId = (inRun runId bs).foldl (absorbTx v) .empty := by
  induction bs using List.reverseRecOn with
  | nil => rfl
  | append_singleton bs b ih =>
      rw [applyAll, List.foldl_append, ← applyAll, inRun, List.filter_append, List.foldl_append,
        ← inRun, ← ih, List.foldl_cons, List.foldl_nil, apply, absorb]
      by_cases hvalid : b.Valid
      · rw [hvalid]
        by_cases hrun : b.runId = runId
        · simp [bind, Except.bind, pure, Except.pure, hvalid, hrun]
        · simp [bind, Except.bind, pure, Except.pure, hrun, Ne.symm hrun]
      · cases herror : b.validate with
        | ok => exact absurd herror hvalid
        | error e => simp [bind, Except.bind, hvalid]

theorem ledger_apply (v : Visit) (r : Repository) (b : ProgressBatch) :
    (r.apply v b).ledger = absorbInto r.ledger b := by
  unfold apply absorb absorbInto
  by_cases hvalid : b.Valid
  · rw [if_pos hvalid, hvalid]
    funext runId
    by_cases hr : runId = b.runId
    · subst hr
      simp [ledger, bind, Except.bind, pure, Except.pure, ledger_absorbTx]
    · simp [ledger, bind, Except.bind, pure, Except.pure, hr]
  · rw [if_neg hvalid]
    cases herror : b.validate with
    | ok => exact absurd herror hvalid
    | error e => rfl

/-- The store keeps the ledger over every sequence of batches. -/
theorem ledger_applyAll (v : Visit) (bs : List ProgressBatch) :
    (applyAll v bs).ledger = ledgers bs := by
  induction bs using List.reverseRecOn with
  | nil => rfl
  | append_singleton bs b ih =>
      rw [applyAll, List.foldl_append, List.foldl_cons, List.foldl_nil, ledgers_concat,
        ledger_apply, ← applyAll, ih]

end Repository

end Honryu.Progress
