import Honryu.Progress.Refinement

/-!
Delivering a batch again.

A shard's mark belongs to the stream that pushed last: a batch of another
stream puts it back to zero. A batch that is delivered again is therefore
judged against what was pushed since the stream of the shard last changed, and
what lies past that mark is counted again.
-/

namespace Honryu.Progress

open Metrics Report

/-! ### The mark, from the history -/

def ProgressBatch.SameShard (b c : ProgressBatch) : Prop :=
  c.runId = b.runId ∧ c.shardKey = b.shardKey

instance (b c : ProgressBatch) : Decidable (b.SameShard c) :=
  inferInstanceAs (Decidable (_ ∧ _))

/-- The pushes of a batch's shard since its stream last changed to the batch's,
latest first. -/
def sinceStream (bs : List ProgressBatch) (b : ProgressBatch) : List ProgressBatch :=
  (bs.reverse.filter fun c => b.SameShard c).takeWhile fun c => c.streamId = b.streamId

def markOf (bs : List ProgressBatch) (b : ProgressBatch) : ℤ :=
  highest 0 ((sinceStream bs b).flatMap (·.intervals))

theorem highest_append (mark : ℤ) (xs ys : List Interval) :
    highest mark (xs ++ ys) = highest (highest mark xs) ys :=
  List.foldl_append

theorem highest_perm (mark : ℤ) {xs ys : List Interval} (h : xs.Perm ys) :
    highest mark xs = highest mark ys :=
  h.foldl_eq' (fun x _ y _ m => by rw [max_right_comm]) mark

theorem highest_filter {mark h : ℤ} (hle : mark ≤ h) (ivs : List Interval) :
    highest h (ivs.filter fun iv => mark < iv.seq) = highest h ivs := by
  induction ivs generalizing h with
  | nil => rfl
  | cons iv ivs ih =>
      by_cases hseq : mark < iv.seq
      · rw [List.filter_cons_of_pos (by simpa using hseq)]
        exact ih (hle.trans (le_max_left _ _))
      · have hmax : max h iv.seq = h := max_eq_left ((not_lt.mp hseq).trans hle)
        rw [List.filter_cons_of_neg (by simpa using hseq), ih hle, highest, highest,
          List.foldl_cons, hmax]

theorem sinceStream_concat (bs : List ProgressBatch) (b c : ProgressBatch) :
    sinceStream (bs ++ [c]) b =
      if b.SameShard c then if c.streamId = b.streamId then c :: sinceStream bs b else []
      else sinceStream bs b := by
  unfold sinceStream
  rw [List.reverse_append, List.reverse_singleton, List.singleton_append]
  by_cases hshard : b.SameShard c
  · rw [List.filter_cons_of_pos (by simpa using hshard), if_pos hshard]
    by_cases hstream : c.streamId = b.streamId
    · rw [List.takeWhile_cons_of_pos (by simpa using hstream), if_pos hstream]
    · rw [List.takeWhile_cons_of_neg (by simpa using hstream), if_neg hstream]
  · rw [List.filter_cons_of_neg (by simpa using hshard), if_neg hshard]

theorem sinceStream_congr (bs : List ProgressBatch) {b c : ProgressBatch} (hsame : b.SameShard c)
    (hstream : c.streamId = b.streamId) : sinceStream bs c = sinceStream bs b := by
  have hshard : (fun x => decide (c.SameShard x)) = fun x => decide (b.SameShard x) := by
    funext x
    exact decide_eq_decide.mpr (by simp [ProgressBatch.SameShard, hsame.1, hsame.2])
  rw [sinceStream, sinceStream, hshard, hstream]

/-- The mark a batch is judged against is the highest sequence its shard has
pushed since its stream last changed to the batch's. -/
theorem seq_enter_ledgers {bs : List ProgressBatch} (hvalid : ∀ c ∈ bs, c.Valid)
    (b : ProgressBatch) : ((ledgers bs b.runId).enter b).seq = markOf bs b := by
  induction bs using List.reverseRecOn generalizing b with
  | nil => simp [ledgers, Ledger.empty, Ledger.enter, ShardStream.enter, ShardStream.opened,
      markOf, sinceStream, highest]
  | append_singleton bs c ih =>
      have hc : c.Valid := hvalid c (by simp)
      have ih := ih fun x hx => hvalid x (by simp [hx])
      have hshard := shard_absorbInto (ledgers bs) hc b.runId b.shardKey
      rw [ledgers_concat, Ledger.enter, hshard, markOf, sinceStream_concat]
      by_cases hsame : b.SameShard c
      · have hboth : c.runId = b.runId ∧ c.shardKey = b.shardKey := hsame
        rw [if_pos hboth, if_pos hsame, ← hboth.1]
        -- the last push of the shard either went on with the stream or changed it
        by_cases hstream : c.streamId = b.streamId
        · have hpos : (((ledgers bs c.runId).enter c).advance c).streamId = b.streamId := by
            simp [Ledger.enter, hstream]
          have hmark := ih c
          rw [markOf, sinceStream_congr bs hsame hstream] at hmark
          rw [ShardStream.enter_of_eq hpos, if_pos hstream, ShardStream.advance,
            ProgressBatch.fresh, highest_filter le_rfl, hmark, ← highest_append,
            List.flatMap_cons]
          exact highest_perm 0 List.perm_append_comm
        · have hpos : (((ledgers bs c.runId).enter c).advance c).streamId ≠ b.streamId := by
            simpa [Ledger.enter] using hstream
          rw [ShardStream.seq_enter_of_ne hpos, if_neg hstream]
          rfl
      · have hboth : ¬(c.runId = b.runId ∧ c.shardKey = b.shardKey) := hsame
        rw [if_neg hboth, if_neg hsame]
        exact ih b

/-! ### What adds nothing -/

/-- Every entry of `o` is zero and has an entry to be added to. -/
def NoCount {K V : Type} [LinearOrder K] [Zero V] (m o : TallyMap K V) : Prop :=
  ∀ (k : K) v, o[k]? = some v → v = 0 ∧ m[k]? ≠ none

theorem add_eq_left_iff_noCount {K V : Type} [LinearOrder K] [AddCommMonoid V]
    (hV : ∀ a b : V, a + b = a ↔ b = 0) (m o : TallyMap K V) : m + o = m ↔ NoCount m o := by
  rw [TallyMap.add_eq_left_iff]
  refine forall₃_congr fun k v _ => ?_
  cases m[k]? <;> simp [hV]

theorem document_add_eq_left_iff {K V : Type} [LinearOrder K] [AddCommMonoid V]
    (hV : ∀ a b : V, a + b = a ↔ b = 0) (x y : Option (TallyMap K V)) :
    x + y = x ↔ ∀ o, y = some o → ∃ m, x = some m ∧ NoCount m o := by
  rw [Option.add_eq_left_iff]
  refine forall₂_congr fun o _ => exists_congr fun m => ?_
  rw [add_eq_left_iff_noCount hV]

/-- Counting some intervals once more changes nothing in a ledger: every row
they touch is there, and what they sum up to in it is zero. -/
structure AddsNothing (l : Ledger) (ivs : List Interval) : Prop where
  labels : ∀ (label : String) (d : LabelState), (intervalsTally ivs).labels[label]? = some d →
    ∃ st : LabelState, l.tally.labels[label]? = some st ∧ d.samples = 0 ∧ d.failed = 0 ∧
      NoCount st.latency d.latency ∧
      ∀ codes, d.codes = some codes → ∃ stored, st.codes = some stored ∧ NoCount stored codes
  seconds : ∀ (second : ℤ) (d : SecondState), (intervalsTally ivs).seconds[second]? = some d →
    ∃ st : SecondState, l.tally.seconds[second]? = some st ∧ d.engine = 0 ∧ d.labels = 0 ∧ d.latSum = 0 ∧
      d.latSamples = 0 ∧ ∀ tallies, d.labelLatency = some tallies →
        ∃ stored, st.labelLatency = some stored ∧ NoCount stored tallies
  counts : NoCount l.tally.counts (intervalsTally ivs).counts
  series : ∀ (second : ℤ) (d : SeriesSecond), (seriesOf ivs)[second]? = some d →
    ∃ st : SeriesSecond, l.series[second]? = some st ∧ d.engine = 0 ∧ d.labels = 0 ∧ d.samples = 0 ∧
      d.failed = 0 ∧ d.bytes = 0 ∧ ∀ latency, d.latency = some latency →
        ∃ stored, st.latency = some stored ∧ NoCount stored latency

theorem labelState_add_eq_left_iff (st d : LabelState) :
    st + d = st ↔ d.samples = 0 ∧ d.failed = 0 ∧ NoCount st.latency d.latency ∧
      ∀ codes, d.codes = some codes → ∃ stored, st.codes = some stored ∧ NoCount stored codes := by
  have hcancel (a b : ℤ) : a + b = a ↔ b = 0 := add_eq_left
  rw [LabelState.ext_iff]
  change st.codes + d.codes = st.codes ∧ st.samples + d.samples = st.samples ∧
    st.failed + d.failed = st.failed ∧ st.latency + d.latency = st.latency ↔ _
  rw [document_add_eq_left_iff hcancel, add_eq_left_iff_noCount hcancel, hcancel, hcancel]
  tauto

theorem secondState_add_eq_left_iff (st d : SecondState) :
    st + d = st ↔ d.engine = 0 ∧ d.labels = 0 ∧ d.latSum = 0 ∧ d.latSamples = 0 ∧
      ∀ tallies, d.labelLatency = some tallies →
        ∃ stored, st.labelLatency = some stored ∧ NoCount stored tallies := by
  have hcancel (a b : LabelLatencyTally) : a + b = a ↔ b = 0 := by
    rw [LabelLatencyTally.ext_iff, LabelLatencyTally.ext_iff]
    exact and_congr add_eq_left add_eq_left
  rw [SecondState.ext_iff]
  change st.engine + d.engine = st.engine ∧ st.labels + d.labels = st.labels ∧
    st.latSum + d.latSum = st.latSum ∧ st.latSamples + d.latSamples = st.latSamples ∧
    st.labelLatency + d.labelLatency = st.labelLatency ↔ _
  rw [document_add_eq_left_iff hcancel, add_eq_left, add_eq_left, add_eq_left, add_eq_left]

theorem seriesSecond_add_eq_left_iff (st d : SeriesSecond) :
    st + d = st ↔ d.engine = 0 ∧ d.labels = 0 ∧ d.samples = 0 ∧ d.failed = 0 ∧ d.bytes = 0 ∧
      ∀ latency, d.latency = some latency →
        ∃ stored, st.latency = some stored ∧ NoCount stored latency := by
  have hcancel (a b : ℤ) : a + b = a ↔ b = 0 := add_eq_left
  rw [SeriesSecond.ext_iff]
  change st.engine + d.engine = st.engine ∧ st.labels + d.labels = st.labels ∧
    st.samples + d.samples = st.samples ∧ st.failed + d.failed = st.failed ∧
    st.bytes + d.bytes = st.bytes ∧ st.latency + d.latency = st.latency ↔ _
  rw [document_add_eq_left_iff hcancel, hcancel, hcancel, hcancel, hcancel, hcancel]

theorem addsNothing_iff (l : Ledger) (ivs : List Interval) :
    AddsNothing l ivs ↔
      l.tally + intervalsTally ivs = l.tally ∧ l.series + seriesOf ivs = l.series := by
  have hcounts := add_eq_left_iff_noCount (fun a b : ℤ => add_eq_left) l.tally.counts
    (intervalsTally ivs).counts
  rw [Tally.ext_iff, Tally.labels_add, Tally.seconds_add, Tally.counts_add,
    TallyMap.add_eq_left_iff, TallyMap.add_eq_left_iff, hcounts, TallyMap.add_eq_left_iff]
  simp only [labelState_add_eq_left_iff, secondState_add_eq_left_iff,
    seriesSecond_add_eq_left_iff]
  exact ⟨fun h => ⟨⟨h.labels, h.seconds, h.counts⟩, h.series⟩,
    fun h => ⟨h.1.1, h.1.2.1, h.1.2.2, h.2⟩⟩

/-! ### Delivering a batch again -/

def Repository.Harmless (v : Visit) (bs : List ProgressBatch) (b : ProgressBatch) : Prop :=
  let before := Repository.applyAll v bs
  let after := Repository.applyAll v (bs ++ [b])
  (restore (after.snapshot b.runId)).tally = (restore (before.snapshot b.runId)).tally ∧
    (after.run b.runId).series.rows = (before.run b.runId).series.rows

/-- Absorbing `b` after `bs` leaves what the in-memory store holds of its run as
it was. -/
def Memory.Harmless (v : Visit) (bs : List ProgressBatch) (b : ProgressBatch) : Prop :=
  let before := Memory.applyAll v bs
  let after := Memory.applyAll v (bs ++ [b])
  (restore (after.snapshot v b.runId)).tally = (restore (before.snapshot v b.runId)).tally ∧
    (after.series[b.runId]?).getD ∅ = (before.series[b.runId]?).getD ∅

/-- A ledger stays as it was when what lies past the mark adds nothing. -/
theorem ledgers_concat_eq_iff {bs : List ProgressBatch} (hvalid : ∀ c ∈ bs, c.Valid)
    {b : ProgressBatch} (hb : b.Valid) :
    (ledgers (bs ++ [b]) b.runId).tally = (ledgers bs b.runId).tally ∧
        (ledgers (bs ++ [b]) b.runId).series = (ledgers bs b.runId).series ↔
      AddsNothing (ledgers bs b.runId) (b.fresh (markOf bs b)) := by
  rw [addsNothing_iff, ledgers_concat, absorbInto, if_pos hb, Function.update_self,
    ← seq_enter_ledgers hvalid]
  rfl

/-- A batch of a sequence that is absorbed once more leaves the run as it was
exactly when its intervals past the highest sequence its shard has pushed since
the stream last changed add nothing; in the SQL store and in the in-memory one. -/
theorem harmless_iff (v v' : Visit) {bs : List ProgressBatch} (hvalid : ∀ c ∈ bs, c.Valid)
    (hinc : ∀ c ∈ bs, c.Increasing) {b : ProgressBatch} (hb : b ∈ bs) :
    (Repository.Harmless v bs b ↔
        AddsNothing (ledgers bs b.runId) (b.fresh (markOf bs b))) ∧
      (Memory.Harmless v' bs b ↔
        AddsNothing (ledgers bs b.runId) (b.fresh (markOf bs b))) := by
  have hafter : ∀ c ∈ bs ++ [b], c.Increasing := by
    intro c hc
    rcases List.mem_append.mp hc with hc | hc
    · exact hinc c hc
    · exact List.mem_singleton.mp hc ▸ hinc b hb
  rw [← ledgers_concat_eq_iff hvalid (hvalid b hb)]
  constructor
  · rw [← Repository.ledger_applyAll v, ← Repository.ledger_applyAll v, Repository.Harmless,
      Repository.tally_restore_snapshot, Repository.tally_restore_snapshot]
    rfl
  · rw [← Memory.ledger_applyAll v' hafter, ← Memory.ledger_applyAll v' hinc, Memory.Harmless,
      Memory.tally_restore_snapshot, Memory.tally_restore_snapshot]
    rfl

/-- The stream of the shard has not changed since the batch was pushed. -/
theorem harmless_iff_oneRequest :
    Repository.Harmless .sorted [oneRequest "first"] (oneRequest "first") ↔
      AddsNothing (ledgers [oneRequest "first"] 1)
        ((oneRequest "first").fresh (markOf [oneRequest "first"] (oneRequest "first"))) :=
  (harmless_iff .sorted .sorted (by decide) (by decide) List.mem_cons_self).1

/-- A late copy of a push of the first stream, arriving after the restarted
pod's first push, is counted again. -/
theorem not_harmless_restart :
    ¬Repository.Harmless .sorted [oneRequest "first", oneRequest "second"]
      (oneRequest "first") := by
  intro h
  have hsamples := congrArg (fun t : Tally => (t.labels["GET /"]?).map (·.samples)) h.1
  revert hsamples
  decide +kernel

end Honryu.Progress
