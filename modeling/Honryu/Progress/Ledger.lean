import Honryu.Lib.Extremes
import Honryu.Progress.Ports

/-!
What a progress store is for.

A run's ledger is a sum of measurements, a series of seconds, and for every
shard how far into its stream the sum has got. Absorbing a batch adds the
intervals past the shard's mark and moves the mark. The stores of the
repository are two ways of keeping such a ledger.
-/

namespace Honryu.Progress

open Metrics Report

/-! ### A shard's position -/

def ShardStream.opened (streamId : String) : ShardStream :=
  { streamId, seq := 0, finished := false, exitCode := none }

/-- The position a batch of a stream is judged against. A different stream is
a restarted pod, whose sequences begin again at one. -/
def ShardStream.enter (shard : Option ShardStream) (streamId : String) : ShardStream :=
  let s := shard.getD (.opened streamId)
  if s.streamId = streamId then s else { s with streamId, seq := 0 }

def ProgressBatch.fresh (b : ProgressBatch) (mark : ℤ) : List Interval :=
  b.intervals.filter fun iv => mark < iv.seq

def highest (mark : ℤ) (ivs : List Interval) : ℤ :=
  ivs.foldl (fun h iv => max h iv.seq) mark

def ShardStream.advance (s : ShardStream) (b : ProgressBatch) : ShardStream :=
  { s with
    seq := highest s.seq (b.fresh s.seq)
    finished := s.finished || b.final
    exitCode := b.exitCode.or s.exitCode }

@[simp] theorem ShardStream.streamId_enter (shard : Option ShardStream) (streamId : String) :
    (enter shard streamId).streamId = streamId := by
  simp only [enter]
  split
  case isTrue h => exact h
  case isFalse => rfl

theorem ShardStream.enter_of_eq {s : ShardStream} {streamId : String} (h : s.streamId = streamId) :
    enter (some s) streamId = s := by
  simp [enter, h]

theorem ShardStream.seq_enter_of_ne {s : ShardStream} {streamId : String}
    (h : s.streamId ≠ streamId) : (enter (some s) streamId).seq = 0 := by
  simp [enter, h]

@[simp] theorem ShardStream.streamId_advance (s : ShardStream) (b : ProgressBatch) :
    (s.advance b).streamId = s.streamId := rfl

theorem highest_eq (mark : ℤ) (ivs : List Interval) :
    highest mark ivs = (ivs.map (·.seq)).foldl max mark :=
  List.foldl_map.symm

theorem le_highest (mark : ℤ) (ivs : List Interval) : mark ≤ highest mark ivs := by
  rw [highest_eq]
  exact Extremes.le_foldl_max

theorem seq_le_highest (mark : ℤ) {ivs : List Interval} {iv : Interval} (h : iv ∈ ivs) :
    iv.seq ≤ highest mark ivs := by
  rw [highest_eq]
  exact Extremes.le_foldl_max_of_mem (List.mem_map_of_mem h)

theorem highest_le {m : ℤ} {ivs : List Interval} {bound : ℤ} (hm : m ≤ bound)
    (h : ∀ iv ∈ ivs, iv.seq ≤ bound) : highest m ivs ≤ bound := by
  rw [highest_eq]
  exact Extremes.foldl_max_le (List.forall_mem_map.mpr h) hm

/-! ### A run's ledger -/

@[ext] structure Ledger where
  tally : Tally
  series : TallyMap ℤ SeriesSecond
  shards : TallyMap ShardKey ShardStream

def Ledger.empty : Ledger := { tally := 0, series := 0, shards := ∅ }

def Ledger.enter (l : Ledger) (b : ProgressBatch) : ShardStream :=
  .enter l.shards[b.shardKey]? b.streamId

def Ledger.fresh (l : Ledger) (b : ProgressBatch) : List Interval := b.fresh (l.enter b).seq

def Ledger.absorb (l : Ledger) (b : ProgressBatch) : Ledger :=
  { tally := l.tally + intervalsTally (l.fresh b)
    series := l.series + seriesOf (l.fresh b)
    shards := l.shards.insert b.shardKey ((l.enter b).advance b) }

/-! ### The pieces a sequence of batches leaves -/

/-- What each of a sequence of batches adds to a ledger, with the shard it
comes from. -/
def Ledger.pieces (l : Ledger) : List ProgressBatch → List (ShardKey × List Interval)
  | [] => []
  | b :: bs => (b.shardKey, l.fresh b) :: (l.absorb b).pieces bs

def intervalsOf (ps : List (ShardKey × List Interval)) : List Interval := ps.flatMap (·.2)

@[simp] theorem intervalsOf_nil : intervalsOf [] = [] := rfl

@[simp] theorem intervalsOf_cons (p : ShardKey × List Interval)
    (ps : List (ShardKey × List Interval)) : intervalsOf (p :: ps) = p.2 ++ intervalsOf ps := rfl

@[simp] theorem intervalsOf_append (ps qs : List (ShardKey × List Interval)) :
    intervalsOf (ps ++ qs) = intervalsOf ps ++ intervalsOf qs :=
  List.flatMap_append

theorem intervalsOf_perm (p : ShardKey → Bool) (ps : List (ShardKey × List Interval)) :
    (intervalsOf ps).Perm
      (intervalsOf (ps.filter fun x => p x.1) ++ intervalsOf (ps.filter fun x => !p x.1)) := by
  rw [← intervalsOf_append]
  exact (List.filter_append_perm _ ps).symm.flatMap_right _

theorem Ledger.pieces_append (l : Ledger) (xs ys : List ProgressBatch) :
    l.pieces (xs ++ ys) = l.pieces xs ++ (xs.foldl absorb l).pieces ys := by
  induction xs generalizing l with
  | nil => rfl
  | cons b xs ih => simp [pieces, ih]

theorem Ledger.mem_intervalsOf_pieces {l : Ledger} {bs : List ProgressBatch} {iv : Interval}
    (h : iv ∈ intervalsOf (l.pieces bs)) : ∃ b ∈ bs, iv ∈ b.intervals := by
  induction bs generalizing l with
  | nil => simp [pieces] at h
  | cons b bs ih =>
      rw [pieces, intervalsOf_cons, List.mem_append] at h
      rcases h with h | h
      · exact ⟨b, List.mem_cons_self, List.mem_of_mem_filter h⟩
      · obtain ⟨c, hc, hiv⟩ := ih h
        exact ⟨c, List.mem_cons_of_mem _ hc, hiv⟩

theorem Ledger.tally_foldl_absorb (l : Ledger) (bs : List ProgressBatch) :
    (bs.foldl absorb l).tally = l.tally + intervalsTally (intervalsOf (l.pieces bs)) := by
  induction bs generalizing l with
  | nil => simp [pieces]
  | cons b bs ih =>
      rw [List.foldl_cons, ih, pieces, intervalsOf_cons, intervalsTally_append, ← add_assoc]
      rfl

theorem Ledger.series_foldl_absorb (l : Ledger) (bs : List ProgressBatch) :
    (bs.foldl absorb l).series = l.series + seriesOf (intervalsOf (l.pieces bs)) := by
  induction bs generalizing l with
  | nil => simp [pieces]
  | cons b bs ih =>
      rw [List.foldl_cons, ih, pieces, intervalsOf_cons, seriesOf_append, ← add_assoc]
      rfl

section Shards

variable (p : ShardKey → Bool) {l l' : Ledger} {b : ProgressBatch}
  (h : ∀ k, p k = true → l.shards[k]? = l'.shards[k]?)
include h

theorem Ledger.shards_absorb_of_shard (hb : p b.shardKey = true) (k : ShardKey)
    (hk : p k = true) : (l.absorb b).shards[k]? = (l'.absorb b).shards[k]? := by
  have henter : l.enter b = l'.enter b := by rw [enter, enter, h _ hb]
  rw [absorb, absorb, TallyMap.getElem?_insert_eq_ite, TallyMap.getElem?_insert_eq_ite, henter,
    h k hk]

theorem Ledger.shards_absorb_of_other (hb : ¬p b.shardKey = true) (k : ShardKey)
    (hk : p k = true) : (l.absorb b).shards[k]? = l'.shards[k]? := by
  have hne : b.shardKey ≠ k := fun hbk => hb (hbk ▸ hk)
  rw [absorb, TallyMap.getElem?_insert_eq_ite, if_neg hne, h k hk]

end Shards

/-- Shards do not see each other: what some of them add is what they would add
alone. -/
theorem Ledger.filter_pieces (p : ShardKey → Bool) {l l' : Ledger}
    (h : ∀ k, p k = true → l.shards[k]? = l'.shards[k]?) (bs : List ProgressBatch) :
    (l.pieces bs).filter (fun x => p x.1) = l'.pieces (bs.filter fun b => p b.shardKey) := by
  induction bs generalizing l l' with
  | nil => rfl
  | cons b bs ih =>
      by_cases hb : p b.shardKey = true
      · have henter : l.enter b = l'.enter b := by rw [enter, enter, h _ hb]
        rw [pieces, List.filter_cons, List.filter_cons, if_pos hb, if_pos hb, pieces, fresh, fresh,
          henter]
        exact congrArg _ (ih (shards_absorb_of_shard p h hb))
      · rw [pieces, List.filter_cons, List.filter_cons, if_neg hb, if_neg hb]
        exact ih (shards_absorb_of_other p h hb)

theorem Ledger.shards_foldl_absorb (p : ShardKey → Bool) {l l' : Ledger}
    (h : ∀ k, p k = true → l.shards[k]? = l'.shards[k]?) (bs : List ProgressBatch) (k : ShardKey)
    (hk : p k = true) :
    (bs.foldl absorb l).shards[k]? =
      ((bs.filter fun b => p b.shardKey).foldl absorb l').shards[k]? := by
  induction bs generalizing l l' with
  | nil => exact h k hk
  | cons b bs ih =>
      by_cases hb : p b.shardKey = true
      · rw [List.filter_cons, if_pos hb]
        exact ih (shards_absorb_of_shard p h hb)
      · rw [List.filter_cons, if_neg hb]
        exact ih (shards_absorb_of_other p h hb)

/-! ### The ledgers of all runs -/

/-- Absorbing a batch into the run it names; a batch that `Validate` rejects
changes nothing. -/
def absorbInto (ls : ℤ → Ledger) (b : ProgressBatch) : ℤ → Ledger :=
  if b.Valid then Function.update ls b.runId ((ls b.runId).absorb b) else ls

theorem shard_absorbInto (ls : ℤ → Ledger) {c : ProgressBatch} (hc : c.Valid) (runId : ℤ)
    (k : ShardKey) :
    (absorbInto ls c runId).shards[k]? =
      if c.runId = runId ∧ c.shardKey = k then some (((ls runId).enter c).advance c)
      else (ls runId).shards[k]? := by
  rw [absorbInto, if_pos hc]
  by_cases hrun : c.runId = runId
  · rw [← hrun, Function.update_self, Ledger.absorb, TallyMap.getElem?_insert_eq_ite]
    simp
  · rw [Function.update_of_ne (Ne.symm hrun), if_neg fun h => hrun h.1]

def ledgers (bs : List ProgressBatch) : ℤ → Ledger := bs.foldl absorbInto fun _ => .empty

theorem ledgers_concat (bs : List ProgressBatch) (b : ProgressBatch) :
    ledgers (bs ++ [b]) = absorbInto (ledgers bs) b := by
  simp [ledgers]

theorem ShardStream.finished_enter (shard : Option ShardStream) (streamId : String) :
    (enter shard streamId).finished = shard.elim false (·.finished) := by
  cases shard with
  | none => simp [enter, opened]
  | some s =>
      simp only [enter, Option.getD_some, Option.elim_some]
      split <;> rfl

/-- A shard has finished exactly if a final batch of it has been absorbed. -/
theorem finished_ledgers_iff (bs : List ProgressBatch) (runId : ℤ) (k : ShardKey) :
    ((ledgers bs runId).shards[k]?).elim false (·.finished) = true ↔
      ∃ b ∈ bs, b.Valid ∧ b.runId = runId ∧ b.shardKey = k ∧ b.final = true := by
  induction bs using List.reverseRecOn with
  | nil => simp [ledgers, Ledger.empty]
  | append_singleton bs c ih =>
      rw [ledgers_concat]
      by_cases hc : c.Valid
      · rw [shard_absorbInto _ hc]
        by_cases hk : c.runId = runId ∧ c.shardKey = k
        · obtain ⟨rfl, rfl⟩ := hk
          rw [if_pos ⟨rfl, rfl⟩, Option.elim_some, ShardStream.advance, Bool.or_eq_true,
            Ledger.enter, ShardStream.finished_enter, ih]
          simp [hc, or_and_right, exists_or]
        · rw [if_neg hk, ih]
          simp only [List.mem_append, List.mem_singleton, or_and_right, exists_or, exists_eq_left]
          refine (or_iff_left fun h => hk ⟨h.2.1, h.2.2.1⟩).symm
      · rw [absorbInto, if_neg hc, ih]
        simp [hc, or_and_right, exists_or]

def inRun (runId : ℤ) (bs : List ProgressBatch) : List ProgressBatch :=
  bs.filter fun b => b.Valid ∧ b.runId = runId

theorem ledgers_eq (bs : List ProgressBatch) (runId : ℤ) :
    ledgers bs runId = (inRun runId bs).foldl Ledger.absorb .empty := by
  induction bs using List.reverseRecOn with
  | nil => rfl
  | append_singleton bs b ih =>
      rw [ledgers_concat, absorbInto, inRun, List.filter_append, List.foldl_append, ← inRun, ← ih]
      by_cases hvalid : b.Valid
      · by_cases hrun : b.runId = runId
        · rw [if_pos hvalid, hrun, Function.update_self]
          simp [hvalid, hrun]
        · rw [if_pos hvalid, Function.update_of_ne (Ne.symm hrun)]
          simp [hrun]
      · rw [if_neg hvalid]
        simp [hvalid]

end Honryu.Progress
