import Honryu.Progress.SqlLedger
import Honryu.Sidecar.Sidecar

/-!
A sidecar and the progress store, over a network that loses, repeats and
reorders.

A push that was sent may be absorbed at any later moment, any number of times,
or never; its answer arrives only after it was absorbed, if it arrives at all;
and the sidecar may give up on it at any moment. Whatever happens, what the
store has counted of the sidecar's stream is an initial part of what the sidecar
has read, each interval once, and what is not counted is still pending.
-/

namespace Honryu.Sidecar

open Metrics Progress Report

/-! ### The system -/

/-- A sidecar, the pushes it has sent, each with whether it has been absorbed,
and the store. The intervals read and the batches absorbed are recorded beside
them; no step looks at the record. -/
structure System where
  sidecar : State
  inflight : Option ℕ
  wire : List (Batch × Bool)
  store : Repository
  read : List Interval
  history : List ProgressBatch

inductive Event
  | read (chunks : List (List UInt8))
  | exitCode (raw : Option String)
  | push (final : Bool)
  | absorb (i : ℕ)
  | answer
  | giveUp
  | other (b : ProgressBatch)

section System

variable (cfg : Config) (v : Visit) (runId : ℤ) (cluster streamId : String)

def ownKey : ShardKey :=
  { scenarioId := cfg.identity.scenarioId, cluster, shardIndex := cfg.identity.shardIndex }

/-- The batch that is absorbed for a push, the cluster being the control
plane's. -/
def received (batch : Batch) : ProgressBatch := .ofBatch runId { batch with cluster }

def System.init : System :=
  { sidecar := .new streamId, inflight := none, wire := [], store := .new, read := [],
    history := [] }

namespace System

def readChunks (s : System) (chunks : List (List UInt8)) : System :=
  let sidecar := drain cfg s.sidecar chunks
  { s with sidecar, read := s.read ++ sidecar.pending.drop s.sidecar.pending.length }

def send (s : System) (final : Bool) : System :=
  match s.inflight, push cfg s.sidecar final with
  | none, some batch =>
      { s with inflight := some s.wire.length, wire := s.wire ++ [(batch, false)] }
  | _, _ => s

def arrive (s : System) (i : ℕ) : System :=
  match s.wire[i]? with
  | none => s
  | some (batch, _) =>
      match s.store.absorb v (received runId cluster batch) with
      | .error _ => s
      | .ok store =>
          { s with
            store, wire := s.wire.set i (batch, true)
            history := s.history ++ [received runId cluster batch] }

def answered (s : System) : System :=
  match s.inflight.bind (s.wire[·]?) with
  | some (batch, true) => { s with sidecar := accepted s.sidecar batch, inflight := none }
  | _ => s

def arriveOther (s : System) (b : ProgressBatch) : System :=
  if b.runId = runId ∧ b.shardKey = ownKey cfg cluster then s
  else
    match s.store.absorb v b with
    | .error _ => s
    | .ok store => { s with store, history := s.history ++ [b] }

/-- One step. An event that cannot happen in a state leaves it as it is. -/
def step (s : System) : Event → System
  | .read chunks => s.readChunks cfg chunks
  | .exitCode raw => { s with sidecar := (checkExitCode cfg s.sidecar raw).1 }
  | .push final => s.send cfg final
  | .absorb i => s.arrive v runId cluster i
  | .answer => s.answered
  | .giveUp => { s with inflight := none }
  | .other b => s.arriveOther cfg v runId cluster b

end System

def System.run (events : List Event) : System :=
  events.foldl (System.step cfg v runId cluster) (.init streamId)

end System

/-! ### Windows of a numbered list -/

def Numbered (read : List Interval) : Prop :=
  ∀ (i : ℕ) (iv : Interval), read[i]? = some iv → iv.seq = i + 1

theorem mem_window {α : Type} {l : List α} {lo hi : ℕ} {x : α} :
    x ∈ (l.take hi).drop lo ↔ ∃ i, lo ≤ i ∧ i < hi ∧ l[i]? = some x := by
  rw [List.mem_iff_getElem?]
  constructor
  · rintro ⟨j, hj⟩
    rw [List.getElem?_drop, List.getElem?_take] at hj
    split at hj
    case isTrue hlt => exact ⟨lo + j, Nat.le_add_right _ _, hlt, hj⟩
    case isFalse => cases hj
  · rintro ⟨i, hlo, hhi, hi⟩
    refine ⟨i - lo, ?_⟩
    rw [List.getElem?_drop, Nat.add_sub_cancel' hlo, List.getElem?_take_of_lt hhi, hi]

theorem Numbered.filter_window {read : List Interval} (h : Numbered read) {lo hi m : ℕ}
    (hlo : lo ≤ m) :
    (((read.take hi).drop lo).filter fun iv => (m : ℤ) < iv.seq) = (read.take hi).drop m := by
  have hbelow : (((read.take hi).drop lo).take (m - lo)).filter (fun iv => (m : ℤ) < iv.seq) =
      [] := by
    rw [List.filter_eq_nil_iff]
    intro iv hiv
    obtain ⟨j, hj⟩ := List.mem_iff_getElem?.mp hiv
    rw [List.getElem?_take] at hj
    split at hj
    case isFalse => cases hj
    case isTrue hlt =>
      rw [List.getElem?_drop, List.getElem?_take] at hj
      split at hj
      case isFalse => cases hj
      case isTrue =>
        have hseq := h _ _ hj
        simp only [decide_eq_true_eq, not_lt]
        omega
  have habove : ((read.take hi).drop m).filter (fun iv => (m : ℤ) < iv.seq) =
      (read.take hi).drop m := by
    rw [List.filter_eq_self]
    intro iv hiv
    obtain ⟨i, hmi, -, hi⟩ := mem_window.mp hiv
    have hseq := h _ _ hi
    simp only [decide_eq_true_eq]
    omega
  have hsplit : ((read.take hi).drop lo).drop (m - lo) = (read.take hi).drop m := by
    rw [List.drop_drop, Nat.add_sub_cancel' hlo]
  rw [← List.take_append_drop (m - lo) ((read.take hi).drop lo), List.filter_append, hbelow,
    hsplit, habove, List.nil_append]

theorem Numbered.highest_window {read : List Interval} (h : Numbered read) {hi m : ℕ}
    (hhi : hi ≤ read.length) :
    highest m ((read.take hi).drop m) = (max m hi : ℕ) := by
  refine le_antisymm (highest_le (by omega) fun iv hiv => ?_) ?_
  · obtain ⟨i, -, hlt, hi⟩ := mem_window.mp hiv
    have hseq := h _ _ hi
    omega
  · rcases le_or_gt hi m with hle | hlt
    · rw [max_eq_left hle]
      exact le_highest _ _
    · obtain ⟨iv, hiv⟩ : ∃ iv, read[hi - 1]? = some iv :=
        ⟨_, List.getElem?_eq_getElem (by omega)⟩
      have hmem : iv ∈ (read.take hi).drop m := mem_window.mpr ⟨hi - 1, by omega, by omega, hiv⟩
      have hseq := h _ _ hiv
      have hle := seq_le_highest (m : ℤ) hmem
      omega

theorem take_append_window {α : Type} (l : List α) (m hi : ℕ) :
    l.take m ++ (l.take hi).drop m = l.take (max m hi) := by
  rcases le_total m hi with h | h
  · rw [max_eq_right h]
    have hm : l.take m = (l.take hi).take m := by rw [List.take_take, min_eq_left h]
    rw [hm, List.take_append_drop]
  · have hnil : (l.take hi).drop m = [] :=
      List.drop_eq_nil_of_le ((List.length_take_le _ _).trans h)
    rw [max_eq_left h, hnil, List.append_nil]

/-! ### The invariant -/

section Invariant

variable {cfg : Config} {v : Visit} {runId : ℤ} {cluster streamId : String} {s : System}
  {acked marked : ℕ}

structure Sent (cfg : Config) (streamId : String) (read : List Interval) (batch : Batch)
    (lo hi : ℕ) : Prop where
  scenarioId_eq : batch.scenarioId = cfg.identity.scenarioId
  shardIndex_eq : batch.shardIndex = cfg.identity.shardIndex
  streamId_eq : batch.streamId = streamId
  intervals_eq : batch.intervals = (read.take hi).drop lo
  le : lo ≤ hi
  hi_le : hi ≤ read.length

def ownPieces (cfg : Config) (runId : ℤ) (cluster : String) (history : List ProgressBatch) :
    List (ShardKey × List Interval) :=
  (Ledger.empty.pieces (inRun runId history)).filter fun p => p.1 = ownKey cfg cluster

/-- The position the store keeps of the sidecar's shard, if it keeps one, is
`marked` in the sidecar's stream. -/
def MarkedAt (shard : Option ShardStream) (streamId : String) (marked : ℕ) : Prop :=
  shard.elim (marked = 0) fun row => row.streamId = streamId ∧ row.seq = marked

/-- The first `acked` intervals have been accepted and the first `marked` ones
counted. -/
structure Inv (cfg : Config) (v : Visit) (runId : ℤ) (cluster streamId : String) (s : System)
    (acked marked : ℕ) : Prop where
  store_eq : s.store = Repository.applyAll v s.history
  streamId_eq : s.sidecar.streamId = streamId
  numbered : Numbered s.read
  seq_eq : s.sidecar.seq = s.read.length
  pending_eq : s.sidecar.pending = s.read.drop acked
  acked_le : acked ≤ marked
  marked_le : marked ≤ s.read.length
  markedAt : MarkedAt (ledgers s.history runId).shards[ownKey cfg cluster]? streamId marked
  own_eq : intervalsOf (ownPieces cfg runId cluster s.history) = s.read.take marked
  sent : ∀ (i : ℕ) (batch : Batch) (absorbed : Bool), s.wire[i]? = some (batch, absorbed) →
    ∃ lo hi, Sent cfg streamId s.read batch lo hi ∧ lo ≤ marked
  absorbed_le : ∀ (i : ℕ) (batch : Batch), s.wire[i]? = some (batch, true) →
    ∀ iv ∈ batch.intervals, iv.seq ≤ marked
  inflight : ∀ i : ℕ, s.inflight = some i →
    ∃ batch absorbed hi, s.wire[i]? = some (batch, absorbed) ∧
      Sent cfg streamId s.read batch acked hi

theorem inv_init : Inv cfg v runId cluster streamId (.init streamId) 0 0 where
  store_eq := rfl
  streamId_eq := rfl
  numbered := by simp [Numbered, System.init]
  seq_eq := rfl
  pending_eq := rfl
  acked_le := le_rfl
  marked_le := le_rfl
  markedAt := rfl
  own_eq := rfl
  sent := by simp [System.init]
  absorbed_le := by simp [System.init]
  inflight := by simp [System.init]

theorem Sent.append {read : List Interval} {batch : Batch} {lo hi : ℕ}
    (h : Sent cfg streamId read batch lo hi) (new : List Interval) :
    Sent cfg streamId (read ++ new) batch lo hi where
  scenarioId_eq := h.scenarioId_eq
  shardIndex_eq := h.shardIndex_eq
  streamId_eq := h.streamId_eq
  intervals_eq := by rw [h.intervals_eq, List.take_append_of_le_length h.hi_le]
  le := h.le
  hi_le := by
    have := h.hi_le
    rw [List.length_append]
    omega

theorem inv_read (hs : Inv cfg v runId cluster streamId s acked marked)
    (chunks : List (List UInt8)) :
    Inv cfg v runId cluster streamId (s.readChunks cfg chunks) acked marked := by
  obtain ⟨new, hnew⟩ := readMore_drain cfg s.sidecar chunks
  have hdrop : (drain cfg s.sidecar chunks).pending.drop s.sidecar.pending.length = new := by
    rw [hnew.pending_eq, List.drop_left]
  have hmarked := hs.marked_le
  have hacked := hs.acked_le
  have hstep : s.readChunks cfg chunks =
      { s with sidecar := drain cfg s.sidecar chunks, read := s.read ++ new } := by
    rw [System.readChunks, hdrop]
  rw [hstep]
  refine ⟨hs.store_eq, hnew.streamId_eq.trans hs.streamId_eq, ?_, ?_, ?_, hacked, ?_,
    hs.markedAt, ?_, ?_, hs.absorbed_le, ?_⟩
  · intro i iv hiv
    by_cases hlt : i < s.read.length
    · rw [List.getElem?_append_left hlt] at hiv
      exact hs.numbered i iv hiv
    · rw [List.getElem?_append_right (not_lt.mp hlt)] at hiv
      rw [hnew.new_seq _ iv hiv, hs.seq_eq]
      omega
  · rw [hnew.seq_eq, hs.seq_eq, List.length_append]
    push_cast
    ring
  · rw [hnew.pending_eq, hs.pending_eq, List.drop_append_of_le_length (by omega)]
  · rw [List.length_append]
    omega
  · rw [hs.own_eq, List.take_append_of_le_length hmarked]
  · intro i batch absorbed hi
    obtain ⟨lo, hi, hsent, hlo⟩ := hs.sent i batch absorbed hi
    exact ⟨lo, hi, hsent.append new, hlo⟩
  · intro i hi
    obtain ⟨batch, absorbed, hi, hwire, hsent⟩ := hs.inflight i hi
    exact ⟨batch, absorbed, hi, hwire, hsent.append new⟩

theorem inv_exitCode (hs : Inv cfg v runId cluster streamId s acked marked)
    (raw : Option String) :
    Inv cfg v runId cluster streamId
      { s with sidecar := (checkExitCode cfg s.sidecar raw).1 } acked marked := by
  have hcheck : ∃ code, (checkExitCode cfg s.sidecar raw).1 = { s.sidecar with exitCode := code } := by
    unfold checkExitCode
    split
    · exact ⟨_, rfl⟩
    · split
      · exact ⟨_, rfl⟩
      · split <;> exact ⟨_, rfl⟩
  obtain ⟨code, hcode⟩ := hcheck
  rw [hcode]
  exact { hs with }

theorem Inv.sent_push (hs : Inv cfg v runId cluster streamId s acked marked) {final : Bool}
    {batch : Batch} (hpush : push cfg s.sidecar final = some batch) :
    Sent cfg streamId s.read batch acked s.read.length := by
  unfold push at hpush
  split at hpush
  · cases hpush
  · cases hpush
    refine ⟨rfl, rfl, hs.streamId_eq, ?_, hs.acked_le.trans hs.marked_le, le_rfl⟩
    rw [List.take_length]
    exact hs.pending_eq

theorem inv_push (hs : Inv cfg v runId cluster streamId s acked marked) (final : Bool) :
    Inv cfg v runId cluster streamId (s.send cfg final) acked marked := by
  cases hflight : s.inflight with
  | some i =>
      simp only [System.send, hflight]
      exact hs
  | none =>
      cases hpush : push cfg s.sidecar final with
      | none =>
          simp only [System.send, hflight, hpush]
          exact hs
      | some batch =>
          simp only [System.send, hflight, hpush]
          have hsent := hs.sent_push hpush
          refine { hs with sent := ?_, absorbed_le := ?_, inflight := ?_ }
          · intro i b absorbed hi
            rcases Nat.lt_or_ge i s.wire.length with hlt | hge
            · rw [List.getElem?_append_left hlt] at hi
              exact hs.sent i b absorbed hi
            · rw [List.getElem?_append_right hge] at hi
              obtain ⟨rfl, rfl⟩ : b = batch ∧ absorbed = false := by
                rw [List.getElem?_singleton] at hi
                split at hi
                · simpa [eq_comm] using hi
                · cases hi
              exact ⟨acked, s.read.length, hsent, hs.acked_le⟩
          · intro i b hi
            rcases Nat.lt_or_ge i s.wire.length with hlt | hge
            · rw [List.getElem?_append_left hlt] at hi
              exact hs.absorbed_le i b hi
            · rw [List.getElem?_append_right hge, List.getElem?_singleton] at hi
              split at hi
              · simp at hi
              · cases hi
          · intro i hi
            obtain rfl : s.wire.length = i := Option.some_inj.mp hi
            refine ⟨batch, false, s.read.length, ?_, hsent⟩
            rw [List.getElem?_append_right le_rfl, Nat.sub_self]
            rfl

theorem inv_giveUp (hs : Inv cfg v runId cluster streamId s acked marked) :
    Inv cfg v runId cluster streamId { s with inflight := none } acked marked :=
  { hs with inflight := fun _ h => nomatch h }

theorem Inv.le_marked (hs : Inv cfg v runId cluster streamId s acked marked) {i hi : ℕ}
    {batch : Batch} (hwire : s.wire[i]? = some (batch, true))
    (hsent : Sent cfg streamId s.read batch acked hi) : hi ≤ marked := by
  rcases Nat.lt_or_ge acked hi with hlt | hge
  · -- its last interval is counted, and the intervals are numbered
    obtain ⟨iv, hiv⟩ : ∃ iv, s.read[hi - 1]? = some iv :=
      ⟨_, List.getElem?_eq_getElem (by have := hsent.hi_le; omega)⟩
    have hmem : iv ∈ batch.intervals := by
      rw [hsent.intervals_eq]
      exact mem_window.mpr ⟨hi - 1, by omega, by omega, hiv⟩
    have hcounted := hs.absorbed_le i batch hwire iv hmem
    have hseq := hs.numbered _ _ hiv
    omega
  · exact hge.trans hs.acked_le

/-- The answer to a push comes after it was absorbed, so what it drops has been
counted. -/
theorem inv_answer (hs : Inv cfg v runId cluster streamId s acked marked) :
    ∃ acked', Inv cfg v runId cluster streamId s.answered acked' marked := by
  cases hflight : s.inflight with
  | none =>
      simp only [System.answered, hflight, Option.bind_none]
      exact ⟨acked, hs⟩
  | some i =>
      obtain ⟨batch, absorbed, hi, hwire, hsent⟩ := hs.inflight i hflight
      simp only [System.answered, hflight, Option.bind_some, hwire]
      cases absorbed with
      | false => exact ⟨acked, hs⟩
      | true =>
          have hlen : batch.intervals.length = hi - acked := by
            rw [hsent.intervals_eq, List.length_drop, List.length_take,
              min_eq_left hsent.hi_le]
          have hpending : s.sidecar.pending.length = s.read.length - acked := by
            rw [hs.pending_eq, List.length_drop]
          refine ⟨hi, { hs with
            pending_eq := ?_, acked_le := hs.le_marked hwire hsent
            inflight := fun _ h => nomatch h }⟩
          have := hsent.le
          have := hsent.hi_le
          change (if batch.intervals.length ≤ s.sidecar.pending.length then _ else _) = _
          rw [if_pos (by omega), hlen, hs.pending_eq, List.drop_drop]
          congr 1
          omega

theorem MarkedAt.seq_enter {shard : Option ShardStream} (h : MarkedAt shard streamId marked) :
    (ShardStream.enter shard streamId).seq = marked := by
  cases shard with
  | none =>
      obtain rfl : marked = 0 := h
      simp [ShardStream.enter, ShardStream.opened]
  | some row => rw [ShardStream.enter_of_eq h.1, h.2]

theorem shardKey_received (batch : Batch)
    (hscenario : batch.scenarioId = cfg.identity.scenarioId)
    (hshard : batch.shardIndex = cfg.identity.shardIndex) :
    (received runId cluster batch).shardKey = ownKey cfg cluster := by
  simp [received, ProgressBatch.ofBatch, ProgressBatch.shardKey, ownKey, hscenario, hshard]

theorem ownPieces_concat (history : List ProgressBatch) (b : ProgressBatch) :
    ownPieces cfg runId cluster (history ++ [b]) =
      ownPieces cfg runId cluster history ++
        if b.Valid ∧ b.runId = runId ∧ b.shardKey = ownKey cfg cluster then
          [(ownKey cfg cluster, (ledgers history runId).fresh b)] else [] := by
  unfold ownPieces inRun
  rw [List.filter_append, Ledger.pieces_append, List.filter_append, ← inRun, ← ledgers_eq]
  congr 1
  by_cases hrun : b.Valid ∧ b.runId = runId
  · by_cases hkey : b.shardKey = ownKey cfg cluster
    · simp [hrun, hkey, Ledger.pieces]
    · simp [hrun, hkey, Ledger.pieces]
  · have : ¬(b.Valid ∧ b.runId = runId ∧ b.shardKey = ownKey cfg cluster) := by tauto
    simp [hrun, this, Ledger.pieces]

theorem getElem?_set_cases {α : Type} {l : List α} {i j : ℕ} {x e : α}
    (h : (l.set i x)[j]? = some e) : j = i ∧ e = x ∨ j ≠ i ∧ l[j]? = some e := by
  rw [List.getElem?_set] at h
  split at h
  case isTrue hij =>
    split at h
    · exact .inl ⟨hij.symm, (Option.some_inj.mp h).symm⟩
    · cases h
  case isFalse hij => exact .inr ⟨Ne.symm hij, h⟩

/-- The position a push is judged against, and what lies past it. -/
theorem Inv.enter_received (hs : Inv cfg v runId cluster streamId s acked marked) {batch : Batch}
    {lo hi : ℕ} (hsent : Sent cfg streamId s.read batch lo hi) (hlo : lo ≤ marked) :
    (ledgers s.history runId).enter (received runId cluster batch) =
        .enter (ledgers s.history runId).shards[ownKey cfg cluster]? streamId ∧
      (received runId cluster batch).fresh marked = (s.read.take hi).drop marked := by
  have hkey : (received runId cluster batch).shardKey = ownKey cfg cluster :=
    shardKey_received batch hsent.scenarioId_eq hsent.shardIndex_eq
  constructor
  · rw [Ledger.enter, hkey, ← hsent.streamId_eq]
    rfl
  · rw [ProgressBatch.fresh, ← hs.numbered.filter_window hlo, ← hsent.intervals_eq]
    rfl

/-- A push that is absorbed is counted from the mark on, and moves the mark to
its end. -/
theorem inv_absorbed (hs : Inv cfg v runId cluster streamId s acked marked) {i lo hi : ℕ}
    {batch : Batch} {absorbed : Bool} (hwire : s.wire[i]? = some (batch, absorbed))
    (hsent : Sent cfg streamId s.read batch lo hi) (hlo : lo ≤ marked)
    (hvalid : (received runId cluster batch).Valid) :
    Inv cfg v runId cluster streamId
      { s with
        store := s.store.apply v (received runId cluster batch)
        wire := s.wire.set i (batch, true)
        history := s.history ++ [received runId cluster batch] }
      acked (max marked hi) := by
  have hown : (received runId cluster batch).runId = runId ∧
      (received runId cluster batch).shardKey = ownKey cfg cluster :=
    ⟨rfl, shardKey_received batch hsent.scenarioId_eq hsent.shardIndex_eq⟩
  obtain ⟨henter, hfresh⟩ := hs.enter_received hsent hlo
  have hmark := hs.markedAt.seq_enter
  have := hs.acked_le
  have := hs.marked_le
  have := hsent.hi_le
  refine { hs with
    store_eq := ?_, acked_le := ?_, marked_le := ?_, markedAt := ?_, own_eq := ?_,
    sent := ?_, absorbed_le := ?_, inflight := ?_ }
  · rw [Repository.applyAll_concat, ← hs.store_eq]
  · omega
  · show max marked hi ≤ s.read.length
    omega
  · rw [ledgers_concat, shard_absorbInto _ hvalid, if_pos hown, henter]
    refine ⟨by simp, ?_⟩
    rw [ShardStream.advance, hmark, hfresh, hs.numbered.highest_window hsent.hi_le]
  · rw [ownPieces_concat, if_pos ⟨hvalid, hown⟩, Ledger.fresh, henter, hmark, hfresh]
    rw [intervalsOf_append, hs.own_eq, intervalsOf_cons, intervalsOf_nil, List.append_nil,
      take_append_window]
  · intro j b flag hj
    rcases getElem?_set_cases hj with ⟨-, he⟩ | ⟨-, hj⟩
    · cases he
      exact ⟨lo, hi, hsent, by omega⟩
    · obtain ⟨lo', hi', hsent', hlo'⟩ := hs.sent j b flag hj
      exact ⟨lo', hi', hsent', by omega⟩
  · intro j b hj iv hiv
    rcases getElem?_set_cases hj with ⟨-, he⟩ | ⟨-, hj⟩
    · -- the window ends at `hi`, and so do the sequences in it
      cases he
      rw [hsent.intervals_eq] at hiv
      obtain ⟨k, -, hk, hget⟩ := mem_window.mp hiv
      have hseq := hs.numbered _ _ hget
      omega
    · have hle := hs.absorbed_le j b hj iv hiv
      omega
  · intro j hj
    obtain ⟨b, flag, hi', hwire', hsent'⟩ := hs.inflight j hj
    rcases eq_or_ne j i with rfl | hji
    · rw [hwire, Option.some_inj] at hwire'
      cases hwire'
      refine ⟨batch, true, hi', ?_, hsent'⟩
      exact List.getElem?_set_self (List.getElem?_eq_some_iff.mp hwire).1
    · refine ⟨b, flag, hi', ?_, hsent'⟩
      rw [List.getElem?_set_ne (Ne.symm hji)]
      exact hwire'

theorem inv_arrive (hs : Inv cfg v runId cluster streamId s acked marked) (i : ℕ) :
    ∃ marked', Inv cfg v runId cluster streamId (s.arrive v runId cluster i) acked marked' := by
  cases hwire : s.wire[i]? with
  | none =>
      simp only [System.arrive, hwire]
      exact ⟨marked, hs⟩
  | some entry =>
      obtain ⟨batch, absorbed⟩ := entry
      cases habsorb : s.store.absorb v (received runId cluster batch) with
      | error e =>
          simp only [System.arrive, hwire, habsorb]
          exact ⟨marked, hs⟩
      | ok store =>
          simp only [System.arrive, hwire, habsorb]
          obtain ⟨lo, hi, hsent, hlo⟩ := hs.sent i batch absorbed hwire
          obtain ⟨hvalid, rfl⟩ := Repository.absorb_eq_ok habsorb
          exact ⟨max marked hi, inv_absorbed hs hwire hsent hlo hvalid⟩

theorem inv_arriveOther (hs : Inv cfg v runId cluster streamId s acked marked)
    (b : ProgressBatch) :
    Inv cfg v runId cluster streamId (s.arriveOther cfg v runId cluster b) acked marked := by
  unfold System.arriveOther
  split
  · exact hs
  case isFalse hother =>
    cases habsorb : s.store.absorb v b with
    | error e => exact hs
    | ok store =>
        obtain ⟨hvalid, rfl⟩ := Repository.absorb_eq_ok habsorb
        refine { hs with store_eq := ?_, markedAt := ?_, own_eq := ?_ }
        · rw [Repository.applyAll_concat, ← hs.store_eq]
        · rw [ledgers_concat, shard_absorbInto _ hvalid, if_neg hother]
          exact hs.markedAt
        · rw [ownPieces_concat, if_neg fun h => hother h.2, List.append_nil]
          exact hs.own_eq

theorem inv_step (hs : Inv cfg v runId cluster streamId s acked marked) (e : Event) :
    ∃ acked' marked', Inv cfg v runId cluster streamId (s.step cfg v runId cluster e) acked'
      marked' := by
  cases e with
  | read chunks => exact ⟨acked, marked, inv_read hs chunks⟩
  | exitCode raw => exact ⟨acked, marked, inv_exitCode hs raw⟩
  | push final => exact ⟨acked, marked, inv_push hs final⟩
  | absorb i => exact ⟨acked, inv_arrive hs i⟩
  | answer =>
      obtain ⟨acked', hs'⟩ := inv_answer hs
      exact ⟨acked', marked, hs'⟩
  | giveUp => exact ⟨acked, marked, inv_giveUp hs⟩
  | other b => exact ⟨acked, marked, inv_arriveOther hs b⟩

theorem inv_run (events : List Event) :
    ∃ acked marked, Inv cfg v runId cluster streamId
      (System.run cfg v runId cluster streamId events) acked marked := by
  induction events using List.reverseRecOn with
  | nil => exact ⟨0, 0, inv_init⟩
  | append_singleton events e ih =>
      obtain ⟨acked, marked, hs⟩ := ih
      rw [System.run, List.foldl_append]
      exact inv_step hs e

end Invariant

/-! ### Exactly once -/

def otherPushes (cfg : Config) (runId : ℤ) (cluster : String) (history : List ProgressBatch) :
    List ProgressBatch :=
  (inRun runId history).filter fun b => b.shardKey ≠ ownKey cfg cluster

/-- The tables of a run hold the first `w` intervals of a stream, each merged
once, and what the other shards' pushes would have left alone. -/
structure CountedOnce (cfg : Config) (v : Visit) (runId : ℤ) (cluster streamId : String)
    (tables : RunTables) (read : List Interval) (others : List ProgressBatch) (w : ℕ) : Prop where
  marked : MarkedAt tables.shards[ownKey cfg cluster]? streamId w
  merged : ∃ pieces : List (ShardKey × List Interval),
    { tables with shards := ∅ } = absorbPieces v .empty pieces ∧
      intervalsOf (pieces.filter fun p => p.1 = ownKey cfg cluster) = read.take w ∧
      (pieces.filter fun p => p.1 ≠ ownKey cfg cluster) = Ledger.empty.pieces others
  tally_eq : tables.ledger.tally =
    intervalsTally (read.take w) + (others.foldl Ledger.absorb .empty).tally
  series_eq : tables.ledger.series =
    seriesOf (read.take w) + (others.foldl Ledger.absorb .empty).series
  others_eq : ∀ k ≠ ownKey cfg cluster,
    tables.shards[k]? = (others.foldl Ledger.absorb .empty).shards[k]?

theorem Inv.countedOnce {cfg : Config} {v : Visit} {runId : ℤ} {cluster streamId : String}
    {s : System} {acked w : ℕ} (hs : Inv cfg v runId cluster streamId s acked w) :
    CountedOnce cfg v runId cluster streamId (s.store.run runId) s.read
      (otherPushes cfg runId cluster s.history) w := by
  have hrun := Repository.run_applyAll v s.history runId
  have htables := foldl_absorbTx v .empty (inRun runId s.history)
  have hledger : (s.store.run runId).ledger = ledgers s.history runId := by
    rw [hs.store_eq]
    exact congrFun (Repository.ledger_applyAll v s.history) runId
  have hothers : ((Ledger.empty.pieces (inRun runId s.history)).filter fun p =>
      p.1 ≠ ownKey cfg cluster) =
      Ledger.empty.pieces (otherPushes cfg runId cluster s.history) :=
    Ledger.filter_pieces (fun k => k ≠ ownKey cfg cluster) (fun _ _ => rfl) _
  have hperm : (intervalsOf (Ledger.empty.pieces (inRun runId s.history))).Perm
      (s.read.take w ++
        intervalsOf (Ledger.empty.pieces (otherPushes cfg runId cluster s.history))) := by
    rw [← hs.own_eq, ← hothers]
    simpa [ownPieces] using intervalsOf_perm (fun k => k = ownKey cfg cluster)
      (Ledger.empty.pieces (inRun runId s.history))
  refine ⟨?_, ⟨_, ?_, hs.own_eq, hothers⟩, ?_, ?_, ?_⟩
  · change MarkedAt (s.store.run runId).ledger.shards[ownKey cfg cluster]? _ _
    rw [hledger]
    exact hs.markedAt
  · rw [hs.store_eq, hrun, htables]
    exact (absorbPieces_shards v .empty _ ∅).symm
  · rw [hledger, ledgers_eq, Ledger.tally_foldl_absorb, Ledger.tally_foldl_absorb,
      intervalsTally_perm hperm, intervalsTally_append]
    simp [Ledger.empty]
  · rw [hledger, ledgers_eq, Ledger.series_foldl_absorb, Ledger.series_foldl_absorb,
      seriesOf_perm hperm, seriesOf_append]
    simp [Ledger.empty]
  · intro k hk
    change (s.store.run runId).ledger.shards[k]? = _
    rw [hledger, ledgers_eq]
    exact Ledger.shards_foldl_absorb (fun k => k ≠ ownKey cfg cluster) (fun _ _ => rfl) _ k
      (decide_eq_true hk)

end Honryu.Sidecar
