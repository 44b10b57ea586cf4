import Honryu.Sidecar.Sidecar

/-!
Reading a stream in pieces.

What a sidecar has read is a number of whole lines, which it has consumed, and the beginning of
another, which it carries. A piece goes to the end of what is carried, so it does not matter where
the stream is cut.
-/

namespace Honryu.Sidecar

open Metrics

/-! ### The loop over the lines -/

/-- The loop of `consumeLines`, which cuts the buffer at the first newline until there is none.
Shrinking the buffer copies what is left, and leaves it as it is. -/
def consumeLoop (cfg : Config) : ℕ → State → State
  | 0, s => s
  | fuel + 1, s =>
      match s.carry.findIdx? (· = 10) with
      | none => s
      | some i =>
          consumeLoop cfg fuel
            { consume cfg s (s.carry.take i) with carry := s.carry.drop (i + 1) }

theorem splitLines_eq (cs : List UInt8) :
    splitLines cs =
      match cs.findIdx? (· = 10) with
      | none => ([], cs)
      | some i => (cs.take i :: (splitLines (cs.drop (i + 1))).1, (splitLines (cs.drop (i + 1))).2) := by
  induction cs with
  | nil => rfl
  | cons c cs ih =>
      rw [splitLines, List.findIdx?_cons]
      by_cases hc : c = 10
      · simp [hc]
      · simp only [hc, decide_false, if_false, Bool.false_eq_true]
        rw [ih]
        cases cs.findIdx? (· = 10) with
        | none => rfl
        | some i => rfl

theorem consume_carry (cfg : Config) (s : State) (line carry : List UInt8) :
    consume cfg { s with carry } line = { consume cfg s line with carry } := by
  unfold consume
  cases cfg.decode line <;> rfl

theorem foldl_consume_carry (cfg : Config) (s : State) (lines : List (List UInt8))
    (carry : List UInt8) :
    lines.foldl (consume cfg) { s with carry } =
      { lines.foldl (consume cfg) s with carry } := by
  induction lines generalizing s with
  | nil => rfl
  | cons line lines ih => rw [List.foldl_cons, consume_carry, ih, List.foldl_cons]

/-- The loop ends after as many rounds as there are bytes, and has consumed the lines. -/
theorem consumeLoop_eq (cfg : Config) {fuel : ℕ} (s : State) (hfuel : s.carry.length < fuel) :
    consumeLoop cfg fuel s = consumeLines cfg s := by
  induction fuel generalizing s with
  | zero => exact absurd hfuel (Nat.not_lt_zero _)
  | succ fuel ih =>
      rw [consumeLoop, consumeLines, splitLines_eq]
      cases hindex : s.carry.findIdx? (· = 10) with
      | none => rfl
      | some i =>
          have hi := (List.findIdx?_eq_some_iff_getElem.mp hindex).1
          dsimp only
          rw [ih _ (by simp only [List.length_drop]; omega)]
          simp only [consumeLines, foldl_consume_carry, List.foldl_cons]

/-- `drain` is the loop that appends what was read to the buffer and runs the loop over its lines. -/
theorem drain_eq_loop (cfg : Config) (s : State) (chunks : List (List UInt8)) :
    drain cfg s chunks =
      chunks.foldl (fun s chunk =>
        consumeLoop cfg (s.carry.length + chunk.length + 1) { s with carry := s.carry ++ chunk }) s := by
  unfold drain
  congr 1
  funext s chunk
  exact (consumeLoop_eq cfg _ (by simp)).symm

/-! ### What has been read -/

structure Splits (text : List UInt8) (lines : List (List UInt8)) (rest : List UInt8) : Prop where
  notMem_line : ∀ line ∈ lines, 10 ∉ line
  notMem_rest : 10 ∉ rest
  text_eq : text = lines.flatMap (· ++ [10]) ++ rest

theorem splits_splitLines (cs : List UInt8) : Splits cs (splitLines cs).1 (splitLines cs).2 := by
  induction cs with
  | nil => exact ⟨nofun, nofun, rfl⟩
  | cons c cs ih =>
      rw [splitLines]
      generalize splitLines cs = split at ih
      obtain ⟨lines, rest⟩ := split
      obtain ⟨hlines, hrest, htext⟩ := ih
      by_cases hc : c = 10
      · simp only [if_pos hc]
        exact ⟨List.forall_mem_cons.mpr ⟨nofun, hlines⟩, hrest, by simp [hc, htext]⟩
      · simp only [if_neg hc]
        cases lines with
        | nil => exact ⟨nofun, by simpa [Ne.symm hc] using hrest, by simp [htext]⟩
        | cons line lines =>
            obtain ⟨hline, hlines⟩ := List.forall_mem_cons.mp hlines
            exact ⟨List.forall_mem_cons.mpr ⟨by simpa [Ne.symm hc] using hline, hlines⟩, hrest,
              by simp [htext]⟩

theorem Splits.append {text text' : List UInt8} {lines lines' : List (List UInt8)}
    {rest rest' : List UInt8} (h : Splits text lines rest) (h' : Splits (rest ++ text') lines' rest') :
    Splits (text ++ text') (lines ++ lines') rest' where
  notMem_line := List.forall_mem_append.mpr ⟨h.notMem_line, h'.notMem_line⟩
  notMem_rest := h'.notMem_rest
  text_eq := by
    rw [h.text_eq, List.append_assoc, h'.text_eq, List.flatMap_append, List.append_assoc]

def queued (cfg : Config) (iv : Interval) (i : ℕ) : Interval :=
  { iv with label := (cfg.labelMap[iv.label]?).getD iv.label, seq := i + 1 }

theorem foldl_consume_new (cfg : Config) (streamId : String) (lines : List (List UInt8)) :
    let s := lines.foldl (consume cfg) (State.new streamId)
    s.pending = (lines.filterMap cfg.decode).mapIdx (fun i iv => queued cfg iv i) ∧
      s.seq = (lines.filterMap cfg.decode).length := by
  induction lines using List.reverseRecOn with
  | nil => exact ⟨rfl, rfl⟩
  | append_singleton lines line ih =>
      obtain ⟨hpending, hseq⟩ := ih
      rw [List.foldl_append, List.foldl_cons, List.foldl_nil, List.filterMap_append]
      generalize lines.foldl (consume cfg) (State.new streamId) = s at hpending hseq
      unfold consume
      cases hline : cfg.decode line with
      | none => simpa [hline] using ⟨hpending, hseq⟩
      | some iv => simp [hline, hpending, hseq, queued, List.mapIdx_append]

/-- A sidecar has read a text: it has consumed its lines, and carries the rest. -/
def HasRead (cfg : Config) (streamId : String) (text : List UInt8) (s : State) : Prop :=
  ∃ lines rest, Splits text lines rest ∧
    s = { lines.foldl (consume cfg) (State.new streamId) with carry := rest }

theorem HasRead.chunk {cfg : Config} {streamId : String} {text : List UInt8} {s : State}
    (h : HasRead cfg streamId text s) (chunk : List UInt8) :
    HasRead cfg streamId (text ++ chunk) (consumeLines cfg { s with carry := s.carry ++ chunk }) := by
  obtain ⟨lines, rest, hsplits, rfl⟩ := h
  refine ⟨_, _, hsplits.append (splits_splitLines (rest ++ chunk)), ?_⟩
  simp only [consumeLines, foldl_consume_carry, List.foldl_append]

theorem HasRead.drain {cfg : Config} {streamId : String} {text : List UInt8} {s : State}
    (h : HasRead cfg streamId text s) (chunks : List (List UInt8)) :
    HasRead cfg streamId (text ++ chunks.flatten) (Sidecar.drain cfg s chunks) := by
  induction chunks generalizing text s with
  | nil => simpa [Sidecar.drain] using h
  | cons chunk chunks ih =>
      rw [List.flatten_cons, ← List.append_assoc]
      exact ih (h.chunk chunk)

theorem HasRead.drains {cfg : Config} {streamId : String} {text : List UInt8} {s : State}
    (h : HasRead cfg streamId text s) (pieces : List (List (List UInt8))) :
    HasRead cfg streamId (text ++ pieces.flatten.flatten) (pieces.foldl (Sidecar.drain cfg) s) := by
  induction pieces generalizing text s with
  | nil => simpa using h
  | cons chunks pieces ih =>
      rw [List.flatten_cons, List.flatten_append, ← List.append_assoc]
      exact ih (h.drain chunks)

/-- However a stream becomes readable, over any number of drains, what is queued are the intervals of
its complete lines, in order and numbered from one, and what is carried is the text after the last
newline. -/
theorem drain_exact (cfg : Config) (streamId : String) (pieces : List (List (List UInt8))) :
    ∃ lines rest, Splits pieces.flatten.flatten lines rest ∧
      (pieces.foldl (drain cfg) (State.new streamId)).pending =
        (lines.filterMap cfg.decode).mapIdx (fun i iv => queued cfg iv i) ∧
      (pieces.foldl (drain cfg) (State.new streamId)).carry = rest := by
  have hnew : HasRead cfg streamId [] (State.new streamId) := ⟨[], [], ⟨nofun, nofun, rfl⟩, rfl⟩
  obtain ⟨lines, rest, hsplits, hread⟩ := hnew.drains pieces
  refine ⟨lines, rest, hsplits, ?_, ?_⟩
  · rw [hread]
    exact (foldl_consume_new cfg streamId lines).1
  · rw [hread]

end Honryu.Sidecar
