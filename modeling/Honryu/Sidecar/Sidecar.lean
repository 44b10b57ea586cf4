import Honryu.Lib.Text
import Honryu.Metrics.Interval

/-!
The sidecar: it tails an engine's stream, numbers the intervals it reads, and
pushes what is pending. A push is sent and answered at different moments, so it
is given in two halves: the batch that is sent, and what a success changes.
-/

namespace Honryu.Sidecar

open Metrics

/-- `Identity` is what the pod was started as. -/
structure Identity where
  executionId : ℤ
  scenarioId : ℤ
  runId : ℤ
  shardIndex : ℤ
  deriving DecidableEq

/-- `Config`, and the decoding of a line: trimming it, skipping a blank one and
unmarshalling the rest. A line that does not decode is skipped. -/
structure Config where
  identity : Identity
  labelMap : TallyMap String String
  exitCodePath : String
  decode : List UInt8 → Option Interval

structure State where
  pending : List Interval
  carry : List UInt8
  sent : ℕ
  seq : ℤ
  streamId : String
  exitCode : Option ℤ

def State.new (streamId : String) : State :=
  { pending := [], carry := [], sent := 0, seq := 0, streamId, exitCode := none }

/-! ### Reading -/

/-- `consume` numbers the interval of a line and makes it pending. -/
def consume (cfg : Config) (s : State) (line : List UInt8) : State :=
  match cfg.decode line with
  | none => s
  | some iv =>
      let label := (cfg.labelMap[iv.label]?).getD iv.label
      let seq := s.seq + 1
      { s with seq, pending := s.pending ++ [{ iv with label, seq }] }

def splitLines : List UInt8 → List (List UInt8) × List UInt8
  | [] => ([], [])
  | c :: rest =>
      match splitLines rest with
      | (lines, carry) =>
          if c = 10 then ([] :: lines, carry)
          else
            match lines with
            | [] => ([], c :: carry)
            | line :: lines => ((c :: line) :: lines, carry)

def consumeLines (cfg : Config) (s : State) : State :=
  let (lines, carry) := splitLines s.carry
  { lines.foldl (consume cfg) s with carry }

/-- `drain` reads until the stream has nothing more, chunk by chunk. -/
def drain (cfg : Config) (s : State) (chunks : List (List UInt8)) : State :=
  chunks.foldl (fun s chunk => consumeLines cfg { s with carry := s.carry ++ chunk }) s

/-- `checkExitCode` reads the exit-code file, whose content is `raw` if it can
be read, and reports whether the engine has finished. -/
def checkExitCode (cfg : Config) (s : State) (raw : Option String) : State × Bool :=
  if cfg.exitCodePath = "" then (s, false)
  else
    match raw with
    | none => (s, false)
    | some raw =>
        match Text.atoi (Text.trimSpace raw) with
        | none => (s, false)
        | some code => ({ s with exitCode := some code }, true)

/-! ### Pushing -/

/-- The batch `flush` sends, if it sends one. -/
def push (cfg : Config) (s : State) (final : Bool) : Option Batch :=
  if s.pending = [] ∧ final = false then none
  else
    some
      { executionId := cfg.identity.executionId, scenarioId := cfg.identity.scenarioId,
        runId := cfg.identity.runId, shardIndex := cfg.identity.shardIndex,
        streamId := s.streamId, intervals := s.pending, cluster := "", final,
        exitCode := s.exitCode }

/-- What `flush` does once the control plane has accepted a batch: it drops
exactly what was sent. -/
def accepted (s : State) (batch : Batch) : State :=
  { s with
    pending := if batch.intervals.length ≤ s.pending.length then
      s.pending.drop batch.intervals.length else []
    sent := s.sent + 1 }

/-! ### What reading does -/

/-- A state that has read some more: intervals were appended, numbered on from
the sequence, and nothing else a push reads has changed. -/
structure ReadMore (s s' : State) (new : List Interval) : Prop where
  pending_eq : s'.pending = s.pending ++ new
  seq_eq : s'.seq = s.seq + new.length
  new_seq : ∀ (i : ℕ) (iv : Interval), new[i]? = some iv → iv.seq = s.seq + i + 1
  streamId_eq : s'.streamId = s.streamId
  exitCode_eq : s'.exitCode = s.exitCode
  sent_eq : s'.sent = s.sent

theorem ReadMore.refl (s : State) : ReadMore s s [] :=
  ⟨by simp, by simp, by simp, rfl, rfl, rfl⟩

theorem ReadMore.trans {s s' s'' : State} {new new' : List Interval} (h : ReadMore s s' new)
    (h' : ReadMore s' s'' new') : ReadMore s s'' (new ++ new') where
  pending_eq := by rw [h'.pending_eq, h.pending_eq, List.append_assoc]
  seq_eq := by rw [h'.seq_eq, h.seq_eq, List.length_append]; push_cast; ring
  new_seq := by
    intro i iv hiv
    by_cases hlt : i < new.length
    · rw [List.getElem?_append_left hlt] at hiv
      exact h.new_seq i iv hiv
    · rw [List.getElem?_append_right (not_lt.mp hlt)] at hiv
      rw [h'.new_seq _ iv hiv, h.seq_eq]
      omega
  streamId_eq := h'.streamId_eq.trans h.streamId_eq
  exitCode_eq := h'.exitCode_eq.trans h.exitCode_eq
  sent_eq := h'.sent_eq.trans h.sent_eq

theorem readMore_consume (cfg : Config) (s : State) (line : List UInt8) :
    ∃ new, ReadMore s (consume cfg s line) new := by
  unfold consume
  cases cfg.decode line with
  | none => exact ⟨[], .refl s⟩
  | some iv =>
      refine ⟨[{ iv with label := (cfg.labelMap[iv.label]?).getD iv.label, seq := s.seq + 1 }], ?_⟩
      refine ⟨rfl, by simp, ?_, rfl, rfl, rfl⟩
      intro i iv' hiv
      rw [List.getElem?_singleton] at hiv
      split at hiv
      case isTrue h =>
        cases hiv
        simp [h]
      case isFalse => cases hiv

theorem readMore_drain (cfg : Config) (s : State) (chunks : List (List UInt8)) :
    ∃ new, ReadMore s (drain cfg s chunks) new := by
  have hlines : ∀ (lines : List (List UInt8)) (s : State),
      ∃ new, ReadMore s (lines.foldl (consume cfg) s) new := by
    intro lines
    induction lines with
    | nil => exact fun s => ⟨[], .refl s⟩
    | cons line lines ih =>
        intro s
        obtain ⟨new, hnew⟩ := readMore_consume cfg s line
        obtain ⟨rest, hrest⟩ := ih (consume cfg s line)
        exact ⟨new ++ rest, hnew.trans hrest⟩
  induction chunks generalizing s with
  | nil => exact ⟨[], .refl s⟩
  | cons chunk chunks ih =>
      obtain ⟨new, hnew⟩ := hlines (splitLines (s.carry ++ chunk)).1
        { s with carry := s.carry ++ chunk }
      obtain ⟨rest, hrest⟩ := ih (consumeLines cfg { s with carry := s.carry ++ chunk })
      have hchunk : ReadMore s (consumeLines cfg { s with carry := s.carry ++ chunk }) new :=
        { hnew with }
      exact ⟨new ++ rest, hchunk.trans hrest⟩

end Honryu.Sidecar
