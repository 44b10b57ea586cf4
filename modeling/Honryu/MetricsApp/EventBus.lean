import Honryu.Lib.Walk
import Mathlib.Data.Finset.Basic

/-!
The bus that brings measurements to those who watch an execution.

`Publish`, `Subscribe` and the function that cancels hold the mutex of the bus, so that each is one
step. A subscriber receives when it likes. To send on a closed channel, or to close one twice, would
stop the process.
-/

namespace Honryu.MetricsApp

open Function

def subBuffer : ℕ := 256

/-- The channel of a subscriber. -/
structure Channel (M : Type) where
  executionId : ℤ
  buffer : List M
  closed : Bool
  cancelled : Bool
  received : List M
  /-- What was published for the execution before the subscriber cancelled. -/
  published : List M

structure Bus (M : Type) where
  subs : Finset (ℤ × ℕ)
  channels : ℕ → Option (Channel M)
  panicked : Bool

inductive BusEvent (M : Type)
  | publish (executionId : ℤ) (m : M)
  /-- A new channel is made. -/
  | subscribe (executionId : ℤ) (sub : ℕ)
  | cancel (sub : ℕ)
  | receive (sub : ℕ)

variable {M : Type}

/-- A subscriber that is behind misses what is sent. -/
def Channel.send (c : Channel M) (m : M) : Channel M :=
  if c.buffer.length < subBuffer then { c with buffer := c.buffer ++ [m] } else c

def Channel.note (c : Channel M) (executionId : ℤ) (m : M) : Channel M :=
  if executionId = c.executionId ∧ c.cancelled = false then
    { c with published := c.published ++ [m] }
  else c

namespace Bus

def new : Bus M := ⟨∅, fun _ => none, false⟩

def deliver (b : Bus M) (executionId : ℤ) (m : M) (i : ℕ) (c : Channel M) : Channel M :=
  let c := c.note executionId m
  if (executionId, i) ∈ b.subs then c.send m else c

def step (b : Bus M) : BusEvent M → Bus M
  | .publish executionId m =>
      { b with
        channels := fun i => (b.channels i).map (b.deliver executionId m i)
        panicked := b.panicked ||
          decide (∃ sub ∈ b.subs, sub.1 = executionId ∧ (b.channels sub.2).any (·.closed) = true) }
  | .subscribe executionId i =>
      match b.channels i with
      | some _ => b
      | none =>
          { b with
            subs := insert (executionId, i) b.subs
            channels := update b.channels i (some ⟨executionId, [], false, false, [], []⟩) }
  | .cancel i => (b.channels i).elim b fun c =>
      if c.cancelled then b
      else
        { b with
          subs := b.subs.erase (c.executionId, i)
          channels := update b.channels i (some { c with closed := true, cancelled := true })
          panicked := b.panicked || c.closed }
  | .receive i => (b.channels i).elim b fun c =>
      match c.buffer with
      | [] => b
      | m :: buffer =>
          let received := c.received ++ [m]
          { b with channels := update b.channels i (some { c with buffer, received }) }

end Bus

/-- A subscriber receives what was published, in that order and once, and misses nothing unless more
was published than its buffer holds. -/
structure Channel.Faithful (c : Channel M) : Prop where
  once : c.closed = c.cancelled
  bounded : c.buffer.length ≤ subBuffer
  sublist : (c.received ++ c.buffer).Sublist c.published
  complete : c.published.length ≤ subBuffer → c.received ++ c.buffer = c.published

theorem Channel.Faithful.publish {c : Channel M} (h : c.Faithful) {executionId : ℤ}
    (hid : executionId = c.executionId) (hopen : c.cancelled = false) (m : M) :
    ((c.note executionId m).send m).Faithful := by
  rw [Channel.note, if_pos ⟨hid, hopen⟩, Channel.send]
  have hlength := h.sublist.length_le
  rw [List.length_append] at hlength
  simp only
  split
  · next hroom =>
      refine ⟨h.once, by simp; omega, ?_, fun hle => ?_⟩
      · simpa [← List.append_assoc] using h.sublist.append_right [m]
      · rw [List.length_append] at hle
        simp only [← List.append_assoc, h.complete (by omega)]
  · next hfull =>
      refine ⟨h.once, h.bounded, h.sublist.trans (List.sublist_append_left _ _), fun hle => ?_⟩
      simp only [List.length_append, List.length_singleton] at hle hfull
      omega

namespace Bus

structure Sound (b : Bus M) : Prop where
  calm : b.panicked = false
  registered : ∀ executionId i, (executionId, i) ∈ b.subs ↔
    ∃ c ∈ b.channels i, executionId = c.executionId ∧ c.cancelled = false
  faithful : ∀ i, ∀ c ∈ b.channels i, c.Faithful

variable {b : Bus M}

theorem deliver_frame (executionId : ℤ) (m : M) (i : ℕ) (c : Channel M) :
    (b.deliver executionId m i c).executionId = c.executionId ∧
      (b.deliver executionId m i c).cancelled = c.cancelled := by
  simp only [deliver, Channel.note, Channel.send]
  repeat' split
  all_goals exact ⟨rfl, rfl⟩

theorem Sound.deliver (h : b.Sound) {i : ℕ} {c : Channel M} (hc : c ∈ b.channels i)
    (executionId : ℤ) (m : M) : (b.deliver executionId m i c).Faithful := by
  have hregistered : (executionId, i) ∈ b.subs ↔
      executionId = c.executionId ∧ c.cancelled = false := by
    rw [h.registered, Option.mem_def.mp hc]
    simp
  unfold Bus.deliver
  split
  · next hi =>
      obtain ⟨hid, hopen⟩ := hregistered.mp hi
      exact (h.faithful i c hc).publish hid hopen m
  · next hi =>
      rw [Channel.note, if_neg (mt hregistered.mpr hi)]
      exact h.faithful i c hc

theorem Sound.publish (h : b.Sound) (executionId : ℤ) (m : M) :
    (b.step (.publish executionId m)).Sound := by
  refine ⟨?_, fun e i => ?_, fun i c' hc' => ?_⟩
  · simp only [step, h.calm, Bool.false_or, decide_eq_false_iff_not]
    rintro ⟨⟨_, i⟩, hi, rfl, hclosed⟩
    obtain ⟨c, hc, -, hopen⟩ := (h.registered _ i).mp hi
    rw [Option.mem_def.mp hc, Option.any_some, (h.faithful i c hc).once, hopen] at hclosed
    cases hclosed
  · refine (h.registered e i).trans ?_
    simp [step, deliver_frame]
  · obtain ⟨c, hc, rfl⟩ := Option.map_eq_some_iff.mp hc'
    exact h.deliver hc executionId m

theorem Sound.subscribe (h : b.Sound) (executionId : ℤ) (i : ℕ) :
    (b.step (.subscribe executionId i)).Sound := by
  simp only [step]
  split
  · exact h
  · next hi =>
      refine ⟨h.calm, fun e j => ?_, Walk.forall_update h.faithful _ _ ?_⟩
      · simp only [Finset.mem_insert, Prod.mk.injEq, h.registered]
        by_cases hj : j = i
        · simp [hj, hi]
        · simp [hj]
      · rintro _ ⟨⟩
        exact ⟨rfl, Nat.zero_le _, .slnil, fun _ => rfl⟩

theorem Sound.cancel (h : b.Sound) (i : ℕ) : (b.step (.cancel i)).Sound := by
  simp only [step]
  cases hi : b.channels i with
  | none => exact h
  | some c =>
      have hc := h.faithful i c hi
      simp only [Option.elim_some]
      split
      · exact h
      · next hopen =>
          rw [Bool.not_eq_true] at hopen
          refine ⟨by simp [h.calm, hc.once, hopen], fun e j => ?_,
            Walk.forall_update h.faithful _ _ ?_⟩
          · simp only [Finset.mem_erase, Ne, Prod.mk.injEq, h.registered]
            by_cases hj : j = i
            · simp +contextual [hj, hi]
            · simp [hj]
          · rintro _ ⟨⟩
            exact ⟨rfl, hc.bounded, hc.sublist, hc.complete⟩

theorem Sound.receive (h : b.Sound) (i : ℕ) : (b.step (.receive i)).Sound := by
  simp only [step]
  cases hi : b.channels i with
  | none => exact h
  | some c =>
      have hc := h.faithful i c hi
      simp only [Option.elim_some]
      split
      · exact h
      · next m buffer hbuffer =>
          obtain ⟨honce, hbounded, hsublist, hcomplete⟩ := hc
          rw [hbuffer] at hbounded
          rw [hbuffer, List.append_cons] at hsublist hcomplete
          refine ⟨h.calm, fun e j => ?_, Walk.forall_update h.faithful _ _ ?_⟩
          · rw [h.registered]
            by_cases hj : j = i
            · simp [hj, hi]
            · simp [hj]
          · rintro _ ⟨⟩
            exact ⟨honce, Nat.le_of_succ_le hbounded, hsublist, hcomplete⟩

/-- Whatever is published, subscribed, cancelled and received, and in whichever order: nothing stops
the process, and every subscriber is served faithfully. -/
theorem faithful_run (events : List (BusEvent M)) :
    (Walk.run step (new : Bus M) events).panicked = false ∧
      ∀ i, ∀ c ∈ (Walk.run step (new : Bus M) events).channels i, c.Faithful := by
  have hnew : (new : Bus M).Sound := ⟨rfl, by simp [new], by simp [new]⟩
  have h : (Walk.run step (new : Bus M) events).Sound := by
    refine List.foldlRecOn events _ hnew fun b hb e _ => ?_
    cases e with
    | publish executionId m => exact hb.publish executionId m
    | subscribe executionId i => exact hb.subscribe executionId i
    | cancel i => exact hb.cancel i
    | receive i => exact hb.receive i
  exact ⟨h.calm, h.faithful⟩

end Bus

end Honryu.MetricsApp
