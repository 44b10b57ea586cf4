import Mathlib.Logic.Function.Basic

/-!
Calls on a shared store.

A call asks the store one question after another. What it asks next may depend on the
answers so far, and in the end it returns a value or fails. A question may fail.

A call can be run alone, with a script of what goes wrong. Or any number of calls run
side by side, and their questions interleave. What a call has learned is then kept in
a note, which is a function of its questions and their answers. Notes are not seen by the
calls. They are there to say at which point a call is, without looking into it.

To show that something always holds, one shows that every call keeps to a rule for its
questions, given its note, and that a question within the rule keeps what is claimed.
The first is about the text of the calls and the second about the store.
-/

/-! ### Calls -/

inductive Call {Op : Type} (Answer : Op → Type) (ε α : Type) : Type
  | ret (a : α)
  | fail (e : ε)
  | ask (o : Op) (next : Except ε (Answer o) → Call Answer ε α)

namespace Call

variable {Op : Type} {Answer : Op → Type} {ε α β : Type}

def bind : Call Answer ε α → (α → Call Answer ε β) → Call Answer ε β
  | ret a, f => f a
  | fail e, _ => fail e
  | ask o next, f => ask o fun r => (next r).bind f

instance : Monad (Call Answer ε) where
  pure := ret
  bind := bind

/-- A call whose failure is looked at. -/
def attempt : Call Answer ε α → Call Answer ε (Except ε α)
  | ret a => ret (.ok a)
  | fail e => ret (.error e)
  | ask o next => ask o fun r => (next r).attempt

/-- What is known of a call's end. -/
def ofResult : Except ε α → Call Answer ε α
  | .ok a => ret a
  | .error e => fail e

/-- A question that must be answered. -/
def need (o : Op) : Call Answer ε (Answer o) := ask o ofResult

/-- A question whose failure is ignored. -/
def besides (o : Op) : Call Answer ε Unit := ask o fun _ => ret ()

/-- The call has not ended. -/
def asking : Call Answer ε α → Option Op
  | ask o _ => some o
  | _ => none

@[simp] theorem pure_eq (a : α) : (pure a : Call Answer ε α) = ret a := rfl

@[simp] theorem ret_bind (a : α) (f : α → Call Answer ε β) : ret a >>= f = f a := rfl

@[simp] theorem fail_bind (e : ε) (f : α → Call Answer ε β) : fail e >>= f = fail e := rfl

@[simp] theorem ask_bind (o : Op) (next : Except ε (Answer o) → Call Answer ε α)
    (f : α → Call Answer ε β) : ask o next >>= f = ask o fun r => next r >>= f := rfl

theorem bind_assoc {γ : Type} (c : Call Answer ε α) (f : α → Call Answer ε β)
    (g : β → Call Answer ε γ) : c >>= f >>= g = c >>= fun a => f a >>= g := by
  induction c with
  | ret a => rfl
  | fail e => rfl
  | ask o next ih => exact congrArg (ask o) (funext ih)

/-! ### What a call asks -/

/-- Whatever the answers are, the call asks only certain questions. -/
def Asks (p : Op → Prop) : Call Answer ε α → Prop
  | ret _ => True
  | fail _ => True
  | ask o next => p o ∧ ∀ r, (next r).Asks p

section Asks

variable {p q : Op → Prop}

@[simp] theorem asks_ret (a : α) : (ret a : Call Answer ε α).Asks p := trivial

@[simp] theorem asks_fail (e : ε) : (fail e : Call Answer ε α).Asks p := trivial

@[simp] theorem asks_ask {o : Op} {next : Except ε (Answer o) → Call Answer ε α} :
    (ask o next).Asks p ↔ p o ∧ ∀ r, (next r).Asks p := Iff.rfl

@[simp] theorem asks_ofResult (r : Except ε α) : (ofResult r : Call Answer ε α).Asks p := by
  cases r <;> trivial

@[simp] theorem asks_need {o : Op} : (need o : Call Answer ε (Answer o)).Asks p ↔ p o := by
  simp [need]

@[simp] theorem asks_besides {o : Op} : (besides o : Call Answer ε Unit).Asks p ↔ p o := by
  simp [besides]

theorem asks_of_forall (h : ∀ o, p o) (c : Call Answer ε α) : c.Asks p := by
  induction c with
  | ret a => trivial
  | fail e => trivial
  | ask o next ih => exact ⟨h o, ih⟩

theorem Asks.bind {c : Call Answer ε α} {f : α → Call Answer ε β} (hc : c.Asks p)
    (hf : ∀ a, (f a).Asks p) : (c >>= f).Asks p := by
  induction c with
  | ret a => exact hf a
  | fail e => trivial
  | ask o next ih => exact ⟨hc.1, fun r => ih r (hc.2 r)⟩

/-- A question, and then the rest. -/
theorem Asks.need {o : Op} {f : Answer o → Call Answer ε β} (ho : p o) (hf : ∀ a, (f a).Asks p) :
    (need o >>= f).Asks p :=
  Asks.bind (asks_need.mpr ho) hf

theorem Asks.besides {o : Op} {f : Unit → Call Answer ε β} (ho : p o) (hf : (f ()).Asks p) :
    (besides o >>= f).Asks p :=
  Asks.bind (asks_besides.mpr ho) fun _ => hf

theorem Asks.attempt {c : Call Answer ε α} (hc : c.Asks p) : c.attempt.Asks p := by
  induction c with
  | ret a => trivial
  | fail e => trivial
  | ask o next ih => exact ⟨hc.1, fun r => ih r (hc.2 r)⟩

theorem Asks.mono {c : Call Answer ε α} (hc : c.Asks p) (hpq : ∀ o, p o → q o) : c.Asks q := by
  induction c with
  | ret a => trivial
  | fail e => trivial
  | ask o next ih => exact ⟨hpq o hc.1, fun r => ih r (hc.2 r)⟩

end Asks

/-! ### Rules that go by what a call has learned -/

section Obeys

variable {γ : Type} (rule : γ → Op → Prop) (note : (o : Op) → Except ε (Answer o) → γ → γ)

/-- Each question is within the rule, given what has been noted before it, and at the
end the result fits what has been noted. -/
def Obeys (done : Except ε α → γ → Prop) : Call Answer ε α → γ → Prop
  | ret a, g => done (.ok a) g
  | fail e, g => done (.error e) g
  | ask o next, g => rule g o ∧ ∀ r, (next r).Obeys done (note o r g)

variable {rule note}

theorem Obeys.mono {done done' : Except ε α → γ → Prop} {c : Call Answer ε α} {g : γ}
    (hc : c.Obeys rule note done g) (h : ∀ r g, done r g → done' r g) :
    c.Obeys rule note done' g := by
  induction c generalizing g with
  | ret a => exact h _ _ hc
  | fail e => exact h _ _ hc
  | ask o next ih => exact ⟨hc.1, fun r => ih r (hc.2 r)⟩

/-- What holds at the end of the first part is what the second part starts with. -/
theorem Obeys.bind {done : Except ε β → γ → Prop} {mid : Except ε α → γ → Prop}
    {c : Call Answer ε α} {f : α → Call Answer ε β} {g : γ} (hc : c.Obeys rule note mid g)
    (hok : ∀ a g, mid (.ok a) g → (f a).Obeys rule note done g)
    (herror : ∀ e g, mid (.error e) g → done (.error e) g) :
    (c >>= f).Obeys rule note done g := by
  induction c generalizing g with
  | ret a => exact hok a g hc
  | fail e => exact herror e g hc
  | ask o next ih => exact ⟨hc.1, fun r => ih r (hc.2 r)⟩

theorem Obeys.attempt {done : Except ε (Except ε α) → γ → Prop} {c : Call Answer ε α} {g : γ}
    (hc : c.Obeys rule note (fun r => done (.ok r)) g) : c.attempt.Obeys rule note done g := by
  induction c generalizing g with
  | ret a => exact hc
  | fail e => exact hc
  | ask o next ih => exact ⟨hc.1, fun r => ih r (hc.2 r)⟩

/-- A part whose failure is looked at, and what follows it. -/
theorem Obeys.attempt_bind {done : Except ε β → γ → Prop} {mid : Except ε α → γ → Prop}
    {c : Call Answer ε α} {f : Except ε α → Call Answer ε β} {g : γ}
    (hc : c.Obeys rule note mid g) (hf : ∀ r g, mid r g → (f r).Obeys rule note done g) :
    (c.attempt >>= f).Obeys rule note done g := by
  induction c generalizing g with
  | ret a => exact hf _ g hc
  | fail e => exact hf _ g hc
  | ask o next ih => exact ⟨hc.1, fun r => ih r (hc.2 r)⟩

theorem obeys_need {o : Op} {done : Except ε (Answer o) → γ → Prop} {g : γ} :
    (need o : Call Answer ε (Answer o)).Obeys rule note done g ↔
      rule g o ∧ ∀ r, done r (note o r g) := by
  refine and_congr_right fun _ => forall_congr' fun r => ?_
  cases r <;> rfl

/-- Questions that are allowed as long as the note is of a certain kind, and that keep it
of this kind. -/
theorem Asks.obeys_within {p : Op → Prop} {done : Except ε α → γ → Prop} {c : Call Answer ε α}
    {g : γ} (within : γ → Prop) (hc : c.Asks p)
    (hp : ∀ o g, p o → within g → rule g o ∧ ∀ r, within (note o r g)) (hg : within g)
    (hdone : ∀ r g, within g → done r g) : c.Obeys rule note done g := by
  induction c generalizing g with
  | ret a => exact hdone _ _ hg
  | fail e => exact hdone _ _ hg
  | ask o next ih =>
      exact ⟨(hp o g hc.1 hg).1, fun r => ih r (hc.2 r) ((hp o g hc.1 hg).2 r)⟩

/-- Questions that are always allowed and leave no trace in the note. -/
theorem Asks.obeys {p : Op → Prop} {done : Except ε α → γ → Prop} {c : Call Answer ε α} {g : γ}
    (hc : c.Asks p) (hp : ∀ o, p o → rule g o ∧ ∀ r, note o r g = g) (hdone : ∀ r, done r g) :
    c.Obeys rule note done g := by
  refine hc.obeys_within (· = g) (fun o g' ho h => ?_) rfl fun r _ h => h ▸ hdone r
  rw [h]
  exact hp o ho

/-- The same for a first part, before what follows it. -/
theorem Asks.obeys_bind {p : Op → Prop} {done : Except ε β → γ → Prop} {c : Call Answer ε α}
    {f : α → Call Answer ε β} {g : γ} (hc : c.Asks p)
    (hp : ∀ o, p o → rule g o ∧ ∀ r, note o r g = g) (hok : ∀ a, (f a).Obeys rule note done g)
    (herror : ∀ e, done (.error e) g) : (c >>= f).Obeys rule note done g := by
  have hfirst : c.Obeys rule note (fun _ g' => g' = g) g := hc.obeys hp fun _ => rfl
  exact hfirst.bind (fun a _ h => h ▸ hok a) (fun e _ h => h ▸ herror e)

end Obeys

end Call

/-! ### The store -/

/-- How a store answers. An answer may depend on something outside of the store, which
is part of the input. If a question can fail, its failure leaves the store as it is. -/
structure Server {Op : Type} (Answer : Op → Type) (ε σ ι : Type) where
  perform : ι → (o : Op) → σ → Except ε (Answer o) × σ
  failure : Op → Option ε

namespace Server

variable {Op : Type} {Answer : Op → Type} {ε σ ι : Type} (S : Server Answer ε σ ι)

/-- The answer to a question, or its failure. -/
def answer (input : ι) (fails : Bool) (o : Op) (s : σ) : Except ε (Answer o) × σ :=
  if fails then
    match S.failure o with
    | some e => (.error e, s)
    | none => S.perform input o s
  else S.perform input o s

@[simp] theorem answer_false (input : ι) (o : Op) (s : σ) :
    S.answer input false o s = S.perform input o s := rfl

/-- A question is performed, or it fails. -/
theorem answer_cases (input : ι) (fails : Bool) (o : Op) (s : σ) :
    (fails = true → S.failure o = none) ∧ S.answer input fails o s = S.perform input o s ∨
      fails = true ∧ ∃ e, S.failure o = some e ∧ S.answer input fails o s = (.error e, s) := by
  cases fails with
  | false => exact .inl ⟨nofun, rfl⟩
  | true =>
      cases hfailure : S.failure o with
      | none => exact .inl ⟨fun _ => rfl, by simp [answer, hfailure]⟩
      | some e => exact .inr ⟨rfl, e, rfl, by simp [answer, hfailure]⟩

/-- Certain questions always fail. -/
def shut (hits : Op → Bool) : Server Answer ε σ ι where
  perform input o s := S.answer input (hits o) o s
  failure := S.failure

variable {S} {hits : Op → Bool}

theorem shut_perform {o : Op} (ho : hits o = false) (input : ι) (s : σ) :
    (S.shut hits).perform input o s = S.perform input o s := by
  simp only [shut, ho, answer_false]

theorem shut_perform_of_hit {o : Op} {e : ε} (ho : hits o = true) (he : S.failure o = some e)
    (input : ι) (s : σ) : (S.shut hits).perform input o s = (.error e, s) := by
  simp only [shut, answer, ho, if_true, he]

end Server
