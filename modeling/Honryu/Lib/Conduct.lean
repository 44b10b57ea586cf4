import Honryu.Lib.Calls

/-!
Calls whose conduct is only of interest as long as nothing unexpected happens to them.

What is learned of a call says what it may ask next. Once it has met with something that
does not happen where it is used, it is lost, and then it may ask anything. One shows that a
call keeps to its conduct whatever it is answered, and then that none is lost.
-/

structure Conduct {Op : Type} (Answer : Op → Type) (ε γ : Type) where
  lost : γ → Bool
  allowed : γ → Op → Prop
  learn : (o : Op) → Except ε (Answer o) → γ → γ

namespace Conduct

variable {Op : Type} {Answer : Op → Type} {ε γ α β : Type} (C : Conduct Answer ε γ)

def rule (g : γ) (o : Op) : Prop := C.lost g = true ∨ C.allowed g o

/-- Nothing more is learned of a call that is lost. -/
def note (o : Op) (r : Except ε (Answer o)) (g : γ) : γ := if C.lost g then g else C.learn o r g

/-- A part of a call keeps to its conduct, and unless it is lost this holds in the end. -/
def Follows (c : Call Answer ε α) (g : γ) (done : Except ε α → γ → Prop) : Prop :=
  c.Obeys C.rule C.note (fun r g' => C.lost g' = true ∨ done r g') g

section Follows

variable {C} {g : γ} {done : Except ε β → γ → Prop}

theorem note_of_not_lost (h : C.lost g = false) (o : Op) (r : Except ε (Answer o)) :
    C.note o r g = C.learn o r g := by
  rw [note, h]
  rfl

theorem rule.allowed {o : Op} (h : C.rule g o) (hlost : C.lost g = false) : C.allowed g o :=
  h.resolve_left (by rw [hlost]; exact nofun)

theorem Follows.of_lost {c : Call Answer ε β} (h : C.lost g = true) : C.Follows c g done := by
  induction c generalizing g with
  | ret a => exact .inl h
  | fail e => exact .inl h
  | ask o next ih =>
      refine ⟨.inl h, fun r => ih r ?_⟩
      rwa [note, if_pos h]

theorem Follows.mono {done' : Except ε β → γ → Prop} {c : Call Answer ε β}
    (hc : C.Follows c g done) (h : ∀ r g', done r g' → done' r g') : C.Follows c g done' :=
  Call.Obeys.mono hc fun r g' => Or.imp_right (h r g')

theorem Follows.bind {mid : Except ε α → γ → Prop} {c : Call Answer ε α} {f : α → Call Answer ε β}
    (hc : C.Follows c g mid) (hok : ∀ a g', mid (.ok a) g' → C.Follows (f a) g' done)
    (herror : ∀ e g', mid (.error e) g' → done (.error e) g') : C.Follows (c >>= f) g done :=
  Call.Obeys.bind hc (fun a g' h => h.elim Follows.of_lost (hok a g'))
    fun e g' => Or.imp_right (herror e g')

theorem Follows.attempt_bind {mid : Except ε α → γ → Prop} {c : Call Answer ε α}
    {f : Except ε α → Call Answer ε β} (hc : C.Follows c g mid)
    (hf : ∀ r g', mid r g' → C.Follows (f r) g' done) : C.Follows (c.attempt >>= f) g done :=
  Call.Obeys.attempt_bind hc fun r g' h => h.elim Follows.of_lost (hf r g')

/-- One question, and what is learned from it. -/
theorem Follows.ask {o : Op} {next : Except ε (Answer o) → Call Answer ε β} (ho : C.allowed g o)
    (hnext : ∀ r, C.Follows (next r) (C.learn o r g) done) : C.Follows (.ask o next) g done := by
  cases hlost : C.lost g with
  | true => exact .of_lost hlost
  | false =>
      refine ⟨.inr ho, fun r => ?_⟩
      rw [note_of_not_lost hlost]
      exact hnext r

/-- One question that nothing is learned from. -/
theorem Follows.aside {o : Op} {next : Except ε (Answer o) → Call Answer ε β} (ho : C.allowed g o)
    (hsame : ∀ r, C.learn o r g = g) (hnext : ∀ r, C.Follows (next r) g done) :
    C.Follows (.ask o next) g done :=
  .ask ho fun r => (hsame r).symm ▸ hnext r

theorem Follows.need {o : Op} {f : Answer o → Call Answer ε β} (ho : C.allowed g o)
    (hok : ∀ a, C.Follows (f a) (C.learn o (.ok a) g) done)
    (herror : ∀ e, C.lost (C.learn o (.error e) g) = true ∨ done (.error e) (C.learn o (.error e) g)) :
    C.Follows (Call.need o >>= f) g done :=
  .ask ho fun r => by
    cases r with
    | ok a => exact hok a
    | error e => exact herror e

/-- A part that asks only what is allowed as long as the note is of a certain kind, and keeps
it of this kind. -/
theorem Follows.of_asks {p : Op → Prop} {c : Call Answer ε β} (within : γ → Prop) (hc : c.Asks p)
    (hp : ∀ o g, p o → within g →
      C.allowed g o ∧ ∀ r, C.lost (C.learn o r g) = true ∨ within (C.learn o r g))
    (hg : within g) : C.Follows c g fun _ => within := by
  refine hc.obeys_within (fun g' => C.lost g' = true ∨ within g') (fun o g' ho h => ?_) (.inr hg)
    fun _ _ h => h
  cases hlost : C.lost g' with
  | true => exact ⟨.inl hlost, fun r => .inl (by rwa [note, if_pos hlost])⟩
  | false =>
      have hwithin := h.resolve_left (by rw [hlost]; exact nofun)
      refine ⟨.inr (hp o g' ho hwithin).1, fun r => ?_⟩
      rw [note_of_not_lost hlost]
      exact (hp o g' ho hwithin).2 r

end Follows

/-! ### Parts that keep the note of a certain kind -/

/-- Whenever the note is of a certain kind, the part keeps to its conduct, and keeps it of this
kind. -/
def Keeps (within : γ → Prop) (c : Call Answer ε α) : Prop :=
  ∀ g, within g → C.Follows c g fun _ => within

section Keeps

variable {C} {within : γ → Prop}

theorem keeps_ret (a : α) : C.Keeps within (.ret a) := fun _ h => .inr h

theorem keeps_fail (e : ε) : C.Keeps within (.fail e : Call Answer ε α) := fun _ h => .inr h

theorem Keeps.bind {c : Call Answer ε α} {f : α → Call Answer ε β} (hc : C.Keeps within c)
    (hf : ∀ a, C.Keeps within (f a)) : C.Keeps within (c >>= f) :=
  fun g h => (hc g h).bind (fun a => hf a) fun _ _ h => h

theorem Keeps.attempt_bind {c : Call Answer ε α} {f : Except ε α → Call Answer ε β}
    (hc : C.Keeps within c) (hf : ∀ r, C.Keeps within (f r)) : C.Keeps within (c.attempt >>= f) :=
  fun g h => (hc g h).attempt_bind hf

theorem Keeps.of_asks {p : Op → Prop} {c : Call Answer ε α} (hc : c.Asks p)
    (hp : ∀ o g, p o → within g →
      C.allowed g o ∧ ∀ r, C.lost (C.learn o r g) = true ∨ within (C.learn o r g)) :
    C.Keeps within c := fun _ h => .of_asks within hc hp h

end Keeps

end Conduct
