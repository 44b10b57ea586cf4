import Honryu.Lib.Calls
import Mathlib.Data.Nat.Notation

/-!
A call that runs on its own, and what can go wrong with it.

One of its questions may fail, or the process may be stopped before one is asked. For each
mishap it is kept which question it was and what the store was like.
-/

inductive Mishap
  | fails
  | stops

/-- What a call came to. There is no result if the process was stopped. -/
structure Course (Op ε α σ : Type) where
  result : Option (Except ε α)
  state : σ
  mishaps : List (Op × σ)

/-- How something is tried: with which inputs, and what goes wrong. -/
structure Attempt (κ ι : Type) where
  kind : κ
  inputs : ℕ → ι
  mishap : Option (ℕ × Mishap)

/-- Nothing goes wrong, and the input stays the same. -/
def Attempt.calm {κ ι : Type} (kind : κ) (input : ι) : Attempt κ ι :=
  { kind, inputs := fun _ => input, mishap := none }

namespace Call

variable {Op : Type} {Answer : Op → Type} {ε σ ι α β : Type} (S : Server Answer ε σ ι)

/-- A call is carried out. If there is a mishap, it is given after how many questions. -/
def alone : Call Answer ε α → (ℕ → ι) → Option (ℕ × Mishap) → σ → Course Op ε α σ
  | ret a, _, _, s => { result := some (.ok a), state := s, mishaps := [] }
  | fail e, _, _, s => { result := some (.error e), state := s, mishaps := [] }
  | ask o next, input, mishap, s =>
      let goes := fun later =>
        (next (S.perform (input 0) o s).1).alone (fun n => input (n + 1)) later
          (S.perform (input 0) o s).2
      match mishap with
      | none => goes none
      | some (k + 1, m) => goes (some (k, m))
      | some (0, .stops) => { result := none, state := s, mishaps := [(o, s)] }
      | some (0, .fails) =>
          match S.failure o with
          | none => goes none
          | some e =>
              let rest := (next (.error e)).alone (fun n => input (n + 1)) none s
              { rest with mishaps := (o, s) :: rest.mishaps }

/-- A call is carried out, and it is given for each of its questions what goes wrong with it. -/
def beset : Call Answer ε α → (ℕ → ι) → (ℕ → Option Mishap) → σ → Course Op ε α σ
  | ret a, _, _, s => { result := some (.ok a), state := s, mishaps := [] }
  | fail e, _, _, s => { result := some (.error e), state := s, mishaps := [] }
  | ask o next, input, mishap, s =>
      let goes :=
        (next (S.perform (input 0) o s).1).beset (fun n => input (n + 1)) (fun n => mishap (n + 1))
          (S.perform (input 0) o s).2
      match mishap 0 with
      | none => goes
      | some .stops => { result := none, state := s, mishaps := [(o, s)] }
      | some .fails =>
          match S.failure o with
          | none => goes
          | some e =>
              let rest :=
                (next (.error e)).beset (fun n => input (n + 1)) (fun n => mishap (n + 1)) s
              { rest with mishaps := (o, s) :: rest.mishaps }

/-- A mishap has struck one of certain questions. -/
def struck (hit : Op → Bool) (mishaps : List (Op × σ)) : Bool := mishaps.any fun m => hit m.1

@[simp] theorem struck_append (hit : Op → Bool) (log log' : List (Op × σ)) :
    struck hit (log ++ log') = (struck hit log || struck hit log') := List.any_append

/-! ### What is sure of a call -/

/-- Whatever goes wrong, and however often, this holds in the end. -/
def Sure : Call Answer ε α → σ → (List (Op × σ) → Option (Except ε α) → σ → Prop) → Prop
  | ret a, s, Q => Q [] (some (.ok a)) s
  | fail e, s, Q => Q [] (some (.error e)) s
  | ask o next, s, Q =>
      (∀ input, (next (S.perform input o s).1).Sure (S.perform input o s).2 Q) ∧
        (∀ e, S.failure o = some e → (next (.error e)).Sure s fun log => Q ((o, s) :: log)) ∧
          Q [(o, s)] none s

section Sure

variable {S} {s : σ} {Q Q' : List (Op × σ) → Option (Except ε β) → σ → Prop}
  {mid : List (Op × σ) → Option (Except ε α) → σ → Prop}

theorem Sure.mono {c : Call Answer ε β} (hc : c.Sure S s Q) (h : ∀ log r s', Q log r s' → Q' log r s') :
    c.Sure S s Q' := by
  induction c generalizing s Q Q' with
  | ret a => exact h _ _ _ hc
  | fail e => exact h _ _ _ hc
  | ask o next ih =>
      obtain ⟨hgoes, hfails, hstops⟩ := hc
      exact ⟨fun input => ih _ (hgoes input) h,
        fun e he => ih _ (hfails e he) fun log => h ((o, s) :: log), h _ _ _ hstops⟩

theorem Sure.and {c : Call Answer ε β} (hc : c.Sure S s Q) (hc' : c.Sure S s Q') :
    c.Sure S s fun log r s' => Q log r s' ∧ Q' log r s' := by
  induction c generalizing s Q Q' with
  | ret a => exact ⟨hc, hc'⟩
  | fail e => exact ⟨hc, hc'⟩
  | ask o next ih =>
      exact ⟨fun input => ih _ (hc.1 input) (hc'.1 input),
        fun e he => ih _ (hc.2.1 e he) (hc'.2.1 e he), hc.2.2, hc'.2.2⟩

/-- What is sure of the first part, the second part starts with. -/
theorem Sure.bind {c : Call Answer ε α} {f : α → Call Answer ε β} (hc : c.Sure S s mid)
    (hok : ∀ log a s', mid log (some (.ok a)) s' →
      (f a).Sure S s' fun log' => Q (log ++ log'))
    (herror : ∀ log e s', mid log (some (.error e)) s' → Q log (some (.error e)) s')
    (hstop : ∀ log s', mid log none s' → Q log none s') : (c >>= f).Sure S s Q := by
  induction c generalizing s Q mid with
  | ret a => exact hok [] a s hc
  | fail e => exact herror [] e s hc
  | ask o next ih =>
      obtain ⟨hgoes, hfails, hstops⟩ := hc
      exact ⟨fun input => ih _ (hgoes input) hok herror hstop,
        fun e he => ih _ (hfails e he) (fun log => hok ((o, s) :: log))
          (fun log => herror ((o, s) :: log)) fun log => hstop ((o, s) :: log),
        hstop _ _ hstops⟩

/-- A call whose result is only looked at in another way. -/
theorem Sure.bind_ret {c : Call Answer ε α} {f : α → β}
    (hc : c.Sure S s fun log r => Q log (r.map (Except.map f))) :
    (c >>= fun a => ret (f a)).Sure S s Q := by
  induction c generalizing s Q with
  | ret a => exact hc
  | fail e => exact hc
  | ask o next ih =>
      obtain ⟨hgoes, hfails, hstops⟩ := hc
      exact ⟨fun input => ih _ (hgoes input), fun e he => ih _ (hfails e he), hstops⟩

theorem Sure.attempt {c : Call Answer ε α}
    {Q : List (Op × σ) → Option (Except ε (Except ε α)) → σ → Prop}
    (hc : c.Sure S s fun log r => Q log (r.map .ok)) : c.attempt.Sure S s Q := by
  induction c generalizing s Q with
  | ret a => exact hc
  | fail e => exact hc
  | ask o next ih =>
      obtain ⟨hgoes, hfails, hstops⟩ := hc
      exact ⟨fun input => ih _ (hgoes input), fun e he => ih _ (hfails e he), hstops⟩

/-- A part whose failure is looked at, and what follows it. -/
theorem Sure.attempt_bind {c : Call Answer ε α} {f : Except ε α → Call Answer ε β}
    (hc : c.Sure S s mid)
    (hf : ∀ log r s', mid log (some r) s' → (f r).Sure S s' fun log' => Q (log ++ log'))
    (hstop : ∀ log s', mid log none s' → Q log none s') : (c.attempt >>= f).Sure S s Q := by
  induction c generalizing s Q mid with
  | ret a => exact hf [] _ s hc
  | fail e => exact hf [] _ s hc
  | ask o next ih =>
      obtain ⟨hgoes, hfails, hstops⟩ := hc
      exact ⟨fun input => ih _ (hgoes input) hf hstop,
        fun e he => ih _ (hfails e he) (fun log => hf ((o, s) :: log))
          fun log => hstop ((o, s) :: log),
        hstop _ _ hstops⟩

/-- One question: it is answered, or refused, or it fails, or it is never asked. -/
theorem sure_need {o : Op} {Q : List (Op × σ) → Option (Except ε (Answer o)) → σ → Prop} :
    (need o : Call Answer ε (Answer o)).Sure S s Q ↔
      (∀ input, Q [] (some (S.perform input o s).1) (S.perform input o s).2) ∧
        (∀ e, S.failure o = some e → Q [(o, s)] (some (.error e)) s) ∧ Q [(o, s)] none s := by
  have hresult : ∀ (r : Except ε (Answer o)) (s' : σ)
      (Q : List (Op × σ) → Option (Except ε (Answer o)) → σ → Prop),
      (ofResult r : Call Answer ε (Answer o)).Sure S s' Q ↔ Q [] (some r) s' := by
    intro r s' Q
    cases r <;> rfl
  refine and_congr (forall_congr' fun input => hresult _ _ _) (and_congr_left fun _ => ?_)
  exact forall_congr' fun e => imp_congr_right fun _ => hresult _ _ _

/-- A question, and then the rest. -/
theorem Sure.need_bind {o : Op} {f : Answer o → Call Answer ε β}
    (hgoes : ∀ input a, (S.perform input o s).1 = .ok a → (f a).Sure S (S.perform input o s).2 Q)
    (hrefused : ∀ input e, (S.perform input o s).1 = .error e →
      Q [] (some (.error e)) (S.perform input o s).2)
    (hfails : ∀ e, S.failure o = some e → Q [(o, s)] (some (.error e)) s)
    (hstops : Q [(o, s)] none s) : (need o >>= f).Sure S s Q := by
  refine ⟨fun input => ?_, hfails, hstops⟩
  cases hanswer : (S.perform input o s).1 with
  | ok a => exact hgoes input a hanswer
  | error e => exact hrefused input e hanswer

theorem attempt_ofResult_bind (r : Except ε α) (f : Except ε α → Call Answer ε β) :
    ((ofResult r).attempt >>= f) = f r := by
  cases r <;> rfl

/-- A question that may be refused, where nothing goes wrong. -/
theorem alone_attempt_need_bind {β : Type} {o : Op} (f : Except ε (Answer o) → Call Answer ε β)
    (input : ℕ → ι) (s : σ) :
    ((need o).attempt >>= f).alone S input none s =
      (f (S.perform (input 0) o s).1).alone S (fun n => input (n + 1)) none
        (S.perform (input 0) o s).2 := by
  change ((ofResult _).attempt >>= f).alone S _ none _ = _
  rw [attempt_ofResult_bind]

theorem alone_need_bind {β : Type} {o : Op} (f : Answer o → Call Answer ε β) (input : ℕ → ι) {s : σ}
    {a : Answer o} (h : (S.perform (input 0) o s).1 = .ok a) :
    (need o >>= f).alone S input none s =
      (f a).alone S (fun n => input (n + 1)) none (S.perform (input 0) o s).2 := by
  change (ofResult _ >>= f).alone S _ none _ = _
  rw [h]
  rfl

/-- A call that asks only certain questions, all of which keep something. -/
theorem Asks.sure {p : Op → Prop} {inv : σ → Prop} {c : Call Answer ε β} (hc : c.Asks p)
    (hkeep : ∀ o, p o → ∀ input s, inv s → inv (S.perform input o s).2) (hs : inv s) :
    c.Sure S s fun log _ s' => inv s' ∧ ∀ m ∈ log, p m.1 ∧ inv m.2 := by
  induction c generalizing s with
  | ret a => exact ⟨hs, nofun⟩
  | fail e => exact ⟨hs, nofun⟩
  | ask o next ih =>
      obtain ⟨ho, hnext⟩ := hc
      refine ⟨fun input => ih _ (hnext _) (hkeep o ho input s hs), fun e _ => ?_, hs, ?_⟩
      · refine (ih _ (hnext _) hs).mono fun log r s' h => ⟨h.1, fun m hm => ?_⟩
        rcases List.mem_cons.mp hm with rfl | hm
        · exact ⟨ho, hs⟩
        · exact h.2 m hm
      · intro m hm
        obtain rfl := List.mem_singleton.mp hm
        exact ⟨ho, hs⟩

/-- What is sure of a call holds when it is carried out. -/
theorem Sure.alone {c : Call Answer ε β} (hc : c.Sure S s Q) (input : ℕ → ι)
    (mishap : Option (ℕ × Mishap)) :
    Q (c.alone S input mishap s).mishaps (c.alone S input mishap s).result
      (c.alone S input mishap s).state := by
  induction c generalizing s Q input mishap with
  | ret a => exact hc
  | fail e => exact hc
  | ask o next ih =>
      obtain ⟨hgoes, hfails, hstops⟩ := hc
      rcases mishap with _ | ⟨_ | k, m⟩
      · exact ih _ (hgoes _) _ _
      · cases m with
        | stops => exact hstops
        | fails =>
            simp only [Call.alone]
            cases hfailure : S.failure o with
            | none => exact ih _ (hgoes _) _ _
            | some e => exact ih _ (hfails e hfailure) _ _
      · exact ih _ (hgoes _) _ _

/-- It also holds if more than one thing goes wrong. -/
theorem Sure.beset {c : Call Answer ε β} (hc : c.Sure S s Q) (input : ℕ → ι)
    (mishap : ℕ → Option Mishap) :
    Q (c.beset S input mishap s).mishaps (c.beset S input mishap s).result
      (c.beset S input mishap s).state := by
  induction c generalizing s Q input mishap with
  | ret a => exact hc
  | fail e => exact hc
  | ask o next ih =>
      obtain ⟨hgoes, hfails, hstops⟩ := hc
      simp only [Call.beset]
      rcases mishap 0 with _ | _ | _
      · exact ih _ (hgoes _) _ _
      · simp only
        cases hfailure : S.failure o with
        | none => exact ih _ (hgoes _) _ _
        | some e => exact ih _ (hfails e hfailure) _ _
      · exact hstops

end Sure

/-- There is at most one mishap. -/
theorem length_mishaps_alone (c : Call Answer ε α) (input : ℕ → ι) (mishap : Option (ℕ × Mishap))
    (s : σ) : (c.alone S input mishap s).mishaps.length ≤ mishap.elim 0 fun _ => 1 := by
  induction c generalizing s input mishap with
  | ret a => exact Nat.zero_le _
  | fail e => exact Nat.zero_le _
  | ask o next ih =>
      rcases mishap with _ | ⟨_ | k, m⟩
      · exact ih _ _ _ _
      · cases m with
        | stops => exact Nat.le_refl 1
        | fails =>
            simp only [Call.alone]
            split
            · exact Nat.le_trans (ih _ _ none _) (Nat.zero_le _)
            · exact Nat.succ_le_succ (ih _ _ none _)
      · exact ih _ _ (some (k, m)) _

/-! ### If nothing goes wrong -/

/-- If nothing goes wrong, this holds in the end, whatever the inputs are out of those that can
be had. -/
def Smoothly (had : ι → Prop) : Call Answer ε α → σ → (Except ε α → σ → Prop) → Prop
  | ret a, s, Q => Q (.ok a) s
  | fail e, s, Q => Q (.error e) s
  | ask o next, s, Q => ∀ input, had input →
      (next (S.perform input o s).1).Smoothly had (S.perform input o s).2 Q

section Smoothly

variable {S} {had : ι → Prop} {s : σ} {Q Q' : Except ε β → σ → Prop} {mid : Except ε α → σ → Prop}

theorem Smoothly.mono {c : Call Answer ε β} (hc : c.Smoothly S had s Q)
    (h : ∀ r s', Q r s' → Q' r s') : c.Smoothly S had s Q' := by
  induction c generalizing s with
  | ret a => exact h _ _ hc
  | fail e => exact h _ _ hc
  | ask o next ih => exact fun input hinput => ih _ (hc input hinput)

theorem Smoothly.bind {c : Call Answer ε α} {f : α → Call Answer ε β}
    (hc : c.Smoothly S had s mid) (hok : ∀ a s', mid (.ok a) s' → (f a).Smoothly S had s' Q)
    (herror : ∀ e s', mid (.error e) s' → Q (.error e) s') : (c >>= f).Smoothly S had s Q := by
  induction c generalizing s with
  | ret a => exact hok a s hc
  | fail e => exact herror e s hc
  | ask o next ih => exact fun input hinput => ih _ (hc input hinput)

theorem Smoothly.attempt_bind {c : Call Answer ε α} {f : Except ε α → Call Answer ε β}
    (hc : c.Smoothly S had s mid) (hf : ∀ r s', mid r s' → (f r).Smoothly S had s' Q) :
    (c.attempt >>= f).Smoothly S had s Q := by
  induction c generalizing s with
  | ret a => exact hf _ s hc
  | fail e => exact hf _ s hc
  | ask o next ih => exact fun input hinput => ih _ (hc input hinput)

/-- A question that is answered. -/
theorem Smoothly.need_bind {o : Op} {f : Answer o → Call Answer ε β}
    (h : ∀ input, had input → ∃ a, (S.perform input o s).1 = .ok a ∧
      (f a).Smoothly S had (S.perform input o s).2 Q) : (need o >>= f).Smoothly S had s Q := by
  intro input hinput
  obtain ⟨a, ha, hrest⟩ := h input hinput
  rw [ha]
  exact hrest

/-- A question that may be refused. -/
theorem Smoothly.attempt_need_bind {o : Op} {f : Except ε (Answer o) → Call Answer ε β}
    (h : ∀ input, had input → (f (S.perform input o s).1).Smoothly S had (S.perform input o s).2 Q) :
    ((need o).attempt >>= f).Smoothly S had s Q := by
  intro input hinput
  change Smoothly S had ((ofResult _).attempt >>= f) _ Q
  rw [attempt_ofResult_bind]
  exact h input hinput

/-- A call that asks only certain questions, all of which keep something. -/
theorem Asks.smoothly {p : Op → Prop} {inv : σ → Prop} {c : Call Answer ε β} (hc : c.Asks p)
    (hkeep : ∀ o, p o → ∀ input s, inv s → inv (S.perform input o s).2) (hs : inv s) :
    c.Smoothly S had s fun _ => inv := by
  induction c generalizing s with
  | ret a => exact hs
  | fail e => exact hs
  | ask o next ih => exact fun input _ => ih _ (hc.2 _) (hkeep o hc.1 input s hs)

/-- A question that is answered although others fail. -/
theorem Smoothly.shut_need_bind {hits : Op → Bool} {o : Op} {f : Answer o → Call Answer ε β}
    (ho : hits o = false)
    (h : ∀ input, had input → ∃ a, (S.perform input o s).1 = .ok a ∧
      (f a).Smoothly (S.shut hits) had (S.perform input o s).2 Q) :
    (need o >>= f).Smoothly (S.shut hits) had s Q :=
  Smoothly.need_bind fun input hinput => by
    rw [Server.shut_perform ho]
    exact h input hinput

theorem Smoothly.shut_attempt_need_bind {hits : Op → Bool} {o : Op}
    {f : Except ε (Answer o) → Call Answer ε β} (ho : hits o = false)
    (h : ∀ input, had input →
      (f (S.perform input o s).1).Smoothly (S.shut hits) had (S.perform input o s).2 Q) :
    ((need o).attempt >>= f).Smoothly (S.shut hits) had s Q :=
  Smoothly.attempt_need_bind fun input hinput => by
    rw [Server.shut_perform ho]
    exact h input hinput

theorem Smoothly.shut_besides_bind {hits : Op → Bool} {o : Op} {f : Unit → Call Answer ε β}
    (ho : hits o = false)
    (h : ∀ input, had input → (f ()).Smoothly (S.shut hits) had (S.perform input o s).2 Q) :
    (besides o >>= f).Smoothly (S.shut hits) had s Q := by
  intro input hinput
  rw [Server.shut_perform ho]
  exact h input hinput

/-- A question that fails. -/
theorem Smoothly.shut_need_bind_of_hit {hits : Op → Bool} {o : Op} {f : Answer o → Call Answer ε β}
    {e : ε} (ho : hits o = true) (he : S.failure o = some e) (h : Q (.error e) s) :
    (need o >>= f).Smoothly (S.shut hits) had s Q := by
  intro input _
  rw [Server.shut_perform_of_hit ho he]
  exact h

theorem Smoothly.alone {c : Call Answer ε β} (hc : c.Smoothly S had s Q) (input : ℕ → ι)
    (hinput : ∀ n, had (input n)) :
    ∃ r, (c.alone S input none s).result = some r ∧ Q r (c.alone S input none s).state := by
  induction c generalizing s input with
  | ret a => exact ⟨_, rfl, hc⟩
  | fail e => exact ⟨_, rfl, hc⟩
  | ask o next ih => exact ih _ (hc _ (hinput 0)) _ fun n => hinput (n + 1)

end Smoothly

end Call
