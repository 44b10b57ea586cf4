import Honryu.Lib.Calls
import Mathlib.Data.Nat.Notation

/-!
Calls that run side by side.

Any number of calls work on one store, and at each turn one of them has one of its
questions answered. Calls can be started at any time. A run is a list of turns, so that
what holds after every run holds under every interleaving.
-/

/-- A store together with the calls there are, what is noted of them, and what else can
happen to the store. -/
structure Traffic {Op : Type} (Answer : Op → Type) (ε α σ ι κ γ η : Type) where
  server : Server Answer ε σ ι
  body : κ → Call Answer ε α
  /-- The note of a call that is not under way. -/
  blank : γ
  /-- The note of a call that is started. -/
  opening : κ → γ
  note : (o : Op) → Except ε (Answer o) → γ → γ
  outside : η → σ → σ

/-- What may come next: a call is started, a call has its question answered, or
something happens to the store from outside. -/
inductive Turn (ι κ η : Type) : Type
  | start (i : ℕ) (kind : κ)
  | go (i : ℕ) (input : ι) (fails : Bool)
  | outside (event : η)

/-- The call that a turn is of. -/
def Turn.caller {ι κ η : Type} : Turn ι κ η → Option ℕ
  | .start i _ => some i
  | .go i _ _ => some i
  | .outside _ => none

structure Pool {Op : Type} (Answer : Op → Type) (ε α σ γ : Type) : Type where
  state : σ
  calls : ℕ → Option (Call Answer ε α)
  notes : ℕ → γ

namespace Traffic

variable {Op : Type} {Answer : Op → Type} {ε α σ ι κ γ η : Type}
  (T : Traffic Answer ε α σ ι κ γ η)

/-- A store that no call is working on. -/
def quiet (s : σ) : Pool Answer ε α σ γ :=
  { state := s, calls := fun _ => none, notes := fun _ => T.blank }

/-- The pool in which a call is where it is. It is dropped once it has ended. -/
def place (p : Pool Answer ε α σ γ) (i : ℕ) (c : Call Answer ε α) (g : γ) :
    Pool Answer ε α σ γ :=
  match c with
  | .ask o next =>
      { p with
        calls := Function.update p.calls i (some (.ask o next))
        notes := Function.update p.notes i g }
  | _ =>
      { p with
        calls := Function.update p.calls i none
        notes := Function.update p.notes i T.blank }

def step (p : Pool Answer ε α σ γ) : Turn ι κ η → Pool Answer ε α σ γ
  | .start i kind =>
      match p.calls i with
      | some _ => p
      | none => T.place p i (T.body kind) (T.opening kind)
  | .go i input fails =>
      match p.calls i with
      | some (.ask o next) =>
          let r := T.server.answer input fails o p.state
          T.place { p with state := r.2 } i (next r.1) (T.note o r.1 (p.notes i))
      | _ => p
  | .outside event => { p with state := T.outside event p.state }

def run (p : Pool Answer ε α σ γ) (turns : List (Turn ι κ η)) : Pool Answer ε α σ γ :=
  turns.foldl T.step p

/-- Every turn of a run meets a condition on the pool it is taken in. -/
def Along (ok : Pool Answer ε α σ γ → Turn ι κ η → Prop) :
    Pool Answer ε α σ γ → List (Turn ι κ η) → Prop
  | _, [] => True
  | p, t :: turns => ok p t ∧ Along ok (T.step p t) turns

@[simp] theorem run_cons (p : Pool Answer ε α σ γ) (t : Turn ι κ η) (turns : List (Turn ι κ η)) :
    T.run p (t :: turns) = T.run (T.step p t) turns := rfl

theorem Along.mono {ok ok' : Pool Answer ε α σ γ → Turn ι κ η → Prop}
    (h : ∀ p t, ok p t → ok' p t) {p : Pool Answer ε α σ γ} {turns : List (Turn ι κ η)}
    (hok : T.Along ok p turns) : T.Along ok' p turns := by
  induction turns generalizing p with
  | nil => trivial
  | cons t turns ih => exact ⟨h p t hok.1, ih hok.2⟩

theorem along_of_forall {ok : Pool Answer ε α σ γ → Turn ι κ η → Prop} (h : ∀ p t, ok p t)
    (p : Pool Answer ε α σ γ) (turns : List (Turn ι κ η)) : T.Along ok p turns := by
  induction turns generalizing p with
  | nil => trivial
  | cons t turns ih => exact ⟨h p t, ih _⟩

/-- The last turn of a run is taken in the pool that the others lead to. -/
theorem Along.last {ok : Pool Answer ε α σ γ → Turn ι κ η → Prop} {p : Pool Answer ε α σ γ}
    {turns : List (Turn ι κ η)} {t : Turn ι κ η} (hok : T.Along ok p (turns ++ [t])) :
    ok (T.run p turns) t := by
  induction turns generalizing p with
  | nil => exact hok.1
  | cons t' turns ih => exact ih hok.2

instance decidableAlong (ok : Pool Answer ε α σ γ → Turn ι κ η → Prop)
    [∀ p t, Decidable (ok p t)] :
    (p : Pool Answer ε α σ γ) → (turns : List (Turn ι κ η)) → Decidable (T.Along ok p turns)
  | _, [] => .isTrue trivial
  | p, t :: turns =>
      have := decidableAlong ok (T.step p t) turns
      inferInstanceAs (Decidable (_ ∧ _))

/-- What every turn that meets the condition keeps holds after every run whose turns
meet it. -/
theorem run_induction {ok : Pool Answer ε α σ γ → Turn ι κ η → Prop}
    {holds : Pool Answer ε α σ γ → Prop} (hstep : ∀ p t, holds p → ok p t → holds (T.step p t))
    {p : Pool Answer ε α σ γ} {turns : List (Turn ι κ η)} (hp : holds p)
    (hok : T.Along ok p turns) : holds (T.run p turns) := by
  induction turns generalizing p with
  | nil => exact hp
  | cons t turns ih => exact ih (hstep p t hp hok.1) hok.2

/-! ### What is put down along a run -/

section Trace

variable {β : Type} (f : Pool Answer ε α σ γ → Turn ι κ η → List β)

end Trace

/-! ### Calls that have returned -/

section Returned

variable {T} {p : Pool Answer ε α σ γ} {i : ℕ}

theorem place_of_ne {j : ℕ} (c : Call Answer ε α) (g : γ) (h : i ≠ j) :
    (T.place p j c g).calls i = p.calls i ∧ (T.place p j c g).notes i = p.notes i := by
  cases c <;> exact ⟨Function.update_of_ne h _ _, Function.update_of_ne h _ _⟩

/-- A turn of another call. -/
theorem step_of_other {t : Turn ι κ η} (h : t.caller ≠ some i) :
    (T.step p t).calls i = p.calls i ∧ (T.step p t).notes i = p.notes i := by
  cases t with
  | start j kind =>
      have hne : i ≠ j := fun hij => h (congrArg some hij.symm)
      simp only [Traffic.step]
      split
      · exact ⟨rfl, rfl⟩
      · exact place_of_ne _ _ hne
  | go j input fails =>
      have hne : i ≠ j := fun hij => h (congrArg some hij.symm)
      simp only [Traffic.step]
      split
      · exact place_of_ne _ _ hne
      · exact ⟨rfl, rfl⟩
  | outside event => exact ⟨rfl, rfl⟩

theorem calls_run {turns : List (Turn ι κ η)} (h : ∀ t ∈ turns, t.caller ≠ some i) :
    (T.run p turns).calls i = p.calls i := by
  induction turns generalizing p with
  | nil => rfl
  | cons t turns ih =>
      obtain ⟨hthis, hrest⟩ := List.forall_mem_cons.mp h
      rw [run_cons, ih hrest, (step_of_other hthis).1]

/-- If the calls that had turns have returned, all have. -/
theorem returned {s : σ} {turns : List (Turn ι κ η)} (callers : List ℕ)
    (hcallers : ∀ t ∈ turns, ∀ i ∈ t.caller, i ∈ callers)
    (h : ∀ i ∈ callers, ((T.run (T.quiet s) turns).calls i).isNone) :
    (T.run (T.quiet s) turns).calls i = none := by
  by_cases hi : i ∈ callers
  · exact Option.isNone_iff_eq_none.mp (h i hi)
  · exact calls_run fun t ht hcaller => hi (hcallers t ht i hcaller)

/-- A condition may be checked as if there were no other calls than those that have
turns. -/
theorem Along.of_callers {ok ok' : Pool Answer ε α σ γ → Turn ι κ η → Prop}
    {turns : List (Turn ι κ η)} (callers : List ℕ)
    (hcallers : ∀ t ∈ turns, ∀ i ∈ t.caller, i ∈ callers)
    (himp : ∀ p t, (∀ i, i ∉ callers → p.notes i = T.blank) → ok p t → ok' p t)
    (hp : ∀ i, i ∉ callers → p.notes i = T.blank) (hok : T.Along ok p turns) :
    T.Along ok' p turns := by
  induction turns generalizing p with
  | nil => trivial
  | cons t turns ih =>
      obtain ⟨hthis, hrest⟩ := List.forall_mem_cons.mp hcallers
      refine ⟨himp p t hp hok.1, ih hrest (fun i hi => ?_) hok.2⟩
      rw [(step_of_other fun hcaller => hi (hthis i hcaller)).2]
      exact hp i hi

end Returned

/-! ### Calls that keep to a rule -/

/-- The question that a call is about to ask. -/
def asks (p : Pool Answer ε α σ γ) (i : ℕ) : Option Op := (p.calls i).bind Call.asking

/-- What is known of the calls of a pool: each keeps to the rule from where it is, and
nothing is noted of one that is not under way. -/
structure Tidy (rule : γ → Op → Prop) (done : γ → Prop) (p : Pool Answer ε α σ γ) : Prop where
  obeys : ∀ i c, p.calls i = some c → c.Obeys rule T.note (fun _ => done) (p.notes i)
  under_way : ∀ i c, p.calls i = some c → c.asking.isSome
  blank : ∀ i, p.calls i = none → p.notes i = T.blank

/-- A rule of what the store and the notes are like, with all that keeps it. -/
structure Preserves (rule : γ → Op → Prop) (done : γ → Prop)
    (ok : Pool Answer ε α σ γ → Turn ι κ η → Prop) (inv : σ → (ℕ → γ) → Prop) : Prop where
  body : ∀ kind, (T.body kind).Obeys rule T.note (fun _ => done) (T.opening kind)
  opening : ∀ p i kind, inv p.state p.notes → p.notes i = T.blank → ok p (.start i kind) →
    inv p.state (Function.update p.notes i (T.opening kind))
  closing : ∀ s notes i, inv s notes → done (notes i) → inv s (Function.update notes i T.blank)
  performed : ∀ p i o input fails, inv p.state p.notes → asks p i = some o →
    rule (p.notes i) o → ok p (.go i input fails) → (fails = true → T.server.failure o = none) →
      inv (T.server.perform input o p.state).2
        (Function.update p.notes i
          (T.note o (T.server.perform input o p.state).1 (p.notes i)))
  failed : ∀ p i o input e, inv p.state p.notes → asks p i = some o → rule (p.notes i) o →
    ok p (.go i input true) → T.server.failure o = some e →
      inv p.state (Function.update p.notes i (T.note o (.error e) (p.notes i)))
  outside : ∀ p event, inv p.state p.notes → ok p (.outside event) →
    inv (T.outside event p.state) p.notes

section Rule

variable {T} {rule : γ → Op → Prop} {done : γ → Prop}
  {ok : Pool Answer ε α σ γ → Turn ι κ η → Prop} {inv : σ → (ℕ → γ) → Prop}
  {p : Pool Answer ε α σ γ} {i : ℕ} {c : Call Answer ε α} {g : γ}

@[simp] theorem place_state : (T.place p i c g).state = p.state := by
  cases c <;> rfl

/-- Whatever a call is about to ask is within the rule. -/
theorem Tidy.rule_of_asks (hp : T.Tidy rule done p) {o : Op} (h : asks p i = some o) :
    rule (p.notes i) o := by
  obtain ⟨c, hcall, hasking⟩ := Option.bind_eq_some_iff.mp h
  cases c with
  | ret a => cases hasking
  | fail e => cases hasking
  | ask o' next =>
      cases hasking
      exact (hp.obeys i _ hcall).1

/-- A call that is where it may be leaves the pool tidy. -/
theorem Tidy.place (hp : T.Tidy rule done p) (hc : c.Obeys rule T.note (fun _ => done) g) :
    T.Tidy rule done (T.place p i c g) := by
  have hother : ∀ {x : Option (Call Answer ε α)} {y : γ},
      (∀ c, x = some c → c.Obeys rule T.note (fun _ => done) y ∧ c.asking.isSome) →
        (x = none → y = T.blank) →
          T.Tidy rule done
            { p with calls := Function.update p.calls i x, notes := Function.update p.notes i y } := by
    intro x y hsome hnone
    refine ⟨fun j c' hj => ?_, fun j c' hj => ?_, fun j hj => ?_⟩
    · by_cases hij : j = i
      · subst hij
        simp only [Function.update_self] at hj ⊢
        exact (hsome c' hj).1
      · simp only [Function.update_of_ne hij] at hj ⊢
        exact hp.obeys j c' hj
    · by_cases hij : j = i
      · subst hij
        exact (hsome c' (by simpa using hj)).2
      · exact hp.under_way j c' (by simpa [hij] using hj)
    · by_cases hij : j = i
      · subst hij
        simp only [Function.update_self] at hj ⊢
        exact hnone hj
      · simp only [Function.update_of_ne hij] at hj ⊢
        exact hp.blank j hj
  cases c with
  | ret a => exact hother nofun fun _ => rfl
  | fail e => exact hother nofun fun _ => rfl
  | ask o next => exact hother (fun c' hc' => by cases hc'; exact ⟨hc, rfl⟩) nofun

theorem step_go {input : ι} {fails : Bool} {o : Op} {next : Except ε (Answer o) → Call Answer ε α}
    (hcall : p.calls i = some (.ask o next)) :
    T.step p (.go i input fails) =
      T.place { p with state := (T.server.answer input fails o p.state).2 } i
        (next (T.server.answer input fails o p.state).1)
        (T.note o (T.server.answer input fails o p.state).1 (p.notes i)) := by
  rw [Traffic.step, hcall]

/-- The question of a call is answered. -/
theorem state_step_go {input : ι} {fails : Bool} {o : Op} (h : asks p i = some o) :
    (T.step p (.go i input fails)).state = (T.server.answer input fails o p.state).2 := by
  obtain ⟨c, hcall, hasking⟩ := Option.bind_eq_some_iff.mp h
  cases c with
  | ret a => cases hasking
  | fail e => cases hasking
  | ask o' next =>
      cases hasking
      rw [step_go hcall, place_state]

theorem state_step_start (kind : κ) : (T.step p (.start i kind)).state = p.state := by
  rw [Traffic.step]
  cases p.calls i with
  | none => rw [place_state]
  | some c => rfl

/-- A call that is not about to ask anything does not move. -/
theorem step_go_of_not_asking {input : ι} {fails : Bool} (h : asks p i = none) :
    T.step p (.go i input fails) = p := by
  rw [Traffic.step]
  cases hcall : p.calls i with
  | none => rfl
  | some c =>
      cases c with
      | ret a => rfl
      | fail e => rfl
      | ask o next => simp [asks, hcall, Call.asking] at h

/-- What a turn has to do with the store and the notes for something to hold after it. A call
that ends leaves no note behind. -/
structure Leads (rule : γ → Op → Prop) (done : γ → Prop) (p : Pool Answer ε α σ γ)
    (t : Turn ι κ η) (inv : σ → (ℕ → γ) → Prop) : Prop where
  closing : ∀ s notes i, inv s notes → done (notes i) → inv s (Function.update notes i T.blank)
  stays : (∀ i input fails, t = .go i input fails → asks p i = none) →
    (∀ event, t ≠ .outside event) → inv p.state p.notes
  start : ∀ i kind, t = .start i kind → p.notes i = T.blank →
    inv p.state (Function.update p.notes i (T.opening kind))
  go : ∀ i input fails o, t = .go i input fails → asks p i = some o → rule (p.notes i) o →
    inv (T.server.answer input fails o p.state).2
      (Function.update p.notes i
        (T.note o (T.server.answer input fails o p.state).1 (p.notes i)))
  outside : ∀ event, t = .outside event → inv (T.outside event p.state) p.notes

theorem Leads.place {t : Turn ι κ η} (h : T.Leads rule done p t inv) {q : Pool Answer ε α σ γ}
    (hinv : inv q.state (Function.update q.notes i g))
    (hc : c.Obeys rule T.note (fun _ => done) g) :
    inv (T.place q i c g).state (T.place q i c g).notes := by
  have hended : done g → inv q.state (Function.update q.notes i T.blank) := by
    intro hdone
    have := h.closing _ _ i hinv (by rwa [Function.update_self])
    rwa [Function.update_idem] at this
  cases c with
  | ret a => exact hended hc
  | fail e => exact hended hc
  | ask o next => exact hinv

/-- One turn keeps the calls to the rule, and leads where it is said to. -/
theorem Tidy.step (hp : T.Tidy rule done p)
    (hbody : ∀ kind, (T.body kind).Obeys rule T.note (fun _ => done) (T.opening kind))
    {t : Turn ι κ η} (h : T.Leads rule done p t inv) :
    T.Tidy rule done (T.step p t) ∧ inv (T.step p t).state (T.step p t).notes := by
  cases t with
  | start i kind =>
      rw [Traffic.step]
      cases hcall : p.calls i with
      | some c => exact ⟨hp, h.stays nofun nofun⟩
      | none => exact ⟨hp.place (hbody kind), h.place (h.start i kind rfl (hp.blank i hcall)) (hbody kind)⟩
  | go i input fails =>
      cases hcall : p.calls i with
      | none =>
          have hasks : asks p i = none := by simp [asks, hcall]
          rw [step_go_of_not_asking hasks]
          exact ⟨hp, h.stays (fun _ _ _ ht => by cases ht; exact hasks) nofun⟩
      | some c =>
          cases c with
          | ret a => cases hp.under_way i _ hcall
          | fail e => cases hp.under_way i _ hcall
          | ask o next =>
              obtain ⟨hrule, hnext⟩ := hp.obeys i _ hcall
              have hasks : asks p i = some o := by simp [asks, hcall, Call.asking]
              have htidy : T.Tidy rule done
                  { p with state := (T.server.answer input fails o p.state).2 } :=
                ⟨hp.obeys, hp.under_way, hp.blank⟩
              rw [step_go hcall]
              exact ⟨htidy.place (hnext _), h.place (h.go i input fails o rfl hasks hrule) (hnext _)⟩
  | outside event => exact ⟨⟨hp.obeys, hp.under_way, hp.blank⟩, h.outside event rfl⟩

/-- One turn keeps the calls to the rule, and what is claimed with them. -/
theorem Preserves.step (h : T.Preserves rule done ok inv) {t : Turn ι κ η}
    (hp : T.Tidy rule done p ∧ inv p.state p.notes) (hok : ok p t) :
    T.Tidy rule done (T.step p t) ∧ inv (T.step p t).state (T.step p t).notes :=
  hp.1.step h.body
    { closing := h.closing
      stays := fun _ _ => hp.2
      start := by
        rintro i kind rfl hblank
        exact h.opening p i kind hp.2 hblank hok
      go := by
        rintro i input fails o rfl hasks hrule
        rcases T.server.answer_cases input fails o p.state with
          ⟨hgoes, heq⟩ | ⟨rfl, e, hfailure, heq⟩
        · rw [heq]
          exact h.performed p i o input fails hp.2 hasks hrule hok hgoes
        · rw [heq]
          exact h.failed p i o input e hp.2 hasks hrule hok hfailure
      outside := by
        rintro event rfl
        exact h.outside p event hp.2 hok }

theorem tidy_quiet (s : σ) : T.Tidy rule done (T.quiet s) := ⟨nofun, nofun, fun _ _ => rfl⟩

/-- What follows from what is claimed holds of every turn of such a run. -/
theorem Preserves.along (h : T.Preserves rule done ok inv)
    {good : Pool Answer ε α σ γ → Turn ι κ η → Prop}
    (hgood : ∀ p t, T.Tidy rule done p → inv p.state p.notes → ok p t → good p t) {s : σ}
    {turns : List (Turn ι κ η)} (hs : inv s fun _ => T.blank)
    (hok : T.Along ok (T.quiet s) turns) : T.Along good (T.quiet s) turns := by
  have hall : ∀ (turns : List (Turn ι κ η)) (p : Pool Answer ε α σ γ),
      T.Tidy rule done p ∧ inv p.state p.notes → T.Along ok p turns → T.Along good p turns := by
    intro turns
    induction turns with
    | nil => exact fun _ _ _ => trivial
    | cons t turns ih =>
        intro p hp hok
        exact ⟨hgood p t hp.1 hp.2 hok.1, ih _ (h.step hp hok.1) hok.2⟩
  exact hall turns _ ⟨tidy_quiet s, hs⟩ hok

/-- What is claimed of a quiet store holds after every run whose turns meet the
condition. -/
theorem Preserves.run (h : T.Preserves rule done ok inv) {s : σ} {turns : List (Turn ι κ η)}
    (hs : inv s fun _ => T.blank) (hok : T.Along ok (T.quiet s) turns) :
    T.Tidy rule done (T.run (T.quiet s) turns) ∧
      inv (T.run (T.quiet s) turns).state (T.run (T.quiet s) turns).notes :=
  T.run_induction (fun _ _ => h.step) ⟨tidy_quiet s, hs⟩ hok

end Rule

end Traffic
