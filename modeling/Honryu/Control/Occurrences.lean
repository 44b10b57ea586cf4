import Honryu.Control.Ownership

/-!
Whether a reserved occurrence keeps its reservation.

It does as long as nobody releases what its execution has reserved, and its schedule is not
deleted. But every end of a run releases what the execution has reserved, for its
occurrences too, and so does a refused trigger.
-/

namespace Honryu.Control

open Lifecycle Quota Schedules

variable {p : Precision}

/-! ### Owners -/

def reservationIds (l : Ledger p) : List ℤ := l.rows.map (·.id)

/-- Who a reservation belongs to: the occurrences of an id that are reserved with it, or
a call that is about to record one. -/
def Owns (occs : List Occurrence) (notes : ℕ → InHand) : ℤ ⊕ ℕ → ℤ → Prop
  | .inl occurrenceId, id =>
      ∃ o ∈ occs, o.id = occurrenceId ∧ o.status = .reserved ∧ o.reservationId = some id
  | .inr i, id => (notes i).held = some id

/-- What is owned is in the ledger, and by one owner only. What a call has claimed is
owned by nobody. -/
structure Secure (l : Ledger p) (occs : List Occurrence) (notes : ℕ → InHand) : Prop where
  named : ∀ o ∈ occs, o.status = .reserved → o.reservationId.isSome
  kept : ∀ w id, Owns occs notes w id → id ∈ reservationIds l
  unique : ∀ w w' id, Owns occs notes w id → Owns occs notes w' id → w = w'
  free : ∀ i id, (notes i).claimed = some id → id < l.nextId ∧ ∀ w, ¬Owns occs notes w id

section Secure

variable {l l' : Ledger p} {occs occs' : List Occurrence} {notes notes' : ℕ → InHand} {i : ℕ}

theorem lt_nextId {id : ℤ} (h : id ∈ reservationIds l) : id < l.nextId := by
  obtain ⟨r, hr, rfl⟩ := List.mem_map.mp h
  exact l.id_lt r hr

theorem Secure.of_le (h : Secure l occs notes)
    (howns : ∀ w id, Owns occs' notes' w id → Owns occs notes w id)
    (hkept : ∀ w id, Owns occs' notes' w id → id ∈ reservationIds l → id ∈ reservationIds l')
    (hnext : l.nextId ≤ l'.nextId)
    (hclaimed : ∀ i id, (notes' i).claimed = some id → (notes i).claimed = some id)
    (hnamed : ∀ o ∈ occs', o.status = .reserved → o.reservationId.isSome) :
    Secure l' occs' notes' where
  named := hnamed
  kept w id hw := hkept w id hw (h.kept w id (howns w id hw))
  unique w w' id hw hw' := h.unique w w' id (howns w id hw) (howns w' id hw')
  free i id hid :=
    ⟨(h.free i id (hclaimed i id hid)).1.trans_le hnext,
      fun w hw => (h.free i id (hclaimed i id hid)).2 w (howns w id hw)⟩

theorem Secure.put_down (h : Secure l occs notes) {g : InHand}
    (hheld : ∀ id, g.held = some id → (notes i).held = some id)
    (hclaimed : ∀ id, g.claimed = some id → (notes i).claimed = some id) :
    Secure l occs (Function.update notes i g) := by
  refine h.of_le ?_ (fun _ _ _ => id) le_rfl ?_ h.named
  · rintro (k | j) id hw
    · exact hw
    · by_cases hj : j = i
      · subst hj
        simp only [Owns, Function.update_self] at hw
        exact hheld id hw
      · simpa [Owns, hj] using hw
  · intro j id hid
    by_cases hj : j = i
    · subst hj
      rw [Function.update_self] at hid
      exact hclaimed id hid
    · simpa [hj] using hid

theorem Secure.same (h : Secure l occs notes) : Secure l occs (Function.update notes i (notes i)) := by
  rwa [Function.update_eq_self]

/-! ### Making and recording a reservation -/

theorem mem_reservationIds_create {r : Reservation} {hr : 0 < r.engineCount} {id : ℤ} :
    id ∈ reservationIds (l.create r hr) ↔ id ∈ reservationIds l ∨ id = l.nextId := by
  simp [reservationIds, Ledger.create, Ledger.stored, eq_comm]

/-- A reservation of which nobody has heard is the call's own. -/
theorem Secure.create (h : Secure l occs notes) (q : Request) :
    Secure (l.create q.1 q.positive) occs
      (Function.update notes i { notes i with held := some l.nextId }) := by
  have howns : ∀ w id, Owns occs (Function.update notes i { notes i with held := some l.nextId })
      w id → Owns occs notes w id ∨ w = .inr i ∧ id = l.nextId := by
    rintro (k | j) id hw
    · exact .inl hw
    · by_cases hj : j = i
      · subst hj
        simp only [Owns, Function.update_self, Option.some_inj] at hw
        exact .inr ⟨rfl, hw.symm⟩
      · exact .inl (by simpa [Owns, hj] using hw)
  have hold : ∀ w id, Owns occs notes w id → id ≠ l.nextId :=
    fun w id hw => (lt_nextId (h.kept w id hw)).ne
  refine ⟨h.named, fun w id hw => ?_, fun w w' id hw hw' => ?_, fun j id hid => ?_⟩
  · rw [mem_reservationIds_create]
    exact (howns w id hw).imp (h.kept w id) And.right
  · rcases howns w id hw with hw | ⟨rfl, rfl⟩
    · rcases howns w' id hw' with hw' | ⟨rfl, rfl⟩
      · exact h.unique w w' id hw hw'
      · exact absurd rfl (hold w _ hw)
    · rcases howns w' _ hw' with hw' | ⟨rfl, -⟩
      · exact absurd rfl (hold w' _ hw')
      · rfl
  · have hclaimed : (notes j).claimed = some id := by
      by_cases hj : j = i
      · subst hj
        simpa using hid
      · simpa [hj] using hid
    obtain ⟨hlt, hfree⟩ := h.free j id hclaimed
    refine ⟨hlt.trans (lt_add_one _), fun w hw => ?_⟩
    rcases howns w id hw with hw | ⟨-, rfl⟩
    · exact hfree w hw
    · exact lt_irrefl _ hlt

theorem Secure.create_other (h : Secure l occs notes) (q : Request) :
    Secure (l.create q.1 q.positive) occs notes :=
  h.of_le (fun _ _ => id) (fun _ _ _ hid => mem_reservationIds_create.mpr (.inl hid))
    (lt_add_one _).le (fun _ _ => id) h.named

/-- What a call has in hand goes over to the occurrence it records. -/
theorem Secure.record (h : Secure l occs notes) {o : Occurrence}
    (hrule : InHand.rule (notes i) (.createOccurrence o)) :
    Secure l (occs ++ [o]) (Function.update notes i { notes i with held := none }) := by
  have howns : ∀ w id, Owns (occs ++ [o]) (Function.update notes i { notes i with held := none })
      w id → Owns occs notes w id ∧ w ≠ .inr i ∨
        w = .inl o.id ∧ o.status = .reserved ∧ o.reservationId = some id := by
    rintro (k | j) id hw
    · obtain ⟨x, hx, hk, hreserved, hid⟩ := hw
      rcases List.mem_append.mp hx with hx | hx
      · exact .inl ⟨⟨x, hx, hk, hreserved, hid⟩, Sum.inl_ne_inr⟩
      · obtain rfl := List.mem_singleton.mp hx
        exact .inr ⟨congrArg _ hk.symm, hreserved, hid⟩
    · by_cases hj : j = i
      · subst hj
        simp [Owns] at hw
      · exact .inl ⟨by simpa [Owns, hj] using hw, by simpa using hj⟩
  -- whatever the new occurrence owns was in the call's hand
  have hmine : ∀ id, o.status = .reserved → o.reservationId = some id → Owns occs notes (.inr i) id := by
    intro id hreserved hid
    rcases hrule with ⟨-, heq, -⟩ | ⟨hnot, -⟩
    · exact heq.symm.trans hid
    · exact absurd hreserved hnot
  refine ⟨fun x hx hreserved => ?_, fun w id hw => ?_, fun w w' id hw hw' => ?_, fun j id hid => ?_⟩
  · rcases List.mem_append.mp hx with hx | hx
    · exact h.named x hx hreserved
    · obtain rfl := List.mem_singleton.mp hx
      rcases hrule with ⟨-, heq, hsome⟩ | ⟨hnot, -⟩
      · rwa [heq]
      · exact absurd hreserved hnot
  · rcases howns w id hw with ⟨hw, -⟩ | ⟨-, hreserved, hid⟩
    · exact h.kept w id hw
    · exact h.kept _ id (hmine id hreserved hid)
  · rcases howns w id hw with ⟨hw, hne⟩ | ⟨rfl, hreserved, hid⟩
    · rcases howns w' id hw' with ⟨hw', -⟩ | ⟨rfl, hreserved, hid⟩
      · exact h.unique w w' id hw hw'
      · exact absurd (h.unique w _ id hw (hmine id hreserved hid)) hne
    · rcases howns w' id hw' with ⟨hw', hne⟩ | ⟨rfl, -, -⟩
      · exact absurd (h.unique w' _ id hw' (hmine id hreserved hid)) hne
      · rfl
  · have hclaimed : (notes j).claimed = some id := by
      by_cases hj : j = i
      · subst hj
        simpa using hid
      · simpa [hj] using hid
    obtain ⟨hlt, hfree⟩ := h.free j id hclaimed
    refine ⟨hlt, fun w hw => ?_⟩
    rcases howns w id hw with ⟨hw, -⟩ | ⟨-, hreserved, hid⟩
    · exact hfree w hw
    · exact hfree _ (hmine id hreserved hid)

/-! ### Claiming -/

theorem owns_fire {occurrenceId : ℤ} {w : ℤ ⊕ ℕ} {id : ℤ}
    (hw : Owns (fire occurrenceId occs) notes w id) :
    Owns occs notes w id ∧ w ≠ .inl occurrenceId := by
  rcases w with k | j
  · obtain ⟨y, hy, hk, hreserved, hid⟩ := hw
    obtain ⟨x, hx, rfl⟩ := List.mem_map.mp hy
    by_cases hx' : x.id = occurrenceId
    · simp [hx'] at hreserved
    · simp only [hx', if_false] at hk hreserved hid
      exact ⟨⟨x, hx, hk, hreserved, hid⟩, fun h => hx' (hk.trans (Sum.inl_injective h))⟩
  · exact ⟨hw, Sum.inr_ne_inl⟩

/-- What was reserved for an occurrence is owned by nobody once it is claimed. -/
theorem Secure.claim (h : Secure l occs notes) {o : Occurrence} (ho : o ∈ occs)
    (hreserved : o.status = .reserved) :
    Secure l (fire o.id occs)
      (Function.update notes i { notes i with claimed := o.reservationId }) := by
  have howns : ∀ w id, Owns (fire o.id occs)
      (Function.update notes i { notes i with claimed := o.reservationId }) w id →
        Owns occs notes w id ∧ w ≠ .inl o.id := by
    intro w id hw
    refine owns_fire ?_
    rcases w with k | j
    · exact hw
    · by_cases hj : j = i
      · subst hj
        simpa [Owns] using hw
      · simpa [Owns, hj] using hw
  refine ⟨fun y hy hstill => ?_, fun w id hw => h.kept w id (howns w id hw).1,
    fun w w' id hw hw' => h.unique w w' id (howns w id hw).1 (howns w' id hw').1, fun j id hid => ?_⟩
  · obtain ⟨x, hx, rfl⟩ := List.mem_map.mp hy
    by_cases hx' : x.id = o.id
    · simp [hx'] at hstill
    · simp only [hx', if_false] at hstill ⊢
      exact h.named x hx hstill
  · by_cases hj : j = i
    · subst hj
      rw [Function.update_self] at hid
      have hmine : Owns occs notes (.inl o.id) id := ⟨o, ho, rfl, hreserved, hid⟩
      refine ⟨lt_nextId (h.kept _ id hmine), fun w hw => ?_⟩
      exact (howns w id hw).2 (h.unique w _ id (howns w id hw).1 hmine)
    · rw [Function.update_of_ne hj] at hid
      exact ⟨(h.free j id hid).1, fun w hw => (h.free j id hid).2 w (howns w id hw).1⟩

/-! ### Deleting -/

theorem mem_reservationIds_keep {kept : Reservation → Bool} {id : ℤ} :
    id ∈ reservationIds (l.keep kept) ↔ ∃ r ∈ l.rows, r.id = id ∧ kept r := by
  simp only [reservationIds, Ledger.keep, List.mem_map, List.mem_filter]
  exact exists_congr fun r => by tauto

theorem Secure.keep (h : Secure l occs notes) {kept : Reservation → Bool}
    (hspares : ∀ w id, Owns occs notes w id → ∀ r ∈ l.rows, r.id = id → kept r) :
    Secure (l.keep kept) occs notes := by
  refine h.of_le (fun _ _ => id) (fun w id hw hid => ?_) le_rfl (fun _ _ => id) h.named
  obtain ⟨r, hr, rfl⟩ := List.mem_map.mp hid
  exact mem_reservationIds_keep.mpr ⟨r, hr, rfl, hspares w _ hw r hr rfl⟩

theorem Secure.forget (h : Secure l occs notes) (hsub : ∀ o ∈ occs', o ∈ occs) :
    Secure l occs' notes := by
  refine h.of_le ?_ (fun _ _ _ => id) le_rfl (fun _ _ => id) fun o ho => h.named o (hsub o ho)
  rintro (k | j) id hw
  · obtain ⟨o, ho, hrest⟩ := hw
    exact ⟨o, hsub o ho, hrest⟩
  · exact hw

end Secure

/-! ### The calls on an execution and its schedules -/

inductive Activity
  | schedule (call : ScheduleCall)
  | trigger (executionId : ℤ)
  | stop (executionId : ℤ)
  | purge (executionId : ℤ)
  | reapIdle (ttl : ℤ) (clusters : List String)

section System

variable (cfg : Config)

def Activity.body : Activity → Proc Unit
  | .schedule call => call.body cfg
  | .trigger executionId => Control.trigger cfg executionId
  | .stop executionId => Control.stop cfg executionId
  | .purge executionId => Control.purge cfg executionId
  | .reapIdle ttl clusters => do
      let _ ← Control.reapIdle cfg ttl clusters
      return ()

def Activity.opening : Activity → InHand
  | .schedule _ => .nothing true
  | _ => .nothing false

def activities : Traffic Answer Failure Unit (Store p) View Activity InHand ℕ where
  server := server cfg
  body := Activity.body cfg
  blank := .nothing false
  opening := Activity.opening
  note := InHand.note
  outside d s := s.elapse d

theorem returns_activity (a : Activity) : Returns (a.body cfg) a.opening := by
  cases a with
  | schedule call => exact returns_scheduleCall cfg call rfl rfl rfl
  | trigger executionId => exact returns_trigger cfg executionId rfl rfl
  | stop executionId => exact .of_asks ((asks_stop cfg _).mono fun _ h => h.ending.idle)
  | purge executionId => exact .of_asks ((asks_purge cfg _).mono fun _ => Ending.idle)
  | reapIdle ttl clusters =>
      exact .bind (.of_asks ((asks_reapIdle cfg _ _).mono fun _ => Ending.idle)) fun _ => rfl

/-- Whoever releases what an execution has reserved, no occurrence and no call that is
about to record one owns any of it. And whoever deletes a reservation has claimed it, or
it belongs to nobody. -/
def SparesOccurrences (q : Pool Answer Failure Unit (Store p) InHand) : Turn View Activity ℕ → Prop
  | .go i _ _ =>
      match Traffic.asks q i with
      | some (.releaseReservations executionId) =>
          ∀ w id, Owns q.state.occurrences q.notes w id →
            ∀ r ∈ q.state.ledger.rows, r.id = id → r.executionId ≠ executionId
      | some (.deleteReservation id) =>
          (q.notes i).claimed = some id ∨ ∀ w, ¬Owns q.state.occurrences q.notes w id
      | _ => True
  | _ => True

def OccurrencesHold (s : Store p) : Prop :=
  ∀ o ∈ s.occurrences, o.status = .reserved →
    ∃ id, o.reservationId = some id ∧ id ∈ reservationIds s.ledger

theorem due_mem {s : Store p} {now : ℤ} {o : Occurrence} (h : s.due now = some o) :
    o ∈ s.occurrences ∧ o.status = .reserved := by
  have hmem := (List.perm_insertionSort _ _).mem_iff.mp (List.mem_of_mem_head? h)
  obtain ⟨ho, hdue⟩ := List.mem_filter.mp hmem
  exact ⟨ho, (of_decide_eq_true hdue).1⟩

theorem secure_performed {q : Pool Answer Failure Unit (Store p) InHand} {i : ℕ} {o : Op}
    {view : View} {fails : Bool} (h : Secure q.state.ledger q.state.occurrences q.notes)
    (hasks : Traffic.asks q i = some o) (hrule : InHand.rule (q.notes i) o)
    (hok : SparesOccurrences q (.go i view fails)) :
    Secure (effect cfg q.state o).ledger (effect cfg q.state o).occurrences
      (Function.update q.notes i (InHand.note o (reply cfg view q.state o) (q.notes i))) := by
  simp only [SparesOccurrences, hasks] at hok
  cases o with
  | createReservation r =>
      have hnote : InHand.note (.createReservation r) (reply cfg view q.state (.createReservation r))
          (q.notes i) = if (q.notes i).scheduling then
            { q.notes i with held := some q.state.ledger.nextId } else q.notes i := rfl
      rw [hnote]
      split
      · exact h.create r
      · exact (h.create_other r).same
  | createOccurrence occ => exact h.record hrule
  | claimDueOccurrence now =>
      cases hdue : q.state.due now with
      | none => simpa [InHand.note, reply, effect, hdue] using h
      | some occ =>
          obtain ⟨hmem, hreserved⟩ := due_mem hdue
          simpa [InHand.note, reply, effect, hdue] using h.claim hmem hreserved
  | deleteReservation id =>
      have hnobody : ∀ w, ¬Owns q.state.occurrences q.notes w id :=
        hok.elim (fun hclaimed => (h.free i id hclaimed).2) fun hnone => hnone
      refine (h.keep fun w x hw r _ hx => ?_).put_down (fun _ hheld => hheld)
        fun _ hclaimed => by cases hclaimed
      exact decide_eq_true fun heq => hnobody w ((hx.symm.trans heq) ▸ hw)
  | releaseReservations executionId =>
      refine (h.keep fun w x hw r hr hx => ?_).same
      exact decide_eq_true (hok w x hw r hr hx)
  | deleteSchedule id =>
      refine (h.forget fun x hx => ?_).same
      simp only [effect] at hx
      split at hx
      · exact List.mem_of_mem_filter hx
      · exact hx
  | _ => exact h.same

theorem secure_failed {q : Pool Answer Failure Unit (Store p) InHand} {i : ℕ} {o : Op}
    (e : Failure) (h : Secure q.state.ledger q.state.occurrences q.notes) :
    Secure q.state.ledger q.state.occurrences
      (Function.update q.notes i (InHand.note o (.error e) (q.notes i))) := by
  cases o with
  | createOccurrence occ => exact h.put_down nofun fun _ hclaimed => hclaimed
  | deleteReservation id => exact h.put_down (fun _ hheld => hheld) nofun
  | _ => exact h.same

/-- All that can happen while occurrences are spared keeps what is owned. -/
theorem preserves_secure :
    (activities (p := p) cfg).Preserves InHand.rule (fun g => g.held = none ∧ g.claimed = none)
      SparesOccurrences fun s notes => Secure s.ledger s.occurrences notes where
  body a := (returns_activity cfg a).mono fun _ g h => by
    rw [h]
    cases a <;> exact ⟨rfl, rfl⟩
  opening q i a h _ _ := h.put_down (by cases a <;> exact nofun) (by cases a <;> exact nofun)
  closing s notes i h _ := h.put_down nofun nofun
  performed q i o view fails h hasks hrule hok _ := secure_performed cfg h hasks hrule hok
  failed q i o view e h _ _ _ _ := secure_failed e h
  outside q d h _ := h

/-- In every run whose steps spare the occurrences, a reserved occurrence keeps its
reservation. -/
theorem occurrencesHold_run (s : Store p) (hs : s.occurrences = [])
    (turns : List (Turn View Activity ℕ))
    (hok : (activities cfg).Along SparesOccurrences ((activities cfg).quiet s) turns) :
    OccurrencesHold ((activities cfg).run ((activities cfg).quiet s) turns).state := by
  have hstart : Secure s.ledger s.occurrences fun _ => InHand.nothing false := by
    rw [hs]
    refine ⟨nofun, ?_, ?_, nofun⟩
    · rintro (k | j) id hw
      · obtain ⟨o, ho, -⟩ := hw
        cases ho
      · cases hw
    · rintro (k | j) w' id hw -
      · obtain ⟨o, ho, -⟩ := hw
        cases ho
      · cases hw
  have h := ((preserves_secure cfg).run hstart hok).2
  intro o ho hreserved
  obtain ⟨id, hid⟩ := Option.isSome_iff_exists.mp (h.named o ho hreserved)
  exact ⟨id, hid, h.kept (.inl o.id) id ⟨o, ho, rfl, hreserved, hid⟩⟩

end System

/-! ### A schedule, and a run before it fires -/

def inAnHour : Schedule :=
  { id := 0, executionId := 1, tenantId := 1, kind := .oneShot, fireAt := some (3600 * 10 ^ 9)
    recurrence := "", active := true }

def onlyClaimed (q : Pool Answer Failure Unit (Store p) InHand) : Turn View Activity ℕ → Bool
  | .go i _ _ =>
      match Traffic.asks q i with
      | some (.releaseReservations _) => false
      | some (.deleteReservation id) => (q.notes i).claimed = some id
      | _ => true
  | _ => true

theorem sparesOccurrences_of_onlyClaimed (q : Pool Answer Failure Unit (Store p) InHand)
    (t : Turn View Activity ℕ) (h : onlyClaimed q t = true) : SparesOccurrences q t := by
  cases t with
  | go i view fails =>
      simp only [onlyClaimed] at h
      simp only [SparesOccurrences]
      split
      case h_1 hasks => simp [hasks] at h
      case h_2 hasks => exact .inl (by simpa [hasks] using h)
      case h_3 => trivial
  | _ => trivial

def createdAndClaimed : List (Turn View Activity ℕ) :=
  carriedOut 0 (.schedule (.create inAnHour)) 12 ++
    .outside (3600 * 10 ^ 9) :: carriedOut 1 (.schedule (.claimDue (3600 * 10 ^ 9))) 3

theorem occurrencesHold_createdAndClaimed :
    OccurrencesHold ((activities smallConfig).run
      ((activities smallConfig).quiet (.new : Store .microseconds)) createdAndClaimed).state :=
  occurrencesHold_run smallConfig .new rfl createdAndClaimed
    (Traffic.Along.mono _ sparesOccurrences_of_onlyClaimed (by decide +kernel))

def createdAndStopped : List (Turn View Activity ℕ) :=
  carriedOut 0 (.schedule (.create inAnHour)) 12 ++ carriedOut 1 (.trigger 1) 22 ++
    carriedOut 2 (.stop 1) 26

/-- The end of the run takes what was reserved for the occurrence. -/
theorem not_occurrencesHold_createdAndStopped :
    ¬OccurrencesHold ((activities smallConfig).run
      ((activities smallConfig).quiet (.new : Store .microseconds)) createdAndStopped).state := by
  have hoccurrences : ((activities smallConfig).run
      ((activities smallConfig).quiet (.new : Store .microseconds))
        createdAndStopped).state.occurrences =
      [{ id := 1, scheduleId := 1, fireTime := 3600 * 10 ^ 9, status := .reserved
         reservationId := some 1 }] := by decide +kernel
  have hrows : ((activities smallConfig).run
      ((activities smallConfig).quiet (.new : Store .microseconds))
        createdAndStopped).state.ledger.rows = [] := by decide +kernel
  intro h
  obtain ⟨id, -, hid⟩ := h _ (hoccurrences ▸ List.mem_singleton_self _) rfl
  rw [reservationIds, hrows] at hid
  cases hid

end Honryu.Control
