import Honryu.Control.Occurrences

/-!
Whether the schedule service leaves reservations behind that nobody will give back.

A reservation is made before the occurrence it is for is recorded, so it stays behind if
the recording fails. It stays behind if its deletion fails once the occurrence has been
claimed. And `Delete` gives back what was reserved when it looked, but deletes all the
occurrences there are at the end.
-/

namespace Honryu.Control

open Quota Schedules

variable {p : Precision}

/-! ### Reservations that somebody answers for -/

/-- The reservations made since are owned, or a call has claimed them and will delete
them. -/
def Accounted (since : ℤ) (l : Ledger p) (occs : List Occurrence) (notes : ℕ → InHand) : Prop :=
  ∀ id ∈ reservationIds l, since ≤ id →
    (∃ w, Owns occs notes w id) ∨ ∃ i, (notes i).claimed = some id

structure Keyed (occs : List Occurrence) (next : ℤ) : Prop where
  nodup : (occs.map (·.id)).Nodup
  lt : ∀ o ∈ occs, o.id < next

section Keyed

variable {occs occs' : List Occurrence} {next : ℤ}

theorem Keyed.eq_of_id_eq (h : Keyed occs next) {o o' : Occurrence} (ho : o ∈ occs)
    (ho' : o' ∈ occs) (hid : o.id = o'.id) : o = o' :=
  List.inj_on_of_nodup_map h.nodup ho ho' hid

theorem Keyed.sublist (h : Keyed occs next) (hsub : occs'.Sublist occs) : Keyed occs' next :=
  ⟨h.nodup.sublist (hsub.map _), fun o ho => h.lt o (hsub.subset ho)⟩

theorem Keyed.record (h : Keyed occs next) (o : Occurrence) :
    Keyed (occs ++ [{ o with id := next }]) (next + 1) := by
  refine ⟨?_, fun x hx => ?_⟩
  · rw [List.map_append, List.map_singleton, ← List.concat_eq_append]
    refine h.nodup.concat fun hmem => ?_
    obtain ⟨x, hx, hid⟩ := List.mem_map.mp hmem
    exact (h.lt x hx).ne hid
  · rcases List.mem_append.mp hx with hx | hx
    · exact (h.lt x hx).trans (lt_add_one _)
    · obtain rfl := List.mem_singleton.mp hx
      exact lt_add_one _

theorem Keyed.fire (h : Keyed occs next) (occurrenceId : ℤ) :
    Keyed (fire occurrenceId occs) next := by
  have hids : (Control.fire occurrenceId occs).map (·.id) = occs.map (·.id) := by
    rw [Control.fire, List.map_map]
    refine List.map_congr_left fun x _ => ?_
    simp only [Function.comp_apply]
    split <;> rfl
  refine ⟨hids ▸ h.nodup, fun o ho => ?_⟩
  have hid : o.id ∈ occs.map (·.id) := hids ▸ List.mem_map_of_mem ho
  obtain ⟨x, hx, hxo⟩ := List.mem_map.mp hid
  exact hxo ▸ h.lt x hx

end Keyed

section Accounted

variable {since next : ℤ} {l l' : Ledger p} {occs occs' : List Occurrence} {notes : ℕ → InHand}
  {i : ℕ}

theorem owns_update {g : InHand} {w : ℤ ⊕ ℕ} {id : ℤ} (hw : w ≠ .inr i) :
    Owns occs (Function.update notes i g) w id ↔ Owns occs notes w id := by
  rcases w with k | j
  · rfl
  · have hj : j ≠ i := fun h => hw (congrArg _ h)
    simp [Owns, hj]

theorem claimed_update {g : InHand} {j : ℕ} {id : ℤ} (hj : j ≠ i)
    (h : (notes j).claimed = some id) : (Function.update notes i g j).claimed = some id := by
  rwa [Function.update_of_ne hj]

/-- It is enough to say who answers for what one call, or the occurrences that were
taken away, answered for. -/
theorem Accounted.update (h : Accounted since l occs notes) {g : InHand}
    (hrows : ∀ id ∈ reservationIds l', since ≤ id → id ∈ reservationIds l ∨ g.held = some id)
    (hoccs : ∀ o ∈ occs, o.status = .reserved → ∀ id ∈ o.reservationId, id ∈ reservationIds l' →
      g.claimed = some id ∨ ∃ w, Owns occs' notes w id ∧ w ≠ .inr i)
    (hheld : ∀ id, (notes i).held = some id →
      g.held = some id ∨ ∃ w, Owns occs' notes w id ∧ w ≠ .inr i)
    (hclaimed : ∀ id, (notes i).claimed = some id → id ∈ reservationIds l' → g.claimed = some id) :
    Accounted since l' occs' (Function.update notes i g) := by
  have hmine : ∀ id, g.held = some id → ∃ w, Owns occs' (Function.update notes i g) w id :=
    fun id hid => ⟨.inr i, by simpa [Owns] using hid⟩
  have htheirs : ∀ id, (∃ w, Owns occs' notes w id ∧ w ≠ .inr i) →
      ∃ w, Owns occs' (Function.update notes i g) w id := by
    rintro id ⟨w, hw, hne⟩
    exact ⟨w, (owns_update hne).mpr hw⟩
  have hclaim : ∀ id, g.claimed = some id → ∃ j, (Function.update notes i g j).claimed = some id :=
    fun id hid => ⟨i, by simpa using hid⟩
  intro id hid hsince
  rcases hrows id hid hsince with hold | hnew
  · rcases h id hold hsince with ⟨w, hw⟩ | ⟨j, hj⟩
    · rcases w with k | j
      · obtain ⟨o, ho, -, hreserved, hreservation⟩ := hw
        exact (hoccs o ho hreserved id hreservation hid).symm.imp (htheirs id) (hclaim id)
      · by_cases hji : j = i
        · subst hji
          exact .inl ((hheld id hw).elim (hmine id) (htheirs id))
        · exact .inl ⟨.inr j, (owns_update (by simpa using hji)).mpr hw⟩
    · by_cases hji : j = i
      · subst hji
        exact .inr (hclaim id (hclaimed id hj hid))
      · exact .inr ⟨j, claimed_update hji hj⟩
  · exact .inl (hmine id hnew)

theorem Accounted.same (h : Accounted since l occs notes)
    (hrows : ∀ id ∈ reservationIds l', id ∈ reservationIds l) :
    Accounted since l' occs (Function.update notes i (notes i)) := by
  rw [Function.update_eq_self]
  exact fun id hid => h id (hrows id hid)

theorem Accounted.create (h : Accounted since l occs notes) (q : Request)
    (hempty : (notes i).held = none) :
    Accounted since (l.create q.1 q.positive) occs
      (Function.update notes i { notes i with held := some l.nextId }) := by
  refine h.update (fun id hid _ => ?_) (fun o ho hreserved id hid _ => ?_)
    (fun id hid => absurd (hempty.symm.trans hid) nofun) fun id hid _ => hid
  · exact (mem_reservationIds_create.mp hid).imp_right fun heq => congrArg some heq.symm
  · exact .inr ⟨.inl o.id, ⟨o, ho, rfl, hreserved, hid⟩, Sum.inl_ne_inr⟩

/-- Once the occurrence is recorded, it answers for what was in the call's hand. -/
theorem Accounted.record (h : Accounted since l occs notes) {o : Occurrence} (occurrenceId : ℤ)
    (hrule : InHand.rule (notes i) (.createOccurrence o)) :
    Accounted since l (occs ++ [{ o with id := occurrenceId }])
      (Function.update notes i { notes i with held := none }) := by
  refine h.update (fun id hid _ => .inl hid) (fun x hx hreserved id hid _ => ?_)
    (fun id hid => ?_) fun id hid _ => hid
  · exact .inr ⟨.inl x.id, ⟨x, List.mem_append_left _ hx, rfl, hreserved, hid⟩, Sum.inl_ne_inr⟩
  · rcases hrule with ⟨hreserved, hreservation, -⟩ | ⟨-, hnone⟩
    · refine .inr ⟨.inl occurrenceId, ?_, Sum.inl_ne_inr⟩
      exact ⟨_, List.mem_append_right _ (List.mem_singleton_self _), rfl, hreserved,
        hreservation.trans hid⟩
    · exact absurd (hnone.symm.trans hid) nofun

/-- Whoever has claimed an occurrence answers for what was reserved for it. -/
theorem Accounted.claim (h : Accounted since l occs notes) (hkeyed : Keyed occs next)
    {o : Occurrence} (ho : o ∈ occs) (hempty : (notes i).claimed = none) :
    Accounted since l (fire o.id occs)
      (Function.update notes i { notes i with claimed := o.reservationId }) := by
  refine h.update (fun id hid _ => .inl hid) (fun x hx hreserved id hid _ => ?_)
    (fun id hid => .inl hid) fun id hid _ => absurd (hempty.symm.trans hid) nofun
  by_cases hxo : x.id = o.id
  · obtain rfl := hkeyed.eq_of_id_eq hx ho hxo
    exact .inl hid
  · refine .inr ⟨.inl x.id, ⟨x, ?_, rfl, hreserved, hid⟩, Sum.inl_ne_inr⟩
    exact List.mem_map.mpr ⟨x, hx, if_neg hxo⟩

theorem Accounted.delete (h : Accounted since l occs notes) {id : ℤ}
    (hrule : InHand.rule (notes i) (.deleteReservation id)) :
    Accounted since (l.keep fun r => r.id ≠ id) occs
      (Function.update notes i { notes i with claimed := none }) := by
  have hkept : ∀ x ∈ reservationIds (l.keep fun r => r.id ≠ id), x ∈ reservationIds l ∧ x ≠ id := by
    intro x hx
    obtain ⟨r, hr, rfl, hne⟩ := mem_reservationIds_keep.mp hx
    exact ⟨List.mem_map_of_mem hr, of_decide_eq_true hne⟩
  refine h.update (fun x hx _ => .inl (hkept x hx).1) (fun o ho hreserved x hx _ => ?_)
    (fun x hx => .inl hx) fun x hx hmem => ?_
  · exact .inr ⟨.inl o.id, ⟨o, ho, rfl, hreserved, hx⟩, Sum.inl_ne_inr⟩
  · rcases hrule with hnone | hsome
    · exact absurd (hnone.symm.trans hx) nofun
    · exact absurd (Option.some_inj.mp (hx.symm.trans hsome)) (hkept x hmem).2

/-- A schedule can be deleted once nothing is reserved for it any more. -/
theorem Accounted.deleteSchedule (h : Accounted since l occs notes) {scheduleId : ℤ}
    (hnothing : ∀ o ∈ occs, o.scheduleId = scheduleId → o.status = .reserved →
      ∀ id ∈ o.reservationId, id ∉ reservationIds l) :
    Accounted since l (occs.filter fun o => o.scheduleId ≠ scheduleId) notes := by
  intro id hid hsince
  rcases h id hid hsince with ⟨w, hw⟩ | hclaimed
  · refine .inl ⟨w, ?_⟩
    rcases w with k | j
    · obtain ⟨o, ho, hk, hreserved, hreservation⟩ := hw
      have hother : o.scheduleId ≠ scheduleId :=
        fun heq => hnothing o ho heq hreserved id hreservation hid
      exact ⟨o, List.mem_filter.mpr ⟨ho, decide_eq_true hother⟩, hk, hreserved, hreservation⟩
    · exact hw
  · exact .inr hclaimed

end Accounted

/-! ### The schedule service on its own -/

section System

variable (cfg : Config)

def scheduling : Traffic Answer Failure Unit (Store p) View ScheduleCall InHand ℕ where
  server := server cfg
  body := ScheduleCall.body cfg
  blank := .nothing true
  opening _ := .nothing true
  note := InHand.note
  outside d s := s.elapse d

/-- What was reserved for an occurrence is recorded with it, what was reserved for one
that is claimed is deleted, and a schedule is deleted when nothing is reserved for it any
more. -/
def ClearsUp (q : Pool Answer Failure Unit (Store p) InHand) : Turn View ScheduleCall ℕ → Prop
  | .go i _ fails =>
      match Traffic.asks q i with
      | some (.createOccurrence _) => fails = true → (q.notes i).held = none
      | some (.deleteReservation _) => fails = true → (q.notes i).claimed = none
      | some (.deleteSchedule id) =>
          fails = false → ∀ o ∈ q.state.occurrences, o.scheduleId = id → o.status = .reserved →
            ∀ rid ∈ o.reservationId, rid ∉ reservationIds q.state.ledger
      | _ => True
  | _ => True

def ReservationsOwned (since : ℤ) (s : Store p) : Prop :=
  ∀ id ∈ reservationIds s.ledger, since ≤ id →
    ∃ o ∈ s.occurrences, o.status = .reserved ∧ o.reservationId = some id

/-- One question that is answered keeps the key of the occurrences. -/
theorem keyed_effect {s : Store p} (h : Keyed s.occurrences s.nextOccurrence) (o : Op) :
    Keyed (effect cfg s o).occurrences (effect cfg s o).nextOccurrence := by
  cases o with
  | createOccurrence occ => exact h.record occ
  | claimDueOccurrence now =>
      simp only [effect]
      split
      · exact h
      · exact h.fire _
  | deleteSchedule id =>
      simp only [effect]
      split
      · exact h.sublist List.filter_sublist
      · exact h
  | _ => exact h

theorem mem_reservationIds_of_keep {l : Ledger p} {kept : Reservation → Bool} {id : ℤ}
    (h : id ∈ reservationIds (l.keep kept)) : id ∈ reservationIds l := by
  obtain ⟨r, hr, rfl, -⟩ := mem_reservationIds_keep.mp h
  exact List.mem_map_of_mem hr

/-- One question that is answered leaves every reservation accounted for. -/
theorem accounted_performed {since : ℤ} {q : Pool Answer Failure Unit (Store p) InHand} {i : ℕ}
    {o : Op} {view : View} {fails : Bool} (hscheduling : (q.notes i).scheduling = true)
    (hkeyed : Keyed q.state.occurrences q.state.nextOccurrence)
    (h : Accounted since q.state.ledger q.state.occurrences q.notes)
    (hasks : Traffic.asks q i = some o) (hrule : InHand.rule (q.notes i) o)
    (hok : ClearsUp q (.go i view fails)) (hgoes : fails = true → failure o = none) :
    Accounted since (effect cfg q.state o).ledger (effect cfg q.state o).occurrences
      (Function.update q.notes i (InHand.note o (reply cfg view q.state o) (q.notes i))) := by
  simp only [ClearsUp, hasks] at hok
  cases o with
  | createReservation r =>
      have hnote : InHand.note (.createReservation r) (reply cfg view q.state (.createReservation r))
          (q.notes i) = { q.notes i with held := some q.state.ledger.nextId } :=
        if_pos hscheduling
      rw [hnote]
      exact h.create r hrule
  | createOccurrence occ => exact h.record q.state.nextOccurrence hrule
  | claimDueOccurrence now =>
      cases hdue : q.state.due now with
      | none => simpa [InHand.note, reply, effect, hdue] using h
      | some occ =>
          simpa [InHand.note, reply, effect, hdue] using h.claim hkeyed (due_mem hdue).1 hrule
  | deleteReservation id => exact h.delete hrule
  | releaseReservations executionId => exact h.same fun _ => mem_reservationIds_of_keep
  | deleteSchedule id =>
      have hgoes' : fails = false := by
        cases fails with
        | false => rfl
        | true => cases hgoes rfl
      have hnote : InHand.note (.deleteSchedule id) (reply cfg view q.state (.deleteSchedule id))
          (q.notes i) = q.notes i := rfl
      rw [hnote, Function.update_eq_self]
      simp only [effect]
      split
      · exact h.deleteSchedule (hok hgoes')
      · exact h
  | _ => exact h.same fun _ => id

/-- A question that failed leaves every reservation accounted for. -/
theorem accounted_failed {since : ℤ} {q : Pool Answer Failure Unit (Store p) InHand} {i : ℕ} {o : Op}
    {view : View} (e : Failure) (h : Accounted since q.state.ledger q.state.occurrences q.notes)
    (hasks : Traffic.asks q i = some o) (hok : ClearsUp q (.go i view true)) :
    Accounted since q.state.ledger q.state.occurrences
      (Function.update q.notes i (InHand.note o (.error e) (q.notes i))) := by
  have hsame : InHand.note o (.error e) (q.notes i) = q.notes i → Accounted since q.state.ledger
      q.state.occurrences (Function.update q.notes i (InHand.note o (.error e) (q.notes i))) := by
    intro heq
    rw [heq]
    exact h.same fun _ => id
  simp only [ClearsUp, hasks] at hok
  cases o with
  | createOccurrence occ => exact hsame (InHand.ext rfl (hok trivial).symm rfl)
  | deleteReservation id => exact hsame (InHand.ext rfl rfl (hok trivial).symm)
  | _ => exact hsame rfl

structure Orderly (since : ℤ) (s : Store p) (notes : ℕ → InHand) : Prop where
  scheduling : ∀ i, (notes i).scheduling = true
  keyed : Keyed s.occurrences s.nextOccurrence
  accounted : Accounted since s.ledger s.occurrences notes

theorem scheduling_update {notes : ℕ → InHand} {i : ℕ} {g : InHand}
    (h : ∀ i, (notes i).scheduling = true) (hg : g.scheduling = (notes i).scheduling) :
    ∀ j, (Function.update notes i g j).scheduling = true := by
  intro j
  by_cases hj : j = i
  · subst hj
    rw [Function.update_self, hg, h]
  · rw [Function.update_of_ne hj, h]

theorem InHand.note_scheduling (o : Op) (r : Except Failure (Answer o)) (g : InHand) :
    (InHand.note o r g).scheduling = g.scheduling := by
  unfold InHand.note
  split
  · split <;> rfl
  all_goals rfl

/-- All that can happen while the calls clear up leaves every reservation accounted
for. -/
theorem preserves_orderly (since : ℤ) :
    (scheduling (p := p) cfg).Preserves InHand.rule (fun g => g = .nothing true) ClearsUp
      (Orderly since) where
  body call := returns_scheduleCall cfg call rfl rfl rfl
  opening q i call h hblank _ := by
    have hsame : Function.update q.notes i ((scheduling (p := p) cfg).opening call) = q.notes :=
      Function.update_eq_self_iff.mpr hblank.symm
    rwa [hsame]
  closing s notes i h hdone := by
    have hsame : Function.update notes i (scheduling (p := p) cfg).blank = notes :=
      Function.update_eq_self_iff.mpr hdone.symm
    rwa [hsame]
  performed q i o view fails h hasks hrule hok hgoes :=
    { scheduling := scheduling_update h.scheduling (InHand.note_scheduling _ _ _)
      keyed := keyed_effect cfg h.keyed o
      accounted :=
        accounted_performed cfg (h.scheduling i) h.keyed h.accounted hasks hrule hok hgoes }
  failed q i o view e h hasks _ hok _ :=
    { scheduling := scheduling_update h.scheduling (InHand.note_scheduling _ _ _)
      keyed := h.keyed
      accounted := accounted_failed e h.accounted hasks hok }
  outside q d h _ := ⟨h.scheduling, h.keyed, h.accounted⟩

/-- In every run whose steps clear up, once all calls have returned every reservation
that they made is owned by an occurrence that is reserved. -/
theorem reservationsOwned_run (s : Store p) (hs : Keyed s.occurrences s.nextOccurrence)
    (turns : List (Turn View ScheduleCall ℕ))
    (hok : (scheduling cfg).Along ClearsUp ((scheduling cfg).quiet s) turns)
    (hreturned : ∀ i, ((scheduling cfg).run ((scheduling cfg).quiet s) turns).calls i = none) :
    ReservationsOwned s.ledger.nextId
      ((scheduling cfg).run ((scheduling cfg).quiet s) turns).state := by
  have hstart : Orderly s.ledger.nextId s fun _ => InHand.nothing true :=
    { scheduling := fun _ => rfl
      keyed := hs
      accounted := fun id hid hsince => absurd (lt_nextId hid) hsince.not_gt }
  obtain ⟨htidy, hend⟩ := (preserves_orderly cfg _).run hstart hok
  have hblank : ∀ i, ((scheduling cfg).run ((scheduling cfg).quiet s) turns).notes i =
      .nothing true := fun i => htidy.blank i (hreturned i)
  intro id hid hsince
  rcases hend.accounted id hid hsince with ⟨k | j, hw⟩ | ⟨j, hj⟩
  · obtain ⟨o, ho, -, hreserved, hreservation⟩ := hw
    exact ⟨o, ho, hreserved, hreservation⟩
  · rw [Owns, hblank] at hw
    cases hw
  · rw [hblank] at hj
    cases hj

end System

/-! ### Two ends of `Create` -/

def goesWell (q : Pool Answer Failure Unit (Store p) InHand) : Turn View ScheduleCall ℕ → Bool
  | .go i _ fails =>
      match Traffic.asks q i with
      | some (.deleteSchedule _) => false
      | _ => !fails
  | _ => true

theorem clearsUp_of_goesWell (q : Pool Answer Failure Unit (Store p) InHand)
    (t : Turn View ScheduleCall ℕ) (h : goesWell q t = true) : ClearsUp q t := by
  cases t with
  | go i view fails =>
      simp only [goesWell] at h
      simp only [ClearsUp]
      split
      case h_3 hasks => simp [hasks] at h
      case h_4 => trivial
      all_goals
        rename_i hasks
        intro hfails
        simp [hasks, hfails] at h
  | _ => trivial

def createdThenClaimed : List (Turn View ScheduleCall ℕ) :=
  carriedOut 0 (.create inAnHour) 12 ++
    .outside (3600 * 10 ^ 9) :: carriedOut 1 (.claimDue (3600 * 10 ^ 9)) 3

theorem reservationsOwned_createdThenClaimed :
    ReservationsOwned 1 ((scheduling smallConfig).run
      ((scheduling smallConfig).quiet (.new : Store .microseconds)) createdThenClaimed).state :=
  reservationsOwned_run smallConfig .new ⟨List.nodup_nil, nofun⟩ createdThenClaimed
    (Traffic.Along.mono _ clearsUp_of_goesWell (by decide +kernel))
    fun _ => Traffic.returned [0, 1] (by decide) (by decide +kernel)

def notRecorded : List (Turn View ScheduleCall ℕ) :=
  carriedOut 0 (.create inAnHour) 11 ++ [.go 0 (.ready 2) true]

/-- The reservation was made, the call has returned, and there is no occurrence. -/
theorem not_reservationsOwned_notRecorded :
    (∀ i, ((scheduling smallConfig).run ((scheduling smallConfig).quiet
        (.new : Store .microseconds)) notRecorded).calls i = none) ∧
      ¬ReservationsOwned 1 ((scheduling smallConfig).run
        ((scheduling smallConfig).quiet (.new : Store .microseconds)) notRecorded).state := by
  have hids : reservationIds ((scheduling smallConfig).run
      ((scheduling smallConfig).quiet (.new : Store .microseconds)) notRecorded).state.ledger =
      [1] := by decide +kernel
  have hoccurrences : ((scheduling smallConfig).run
      ((scheduling smallConfig).quiet (.new : Store .microseconds))
        notRecorded).state.occurrences = [] := by decide +kernel
  refine ⟨fun _ => Traffic.returned [0] (by decide) (by decide +kernel), fun h => ?_⟩
  obtain ⟨o, ho, -⟩ := h 1 (hids ▸ List.mem_singleton_self _) le_rfl
  rw [hoccurrences] at ho
  cases ho

end Honryu.Control
