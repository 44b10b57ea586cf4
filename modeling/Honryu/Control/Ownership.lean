import Honryu.Control.Questions
import Honryu.Lib.Pool

/-!
Who owns a reservation.

The schedule service makes a reservation and then records the occurrence it is for, in
two steps, and it claims an occurrence and then deletes its reservation. In between the
reservation belongs to the call. The life cycle knows nothing of this: it releases whatever
an execution has reserved.
-/

namespace Honryu.Control

open Call Lifecycle Quota Schedules

variable (cfg : Config)

/-! ### What a call has in hand -/

/-- What is noted of a call: whether it is one of the schedule service, the reservation
it has made for an occurrence that is not recorded yet, and the one of an occurrence that
it has claimed. -/
@[ext] structure InHand where
  scheduling : Bool
  held : Option ℤ
  claimed : Option ℤ

namespace InHand

def nothing (scheduling : Bool) : InHand := { scheduling, held := none, claimed := none }

def note : (o : Op) → Except Failure (Answer o) → InHand → InHand
  | .createReservation _, .ok id, g => if g.scheduling then { g with held := some id } else g
  | .createOccurrence _, _, g => { g with held := none }
  | .claimDueOccurrence _, .ok (some occ), g => { g with claimed := occ.reservationId }
  | .deleteReservation _, _, g => { g with claimed := none }
  | _, _, g => g

/-- A call takes nothing in hand while its hands are full. It records the occurrence that
its reservation is for, or one that is not reserved. And it deletes the reservation it has
claimed. -/
def rule (g : InHand) : Op → Prop
  | .createReservation _ => g.held = none
  | .createOccurrence o =>
      o.status = .reserved ∧ o.reservationId = g.held ∧ g.held.isSome ∨
        o.status ≠ .reserved ∧ g.held = none
  | .claimDueOccurrence _ => g.claimed = none
  | .deleteReservation id => g.claimed = none ∨ g.claimed = some id
  | _ => True

def Idle : Op → Prop
  | .createReservation _ | .createOccurrence _ | .claimDueOccurrence _ | .deleteReservation _ => False
  | _ => True

theorem idle_obeys (g : InHand) (o : Op) (h : Idle o) : rule g o ∧ ∀ r, note o r g = g := by
  cases o <;> first | exact h.elim | exact ⟨trivial, fun _ => rfl⟩

end InHand

theorem Looking.idle {o : Op} (h : Looking o) : InHand.Idle o := by
  cases o <;> trivial

theorem Ending.idle {o : Op} (h : Ending o) : InHand.Idle o := by
  cases o <;> trivial

theorem Opening.idle {o : Op} (h : Opening o) : InHand.Idle o := by
  cases o <;> trivial

/-! ### The calls keep to the rule -/

def Returns {α : Type} (c : Proc α) (g : InHand) : Prop :=
  c.Obeys InHand.rule InHand.note (fun _ g' => g' = g) g

section Returns

variable {α β : Type} {g : InHand}

theorem Returns.of_asks {c : Proc α} (h : c.Asks InHand.Idle) : Returns c g :=
  h.obeys (g.idle_obeys) fun _ => rfl

theorem Returns.bind {c : Proc α} {f : α → Proc β} (hc : Returns c g)
    (hf : ∀ a, Returns (f a) g) : Returns (c >>= f) g :=
  Obeys.bind hc (fun a _ h => h ▸ hf a) fun _ _ h => h

theorem Returns.attempt {c : Proc α} (hc : Returns c g) : Returns c.attempt g :=
  Obeys.attempt hc

theorem Returns.query {o : Op} {f : Answer o → Proc β} (ho : InHand.Idle o)
    (hf : ∀ a, Returns (f a) g) : Returns (query o >>= f) g :=
  Returns.bind (.of_asks (asks_need.mpr ho)) hf

theorem Returns.ofResult (r : Except Failure α) : Returns (ofResult r : Proc α) g := by
  cases r <;> rfl

end Returns

def InHand.after (g : InHand) : Except Failure Reservation → InHand
  | .ok r => if g.scheduling then { g with held := some r.id } else g
  | .error _ => g

theorem obeys_reserveLocked (q : Request) {g : InHand} (hheld : g.held = none) :
    (reserveLocked cfg q).Obeys InHand.rule InHand.note (fun r g' => g' = g.after r) g := by
  have hidle := g.idle_obeys
  refine Asks.obeys_bind (asks_need.mpr trivial) hidle (fun quota => ?_) fun _ => rfl
  refine Asks.obeys_bind ((asks_usedCapacity q).mono fun _ => Looking.idle) hidle
    (fun x => ?_) fun _ => rfl
  refine Asks.obeys_bind (asks_usedAfterReclaim cfg q _ _ trivial fun _ _ _ ho => ho.ending.idle)
    hidle (fun used => ?_) fun _ => rfl
  split
  · rfl
  · refine ⟨hheld, fun r => ?_⟩
    cases r with
    | ok id => rfl
    | error e => rfl

theorem obeys_reserve (r : Reservation) {g : InHand} (hheld : g.held = none) :
    (reserve cfg r).Obeys InHand.rule InHand.note (fun r g' => g' = g.after r) g := by
  unfold reserve
  split
  · rfl
  · refine Asks.obeys_bind (asks_need.mpr trivial) g.idle_obeys (fun _ => ?_) fun _ => rfl
    refine Obeys.attempt_bind (obeys_reserveLocked cfg _ hheld) fun result g' h => ?_
    refine ⟨trivial, fun _ => ?_⟩
    cases result <;> exact h

theorem returns_reserveEach (sc : Schedule) (exe : SizedExecution) (fireTimes : List ℤ)
    {g : InHand} (hscheduling : g.scheduling = true) (hheld : g.held = none) :
    Returns (reserveEach cfg sc exe fireTimes) g := by
  induction fireTimes with
  | nil => rfl
  | cons fireTime rest ih =>
      refine Obeys.attempt_bind (obeys_reserve cfg _ hheld) fun reserved g' h => ?_
      have hput : ∀ r, InHand.note (.createOccurrence (occurrenceOf sc fireTime reserved)) r g' = g := by
        intro r
        cases reserved with
        | ok r => simp [h, InHand.note, InHand.after, hscheduling, InHand.ext_iff, hheld]
        | error e => simp [h, InHand.note, InHand.after, InHand.ext_iff, hheld]
      refine ⟨?_, fun r => ?_⟩
      · cases reserved with
        | ok r => simp [h, InHand.rule, InHand.after, occurrenceOf, hscheduling]
        | error e => simp [h, InHand.rule, InHand.after, occurrenceOf, hheld]
      · rw [hput r]
        cases r with
        | ok id => exact ih
        | error e => rfl

theorem returns_reserveOccurrences (sc : Schedule) (fireTimes : List ℤ) {g : InHand}
    (hscheduling : g.scheduling = true) (hheld : g.held = none) :
    Returns (reserveOccurrences cfg sc fireTimes) g :=
  .query trivial fun exe => returns_reserveEach cfg sc exe fireTimes hscheduling hheld

theorem returns_createSchedule (sc : Schedule) {g : InHand} (hscheduling : g.scheduling = true)
    (hheld : g.held = none) : Returns (createSchedule cfg sc) g := by
  unfold createSchedule
  split
  · rfl
  · refine .query trivial fun scenarios => ?_
    split
    · rfl
    · refine .query trivial fun fromTime => ?_
      split
      · rfl
      · exact .query trivial fun id => returns_reserveOccurrences cfg _ _ hscheduling hheld

theorem returns_extendOne (sc : Schedule) (now toTime : ℤ) {g : InHand}
    (hscheduling : g.scheduling = true) (hheld : g.held = none) :
    Returns (extendOne cfg sc now toTime) g := by
  have hlocked : Returns (extendLocked cfg sc now toTime) g := by
    refine .query trivial fun existing => ?_
    unfold extendFrom
    split
    · rfl
    · refine .query trivial fun scenarios => ?_
      split
      · rfl
      · split
        · rfl
        · exact returns_reserveOccurrences cfg _ _ hscheduling hheld
  exact .query trivial fun _ => .bind hlocked.attempt fun result =>
    .bind (.of_asks (asks_besides.mpr trivial)) fun _ => .ofResult result

theorem returns_extendHorizons {g : InHand} (hscheduling : g.scheduling = true)
    (hheld : g.held = none) : Returns (extendHorizons cfg) g := by
  have heach : ∀ now toTime schedules, Returns (extendEach cfg now toTime schedules) g := by
    intro now toTime schedules
    induction schedules with
    | nil => rfl
    | cons sc rest ih =>
        exact .bind (returns_extendOne cfg sc now toTime hscheduling hheld).attempt fun _ =>
          .bind ih fun _ => rfl
  refine .query trivial fun schedules => .query trivial fun now => .bind (heach _ _ _) fun failed =>
    .bind (Returns.attempt (.of_asks (asks_need.mpr trivial))) fun recorded => ?_
  split <;> rfl

/-- A reservation that was claimed, or that nothing in hand speaks for, is put aside by
deleting it. -/
theorem obeys_dropReservation (id : ℤ) {g : InHand} (h : g.claimed = none ∨ g.claimed = some id) :
    (dropReservation id).Obeys InHand.rule InHand.note (fun _ g' => g' = { g with claimed := none })
      g := by
  refine ⟨h, fun r => ?_⟩
  cases r with
  | ok _ => rfl
  | error e => cases e <;> rfl

theorem returns_claimDue (now : ℤ) {g : InHand} (hclaimed : g.claimed = none) :
    Returns (claimDue now) g := by
  have hback : ∀ x, ({ { g with claimed := x } with claimed := none } : InHand) = g := by
    simp [InHand.ext_iff, hclaimed]
  refine ⟨hclaimed, fun r => ?_⟩
  cases r with
  | error e => rfl
  | ok claim =>
      cases claim with
      | none => rfl
      | some occ =>
          -- what is in hand now is given back at once, and then there is nothing in hand
          have hdrop : (dropFor occ).Obeys InHand.rule InHand.note (fun _ g' => g' = g)
              { g with claimed := occ.reservationId } := by
            unfold dropFor
            cases hid : occ.reservationId with
            | some id =>
                exact (obeys_dropReservation id (.inr rfl)).mono fun _ _ h => h.trans (hback _)
            | none => simp [Obeys, InHand.ext_iff, hclaimed]
          refine hdrop.bind (fun _ g' h => ?_) fun _ _ h => h
          subst h
          exact Returns.query trivial fun sc => rfl

theorem returns_deleteSchedule (id : ℤ) {g : InHand} (hclaimed : g.claimed = none) :
    Returns (deleteSchedule id) g := by
  have hback : ({ g with claimed := none } : InHand) = g := by simp [InHand.ext_iff, hclaimed]
  have hdrop : ∀ occ, Returns (dropFor occ) g := by
    intro occ
    unfold dropFor
    split
    · exact (obeys_dropReservation _ (.inl hclaimed)).mono fun _ _ h => h.trans hback
    · rfl
  have heach : ∀ occs, Returns (dropEach occs) g := by
    intro occs
    induction occs with
    | nil => rfl
    | cons occ rest ih =>
        rw [dropEach]
        split
        · exact .bind (hdrop occ) fun _ => ih
        · exact ih
  exact .query trivial fun occs => .bind (heach occs) fun _ => .of_asks (asks_need.mpr trivial)

/-- A run is not an occurrence, so `Trigger` takes nothing in hand. -/
theorem returns_trigger (executionId : ℤ) {g : InHand} (hscheduling : g.scheduling = false)
    (hheld : g.held = none) : Returns (trigger cfg executionId) g := by
  have hall : ∀ requests, Returns (reserveAll cfg executionId requests) g := by
    intro requests
    induction requests with
    | nil => rfl
    | cons r rest ih =>
        refine Obeys.attempt_bind (obeys_reserve cfg r hheld) fun reserved g' h => ?_
        have hsame : g' = g := by
          cases reserved with
          | ok r => simpa [InHand.after, hscheduling] using h
          | error e => exact h
        subst hsame
        cases reserved with
        | ok r => exact ih
        | error e => exact Returns.bind (.of_asks (asks_besides.mpr trivial)) fun _ => rfl
  refine .bind (.of_asks ((asks_triggerChecks _).mono fun _ => Looking.idle)) fun exe =>
    .bind ?_ fun _ => .of_asks ((asks_openRun _ _).mono fun _ => Opening.idle)
  unfold reserveRun
  split
  · rfl
  · refine .query trivial fun start => ?_
    unfold reserveSized
    split
    · rfl
    · exact hall _

/-! ### The calls of the schedule service -/

inductive ScheduleCall
  | create (sc : Schedule)
  | extendHorizons
  | claimDue (now : ℤ)
  | delete (id : ℤ)

def ScheduleCall.body : ScheduleCall → Proc Unit
  | .create sc => createSchedule cfg sc
  | .extendHorizons => Control.extendHorizons cfg
  | .claimDue now => do
      let _ ← Control.claimDue now
      return ()
  | .delete id => deleteSchedule id

theorem returns_scheduleCall (call : ScheduleCall) {g : InHand} (hscheduling : g.scheduling = true)
    (hheld : g.held = none) (hclaimed : g.claimed = none) : Returns (call.body cfg) g := by
  cases call with
  | create sc => exact returns_createSchedule cfg sc hscheduling hheld
  | extendHorizons => exact returns_extendHorizons cfg hscheduling hheld
  | claimDue now => exact .bind (returns_claimDue now hclaimed) fun _ => rfl
  | delete id => exact returns_deleteSchedule id hclaimed

end Honryu.Control
