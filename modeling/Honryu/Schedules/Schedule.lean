import Honryu.Lifecycle.Sizing

/-!
Schedules: an execution that is to run at an instant, or again and again.
-/

namespace Honryu.Schedules

open Quota

/-! ### Recurrences -/

/-- A recurrence as the cron library reads it: the instants at which it fires, and the
least of them after a given one. -/
structure Cron where
  Fires : ℤ → Prop
  next : ℤ → Option ℤ
  next_some : ∀ {t u}, next t = some u → t < u ∧ Fires u ∧ ∀ v, t < v → Fires v → u ≤ v
  next_none : ∀ {t}, next t = none → ∀ v, t < v → ¬Fires v

/-- The loop of `Occurrences` for a recurring schedule: the fire times after one
instant and before another. -/
def Cron.steps (cron : Cron) (toTime : ℤ) : ℕ → ℤ → List ℤ
  | 0, _ => []
  | fuel + 1, t =>
      match cron.next t with
      | none => []
      | some next => if next < toTime then next :: cron.steps toTime fuel next else []

/-- The fire times of a window, which does not include its end. There are no more of
them than there are instants. -/
def Cron.between (cron : Cron) (fromTime toTime : ℤ) : List ℤ :=
  cron.steps toTime (toTime - fromTime).toNat (fromTime - 1)

theorem Cron.mem_steps (cron : Cron) {toTime : ℤ} {fuel : ℕ} {t : ℤ}
    (hfuel : toTime ≤ t + fuel + 1) (u : ℤ) :
    u ∈ cron.steps toTime fuel t ↔ cron.Fires u ∧ t < u ∧ u < toTime := by
  induction fuel generalizing t with
  | zero =>
      rw [Cron.steps]
      refine ⟨nofun, fun ⟨_, hafter, hbefore⟩ => ?_⟩
      omega
  | succ fuel ih =>
      rw [Cron.steps]
      cases hnext : cron.next t with
      | none => exact ⟨nofun, fun ⟨hfires, hafter, _⟩ => (cron.next_none hnext u hafter hfires).elim⟩
      | some next =>
          obtain ⟨hlt, hnextFires, hleast⟩ := cron.next_some hnext
          dsimp only
          split
          case isTrue hwithin =>
            rw [List.mem_cons, ih (by push_cast at hfuel; omega)]
            constructor
            · rintro (rfl | ⟨hfires, hafter, hbefore⟩)
              · exact ⟨hnextFires, hlt, hwithin⟩
              · exact ⟨hfires, hlt.trans hafter, hbefore⟩
            · rintro ⟨hfires, hafter, hbefore⟩
              rcases (hleast u hafter hfires).eq_or_lt with heq | hafter
              · exact .inl heq.symm
              · exact .inr ⟨hfires, hafter, hbefore⟩
          case isFalse hbeyond =>
            refine ⟨nofun, fun ⟨hfires, hafter, hbefore⟩ => ?_⟩
            exact absurd ((hleast u hafter hfires).trans_lt hbefore) hbeyond

theorem Cron.steps_sorted (cron : Cron) (toTime : ℤ) (fuel : ℕ) (t : ℤ) :
    (cron.steps toTime fuel t).Pairwise (· < ·) ∧ ∀ u ∈ cron.steps toTime fuel t, t < u := by
  induction fuel generalizing t with
  | zero => exact ⟨List.Pairwise.nil, nofun⟩
  | succ fuel ih =>
      rw [Cron.steps]
      cases hnext : cron.next t with
      | none => exact ⟨List.Pairwise.nil, nofun⟩
      | some next =>
          have hlt := (cron.next_some hnext).1
          obtain ⟨hsorted, hafter⟩ := ih next
          dsimp only
          split
          · refine ⟨List.pairwise_cons.mpr ⟨hafter, hsorted⟩, ?_⟩
            exact List.forall_mem_cons.mpr ⟨hlt, fun u hu => hlt.trans (hafter u hu)⟩
          · exact ⟨List.Pairwise.nil, nofun⟩

/-- The fire times of a window are found, all of them and nothing else. -/
theorem Cron.mem_between (cron : Cron) {fromTime toTime u : ℤ} :
    u ∈ cron.between fromTime toTime ↔ cron.Fires u ∧ fromTime ≤ u ∧ u < toTime := by
  rw [Cron.between, cron.mem_steps (by omega), Int.sub_one_lt_iff]

theorem Cron.between_sorted (cron : Cron) (fromTime toTime : ℤ) :
    (cron.between fromTime toTime).Pairwise (· < ·) :=
  (cron.steps_sorted toTime _ _).1

/-! ### Schedules -/

inductive Kind
  | oneShot
  | recurring
  | other (text : String)
  deriving DecidableEq

structure Schedule where
  id : ℤ
  executionId : ℤ
  tenantId : ℤ
  kind : Kind
  fireAt : Option ℤ
  recurrence : String
  active : Bool
  deriving DecidableEq

inductive ScheduleError
  | executionRequired
  | kindInvalid
  | fireAtRequired
  | recurrenceRequired
  | recurrenceInvalid
  | windowInvalid
  deriving DecidableEq

section Occurrences

-- `cron.ParseStandard`
variable (parseCron : String → Option Cron)

def Schedule.validate (sc : Schedule) : Except ScheduleError Unit :=
  if sc.executionId ≤ 0 then .error .executionRequired
  else
    match sc.kind with
    | .oneShot => if sc.fireAt = none then .error .fireAtRequired else .ok ()
    | .recurring =>
        if sc.recurrence = "" then .error .recurrenceRequired
        else if (parseCron sc.recurrence).isNone then .error .recurrenceInvalid
        else .ok ()
    | .other _ => .error .kindInvalid

/-- `Occurrences`: the instants of a window at which a schedule fires. -/
def Schedule.occurrences (sc : Schedule) (fromTime toTime : ℤ) : Except ScheduleError (List ℤ) :=
  if toTime ≤ fromTime then .error .windowInvalid
  else
    match sc.kind with
    | .oneShot =>
        match sc.fireAt with
        | none => .error .fireAtRequired
        | some fireAt => .ok (if fromTime ≤ fireAt ∧ fireAt < toTime then [fireAt] else [])
    | .recurring =>
        match parseCron sc.recurrence with
        | none => .error .recurrenceInvalid
        | some cron => .ok (cron.between fromTime toTime)
    | .other _ => .error .kindInvalid

end Occurrences

/-! ### What is reserved for an occurrence -/

/-- What `reserveOccurrences` asks to reserve for one fire time. -/
def occurrenceReservation (sc : Schedule) (exe : Lifecycle.SizedExecution) (fireTime : ℤ) :
    Reservation :=
  { id := 0, tenantId := sc.tenantId, cluster := exe.cluster, engineCount := exe.totalEngines
    startTime := fireTime, endTime := fireTime + Lifecycle.runWindow exe.profile
    executionId := sc.executionId }

end Honryu.Schedules
