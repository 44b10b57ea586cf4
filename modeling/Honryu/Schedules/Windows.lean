import Honryu.Schedules.Schedule
import Mathlib.Data.List.Sort

/-!
The windows of a schedule.

A window has the fire times of the schedule from its start to before its end, in order. So two
windows of which one begins where the other ends have what the window of both has.
-/

namespace Honryu.Schedules

section Loop

variable (cron : Cron)

/-- One round of the loop of `Occurrences`: the next fire time, or nothing, when the loop ends. -/
def Cron.round (toTime t : ℤ) : Option ℤ := (cron.next t).filter (· < toTime)

/-- Every round is later than the one before by a nanosecond at least. -/
theorem Cron.iterate_round (toTime t : ℤ) (rounds : ℕ) :
    ∀ u ∈ (fun x => Option.bind x (cron.round toTime))^[rounds + 1] (some t),
      t + rounds < u ∧ u < toTime := by
  induction rounds with
  | zero =>
      intro u hu
      obtain ⟨hnext, hbefore⟩ := Option.filter_eq_some_iff.mp (Option.mem_def.mp hu)
      exact ⟨by simpa using (cron.next_some hnext).1, of_decide_eq_true hbefore⟩
  | succ rounds ih =>
      intro u hu
      rw [Function.iterate_succ_apply', Option.mem_def, Option.bind_eq_some_iff] at hu
      obtain ⟨v, hv, hu⟩ := hu
      obtain ⟨hnext, hbefore⟩ := Option.filter_eq_some_iff.mp hu
      have hlater := (cron.next_some hnext).1
      have hv := (ih v hv).1
      exact ⟨by push_cast; omega, of_decide_eq_true hbefore⟩

theorem Cron.exists_round_none (fromTime toTime : ℤ) :
    ∃ rounds,
      (fun x => Option.bind x (cron.round toTime))^[rounds] (some (fromTime - 1)) = none := by
  refine ⟨(toTime - fromTime).toNat + 1, Option.eq_none_iff_forall_not_mem.mpr fun u hu => ?_⟩
  have := cron.iterate_round toTime (fromTime - 1) _ u hu
  omega

theorem Cron.steps_eq_between {fromTime toTime : ℤ} {rounds : ℕ}
    (h : (toTime - fromTime).toNat ≤ rounds) :
    cron.steps toTime rounds (fromTime - 1) = cron.between fromTime toTime := by
  refine (cron.steps_sorted toTime rounds _).1.eq_of_mem_iff
    (cron.between_sorted fromTime toTime) fun u => ?_
  rw [cron.mem_steps (by omega), cron.mem_between, Int.sub_one_lt_iff]

theorem Cron.between_append {a b c : ℤ} (hab : a ≤ b) (hbc : b ≤ c) :
    cron.between a c = cron.between a b ++ cron.between b c := by
  refine (cron.between_sorted a c).eq_of_mem_iff ?_ fun u => ?_
  · refine List.pairwise_append.mpr
      ⟨cron.between_sorted a b, cron.between_sorted b c, fun t ht u hu => ?_⟩
    exact (cron.mem_between.mp ht).2.2.trans_le (cron.mem_between.mp hu).2.1
  · rw [List.mem_append]
    simp only [cron.mem_between]
    constructor
    · rintro ⟨hfires, hfrom, hto⟩
      rcases lt_or_ge u b with hlt | hge
      · exact .inl ⟨hfires, hfrom, hlt⟩
      · exact .inr ⟨hfires, hge, hto⟩
    · rintro (⟨hfires, hfrom, hto⟩ | ⟨hfires, hfrom, hto⟩)
      · exact ⟨hfires, hfrom, hto.trans_le hbc⟩
      · exact ⟨hfires, hab.trans hfrom, hto⟩

end Loop

section Schedule

variable (parseCron : String → Option Cron) (sc : Schedule)

def Schedule.FiresAt (t : ℤ) : Prop :=
  match sc.kind with
  | .oneShot => sc.fireAt = some t
  | .recurring => ∃ cron, parseCron sc.recurrence = some cron ∧ cron.Fires t
  | .other _ => False

variable {parseCron sc} {a b c : ℤ}

theorem occurrences_append (hab : a < b) (hbc : b < c) :
    sc.occurrences parseCron a c = (do
      let first ← sc.occurrences parseCron a b
      let second ← sc.occurrences parseCron b c
      return first ++ second) := by
  simp only [Schedule.occurrences, if_neg (hab.trans hbc).not_ge, if_neg hab.not_ge,
    if_neg hbc.not_ge]
  cases sc.kind with
  | oneShot =>
      cases sc.fireAt with
      | none => rfl
      | some t =>
          refine congrArg Except.ok ?_
          rcases lt_or_ge t b with hlt | hge
          · rw [if_neg (c := b ≤ t ∧ t < c) fun h => h.1.not_gt hlt, List.append_nil]
            simp only [hlt, hlt.trans hbc]
          · rw [if_neg (c := a ≤ t ∧ t < b) fun h => hge.not_gt h.2, List.nil_append]
            simp only [hge, hab.le.trans hge]
  | recurring =>
      cases parseCron sc.recurrence with
      | none => rfl
      | some cron => exact congrArg Except.ok (cron.between_append hab.le hbc.le)
  | other => rfl

theorem occurrences_exact {fireTimes : List ℤ} (h : sc.occurrences parseCron a b = .ok fireTimes) :
    fireTimes.Pairwise (· < ·) ∧
      ∀ t, t ∈ fireTimes ↔ sc.FiresAt parseCron t ∧ a ≤ t ∧ t < b := by
  unfold Schedule.occurrences at h
  unfold Schedule.FiresAt
  split at h
  · cases h
  · cases hkind : sc.kind with
    | oneShot =>
        simp only [hkind] at h
        split at h
        · cases h
        next fireAt hfireAt =>
          cases h
          split
          next hwithin =>
            refine ⟨List.pairwise_singleton _ _, fun t => ?_⟩
            simp only [List.mem_singleton, hfireAt, Option.some.injEq]
            exact ⟨fun heq => ⟨heq.symm, heq ▸ hwithin⟩, fun h => h.1.symm⟩
          next hout =>
            refine ⟨List.Pairwise.nil, fun t => ⟨nofun, fun ⟨heq, hwithin⟩ => ?_⟩⟩
            obtain rfl := Option.some.inj (hfireAt.symm.trans heq)
            exact absurd hwithin hout
    | recurring =>
        simp only [hkind] at h
        split at h
        · cases h
        next cron hcron =>
          cases h
          refine ⟨cron.between_sorted a b, fun t => ?_⟩
          simp [cron.mem_between, hcron]
    | other => simp only [hkind] at h; cases h

/-- Windows add up: the fire times of a window are those of its parts, in order and each once,
exactly those within it, and the loop that steps through them ends. -/
theorem occurrences_additive (hab : a < b) (hbc : b < c) :
    (sc.occurrences parseCron a c = (do
      let first ← sc.occurrences parseCron a b
      let second ← sc.occurrences parseCron b c
      return first ++ second)) ∧
      (∀ fireTimes, sc.occurrences parseCron a c = .ok fireTimes →
        fireTimes.Pairwise (· < ·) ∧
          ∀ t, t ∈ fireTimes ↔ sc.FiresAt parseCron t ∧ a ≤ t ∧ t < c) ∧
      ∀ cron, parseCron sc.recurrence = some cron →
        (∃ rounds, (fun x => Option.bind x (cron.round c))^[rounds] (some (a - 1)) = none) ∧
          ∀ rounds, (c - a).toNat ≤ rounds → cron.steps c rounds (a - 1) = cron.between a c :=
  ⟨occurrences_append hab hbc, fun _ h => occurrences_exact h, fun cron _ =>
    ⟨cron.exists_round_none a c, fun _ => cron.steps_eq_between⟩⟩

end Schedule

def hourly : Cron where
  Fires t := t % 3600000000000 = 0
  next t := some ((t / 3600000000000 + 1) * 3600000000000)
  next_some := by
    intro t u h
    obtain rfl := Option.some_inj.mp h
    exact ⟨by omega, by omega, fun v hv hfires => by omega⟩
  next_none := nofun

def everyHour : Schedule := ⟨1, 1, 1, .recurring, none, "0 * * * *", true⟩

/-- Two hours in two windows, which meet on the hour. -/
theorem occurrences_additive_everyHour :
    everyHour.occurrences (fun _ => some hourly) 0 7200000000000 = (do
      let first ← everyHour.occurrences (fun _ => some hourly) 0 3600000000000
      let second ← everyHour.occurrences (fun _ => some hourly) 3600000000000 7200000000000
      return first ++ second) :=
  (occurrences_additive (by decide) (by decide)).1

end Honryu.Schedules
