import Honryu.Lifecycle.Runs

/-!
Triggering engines that have already finished.

An engine runs its load once, and its pod stays ready afterwards. What `Trigger`
knows of engines that have finished are the final pushes that found no run open
since the last deploy. That is not the same as the final pushes of the pods that
are deployed: a final push that was absorbed into a run leaves no trace there, and
one of a pod that a deploy has replaced does.
-/

namespace Honryu.Lifecycle

open Metrics Progress

def Finished (s : System) : Prop := ∃ f ∈ s.finals, f.pod ∈ s.pods

def Recorded (s : System) : Prop :=
  ∃ f ∈ s.finals, f.orphaned = true ∧ s.clearedAt ≤ f.time

/-- Triggering does not start a run that an engine has already finished for, and
does not claim that engines have finished when none has. -/
def SoundTrigger (cfg : Setting) (s : System) (view : Plane.TriggerView) : Prop :=
  ((s.plane.trigger cfg.exe view s.clock).2 = none → ¬Finished s) ∧
    ∀ n, (s.plane.trigger cfg.exe view s.clock).2 = some (.enginesFinished n) → Finished s

def NoCorpse (cfg : Setting) (events : List Event) : Prop :=
  ∀ before view after, events = before ++ .trigger view :: after →
    SoundTrigger cfg (System.run cfg before) view

/-! ### What a trigger answers -/

namespace Plane

variable {p : Plane} {exe : Execution} {view : TriggerView} {now : ℕ}

theorem current_of_triggerChecks (h : triggerChecks exe view p = .ok ()) : p.current = none := by
  unfold triggerChecks at h
  split at h
  · cases h
  · split at h
    · cases h
    · dsimp only at h
      split at h
      · cases h
      · cases hcurrent : p.current with
        | none => rfl
        | some runId =>
            simp only [hcurrent, Option.isSome_some, derivePhase, if_true, canTrigger] at h
            split at h <;> cases h

theorem triggerChecks_ne_enginesFinished (n : ℕ) :
    triggerChecks exe view p ≠ .error (.enginesFinished n) := by
  intro h
  unfold triggerChecks at h
  split at h
  · cases h
  · split at h
    · cases h
    · dsimp only at h
      split at h
      case h_1 e he =>
        cases h
        split at he
        · unfold requireEveryClusterReady at he
          split at he <;> cases he
        · cases he
      · cases hphase : canTrigger
            (derivePhase (exe.clusters.map view.poolSize).sum p.current.isSome) exe
            (exe.clusters.map view.poolSize).sum <;>
          simp [hphase, Except.mapError] at h

/-- What `Trigger` answers once its first checks have passed. -/
theorem trigger_snd_of_checks (h : triggerChecks exe view p = .ok ()) (now : ℕ) :
    (p.trigger exe view now).2 =
      if p.orphans.size ≠ 0 then some (.enginesFinished p.orphans.size)
      else if view.admitted = false then some .overQuota
      else if ∀ e ∈ exe.profile, view.marked e.scenarioId = true then none
      else some (.triggerErrors
        ((exe.profile.map (·.scenarioId)).filter fun id => !view.marked id)) := by
  have hcurrent := current_of_triggerChecks h
  have hfailed : ((exe.profile.map (·.scenarioId)).filter fun id => !view.marked id) = [] ↔
      ∀ e ∈ exe.profile, view.marked e.scenarioId = true := by
    simp [List.filter_eq_nil_iff]
  simp only [trigger, h, startRun, hcurrent, Option.isSome_none, Bool.false_eq_true, if_false,
    hfailed]
  split
  · rfl
  · split
    · rfl
    · split
      · rfl
      · split <;> rfl

theorem trigger_snd_eq_enginesFinished {n : ℕ}
    (h : (p.trigger exe view now).2 = some (.enginesFinished n)) :
    triggerChecks exe view p = .ok () ∧ p.orphans.size ≠ 0 := by
  cases hchecks : triggerChecks exe view p with
  | error e =>
      simp only [trigger, hchecks] at h
      obtain rfl := Option.some_inj.mp h
      exact absurd hchecks (triggerChecks_ne_enginesFinished n)
  | ok =>
      rw [trigger_snd_of_checks hchecks] at h
      refine ⟨rfl, fun horphans => ?_⟩
      rw [if_neg (not_not.mpr horphans)] at h
      split at h
      · cases h
      · split at h <;> cases h

theorem trigger_snd_eq_none (h : (p.trigger exe view now).2 = none) :
    triggerChecks exe view p = .ok () ∧ p.orphans.size = 0 ∧ view.admitted = true ∧
      ∀ e ∈ exe.profile, view.marked e.scenarioId = true := by
  cases hchecks : triggerChecks exe view p with
  | error e =>
      simp only [trigger, hchecks] at h
      cases h
  | ok =>
      rw [trigger_snd_of_checks hchecks] at h
      split at h
      · cases h
      case isFalse horphans =>
        split at h
        · cases h
        case isFalse hadmitted =>
          split at h
          case isTrue hmarked => exact ⟨rfl, not_not.mp horphans, by simpa using hadmitted, hmarked⟩
          case isFalse => cases h

end Plane

/-! ### What is recorded -/

theorem orphans_stopRun (p : Plane) (now : ℕ) : (p.stopRun now).orphans = p.orphans := by
  unfold Plane.stopRun
  split <;> rfl

theorem orphans_finalize (p : Plane) (now : ℕ) (runId : ℤ) :
    (p.finalize now runId).orphans = p.orphans := by
  unfold Plane.finalize Plane.closeRun
  split
  · rw [orphans_stopRun]
  · rfl

theorem orphans_ingest (exe : Execution) (v : Visit) (now : ℕ) (p : Plane) (batch : Batch) :
    (p.ingest exe v now batch).1.orphans ≠ ∅ ↔
      p.orphans ≠ ∅ ∨ batch.final = true ∧ p.current = none := by
  unfold Plane.ingest
  split
  case h_1 hcurrent =>
    cases batch.final with
    | false => simp
    | true =>
        simp only [if_true, Plane.recordOrphanCompletion, hcurrent, and_self, or_true, iff_true]
        exact Std.ExtTreeMap.insert_ne_empty
  case h_2 runId hcurrent =>
    simp only [hcurrent, reduceCtorEq, and_false, or_false]
    split
    · rfl
    · split
      · rfl
      · split
        · rw [orphans_finalize]
        · rfl

theorem orphans_of_stop {p p' : Plane} {now : ℕ} (h : p.stop now = .ok p') :
    p'.orphans = p.orphans := by
  obtain ⟨runId, -, rfl⟩ := Plane.stop_eq_ok h
  rw [orphans_stopRun, orphans_finalize]

theorem orphans_trigger (exe : Execution) (view : Plane.TriggerView) (now : ℕ) (p : Plane) :
    (p.trigger exe view now).1.orphans = p.orphans := by
  unfold Plane.trigger
  split
  · rfl
  · split
    · rfl
    · split
      · rfl
      · cases hstart : p.startRun now with
        | none => rfl
        | some started =>
            have hstarted : started.orphans = p.orphans := by
              unfold Plane.startRun at hstart
              split at hstart
              · cases hstart
              · cases hstart
                rfl
            dsimp only
            split
            · exact hstarted
            · split
              · rw [orphans_stopRun, hstarted]
              · exact hstarted

/-- What the orphaned completions have to do with the record of final pushes. -/
structure RecordInv (s : System) : Prop where
  time_lt : ∀ f ∈ s.finals, f.time < s.clock
  clearedAt_le : s.clearedAt ≤ s.clock
  recorded : s.plane.orphans ≠ ∅ ↔ Recorded s

theorem RecordInv.of_eq {s s' : System} (hs : RecordInv s) (hclock : s'.clock = s.clock + 1)
    (hfinals : s'.finals = s.finals) (hcleared : s'.clearedAt = s.clearedAt)
    (horphans : s'.plane.orphans = s.plane.orphans) : RecordInv s' where
  time_lt f hf := by
    have := hs.time_lt f (hfinals ▸ hf)
    omega
  clearedAt_le := by
    have := hs.clearedAt_le
    omega
  recorded := by
    rw [horphans, hs.recorded, Recorded, Recorded, hfinals, hcleared]

theorem recordInv_send {s : System} (hs : RecordInv s) (cfg : Setting) (pod : Pod) (batch : Batch)
    (arrives : Bool) : RecordInv { s.send cfg pod batch arrives with clock := s.clock + 1 } := by
  have horphans : (s.send cfg pod batch arrives).plane.orphans ≠ ∅ ↔
      s.plane.orphans ≠ ∅ ∨ arrives = true ∧ batch.final = true ∧ s.plane.current = none := by
    rw [System.plane_send]
    cases arrives with
    | false => simp
    | true => simpa using orphans_ingest cfg.exe cfg.visit s.clock s.plane batch
  have hfinals := System.finals_send cfg s pod batch arrives
  have hcleared := System.clearedAt_send cfg s pod batch arrives
  have hle := hs.clearedAt_le
  refine ⟨fun f hf => ?_, ?_, ?_⟩
  · rw [hfinals] at hf
    show f.time < s.clock + 1
    rcases List.mem_append.mp hf with hf | hf
    · have := hs.time_lt f hf
      omega
    · split at hf
      · obtain rfl := List.mem_singleton.mp hf
        exact Nat.lt_succ_self _
      · cases hf
  · show (s.send cfg pod batch arrives).clearedAt ≤ s.clock + 1
    omega
  · rw [horphans, hs.recorded, Recorded, Recorded, hfinals, hcleared]
    constructor
    · rintro (⟨f, hf, hrecorded⟩ | ⟨rfl, hfinal, hcurrent⟩)
      · exact ⟨f, List.mem_append_left _ hf, hrecorded⟩
      · -- the push itself is the one that is recorded
        exact ⟨{ pod, time := s.clock, orphaned := true }, by simp [hfinal, hcurrent], rfl, hle⟩
    · rintro ⟨f, hf, horphaned, htime⟩
      rcases List.mem_append.mp hf with hf | hf
      · exact .inl ⟨f, hf, horphaned, htime⟩
      · split at hf
        case isTrue hfinal =>
          obtain rfl := List.mem_singleton.mp hf
          obtain ⟨harrives, hcurrent⟩ := (Bool.and_eq_true _ _).mp horphaned
          exact .inr ⟨harrives, hfinal, Option.isNone_iff_eq_none.mp hcurrent⟩
        case isFalse => cases hf

theorem recordInv_step {s : System} (hs : RecordInv s) (cfg : Setting) (e : Event) :
    RecordInv (s.step cfg e) := by
  cases e with
  | deploy prepared provisioned =>
      simp only [System.step, System.perform, System.deploy]
      cases hdeploy : s.plane.deploy cfg.exe prepared with
      | error e => exact hs.of_eq rfl rfl rfl rfl
      | ok plane =>
          obtain ⟨-, rfl⟩ := Plane.deploy_eq_ok hdeploy
          refine ⟨fun f hf => (hs.time_lt f hf).trans (Nat.lt_succ_self _), Nat.le_succ _, ?_⟩
          -- what was recorded before is older than the deploy
          simp only [ne_eq, not_true_eq_false, false_iff]
          rintro ⟨f, hf, -, htime⟩
          exact absurd (hs.time_lt f hf) (not_lt.mpr htime)
  | trigger view => exact hs.of_eq rfl rfl rfl (orphans_trigger cfg.exe view s.clock s.plane)
  | stop =>
      simp only [System.step, System.perform, System.stop]
      cases hstop : s.plane.stop s.clock with
      | error e => exact hs.of_eq rfl rfl rfl rfl
      | ok plane => exact hs.of_eq rfl rfl rfl (orphans_of_stop hstop)
  | push pod sidecar final arrives =>
      simp only [System.step, System.perform]
      rcases System.push_cases cfg s pod sidecar final arrives with h | ⟨batch, -, -, h⟩
      · rw [h]
        exact hs.of_eq rfl rfl rfl rfl
      · rw [h]
        exact recordInv_send hs cfg pod batch arrives

theorem recordInv_run (cfg : Setting) (events : List Event) :
    RecordInv (System.run cfg events) := by
  induction events using List.reverseRecOn with
  | nil => exact ⟨by simp [System.run, System.new], le_rfl, by simp [System.run, System.new,
      Plane.new, Recorded]⟩
  | append_singleton events e ih =>
      rw [System.run_concat]
      exact recordInv_step ih cfg e

/-! ### Whole runs -/

/-- Every trigger of a history is sound exactly when, at each one that gets to
the finished engines, a deployed pod has sent its final push if one is recorded,
and, should nothing else refuse the trigger, only then. -/
theorem noCorpse_iff (cfg : Setting) (events : List Event) :
    NoCorpse cfg events ↔
      ∀ before view after, events = before ++ .trigger view :: after →
        Plane.triggerChecks cfg.exe view (System.run cfg before).plane = .ok () →
        (Recorded (System.run cfg before) → Finished (System.run cfg before)) ∧
        (view.admitted = true ∧ (∀ e ∈ cfg.exe.profile, view.marked e.scenarioId = true) →
          Finished (System.run cfg before) → Recorded (System.run cfg before)) := by
  refine forall₄_congr fun before view after _ => ?_
  have hrecorded : (System.run cfg before).plane.orphans.size ≠ 0 ↔
      Recorded (System.run cfg before) := by
    rw [← (recordInv_run cfg before).recorded, ne_eq, ne_eq,
      Std.ExtTreeMap.eq_empty_iff_size_eq_zero]
  constructor
  · rintro ⟨hstarted, hrefused⟩ hchecks
    have hanswer := Plane.trigger_snd_of_checks hchecks (System.run cfg before).clock
    refine ⟨fun hrec => ?_, fun ⟨hadmitted, hmarked⟩ hfinished => ?_⟩
    · rw [if_pos (hrecorded.mpr hrec)] at hanswer
      exact hrefused _ hanswer
    · by_contra hrec
      rw [if_neg fun h => hrec (hrecorded.mp h), if_neg (by simp [hadmitted]),
        if_pos hmarked] at hanswer
      exact hstarted hanswer hfinished
  · intro hcond
    refine ⟨fun hnone hfinished => ?_, fun n hn => ?_⟩
    · obtain ⟨hchecks, horphans, hpass⟩ := Plane.trigger_snd_eq_none hnone
      exact hrecorded.mpr ((hcond hchecks).2 hpass hfinished) horphans
    · obtain ⟨hchecks, horphans⟩ := Plane.trigger_snd_eq_enginesFinished hn
      exact (hcond hchecks).1 (hrecorded.mp horphans)

/-! ### Two engines taken for others -/

/-- The engine finishes its run, which leaves nothing recorded, and the next
trigger starts a run that nothing will feed. And the engine of the first deploy
finishes after the second, which makes the trigger refuse engines that have not
finished. -/
theorem not_noCorpse_oneEngine :
    ¬NoCorpse oneEngine
        [.deploy true 1, .trigger readyView,
          .push (engineOf 0) (.new "stream") true true, .trigger readyView] ∧
      ¬NoCorpse oneEngine
        [.deploy true 1, .deploy true 1, .push (engineOf 0) (.new "stream") true true,
          .trigger readyView] := by
  constructor
  · intro h
    refine (h [.deploy true 1, .trigger readyView,
      .push (engineOf 0) (.new "stream") true true] readyView [] rfl).1 (by decide +kernel) ?_
    exact ⟨{ pod := engineOf 0, time := 2, orphaned := false }, by decide +kernel,
      by decide +kernel⟩
  · intro h
    obtain ⟨f, hf, hpod⟩ := (h [.deploy true 1, .deploy true 1,
      .push (engineOf 0) (.new "stream") true true] readyView [] rfl).2 1 (by decide +kernel)
    revert f
    decide +kernel

end Honryu.Lifecycle
