import Honryu.Lifecycle.System

/-!
How the run history grows.

Whatever the control plane does, a run keeps the time it was started at, and a
run that has ended keeps the time it ended at. A run that starts or ends in a
step does so at the time of the step.
-/

namespace Honryu.Lifecycle

open Metrics Progress

namespace Plane

structure Sound (p : Plane) : Prop where
  id_lt : ∀ (id : ℤ) (r : RunRecord), p.history[id]? = some r → id < p.nextRun
  open_run : ∀ id, p.current = some id → ∃ r, p.history[id]? = some r ∧ r.ended = none

structure Advances (now : ℕ) (p p' : Plane) : Prop where
  nextRun_le : p.nextRun ≤ p'.nextRun
  old : ∀ (id : ℤ) (r : RunRecord), p.history[id]? = some r →
    ∃ r', p'.history[id]? = some r' ∧ r'.started = r.started ∧
      (r.ended ≠ none → r'.ended = r.ended) ∧ (r'.ended ≠ r.ended → r'.ended = some now)
  new : ∀ (id : ℤ) (r : RunRecord), p.history[id]? = none → p'.history[id]? = some r →
    p.nextRun ≤ id ∧ r.started = now ∧ (r.ended ≠ none → r.ended = some now)

structure Moves (now : ℕ) (p p' : Plane) : Prop where
  sound : p'.Sound
  advances : Advances now p p'

variable {now : ℕ} {p p' p'' : Plane}

theorem Advances.of_history_eq (hnext : p'.nextRun = p.nextRun)
    (hhistory : p'.history = p.history) : Advances now p p' where
  nextRun_le := hnext.ge
  old id r hr := ⟨r, hhistory ▸ hr, rfl, fun _ => rfl, fun h => absurd rfl h⟩
  new id r hnone hsome := by
    rw [hhistory, hnone] at hsome
    cases hsome

theorem Moves.of_history_eq (hp : p.Sound) (hcurrent : p'.current = p.current)
    (hnext : p'.nextRun = p.nextRun) (hhistory : p'.history = p.history) : Moves now p p' where
  sound :=
    { id_lt := by
        rw [hhistory, hnext]
        exact hp.id_lt
      open_run := by
        rw [hhistory, hcurrent]
        exact hp.open_run }
  advances := .of_history_eq hnext hhistory

theorem Moves.refl (hp : p.Sound) : Moves now p p := .of_history_eq hp rfl rfl rfl

theorem Advances.trans (h : Advances now p p') (h' : Advances now p' p'') :
    Advances now p p'' where
  nextRun_le := h.nextRun_le.trans h'.nextRun_le
  old id r hr := by
    obtain ⟨r', hr', hstarted, hkept, hended⟩ := h.old id r hr
    obtain ⟨r'', hr'', hstarted', hkept', hended'⟩ := h'.old id r' hr'
    refine ⟨r'', hr'', hstarted'.trans hstarted, fun hne => ?_, fun hne => ?_⟩
    · rw [hkept' (by rwa [hkept hne]), hkept hne]
    · by_cases heq : r''.ended = r'.ended
      · rw [heq] at hne ⊢
        exact hended hne
      · exact hended' heq
  new id r hnone hr := by
    cases hmiddle : p'.history[id]? with
    | none =>
        obtain ⟨hle, hnew⟩ := h'.new id r hmiddle hr
        exact ⟨h.nextRun_le.trans hle, hnew⟩
    | some r' =>
        -- the run is new after the first half and may have ended in the second
        obtain ⟨hle, hstarted, hended⟩ := h.new id r' hnone hmiddle
        obtain ⟨r'', hr'', hstarted', hkept', hended'⟩ := h'.old id r' hmiddle
        obtain rfl : r'' = r := Option.some_inj.mp (hr''.symm.trans hr)
        refine ⟨hle, hstarted'.trans hstarted, fun hne => ?_⟩
        by_cases heq : r''.ended = r'.ended
        · rw [heq] at hne ⊢
          exact hended hne
        · exact hended' heq

theorem Moves.trans (h : Moves now p p') (h' : Moves now p' p'') : Moves now p p'' :=
  ⟨h'.sound, h.advances.trans h'.advances⟩

theorem moves_startRun (hp : p.Sound) (h : p.startRun now = some p') : Moves now p p' := by
  unfold startRun at h
  split at h
  · cases h
  · cases h
    refine ⟨⟨fun id r hr => ?_, fun id hid => ?_⟩, ⟨by simp, fun id r hr => ?_, fun id r hnone hr => ?_⟩⟩
    · rw [TallyMap.getElem?_insert_eq_ite] at hr
      split at hr
      case isTrue heq => simp [← heq]
      case isFalse => exact (hp.id_lt id r hr).trans (lt_add_one _)
    · obtain rfl := Option.some_inj.mp hid
      exact ⟨_, by rw [TallyMap.getElem?_insert_eq_ite, if_pos rfl], rfl⟩
    · have hne : p.nextRun ≠ id := (hp.id_lt id r hr).ne'
      refine ⟨r, ?_, rfl, fun _ => rfl, fun h => absurd rfl h⟩
      rw [TallyMap.getElem?_insert_eq_ite, if_neg hne, hr]
    · rw [TallyMap.getElem?_insert_eq_ite] at hr
      split at hr
      case isTrue heq =>
        cases hr
        exact ⟨heq.le, rfl, fun h => absurd rfl h⟩
      case isFalse =>
        rw [hnone] at hr
        cases hr

theorem moves_stopRun (hp : p.Sound) (now : ℕ) : Moves now p (p.stopRun now) := by
  unfold stopRun
  cases hcurrent : p.current with
  | none => exact .refl hp
  | some runId =>
      obtain ⟨run, hrun, hopen⟩ := hp.open_run runId hcurrent
      have hhistory (id : ℤ) :
          (p.history.updateRow runId fun r => { r with ended := some now })[id]? =
            if runId = id then some { run with ended := some now } else p.history[id]? := by
        rw [TallyMap.updateRow, hrun, Option.elim_some, TallyMap.getElem?_insert_eq_ite]
      refine ⟨⟨fun id r hr => ?_, fun _ h => (by cases h)⟩,
        ⟨le_rfl, fun id r hr => ?_, fun id r hnone hr => ?_⟩⟩
      · simp only [hhistory] at hr
        split at hr
        case isTrue heq => exact heq ▸ hp.id_lt runId run hrun
        case isFalse => exact hp.id_lt id r hr
      · simp only [hhistory]
        -- only the open run changes, and it had not ended
        by_cases heq : runId = id
        · obtain rfl : run = r := by
            rw [heq, hr] at hrun
            exact (Option.some_inj.mp hrun).symm
          exact ⟨_, if_pos heq, rfl, fun hne => absurd hopen hne, fun _ => rfl⟩
        · exact ⟨r, (if_neg heq).trans hr, rfl, fun _ => rfl, fun h => absurd rfl h⟩
      · simp only [hhistory] at hr
        split at hr
        case isTrue heq =>
          rw [← heq, hrun] at hnone
          cases hnone
        case isFalse =>
          rw [hnone] at hr
          cases hr

/-! ### The operations -/

theorem moves_finalize (hp : p.Sound) (now : ℕ) (runId : ℤ) : Moves now p (p.finalize now runId) := by
  have hdiscard : Moves now p { p with progress := p.progress.discard runId } :=
    .of_history_eq hp rfl rfl rfl
  unfold finalize closeRun
  split
  · exact hdiscard.trans (moves_stopRun hdiscard.sound now)
  · exact hdiscard

theorem moves_ingest (hp : p.Sound) (exe : Execution) (v : Visit) (now : ℕ) (batch : Batch) :
    Moves now p (p.ingest exe v now batch).1 := by
  unfold ingest
  split
  case h_1 =>
    dsimp only
    split
    · exact .of_history_eq hp rfl rfl rfl
    · exact .refl hp
  case h_2 runId _ =>
    split
    · exact .refl hp
    · split
      · exact .refl hp
      case h_2 progress _ =>
        have habsorb : Moves now p { p with progress } := .of_history_eq hp rfl rfl rfl
        dsimp only
        split
        · exact habsorb.trans (moves_finalize habsorb.sound now runId)
        · exact habsorb

/-- While a run is open, a batch that names no run is rejected only if it is not
acceptable. -/
theorem ingest_snd_eq_none {runId : ℤ} (hcurrent : p.current = some runId) {batch : Batch}
    (hzero : batch.runId = 0) (exe : Execution) (v : Visit) (now : ℕ) :
    (p.ingest exe v now batch).2 = none ↔ (ProgressBatch.ofBatch runId batch).Valid := by
  have hguard : ¬(batch.runId ≠ 0 ∧ batch.runId ≠ runId) := fun h => h.1 hzero
  simp only [ingest, hcurrent, if_neg hguard]
  by_cases hvalid : (ProgressBatch.ofBatch runId batch).Valid
  · rw [Repository.absorb_of_valid v p.progress hvalid]
    refine ⟨fun _ => hvalid, fun _ => ?_⟩
    dsimp only
    split <;> rfl
  · obtain ⟨e, he⟩ := Repository.absorb_of_not_valid v p.progress hvalid
    simp [he, hvalid]

theorem deploy_eq_ok {exe : Execution} {prepared : Bool} (h : p.deploy exe prepared = .ok p') :
    p.current = none ∧ p' = { p with orphans := ∅ } := by
  unfold deploy at h
  by_cases hprofile : exe.profile = []
  · simp [hprofile, bind, Except.bind, throw, throwThe, MonadExceptOf.throw] at h
  · cases hcurrent : p.current <;> cases prepared <;>
      simp_all [bind, Except.bind, pure, Except.pure, throw, throwThe, MonadExceptOf.throw,
        canDeploy, derivePhase, Except.mapError]

theorem moves_deploy (hp : p.Sound) {exe : Execution} {prepared : Bool}
    (h : p.deploy exe prepared = .ok p') (now : ℕ) : Moves now p p' := by
  obtain ⟨-, rfl⟩ := deploy_eq_ok h
  exact .of_history_eq hp rfl rfl rfl

theorem moves_trigger (hp : p.Sound) (exe : Execution) (view : TriggerView) (now : ℕ) :
    Moves now p (p.trigger exe view now).1 := by
  unfold trigger
  cases triggerChecks exe view p with
  | error e => exact .refl hp
  | ok =>
      dsimp only
      split
      · exact .refl hp
      · split
        · exact .refl hp
        · cases hstart : p.startRun now with
          | none => exact .refl hp
          | some started =>
              have hstarted := moves_startRun hp hstart
              dsimp only
              split
              · exact hstarted
              · split
                · exact hstarted.trans (moves_stopRun hstarted.sound now)
                · exact hstarted

theorem progress_stopRun (p : Plane) (now : ℕ) : (p.stopRun now).progress = p.progress := by
  unfold stopRun
  split <;> rfl

theorem progress_trigger (p : Plane) (exe : Execution) (view : TriggerView) (now : ℕ) :
    (p.trigger exe view now).1.progress = p.progress := by
  unfold trigger
  split
  · rfl
  · split
    · rfl
    · split
      · rfl
      · split
        · rfl
        case h_2 started hstart =>
          have hstarted : started.progress = p.progress := by
            unfold startRun at hstart
            split at hstart
            · cases hstart
            · cases hstart
              rfl
          dsimp only
          split
          · exact hstarted
          · split
            · exact (progress_stopRun _ _).trans hstarted
            · exact hstarted

theorem stop_eq_ok (h : p.stop now = .ok p') :
    ∃ runId, p.current = some runId ∧ p' = (p.finalize now runId).stopRun now := by
  unfold stop at h
  cases hcurrent : p.current with
  | none => simp [hcurrent, canStop, derivePhase, bind, Except.bind] at h
  | some runId =>
      refine ⟨runId, rfl, ?_⟩
      simpa [hcurrent, canStop, derivePhase, bind, Except.bind, pure, Except.pure, eq_comm] using h

theorem moves_stop (hp : p.Sound) (h : p.stop now = .ok p') : Moves now p p' := by
  obtain ⟨runId, -, rfl⟩ := stop_eq_ok h
  have hfinalize := moves_finalize hp now runId
  exact hfinalize.trans (moves_stopRun hfinalize.sound now)

end Plane

/-! ### Runs of the system -/

namespace System

variable {s : System}

/-- What a push does: nothing, or a pod that was made sends a batch. -/
theorem push_cases (cfg : Setting) (s : System) (pod : Pod) (sidecar : Sidecar.State)
    (final arrives : Bool) :
    s.push cfg pod sidecar final arrives = s ∨
      ∃ batch, cfg.batch pod sidecar final = some batch ∧ pod ∈ s.made ∧
        s.push cfg pod sidecar final arrives = s.send cfg pod batch arrives := by
  unfold push
  cases cfg.batch pod sidecar final with
  | none => exact .inl rfl
  | some batch =>
      by_cases hmade : pod ∈ s.made
      · exact .inr ⟨batch, rfl, hmade, if_pos hmade⟩
      · exact .inl (if_neg hmade)

theorem plane_send (cfg : Setting) (s : System) (pod : Pod) (batch : Batch) (arrives : Bool) :
    (s.send cfg pod batch arrives).plane =
      if arrives then (s.plane.ingest cfg.exe cfg.visit s.clock batch).1 else s.plane := by
  unfold send
  cases arrives <;> cases batch.final <;> rfl

theorem absorbed_send (cfg : Setting) (s : System) (pod : Pod) (batch : Batch) (arrives : Bool) :
    (s.send cfg pod batch arrives).absorbed =
      s.absorbed ++ if arrives then ((s.absorbs cfg batch).map fun runId =>
        { pod, runId, intervals := s.fresh runId batch, final := batch.final }).toList else [] := by
  unfold send
  cases arrives with
  | false => cases batch.final <;> exact (List.append_nil _).symm
  | true => cases hfinal : batch.final <;> simp only [if_true, receive, hfinal] <;> rfl

theorem finals_send (cfg : Setting) (s : System) (pod : Pod) (batch : Batch) (arrives : Bool) :
    (s.send cfg pod batch arrives).finals =
      s.finals ++ if batch.final then
        [{ pod, time := s.clock, orphaned := arrives && s.plane.current.isNone }] else [] := by
  unfold send
  cases hfinal : batch.final with
  | false => cases arrives <;> exact (List.append_nil _).symm
  | true => cases arrives <;> rfl

theorem clearedAt_send (cfg : Setting) (s : System) (pod : Pod) (batch : Batch) (arrives : Bool) :
    (s.send cfg pod batch arrives).clearedAt = s.clearedAt := by
  unfold send
  cases arrives <;> cases batch.final <;> rfl

theorem moves_step (hs : s.plane.Sound) (cfg : Setting) (e : Event) :
    Plane.Moves s.clock s.plane (s.step cfg e).plane := by
  show Plane.Moves s.clock s.plane (s.perform cfg e).plane
  cases e with
  | deploy prepared provisioned =>
      simp only [perform, deploy]
      split
      · exact .refl hs
      case h_2 plane hdeploy => exact Plane.moves_deploy hs hdeploy s.clock
  | trigger view => exact Plane.moves_trigger hs cfg.exe view s.clock
  | stop =>
      simp only [perform, stop]
      split
      · exact .refl hs
      case h_2 plane hstop => exact Plane.moves_stop hs hstop
  | push pod sidecar final arrives =>
      simp only [perform]
      rcases push_cases cfg s pod sidecar final arrives with h | ⟨batch, -, -, h⟩
      · rw [h]
        exact .refl hs
      · rw [h, plane_send]
        split
        · exact Plane.moves_ingest hs cfg.exe cfg.visit s.clock batch
        · exact .refl hs

theorem run_concat (cfg : Setting) (events : List Event) (e : Event) :
    run cfg (events ++ [e]) = (run cfg events).step cfg e := by
  simp [run]

theorem sound_run (cfg : Setting) (events : List Event) : (run cfg events).plane.Sound := by
  induction events using List.reverseRecOn with
  | nil => exact ⟨by simp [run, new, Plane.new], by simp [run, new, Plane.new]⟩
  | append_singleton events e ih =>
      rw [run_concat]
      exact (moves_step ih cfg e).sound

theorem started_lt_clock (cfg : Setting) (events : List Event) {id : ℤ} {r : RunRecord}
    (hr : (run cfg events).plane.history[id]? = some r) : r.started < (run cfg events).clock := by
  induction events using List.reverseRecOn generalizing id r with
  | nil => simp [run, new, Plane.new] at hr
  | append_singleton events e ih =>
      rw [run_concat] at hr ⊢
      have hmoves := (moves_step (sound_run cfg events) cfg e).advances
      show r.started < (run cfg events).clock + 1
      cases hbefore : (run cfg events).plane.history[id]? with
      | none =>
          obtain ⟨-, hstarted, -⟩ := hmoves.new id r hbefore hr
          omega
      | some r' =>
          obtain ⟨r'', hr'', hstarted, -⟩ := hmoves.old id r' hbefore
          obtain rfl : r'' = r := Option.some_inj.mp (hr''.symm.trans hr)
          have := ih hbefore
          omega

end System

end Honryu.Lifecycle
