import Honryu.Lifecycle.Runs

/-!
Whose measurements end up in a run.

`Ingest` means to keep a pod of an earlier run out of the current one by the run
its batches name. The pods name none, since no run exists when they are made, so
the check lets them through. What a pod pushes is then absorbed into whatever run
is open when it arrives.
-/

namespace Honryu.Lifecycle

open Metrics Progress

/-! ### Stale pods -/

/-- A pod that was made before an earlier run ended, as seen from a run that was
started after that. -/
def Stale (p : Plane) (pod : Pod) (runId : ℤ) : Prop :=
  ∃ run, p.history[runId]? = some run ∧
    ∃ (id : ℤ) (earlier : RunRecord) (e : ℕ), p.history[id]? = some earlier ∧ earlier.ended = some e ∧
      pod.deployedAt < e ∧ e ≤ run.started

def Isolated (s : System) : Prop :=
  ∀ a ∈ s.absorbed, a.intervals ≠ [] ∨ a.final = true → ¬Stale s.plane a.pod a.runId

/-- A push of a stale pod, arriving while a run is open, that is acceptable and
brings an interval past the shard's mark or says that the pod has finished. -/
def Trespass (cfg : Setting) (s : System) : Event → Prop
  | .push pod sidecar final true =>
      ∃ batch runId, cfg.batch pod sidecar final = some batch ∧ pod ∈ s.made ∧
        s.plane.current = some runId ∧ (ProgressBatch.ofBatch runId batch).Valid ∧
        Stale s.plane pod runId ∧ (s.fresh runId batch ≠ [] ∨ batch.final = true)
  | _ => False

/-- Whether a pod is stale for a run is settled when the run starts. -/
theorem stale_iff_of_advances {now : ℕ} {p p' : Plane} (h : Plane.Advances now p p')
    {runId : ℤ} {run : RunRecord} (hrun : p.history[runId]? = some run) (hlt : run.started < now)
    (pod : Pod) : Stale p' pod runId ↔ Stale p pod runId := by
  obtain ⟨run', hrun', hstarted, -⟩ := h.old runId run hrun
  constructor
  · rintro ⟨r, hr, id, earlier, e, hearlier, hended, hdeployed, hle⟩
    obtain rfl : run' = r := Option.some_inj.mp (hrun'.symm.trans hr)
    -- a run that ended in this step ended too late
    have hbefore : e ≠ now := by omega
    refine ⟨run, hrun, id, ?_⟩
    cases hid : p.history[id]? with
    | none =>
        obtain ⟨-, -, hnow⟩ := h.new id earlier hid hearlier
        simp_all
    | some r₀ =>
        obtain ⟨r', hr', -, -, hnow⟩ := h.old id r₀ hid
        obtain rfl : r' = earlier := Option.some_inj.mp (hr'.symm.trans hearlier)
        refine ⟨r₀, e, rfl, ?_, hdeployed, by omega⟩
        by_contra hne
        have := hnow fun heq => hne (heq ▸ hended)
        simp_all
  · rintro ⟨r, hr, id, earlier, e, hearlier, hended, hdeployed, hle⟩
    obtain rfl : run = r := Option.some_inj.mp (hrun.symm.trans hr)
    obtain ⟨earlier', hearlier', -, hkept, -⟩ := h.old id earlier hearlier
    refine ⟨run', hrun', id, earlier', e, hearlier', ?_, hdeployed, by omega⟩
    rw [hkept (by simp [hended]), hended]

/-! ### What a step absorbs -/

theorem absorbs_eq_some (cfg : Setting) (s : System) {batch : Batch} (hzero : batch.runId = 0)
    {runId : ℤ} :
    s.absorbs cfg batch = some runId ↔
      s.plane.current = some runId ∧ (ProgressBatch.ofBatch runId batch).Valid := by
  unfold System.absorbs
  cases hcurrent : s.plane.current with
  | none =>
      have herror : (s.plane.ingest cfg.exe cfg.visit s.clock batch).2 = some .noActiveRun := by
        simp [Plane.ingest, hcurrent]
      simp [herror]
  | some current =>
      have hnone := Plane.ingest_snd_eq_none hcurrent hzero cfg.exe cfg.visit s.clock
      cases herror : (s.plane.ingest cfg.exe cfg.visit s.clock batch).2 with
      | none =>
          have hvalid := hnone.mp herror
          refine ⟨fun h => ?_, fun h => h.1⟩
          obtain rfl := Option.some_inj.mp h
          exact ⟨rfl, hvalid⟩
      | some e =>
          refine ⟨fun h => (by cases h), fun h => ?_⟩
          obtain rfl := Option.some_inj.mp h.1
          simp [hnone.mpr h.2] at herror

def absorbedIn (cfg : Setting) (s : System) : Event → List Absorbed
  | .push pod sidecar final true =>
      match cfg.batch pod sidecar final with
      | none => []
      | some batch =>
          if pod ∈ s.made then
            ((s.absorbs cfg batch).map fun runId =>
              { pod, runId, intervals := s.fresh runId batch, final := batch.final }).toList
          else []
  | _ => []

theorem absorbed_step (cfg : Setting) (s : System) (e : Event) :
    (s.step cfg e).absorbed = s.absorbed ++ absorbedIn cfg s e := by
  show (s.perform cfg e).absorbed = _
  cases e with
  | deploy prepared provisioned =>
      simp only [System.perform, System.deploy, absorbedIn, List.append_nil]
      split <;> rfl
  | trigger view => exact (List.append_nil _).symm
  | stop =>
      simp only [System.perform, System.stop, absorbedIn, List.append_nil]
      split <;> rfl
  | push pod sidecar final arrives =>
      simp only [System.perform, System.push]
      cases hbatch : cfg.batch pod sidecar final with
      | none => cases arrives <;> simp [absorbedIn, hbatch]
      | some batch =>
          by_cases hmade : pod ∈ s.made
          · cases arrives <;> simp [absorbedIn, hbatch, hmade, System.absorbed_send]
          · cases arrives <;> simp [absorbedIn, hbatch, hmade]

theorem current_of_mem_absorbedIn {cfg : Setting} {s : System} {e : Event} {a : Absorbed}
    (ha : a ∈ absorbedIn cfg s e) : s.plane.current = some a.runId := by
  unfold absorbedIn at ha
  split at ha
  · split at ha
    · simp at ha
    case h_2 batch hbatch =>
      split at ha
      · obtain ⟨runId, hruns, rfl⟩ := by simpa using ha
        exact ((absorbs_eq_some cfg s (cfg.runId_batch hbatch)).mp hruns).1
      · simp at ha
  · simp at ha

theorem trespass_iff (cfg : Setting) (s : System) (e : Event) :
    Trespass cfg s e ↔
      ∃ a ∈ absorbedIn cfg s e, (a.intervals ≠ [] ∨ a.final = true) ∧
        Stale s.plane a.pod a.runId := by
  unfold Trespass absorbedIn
  split
  case h_1 pod sidecar final =>
    cases hbatch : cfg.batch pod sidecar final with
    | none => simp
    | some batch =>
        have hzero := cfg.runId_batch hbatch
        by_cases hmade : pod ∈ s.made
        · simp only [if_pos hmade]
          constructor
          · rintro ⟨sent, runId, hsent, -, hcurrent, hvalid, hstale, hcounts⟩
            obtain rfl := Option.some_inj.mp hsent
            have habsorbs := (absorbs_eq_some cfg s hzero).mpr ⟨hcurrent, hvalid⟩
            refine ⟨{ pod, runId, intervals := s.fresh runId batch, final := batch.final }, ?_,
              hcounts, hstale⟩
            simp [habsorbs]
          · rintro ⟨a, ha, hcounts, hstale⟩
            obtain ⟨runId, hruns, rfl⟩ := by simpa using ha
            obtain ⟨hcurrent, hvalid⟩ := (absorbs_eq_some cfg s hzero).mp hruns
            exact ⟨batch, runId, rfl, hmade, hcurrent, hvalid, hstale, hcounts⟩
        · simp [hmade]
  case h_2 => simp

/-! ### Whole runs -/

theorem history_of_absorbed (cfg : Setting) (events : List Event) {a : Absorbed}
    (ha : a ∈ (System.run cfg events).absorbed) :
    ∃ run, (System.run cfg events).plane.history[a.runId]? = some run := by
  induction events using List.reverseRecOn with
  | nil => simp [System.run, System.new] at ha
  | append_singleton events e ih =>
      rw [System.run_concat] at ha ⊢
      have hmoves := System.moves_step (System.sound_run cfg events) cfg e
      have hbefore : ∃ run, (System.run cfg events).plane.history[a.runId]? = some run := by
        rw [absorbed_step] at ha
        rcases List.mem_append.mp ha with ha | ha
        · exact ih ha
        · obtain ⟨run, hrun, -⟩ :=
            (System.sound_run cfg events).open_run a.runId (current_of_mem_absorbedIn ha)
          exact ⟨run, hrun⟩
      obtain ⟨run, hrun⟩ := hbefore
      obtain ⟨run', hrun', -⟩ := hmoves.advances.old a.runId run hrun
      exact ⟨run', hrun'⟩

/-- A step keeps runs apart if they were, and it is not a trespass. -/
theorem isolated_concat (cfg : Setting) (events : List Event) (e : Event) :
    Isolated (System.run cfg (events ++ [e])) ↔
      Isolated (System.run cfg events) ∧ ¬Trespass cfg (System.run cfg events) e := by
  have hmoves := System.moves_step (System.sound_run cfg events) cfg e
  have hstale (a : Absorbed) (run : RunRecord)
      (hrun : (System.run cfg events).plane.history[a.runId]? = some run) :
      Stale ((System.run cfg events).step cfg e).plane a.pod a.runId ↔
        Stale (System.run cfg events).plane a.pod a.runId :=
    stale_iff_of_advances hmoves.advances hrun (System.started_lt_clock cfg events hrun) a.pod
  rw [System.run_concat, trespass_iff, Isolated, absorbed_step]
  constructor
  · intro h
    refine ⟨fun a ha hcounts => ?_, ?_⟩
    · obtain ⟨run, hrun⟩ := history_of_absorbed cfg events ha
      rw [← hstale a run hrun]
      exact h a (List.mem_append_left _ ha) hcounts
    · rintro ⟨a, ha, hcounts, hpod⟩
      obtain ⟨run, hrun, -⟩ :=
        (System.sound_run cfg events).open_run a.runId (current_of_mem_absorbedIn ha)
      exact h a (List.mem_append_right _ ha) hcounts ((hstale a run hrun).mpr hpod)
  · rintro ⟨hisolated, hstep⟩ a ha hcounts hpod
    rcases List.mem_append.mp ha with ha | ha
    · obtain ⟨run, hrun⟩ := history_of_absorbed cfg events ha
      exact hisolated a ha hcounts ((hstale a run hrun).mp hpod)
    · obtain ⟨run, hrun, -⟩ :=
        (System.sound_run cfg events).open_run a.runId (current_of_mem_absorbedIn ha)
      exact hstep ⟨a, ha, hcounts, (hstale a run hrun).mp hpod⟩

/-- Nothing of a stale pod is ever absorbed exactly when no step is a trespass. -/
theorem isolated_iff (cfg : Setting) (events : List Event) :
    Isolated (System.run cfg events) ↔
      ∀ before e after, events = before ++ e :: after →
        ¬Trespass cfg (System.run cfg before) e := by
  induction events using List.reverseRecOn with
  | nil => simp [System.run, System.new, Isolated]
  | append_singleton events e ih =>
      rw [isolated_concat, ih]
      constructor
      · rintro ⟨hall, hlast⟩ before e' after heq
        rcases List.eq_nil_or_concat after with rfl | ⟨init, last, rfl⟩
        · obtain ⟨rfl, he⟩ := List.append_inj' heq rfl
          obtain rfl : e = e' := by simpa using he
          exact hlast
        · have hconcat : events ++ [e] = (before ++ e' :: init) ++ [last] := by simpa using heq
          exact hall before e' init (List.append_inj' hconcat rfl).1
      · intro hall
        refine ⟨fun before e' after heq => ?_, hall events e [] rfl⟩
        exact hall before e' (after ++ [e]) (by simp [heq])

/-! ### A pod that is still dying -/

def oneInterval : Sidecar.State :=
  { Sidecar.State.new "stream" with
    seq := 1
    pending := [{ Report.zeroInterval with seq := 1, timestamp := 1, label := "GET /", samples := 1 }] }

/-- The engine of the first deploy pushes while the run of the second is open. -/
theorem not_isolated_redeploy :
    ¬Isolated (System.run oneEngine
      [.deploy true 1, .trigger readyView, .stop, .deploy true 1, .trigger readyView,
        .push (engineOf 0) oneInterval false true]) := by
  intro h
  refine h { pod := engineOf 0, runId := 2, intervals := oneInterval.pending, final := false }
    (by decide +kernel) (.inl (by simp [oneInterval])) ?_
  refine ⟨{ started := 4, ended := none }, by decide +kernel, 1,
    { started := 1, ended := some 2 }, 2, by decide +kernel, rfl, by decide, by decide⟩

end Honryu.Lifecycle
