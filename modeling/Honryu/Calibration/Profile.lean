import Honryu.Calibration.Advance
import Honryu.Lib.Walk

/-!
Whether a search that has ended has its profile.

The step with which a search ends is recorded, and with it the job is done. Whether the verdict
can be trusted is only looked at after that, and the profile is written last. Nobody claims a job
that is done, so what goes wrong in between is not made up for.
-/

namespace Honryu.Calibration

open Call
open LoadProfile (Entry)

variable {Content : Type} (fingerprint : Content → String)

/-! ### One call after the other -/

structure Tried where
  task : Task
  inputs : ℕ → Moment
  mishaps : ℕ → Option Mishap

inductive Event (Content : Type)
  | call (tried : Tried)
  | edit (edit : Edit Content)

def course (s : Store Content) (tried : Tried) : Course Question Failure Unit (Store Content) :=
  tried.task.body.beset (server fingerprint) tried.inputs tried.mishaps s

def happens (s : Store Content) : Event Content → Store Content
  | .call tried => (course fingerprint s tried).state
  | .edit edit => s.edit edit

/-- Nothing goes wrong with a call once it has recorded that the search has ended: where something
goes wrong, no job is done that was not before. -/
def Unharmed (s : Store Content) : Event Content → Prop
  | .call tried => ∀ m ∈ (course fingerprint s tried).mishaps,
      ∀ row ∈ m.2.jobs, row.job.phase = .done → row ∈ s.jobs
  | .edit _ => True

/-! ### What is to hold -/

def CapacityProfile.States (profile : CapacityProfile) (job : CalibrationJob) : Prop :=
  profile.jobId = job.id ∧ job.result = some ⟨profile.saturatedBy, profile.perPodQPS⟩

def Impaired (s : Store Content) (job : CalibrationJob) : Prop :=
  blamesEngine job.result = true ∧ ∀ step ∈ s.steps job.id, step.classification ≠ .clean

/-- A job that is done has its profile stored, and one whose verdict cannot be trusted has failed
and has stored none. -/
structure Profiled (s : Store Content) : Prop where
  done : ∀ row ∈ s.jobs, row.job.phase = .done → ∃ profile ∈ s.profiles, profile.States row.job
  impaired : ∀ row ∈ s.jobs, Impaired s row.job →
    row.job.phase = .failed ∧ ∀ profile ∈ s.profiles, profile.jobId ≠ row.job.id

structure Settled (s : Store Content) : Prop where
  distinct : s.DistinctJobs
  unfinished : ∀ row ∈ s.jobs, row.unfinished → row.job.result = none
  done : ∀ row ∈ s.jobs, row.job.phase = .done → ∃ profile ∈ s.profiles, profile.States row.job
  impaired : ∀ row ∈ s.jobs, Impaired s row.job → row.job.phase = .failed
  written : ∀ profile ∈ s.profiles, ∃ row ∈ s.jobs,
    row.job.id = profile.jobId ∧ row.job.phase = .done

theorem Settled.profiled {s : Store Content} (h : Settled s) : Profiled s := by
  refine ⟨h.done, fun row hrow himpaired => ⟨h.impaired row hrow himpaired, ?_⟩⟩
  intro profile hprofile hid
  obtain ⟨row', hrow', hid', hdone⟩ := h.written profile hprofile
  obtain rfl := h.distinct.eq_of_id_eq hrow' hrow (hid'.trans hid)
  cases hdone.symm.trans (h.impaired row' hrow himpaired)

/-! ### What the questions leave alone -/

structure SameTables (s s' : Store Content) : Prop where
  jobs : s'.jobs = s.jobs
  nextJob : s'.nextJob = s.nextJob
  steps : s'.steps = s.steps
  profiles : s'.profiles = s.profiles

section SameTables

variable {s s' s'' : Store Content} {ready : Bool} {q : Question}

theorem SameTables.refl (s : Store Content) : SameTables s s := ⟨rfl, rfl, rfl, rfl⟩

theorem SameTables.trans (h : SameTables s s') (h' : SameTables s' s'') : SameTables s s'' :=
  ⟨h'.jobs.trans h.jobs, h'.nextJob.trans h.nextJob, h'.steps.trans h.steps,
    h'.profiles.trans h.profiles⟩

theorem sameTables_pass (m : Moment) : SameTables s (s.pass m) := ⟨rfl, rfl, rfl, rfl⟩

theorem Settled.of_sameTables (h : Settled s) (hsame : SameTables s s') : Settled s' := by
  obtain ⟨hjobs, hnext, hsteps, hprofiles⟩ := hsame
  refine ⟨⟨hjobs ▸ h.distinct.nodup, ?_⟩, hjobs ▸ h.unfinished, ?_, ?_, ?_⟩
  · rw [hjobs, hnext]
    exact h.distinct.lt
  · rw [hjobs, hprofiles]
    exact h.done
  · rw [hjobs]
    intro row hrow himpaired
    exact h.impaired row hrow ⟨himpaired.1, hsteps ▸ himpaired.2⟩
  · rw [hjobs, hprofiles]
    exact h.written

theorem sameTables_effect (hq : q.sparesJobs)
    (hprofile : ∀ profile, q ≠ .upsertCapacityProfile profile) : SameTables s (effect ready s q) := by
  obtain ⟨hjobs, hnext, hsteps⟩ : (effect ready s q).jobs = s.jobs ∧
      (effect ready s q).nextJob = s.nextJob ∧ _ := effect_of_sparesJobs hq
  refine ⟨hjobs, hnext, hsteps, ?_⟩
  cases q with
  | upsertCapacityProfile profile => exact absurd rfl (hprofile profile)
  | claimNextStep | createCalibrationJob | recordStep | markFailed => cases hq
  | deploy | trigger =>
      simp only [effect]
      split <;> rfl
  | _ => rfl

end SameTables

/-! ### The row of a search -/

section Rows

variable {s s' : Store Content} {row : JobRow}

theorem updateJob_updateJob {jobId : ℤ} {f g : JobRow → JobRow}
    (hid : ∀ row, (f row).job.id = row.job.id) :
    (s.updateJob jobId f).updateJob jobId g = s.updateJob jobId (g ∘ f) := by
  have hrows : (s.jobs.map fun row => if row.job.id = jobId then f row else row).map
      (fun row => if row.job.id = jobId then g row else row) =
        s.jobs.map fun row => if row.job.id = jobId then g (f row) else row := by
    rw [List.map_map]
    refine List.map_congr_left fun row _ => ?_
    by_cases h : row.job.id = jobId
    · simp [h, hid]
    · simp [h]
  exact congrArg (fun jobs => { s with jobs }) hrows

/-- The row of a search that has not ended is rewritten. If it is done after that, its profile is
stored as well. -/
theorem Settled.rewrite (h : Settled s) (hrow : row ∈ s.jobs) (hopen : row.unfinished)
    (f : JobRow → JobRow) (hid : ∀ row, (f row).job.id = row.job.id)
    (hjobs : s'.jobs = (s.updateJob row.job.id f).jobs) (hnext : s'.nextJob = s.nextJob)
    (hsteps : ∀ id, id ≠ row.job.id → s'.steps id = s.steps id)
    (hprofiles : s'.profiles = s.profiles ∧ (f row).job.phase ≠ .done ∨
      ∃ profile, s'.profiles = profile :: s.profiles ∧ profile.States (f row).job ∧
        (f row).job.phase = .done)
    (hunfinished : (f row).unfinished → (f row).job.result = none)
    (himpaired : Impaired s' (f row).job → (f row).job.phase = .failed) : Settled s' := by
  have hmem : ∀ {row'}, row' ∈ s'.jobs ↔ row' = f row ∨ row' ∈ s.jobs ∧ row'.job.id ≠ row.job.id := by
    intro row'
    rw [hjobs, mem_updateJob]
    refine or_congr_left ⟨?_, fun heq => ⟨row, hrow, rfl, heq.symm⟩⟩
    rintro ⟨old, hold, holdid, rfl⟩
    rw [h.distinct.eq_of_id_eq hold hrow holdid]
  have hkept : ∀ profile ∈ s.profiles, profile ∈ s'.profiles := by
    intro profile hprofile
    rcases hprofiles with ⟨heq, -⟩ | ⟨new, heq, -⟩ <;> rw [heq]
    · exact hprofile
    · exact List.mem_cons_of_mem _ hprofile
  have hdistinct : (s.updateJob row.job.id f).DistinctJobs := h.distinct.updateJob hid
  refine ⟨⟨hjobs ▸ hdistinct.nodup, ?_⟩, fun row' hrow' => ?_, fun row' hrow' hdone => ?_,
    fun row' hrow' himp => ?_, fun profile hprofile => ?_⟩
  · rw [hjobs, hnext]
    exact hdistinct.lt
  · obtain rfl | ⟨hold, -⟩ := hmem.mp hrow'
    · exact hunfinished
    · exact h.unfinished row' hold
  · obtain rfl | ⟨hold, -⟩ := hmem.mp hrow'
    · obtain ⟨-, hnot⟩ | ⟨profile, heq, hstates, -⟩ := hprofiles
      · exact absurd hdone hnot
      · exact ⟨profile, heq ▸ List.mem_cons_self, hstates⟩
    · obtain ⟨profile, hprofile, hstates⟩ := h.done row' hold hdone
      exact ⟨profile, hkept profile hprofile, hstates⟩
  · obtain rfl | ⟨hold, hne⟩ := hmem.mp hrow'
    · exact himpaired himp
    · exact h.impaired row' hold ⟨himp.1, hsteps _ hne ▸ himp.2⟩
  · have hold : ∀ profile ∈ s.profiles, ∃ row' ∈ s'.jobs,
        row'.job.id = profile.jobId ∧ row'.job.phase = .done := by
      intro profile hprofile
      obtain ⟨row', hrow', hid', hdone'⟩ := h.written profile hprofile
      refine ⟨row', hmem.mpr (.inr ⟨hrow', fun heq => ?_⟩), hid', hdone'⟩
      obtain rfl := h.distinct.eq_of_id_eq hrow' hrow heq
      exact hopen.not_done hdone'
    rcases hprofiles with ⟨heq, -⟩ | ⟨new, heq, hstates, hdone⟩ <;> rw [heq] at hprofile
    · exact hold profile hprofile
    · obtain rfl | hprofile := List.mem_cons.mp hprofile
      · exact ⟨f row, hmem.mpr (.inl rfl), hstates.1.symm, hdone⟩
      · exact hold profile hprofile

theorem Settled.claim (h : Settled s) (hrow : row ∈ s.jobs) (hopen : row.unfinished) (now : ℤ) :
    Settled (s.claim row.job.id now) := by
  refine h.rewrite hrow hopen (fun row => { row with claimedAt := some now }) (fun _ => rfl) rfl rfl
    (fun _ _ => rfl) (.inl ⟨rfl, hopen.not_done⟩) (fun _ => h.unfinished row hrow hopen) ?_
  exact h.impaired row hrow

theorem Settled.markFailed (h : Settled s) (hrow : row ∈ s.jobs) (hopen : row.unfinished)
    (reason : Failure) : Settled (s.markFailed row.job.id reason) :=
  h.rewrite hrow hopen (·.failedWith reason) (fun _ => rfl) rfl rfl (fun _ _ => rfl)
    (.inl ⟨rfl, Phase.noConfusion⟩)
    (fun hunfinished => by simp [JobRow.unfinished, JobRow.failedWith] at hunfinished)
    fun _ => rfl

theorem Settled.insertJob (h : Settled s) (executionId scenarioId : ℤ) :
    Settled (s.insertJob executionId scenarioId) := by
  refine ⟨h.distinct.insertJob executionId scenarioId, fun row' hrow' => ?_, fun row' hrow' => ?_,
    fun row' hrow' => ?_, fun profile hprofile => ?_⟩
  · rcases List.mem_append.mp hrow' with hold | hnew
    · exact h.unfinished row' hold
    · rw [List.mem_singleton.mp hnew]
      exact fun _ => rfl
  · rcases List.mem_append.mp hrow' with hold | hnew
    · exact h.done row' hold
    · rw [List.mem_singleton.mp hnew]
      exact Phase.noConfusion
  · rcases List.mem_append.mp hrow' with hold | hnew
    · exact h.impaired row' hold
    · rw [List.mem_singleton.mp hnew]
      rintro ⟨hblames, -⟩
      cases hblames
  · obtain ⟨row', hrow', hrest⟩ := h.written profile hprofile
    exact ⟨row', List.mem_append_left _ hrow', hrest⟩

end Rows

/-! ### A step is taken -/

/-- What the profile is written from: the execution, the one entry of its load profile, and the
content of its scenario. -/
structure Ready (s : Store Content) (executionId : ℤ) : Prop where
  execution : s.executions executionId ≠ none
  entry : ∃ entry, s.loadProfiles executionId = [entry] ∧ s.scenarios entry.scenarioId ≠ none

section Step

variable {fingerprint} {s s₀ : Store Content} {executionId : ℤ} {α β : Type}

/-- A part of a call leaves the tables alone, and if it succeeds there is what the profile is
written from. -/
def Prepares (s₀ : Store Content) (executionId : ℤ) (_ : List (Question × Store Content))
    (r : Option (Except Failure α)) (s' : Store Content) : Prop :=
  SameTables s₀ s' ∧ ∀ a, r = some (.ok a) → Ready s' executionId

theorem prepares_error {log : List (Question × Store Content)} {e : Failure}
    (h : SameTables s₀ s) :
    Prepares s₀ executionId log (some (.error e) : Option (Except Failure α)) s :=
  ⟨h, fun _ hok => by cases hok⟩

theorem prepares_none {log : List (Question × Store Content)} (h : SameTables s₀ s) :
    Prepares s₀ executionId log (none : Option (Except Failure α)) s :=
  ⟨h, fun _ hok => by cases hok⟩

theorem sure_query {q : Question} {f : Answer q → Proc β} (hs : SameTables s₀ s)
    (hq : q.sparesJobs) (hprofile : ∀ profile, q ≠ .upsertCapacityProfile profile)
    (hf : ∀ m a, reply fingerprint m.ready (s.pass m) q = .ok a →
      SameTables s₀ (effect m.ready (s.pass m) q) →
        (f a).Sure (server fingerprint) (effect m.ready (s.pass m) q) (Prepares s₀ executionId)) :
    (query q >>= f).Sure (server fingerprint) s (Prepares s₀ executionId) := by
  have hsame : ∀ m : Moment, SameTables s₀ (effect m.ready (s.pass m) q) := fun m =>
    (hs.trans (sameTables_pass m)).trans (sameTables_effect hq hprofile)
  exact .need_bind (fun m a ha => hf m a ha (hsame m)) (fun m _ _ => prepares_error (hsame m))
    (fun _ _ => prepares_error hs) (prepares_none hs)

theorem Ready.of_eq {s' : Store Content} (h : Ready s executionId)
    (hexecutions : s'.executions = s.executions) (hprofiles : s'.loadProfiles = s.loadProfiles)
    (hscenarios : s'.scenarios = s.scenarios) : Ready s' executionId := by
  refine ⟨hexecutions ▸ h.execution, ?_⟩
  rw [hprofiles, hscenarios]
  exact h.entry

theorem ready_waiting {q : Question} (hq : WaitingOf executionId q) (m : Moment)
    (h : SameTables s₀ s ∧ Ready s executionId) :
    SameTables s₀ (effect m.ready (s.pass m) q) ∧ Ready (effect m.ready (s.pass m) q) executionId := by
  refine ⟨(h.1.trans (sameTables_pass m)).trans (sameTables_effect ?_ ?_), ?_⟩
  · cases q with
    | claimNextStep | createCalibrationJob | recordStep | markFailed => cases hq
    | _ => trivial
  · rintro profile rfl
    cases hq
  · cases q with
    | trigger =>
        simp only [effect]
        split <;> exact h.2.of_eq rfl rfl rfl
    | now | sleep | currentRun | getReport | stop | touchActivity => exact h.2.of_eq rfl rfl rfl
    | _ => cases hq

theorem sure_waiting {c : Proc α} (hc : c.Asks (WaitingOf executionId)) (hs : SameTables s₀ s)
    (hready : Ready s executionId) :
    c.Sure (server fingerprint) s fun _ _ s' => SameTables s₀ s' ∧ Ready s' executionId := by
  have hsure : c.Sure (server fingerprint) s fun log _ s' =>
      (SameTables s₀ s' ∧ Ready s' executionId) ∧
        ∀ m ∈ log, WaitingOf executionId m.1 ∧ SameTables s₀ m.2 ∧ Ready m.2 executionId :=
    hc.sure (fun _ hq m _ h => ready_waiting hq m h) ⟨hs, hready⟩
  exact hsure.mono fun _ _ _ h => h.1

theorem ready_of_deployable {entry : Entry} (hentry : s.loadProfiles executionId = [entry])
    {contents : List Content} (h : deployable s executionId = .ok contents) :
    Ready s executionId := by
  unfold deployable at h
  split_ifs at h with hexecution hempty hmarker
  refine ⟨hexecution, entry, hentry, fun hnone => ?_⟩
  rw [Store.contentsFor, hentry, List.mapM_cons, hnone] at h
  cases h

theorem sure_deploy {entry : Entry} {f : Unit → Proc β} (hs : SameTables s₀ s)
    (hentry : s.loadProfiles executionId = [entry])
    (hf : ∀ s', SameTables s₀ s' → Ready s' executionId →
      (f ()).Sure (server fingerprint) s' (Prepares s₀ executionId)) :
    (query (.deploy executionId) >>= f).Sure (server fingerprint) s (Prepares s₀ executionId) := by
  refine sure_query hs trivial nofun fun m _ hdeploy hs => hf _ hs ?_
  cases hcontents : deployable (s.pass m) executionId with
  | error e => simp [reply, hcontents, Except.map] at hdeploy
  | ok contents =>
      have hpassed : (s.pass m).loadProfiles executionId = [entry] := hentry
      simp only [effect, hcontents]
      exact (ready_of_deployable hpassed hcontents).of_eq rfl rfl rfl

theorem sure_runStep (requestedQPS : ℚ) (holdSeconds : ℤ) (latencyHintSec : ℚ)
    (hs : SameTables s₀ s) :
    (runStep executionId requestedQPS holdSeconds latencyHintSec).Sure (server fingerprint) s
      (Prepares s₀ executionId) := by
  unfold runStep
  split
  · exact prepares_error hs
  · refine sure_query hs trivial nofun fun m entries _ hs => ?_
    split
    · exact prepares_error hs
    · refine sure_query hs trivial nofun fun m' _ _ hs => ?_
      refine sure_deploy hs (Function.update_self ..) fun s' hs hready => ?_
      refine (sure_waiting asks_triggerWhenReady hs hready).bind (fun _ _ s' h => ?_)
        (fun _ _ _ h => prepares_error h.1) fun _ _ h => prepares_none h.1
      refine sure_query h.1 trivial nofun fun m current _ hs => ?_
      split
      · exact prepares_error hs
      · refine (sure_waiting (asks_measureRun _) hs (h.2.of_eq rfl rfl rfl)).mono ?_
        exact fun _ _ _ h => ⟨h.1, fun _ _ => h.2⟩

theorem sure_takeStep (requestedQPS : ℚ) (spec : Spec) (hs : SameTables s₀ s) :
    (takeStep executionId requestedQPS spec).Sure (server fingerprint) s
      (Prepares s₀ executionId) := by
  have hclassified : ∀ (s : Store Content) (latencySec : ℚ), SameTables s₀ s →
      (runClassifiedStep executionId requestedQPS spec latencySec).Sure (server fingerprint) s
        (Prepares s₀ executionId) := by
    intro s latencySec hs
    refine (sure_runStep requestedQPS spec.holdSeconds latencySec hs).bind (fun _ rpt s' h => ?_)
      (fun _ _ _ h => prepares_error h.1) fun _ _ h => prepares_none h.1
    exact ⟨h.1, fun _ _ => h.2 rpt rfl⟩
  refine (hclassified s 0 hs).bind (fun _ measured s' h => ?_) (fun _ _ _ h => prepares_error h.1)
    fun _ _ h => prepares_none h.1
  have hready := h.2 measured rfl
  change Call.Sure _ (if measured.1.classification = _ then _ else _) _ _
  split
  · refine (hclassified s' measured.2 h.1).bind (fun _ again s'' h => ?_)
      (fun _ _ _ h => prepares_error h.1) fun _ _ h => prepares_none h.1
    exact ⟨h.1, fun _ _ => h.2 again rfl⟩
  · exact ⟨h.1, fun _ _ => hready⟩

end Step

/-! ### The search ends -/

section Finish

variable {fingerprint} {s s' s₀ : Store Content} {row : JobRow} {α β : Type}

def Settles (s₀ : Store Content) (log : List (Question × Store Content))
    (_ : Option (Except Failure α)) (s' : Store Content) : Prop :=
  (∀ m ∈ log, ∀ row ∈ m.2.jobs, row.job.phase = .done → row ∈ s₀.jobs) → Settled s'

theorem settles {log : List (Question × Store Content)} {r : Option (Except Failure α)}
    (h : Settled s) : Settles s₀ log r s := fun _ => h

theorem Settles.append {log log' : List (Question × Store Content)}
    {r : Option (Except Failure α)} (h : Settles s₀ log' r s) : Settles s₀ (log ++ log') r s :=
  fun hlog => h fun m hm => hlog m (List.mem_append_right _ hm)

def Owing (s₀ s : Store Content) : Prop := ∃ row ∈ s.jobs, row.job.phase = .done ∧ row ∉ s₀.jobs

theorem Owing.settles (h : Owing s₀ s) {q : Question} {log : List (Question × Store Content)}
    {r : Option (Except Failure α)} : Settles s₀ ((q, s) :: log) r s' := by
  intro hlog
  obtain ⟨row, hrow, hdone, hnew⟩ := h
  exact absurd (hlog (q, s) List.mem_cons_self row hrow hdone) hnew

theorem sure_owing {q : Question} {f : Answer q → Proc β} (howing : Owing s₀ s)
    (hf : ∀ m, ∃ a, reply fingerprint m.ready (s.pass m) q = .ok a ∧
      (f a).Sure (server fingerprint) (effect m.ready (s.pass m) q) (Settles s₀)) :
    (query q >>= f).Sure (server fingerprint) s (Settles s₀) := by
  refine .need_bind (fun m a ha => ?_) (fun m e he => ?_) (fun _ _ => howing.settles)
    howing.settles
  · obtain ⟨a', ha', hrest⟩ := hf m
    obtain rfl := Except.ok.inj (ha'.symm.trans ha)
    exact hrest
  · obtain ⟨a', ha', -⟩ := hf m
    cases ha'.symm.trans he

theorem sure_failJob {jobId : ℤ} {reason : Failure}
    {Q : List (Question × Store Content) → Option (Except Failure α) → Store Content → Prop}
    (hmarked : ∀ m : Moment, Q [] (some (.error reason)) ((s.pass m).markFailed jobId reason))
    (hnot : ∀ r, Q [(.markFailed jobId reason, s)] r s) :
    (failJob jobId reason : Proc α).Sure (server fingerprint) s Q :=
  ⟨hmarked, fun _ _ => hnot _, hnot _⟩

structure Ended (s₀ s s' : Store Content) (row : JobRow) (step : Step) (updated : CalibrationJob)
    (result : Result) : Prop where
  settled : Settled s
  mem : row ∈ s.jobs
  unfinished : row.unfinished
  phase : updated.phase = .done
  verdict : updated.result = some result
  tables : SameTables (s.record row.job.id step updated) s'
  ready : Ready s' row.job.executionId
  before : ∀ row' ∈ s₀.jobs, row'.job.id = row.job.id → row'.unfinished

variable {step : Step} {updated : CalibrationJob} {result : Result}

theorem Ended.pass (h : Ended s₀ s s' row step updated result) (m : Moment) :
    Ended s₀ s (s'.pass m) row step updated result :=
  { h with
    tables := h.tables.trans (sameTables_pass m)
    ready := h.ready.of_eq rfl rfl rfl }

theorem Ended.owing (h : Ended s₀ s s' row step updated result) : Owing s₀ s' := by
  refine ⟨row.recorded updated, ?_, h.phase, fun hmem => ?_⟩
  · rw [h.tables.jobs]
    exact mem_updateJob.mpr (.inl ⟨row, h.mem, rfl, rfl⟩)
  · exact (h.before _ hmem rfl).not_done h.phase

theorem Ended.steps (h : Ended s₀ s s' row step updated result) (id : ℤ) (hid : id ≠ row.job.id) :
    s'.steps id = s.steps id := by
  rw [h.tables.steps]
  exact Function.update_of_ne hid _ _

theorem Ended.markFailed (h : Ended s₀ s s' row step updated result) (reason : Failure) :
    Settled (s'.markFailed row.job.id reason) := by
  refine h.settled.rewrite h.mem h.unfinished ((·.failedWith reason) ∘ (·.recorded updated))
    (fun _ => rfl) ?_ h.tables.nextJob h.steps (.inl ⟨h.tables.profiles, Phase.noConfusion⟩)
    (fun hunfinished => ?_) fun _ => rfl
  · have hrows : (s.updateJob row.job.id (·.recorded updated)).updateJob row.job.id
        (·.failedWith reason) = _ := updateJob_updateJob fun _ => rfl
    rw [← hrows, Store.markFailed, Store.updateJob, h.tables.jobs]
    rfl
  · simp [JobRow.unfinished, JobRow.failedWith] at hunfinished

theorem Ended.write (h : Ended s₀ s s' row step updated result) {profile : CapacityProfile}
    (hid : profile.jobId = row.job.id)
    (hresult : result = ⟨profile.saturatedBy, profile.perPodQPS⟩)
    (hclean : blamesEngine (some result) = true →
      ∃ st ∈ s'.steps row.job.id, st.classification = .clean) :
    Settled { s' with profiles := profile :: s'.profiles } := by
  refine h.settled.rewrite h.mem h.unfinished (·.recorded updated) (fun _ => rfl) h.tables.jobs
    h.tables.nextJob h.steps (.inr ⟨profile, ?_, ⟨hid, h.verdict.trans (congrArg some hresult)⟩,
      h.phase⟩) (fun hunfinished => absurd h.phase hunfinished.not_done) ?_
  · exact congrArg (profile :: ·) h.tables.profiles
  · rintro ⟨hblames, hall⟩
    obtain ⟨st, hst, hcleanst⟩ := hclean (h.verdict ▸ hblames)
    exact absurd hcleanst (hall st hst)

theorem sure_writeProfile (h : Ended s₀ s s' row step updated result) (now : ℤ)
    (hclean : blamesEngine (some result) = true →
      ∃ st ∈ s'.steps row.job.id, st.classification = .clean) :
    (writeProfile row.job result now).Sure (server fingerprint) s' (Settles s₀) := by
  obtain ⟨exe, hexe⟩ := Option.ne_none_iff_exists'.mp h.ready.execution
  obtain ⟨entry, hentry, hscenario⟩ := h.ready.entry
  obtain ⟨content, hcontent⟩ := Option.ne_none_iff_exists'.mp hscenario
  refine sure_owing h.owing fun m => ⟨exe, by simp [reply, Store.pass, hexe, orNotFound], ?_⟩
  refine sure_owing (h.pass m).owing fun m' => ⟨[entry], ?_, ?_⟩
  · exact congrArg Except.ok hentry
  refine sure_owing ((h.pass m).pass m').owing fun m'' => ⟨fingerprint content, ?_, ?_⟩
  · simp [reply, effect, Store.pass, hcontent, orNotFound]
  have hended := ((h.pass m).pass m').pass m''
  refine sure_need.mpr ⟨fun m => settles ?_, fun _ _ => hended.owing.settles, hended.owing.settles⟩
  exact (hended.pass m).write rfl rfl hclean

theorem sure_finishSearch (h : Ended s₀ s s' row step updated result) {done : Job}
    (hdone : done.result = some result) (now : ℤ) :
    (finishSearch row.job done now).Sure (server fingerprint) s' (Settles s₀) := by
  unfold finishSearch environmentImpaired
  rw [hdone]
  cases hblames : blamesEngine (some result) with
  | false => exact sure_writeProfile h now fun hengine => absurd (hblames.symm.trans hengine) nofun
  | true =>
      simp only [Bool.true_eq_false, if_false]
      rw [Call.bind_assoc]
      refine sure_owing h.owing fun m => ⟨s'.steps row.job.id, rfl, ?_⟩
      change Call.Sure _ (if _ = true then _ else _) _ _
      split
      · exact sure_failJob (fun m' => settles (((h.pass m).pass m').markFailed _))
          fun _ => (h.pass m).owing.settles
      · rename_i hclean
        have hsome : ∃ st ∈ s'.steps row.job.id, st.classification = .clean := by simpa using hclean
        exact sure_writeProfile (h.pass m) now fun _ => hsome

end Finish

/-! ### Whole calls -/

section Calls

variable {fingerprint} {s s₀ : Store Content} {row : JobRow}

structure Claimed (s₀ s : Store Content) (row : JobRow) : Prop where
  settled : Settled s
  mem : row ∈ s.jobs
  unfinished : row.unfinished
  before : ∀ row' ∈ s₀.jobs, row'.job.id = row.job.id → row'.unfinished

theorem Claimed.of_sameTables {s' : Store Content} (h : Claimed s₀ s row) (hs : SameTables s s') :
    Claimed s₀ s' row :=
  { h with
    settled := h.settled.of_sameTables hs
    mem := hs.jobs ▸ h.mem }

theorem goesOn_startOrResume (h : Claimed s₀ s row) (spec : Spec) :
    (startOrResume spec row.job).1.goesOn := by
  unfold startOrResume
  split
  · exact ⟨.inl rfl, rfl⟩
  · rename_i hpending
    exact ⟨h.unfinished.resolve_left hpending, h.settled.unfinished row h.mem h.unfinished⟩

/-- What the step leads to is recorded, and the profile written. -/
theorem sure_concludeStep (h : Claimed s₀ s row) (hready : Ready s row.job.executionId)
    {search : Job} (hsearch : search.goesOn) (step : Step) (now : ℤ) :
    (concludeStep row.job search step now).Sure (server fingerprint) s (Settles s₀) := by
  have hhas : ∀ m : Moment, (s.pass m).hasJob row.job.id = true := fun m =>
    List.any_eq_true.mpr ⟨row, h.mem, decide_eq_true rfl⟩
  refine .need_bind (fun m _ _ => ?_) (fun m e he => ?_) (fun _ _ => settles h.settled)
    (settles h.settled)
  · have hclaimed := h.of_sameTables (sameTables_pass m)
    change Call.Sure _ (if (next search step).1.phase ≠ .done then _ else _)
      (if (s.pass m).hasJob row.job.id then (s.pass m).record row.job.id step
        (applyDomainJob row.job (next search step).1 (next search step).2) else s.pass m) _
    rw [if_pos (hhas m)]
    rcases next_cases hsearch step with ⟨hdone, result, hresult⟩ | ⟨hphase, hresult⟩
    · rw [if_neg (not_not.mpr hdone)]
      have hended : Ended s₀ (s.pass m) ((s.pass m).record row.job.id step
          (applyDomainJob row.job (next search step).1 (next search step).2)) row step
            (applyDomainJob row.job (next search step).1 (next search step).2) result :=
        { settled := hclaimed.settled
          mem := hclaimed.mem
          unfinished := hclaimed.unfinished
          phase := hdone
          verdict := hresult
          tables := .refl _
          ready := hready.of_eq rfl rfl rfl
          before := hclaimed.before }
      exact sure_finishSearch hended hresult now
    · have hnot : (next search step).1.phase ≠ .done := by
        rcases hphase with hphase | hphase <;> rw [hphase] <;> decide
      rw [if_pos hnot]
      refine settles (hclaimed.settled.rewrite hclaimed.mem hclaimed.unfinished
        (·.recorded (applyDomainJob row.job (next search step).1 (next search step).2))
        (fun _ => rfl) rfl rfl (fun id hid => Function.update_of_ne hid _ _) (.inl ⟨rfl, hnot⟩)
        (fun _ => hresult) ?_)
      rintro ⟨hblames, -⟩
      change blamesEngine (next search step).1.result = true at hblames
      rw [hresult] at hblames
      cases hblames
  · simp [server, reply, hhas m] at he

theorem sure_specFor (executionId : ℤ) :
    (specFor executionId).Sure (server fingerprint) s fun _ _ s' => SameTables s s' := by
  have hsure : (specFor executionId).Sure (server fingerprint) s fun log _ s' =>
      SameTables s s' ∧ ∀ m ∈ log, Looking m.1 ∧ SameTables s m.2 := by
    refine asks_specFor.sure (fun q hq m s' hs => hs.trans ?_) (.refl s)
    change SameTables s' (effect m.ready (s'.pass m) q)
    rw [effect_of_looking hq]
    exact sameTables_pass m
  exact hsure.mono fun _ _ _ h => h.1

theorem Claimed.sure_failJob (h : Claimed s₀ s row) (reason : Failure) :
    (failJob row.job.id reason : Proc Unit).Sure (server fingerprint) s (Settles s₀) := by
  refine Calibration.sure_failJob (fun m => settles ?_) fun _ => settles h.settled
  have hpassed := h.of_sameTables (sameTables_pass m)
  exact hpassed.settled.markFailed hpassed.mem hpassed.unfinished reason

theorem sure_advanceClaimed (h : Claimed s₀ s row) (now : ℤ) :
    (advanceClaimed row.job now).Sure (server fingerprint) s (Settles s₀) := by
  refine (sure_specFor row.job.executionId).attempt_bind (fun log spec s' hs => ?_) fun _ _ hs =>
    settles (h.settled.of_sameTables hs)
  cases spec with
  | error e => exact ((h.of_sameTables hs).sure_failJob e).mono fun _ _ _ => Settles.append
  | ok spec =>
      refine (sure_takeStep (startOrResume spec row.job).2 spec hs).attempt_bind
        (fun log' step s'' hstep => ?_) fun _ _ hstep => settles (h.settled.of_sameTables hstep.1)
      have hclaimed := h.of_sameTables hstep.1
      cases step with
      | error e =>
          exact (hclaimed.sure_failJob e).mono fun _ _ _ hsettles => hsettles.append.append
      | ok step =>
          exact (sure_concludeStep hclaimed (hstep.2 step rfl) (goesOn_startOrResume h spec) step
            now).mono fun _ _ _ hsettles => hsettles.append.append

theorem sure_trigger (h : Settled s) (executionId : ℤ) :
    (trigger executionId).Sure (server fingerprint) s fun _ _ s' => Settled s' := by
  have hsure : (trigger executionId).Sure (server fingerprint) s fun log _ s' =>
      Settled s' ∧ ∀ m ∈ log, Triggering m.1 ∧ Settled m.2 := by
    refine asks_trigger.sure (fun q hq m s' hs => ?_) h
    have hpassed := hs.of_sameTables (sameTables_pass m)
    change Settled (effect m.ready (s'.pass m) q)
    rcases hq with hq | ⟨e, k, rfl⟩
    · rwa [effect_of_looking hq]
    · exact hpassed.insertJob e k
  exact hsure.mono fun _ _ _ h => h.1

theorem sure_advanceOne (h : Settled s) (hs : SameTables s₀ s) (now : ℤ) :
    (advanceOne now).Sure (server fingerprint) s (Settles s₀) := by
  refine .need_bind (fun m claimed hclaimed => ?_) (fun _ _ herror => by cases herror)
    (fun _ _ => settles h) (settles h)
  have hpassed := h.of_sameTables (sameTables_pass m)
  change Call.Sure (server fingerprint) _ (effect m.ready (s.pass m) (.claimNextStep now)) _
  have hreply : ((s.pass m).due now).map (·.job) = claimed := Except.ok.inj hclaimed
  cases hdue : (s.pass m).due now with
  | none =>
      rw [← hreply, hdue]
      simp only [effect, hdue]
      exact settles hpassed
  | some row =>
      obtain ⟨hrow, hclaimable⟩ := due_eq_some hdue
      have hunfinished := (claimable_iff.mp hclaimable).1
      rw [← hreply, hdue]
      simp only [effect, hdue]
      have hclaimed : Claimed s₀ ((s.pass m).claim row.job.id now)
          { row with claimedAt := some now } :=
        { settled := hpassed.claim hrow hunfinished now
          mem := mem_updateJob.mpr (.inl ⟨row, hrow, rfl, rfl⟩)
          unfinished := hunfinished
          before := fun row' hrow' hid => by
            have hmem : row' ∈ (s.pass m).jobs := hs.jobs ▸ hrow'
            rwa [hpassed.distinct.eq_of_id_eq hmem hrow hid] }
      exact sure_advanceClaimed hclaimed now

theorem sure_body (h : Settled s) (task : Task) :
    task.body.Sure (server fingerprint) s (Settles s) := by
  cases task with
  | advance =>
      refine .need_bind (fun m now _ => ?_) (fun _ _ herror => by cases herror)
        (fun _ _ => settles h) (settles h)
      exact sure_advanceOne (h.of_sameTables (sameTables_pass m)) (sameTables_pass m) now
  | trigger executionId =>
      exact .bind_ret ((sure_trigger h executionId).mono fun _ _ _ h => settles h)

theorem settled_happens (s : Store Content) (event : Event Content) (h : Settled s)
    (hunharmed : Unharmed fingerprint s event) : Settled (happens fingerprint s event) := by
  cases event with
  | call tried => exact (sure_body h tried.task).beset tried.inputs tried.mishaps hunharmed
  | edit edit => exact h.of_sameTables ⟨rfl, rfl, rfl, rfl⟩

end Calls

/-! ### A search of one step -/

instance decidableUnharmed (s : Store Content) (event : Event Content) :
    Decidable (Unharmed fingerprint s event) :=
  match event with
  | .call tried => inferInstanceAs (Decidable (∀ m ∈ (course fingerprint s tried).mishaps,
      ∀ row ∈ m.2.jobs, row.job.phase = .done → row ∈ s.jobs))
  | .edit _ => .isTrue trivial

def failingReport : Report.Report := { healthyReport with errorRate := 1 / 2 }

/-- A search is triggered and advanced. The report on its first step is settled when it is asked
for, and the target has given out. -/
def searched (mishaps : ℕ → Option Mishap) : List (Event String) :=
  [.call { task := .trigger 1, inputs := fun _ => calm, mishaps := fun _ => none },
    .call
      { task := .advance
        inputs := fun n => ⟨0, fun _ => if n = 12 then some failingReport else none, true⟩
        mishaps }]

end Honryu.Calibration
