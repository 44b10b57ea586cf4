import Honryu.Calibration.Advance

/-!
A search that is stored after every step.

In memory `Next` is iterated from `Start`. The service keeps a search in a row: a replica claims
it, resumes the search from what is there, takes a step and records what `Next` makes of it. The
next step may be taken by another replica, and a replica may die between the two.
-/

namespace Honryu.Calibration

/-! ### In memory -/

abbrev Trial := ℚ → Step

structure Snapshot where
  phase : Phase
  stepCount : ℤ
  bracketLoRequested : ℚ
  bracketLoAchieved : ℚ
  bracketHiRequested : ℚ
  result : Option Result
  deriving DecidableEq

def Job.snapshot (job : Job) : Snapshot :=
  { phase := job.phase, stepCount := job.stepCount
    bracketLoRequested := job.bracketLoRequested, bracketLoAchieved := job.bracketLoAchieved
    bracketHiRequested := job.bracketHiRequested, result := job.result }

def CalibrationJob.snapshot (job : CalibrationJob) : Snapshot :=
  { phase := job.phase, stepCount := job.stepCount
    bracketLoRequested := job.bracketLoRequested, bracketLoAchieved := job.bracketLoAchieved
    bracketHiRequested := job.bracketHiRequested, result := job.result }

/-- A step that was taken: the rate it was asked to run at, and where the search is found to stand
after it. -/
structure Taken where
  requestedQPS : ℚ
  snapshot : Option Snapshot
  deriving DecidableEq

/-- `Next` is iterated until the search is done. -/
def iterate : Job × Action → List Trial → List Taken
  | _, [] => []
  | (job, action), trial :: trials =>
      if action.done then []
      else
        let updated := next job (trial action.nextRequestedQPS)
        { requestedQPS := action.nextRequestedQPS, snapshot := some updated.1.snapshot } ::
          iterate updated trials

def uninterrupted (spec : Spec) (trials : List Trial) : List Taken := iterate (start spec) trials

def advance (search : Job × Action) (trial : Trial) : Job × Action :=
  if search.2.done then search else next search.1 (trial search.2.nextRequestedQPS)

def standing (spec : Spec) (trials : List Trial) : Job × Action := trials.foldl advance (start spec)

theorem iterate_of_done {search : Job × Action} (h : search.2.done = true) (trials : List Trial) :
    iterate search trials = [] := by
  cases trials with
  | nil => rfl
  | cons trial trials => exact if_pos h

theorem foldl_advance_of_done {search : Job × Action} (h : search.2.done = true)
    (trials : List Trial) : trials.foldl advance search = search := by
  induction trials with
  | nil => rfl
  | cons trial trials ih => rw [List.foldl_cons, advance, if_pos h, ih]

theorem iterate_concat (search : Job × Action) (trials : List Trial) (trial : Trial) :
    iterate search (trials ++ [trial]) =
      iterate search trials ++
        if (trials.foldl advance search).2.done then []
        else
          [{ requestedQPS := (trials.foldl advance search).2.nextRequestedQPS
             snapshot := some (advance (trials.foldl advance search) trial).1.snapshot }] := by
  induction trials generalizing search with
  | nil =>
      rw [List.foldl_nil, List.nil_append, iterate, iterate, List.nil_append, advance]
      by_cases hdone : search.2.done = true
      · rw [if_pos hdone, if_pos hdone]
      · rw [if_neg hdone, if_neg hdone, if_neg hdone]
        rfl
  | cons first trials ih =>
      by_cases hdone : search.2.done = true
      · rw [foldl_advance_of_done hdone, if_pos hdone, iterate_of_done hdone, iterate_of_done hdone]
        rfl
      · rw [List.cons_append, List.foldl_cons, iterate, iterate, advance, if_neg hdone, if_neg hdone,
          if_neg hdone]
        simp only [ih, List.cons_append]

theorem standing_concat (spec : Spec) (trials : List Trial) (trial : Trial) :
    standing spec (trials ++ [trial]) = advance (standing spec trials) trial := by
  rw [standing, List.foldl_append]
  rfl

/-! ### In the store -/

structure Logged where
  trial : Trial
  taken : Taken

structure Journal (Content : Type) where
  store : Store Content
  log : ℤ → List Logged

inductive SearchEvent
  /-- A search is triggered. -/
  | create (executionId scenarioId : ℤ)
  /-- A replica claims a job, takes a step, and records it. -/
  | step (now : ℤ) (trial : Trial)
  /-- A replica claims a job, and dies before it has recorded a step. -/
  | abandon (now : ℤ)
  /-- A replica claims a job, and marks it as failed. -/
  | fail (now : ℤ) (reason : Failure)

/-- `GetCalibrationJob`. -/
def Store.getCalibrationJob {Content : Type} (s : Store Content) (jobId : ℤ) :
    Option CalibrationJob :=
  (s.jobs.find? fun row => row.job.id = jobId).map (·.job)

section Journal

variable {Content : Type} (specs : ℤ → Spec)

def CalibrationJob.stepped (persisted : CalibrationJob) (spec : Spec) (trial : Trial) :
    CalibrationJob :=
  let started := startOrResume spec persisted
  let updated := next started.1 (trial started.2)
  applyDomainJob persisted updated.1 updated.2

def Store.takenStep (s : Store Content) (persisted : CalibrationJob) (trial : Trial) :
    Store Content :=
  s.record persisted.id (trial (startOrResume (specs persisted.id) persisted).2)
    (persisted.stepped (specs persisted.id) trial)

def Journal.apply (j : Journal Content) : SearchEvent → Journal Content
  | .create executionId scenarioId =>
      { j with store := j.store.insertJob executionId scenarioId }
  | .step now trial =>
      match j.store.due now with
      | none => j
      | some row =>
          let store := (j.store.claim row.job.id now).takenStep specs row.job trial
          { store
            log := Function.update j.log row.job.id (j.log row.job.id ++
              [{ trial
                 taken :=
                   { requestedQPS := (startOrResume (specs row.job.id) row.job).2
                     snapshot := (store.getCalibrationJob row.job.id).map (·.snapshot) } }]) }
  | .abandon now =>
      match j.store.due now with
      | none => j
      | some row => { j with store := j.store.claim row.job.id now }
  | .fail now reason =>
      match j.store.due now with
      | none => j
      | some row =>
          { j with store := (j.store.claim row.job.id now).markFailed row.job.id reason }

def Journal.run (j : Journal Content) (events : List SearchEvent) : Journal Content :=
  events.foldl (Journal.apply specs) j

def Store.journal (s : Store Content) : Journal Content := { store := s, log := fun _ => [] }

end Journal

/-! ### Resuming -/

structure Resumes (spec : Spec) (job : CalibrationJob) (search : Job × Action) : Prop where
  resumed : startOrResume spec job = (search.1, search.2.nextRequestedQPS)
  goesOn : search.1.goesOn
  not_done : search.2.done = false

theorem resumes_start (spec : Spec) {job : CalibrationJob} (hphase : job.phase = .pending) :
    Resumes spec job (start spec) where
  resumed := if_pos hphase
  goesOn := ⟨.inl rfl, rfl⟩
  not_done := rfl

theorem startOrResume_spec (spec : Spec) (job : CalibrationJob) :
    (startOrResume spec job).1.spec = spec := by
  unfold startOrResume
  split <;> rfl

/-! ### The service keeps its searches -/

section Service

variable {Content : Type} {specs : ℤ → Spec} {j : Journal Content}

def Journal.trials (j : Journal Content) (jobId : ℤ) : List Trial := (j.log jobId).map (·.trial)

/-- What was seen is what the searches would have done in memory, and what is stored is enough to
go on with them. -/
structure Journal.Faithful (specs : ℤ → Spec) (j : Journal Content) : Prop where
  distinct : j.store.DistinctJobs
  unborn : ∀ jobId, j.store.nextJob ≤ jobId → j.log jobId = []
  taken : ∀ jobId, (j.log jobId).map (·.taken) = uninterrupted (specs jobId) (j.trials jobId)
  resumes : ∀ row ∈ j.store.jobs, row.unfinished →
    Resumes (specs row.job.id) row.job (standing (specs row.job.id) (j.trials row.job.id))

theorem faithful_journal {s : Store Content} (hs : s.jobs = []) : s.journal.Faithful specs where
  distinct :=
    ⟨by rw [Store.journal, hs]; exact List.nodup_nil, fun row hrow =>
      absurd (hs ▸ hrow : row ∈ []) List.not_mem_nil⟩
  unborn _ _ := rfl
  taken _ := rfl
  resumes row hrow := absurd (hs ▸ hrow : row ∈ []) List.not_mem_nil

theorem Journal.Faithful.create (h : j.Faithful specs) (executionId scenarioId : ℤ) :
    (j.apply specs (.create executionId scenarioId)).Faithful specs where
  distinct := h.distinct.insertJob executionId scenarioId
  unborn jobId hid := h.unborn jobId (le_trans (by exact le_of_lt (lt_add_one _)) hid)
  taken := h.taken
  resumes := by
    intro row hrow hunfinished
    rcases List.mem_append.mp hrow with hrow | hrow
    · exact h.resumes row hrow hunfinished
    · obtain rfl := List.mem_singleton.mp hrow
      have hlog := h.unborn j.store.nextJob (le_refl _)
      simp only [Journal.apply, Journal.trials, hlog]
      exact resumes_start _ rfl

/-- Updates of the row of a job that leave its search alone, or end it. -/
theorem Journal.Faithful.updateJob (h : j.Faithful specs) {jobId : ℤ} {f : JobRow → JobRow}
    (hid : ∀ row, (f row).job.id = row.job.id)
    (hf : ∀ row, (f row).unfinished → row.unfinished ∧ (f row).job = row.job) :
    ({ j with store := j.store.updateJob jobId f } : Journal Content).Faithful specs where
  distinct := h.distinct.updateJob hid
  unborn := h.unborn
  taken := h.taken
  resumes := by
    intro row hrow hunfinished
    rcases mem_updateJob.mp hrow with ⟨old, hold, -, rfl⟩ | ⟨hrow, -⟩
    · obtain ⟨hwas, hjob⟩ := hf old hunfinished
      rw [hjob]
      exact h.resumes old hold hwas
    · exact h.resumes row hrow hunfinished

theorem Journal.Faithful.claim (h : j.Faithful specs) (jobId now : ℤ) :
    ({ j with store := j.store.claim jobId now } : Journal Content).Faithful specs :=
  h.updateJob (fun _ => rfl) fun _ hrow => ⟨hrow, rfl⟩

theorem Journal.Faithful.markFailed (h : j.Faithful specs) (jobId : ℤ) (reason : Failure) :
    ({ j with store := j.store.markFailed jobId reason } : Journal Content).Faithful specs :=
  h.updateJob (fun _ => rfl) fun _ hrow => by rcases hrow with h | h | h <;> cases h

section Step

variable {s : Store Content} {job : CalibrationJob} {trial : Trial} {search : Job × Action}
  {spec : Spec}

theorem Resumes.advance_eq (h : Resumes spec job search) :
    advance search trial = Calibration.next search.1 (trial search.2.nextRequestedQPS) :=
  if_neg (by rw [h.not_done]; exact Bool.noConfusion)

theorem Resumes.snapshot_stepped (h : Resumes spec job search) :
    (job.stepped spec trial).snapshot = (advance search trial).1.snapshot := by
  rw [CalibrationJob.stepped, h.resumed, h.advance_eq]
  rfl

/-- What is stored of a search that has begun is what it is resumed from. The spec is not stored. -/
theorem startOrResume_applyDomainJob (job : CalibrationJob) {updated : Job} (action : Action)
    (hphase : updated.phase ≠ .pending) :
    startOrResume updated.spec (applyDomainJob job updated action) =
      (updated, action.nextRequestedQPS) :=
  if_neg hphase

/-- After a step the search is done, or it can be resumed from what is stored. -/
theorem Resumes.stepped (h : Resumes spec job search) :
    (advance search trial).2.done = true ∧ (job.stepped spec trial).phase = .done ∨
      Resumes spec (job.stepped spec trial) (advance search trial) := by
  have hspec : search.1.spec = spec := by rw [← startOrResume_spec spec job, h.resumed]
  rw [h.advance_eq, CalibrationJob.stepped, h.resumed]
  rcases next_ends_or_goesOn h.goesOn (trial search.2.nextRequestedQPS) with
    ⟨hdone, hend, -⟩ | ⟨hdone, hgoes⟩
  · exact .inl ⟨hdone, hend⟩
  · refine .inr ⟨?_, hgoes, hdone⟩
    have hpending : (next search.1 (trial search.2.nextRequestedQPS)).1.phase ≠ .pending := by
      rcases hgoes.1 with h | h <;> rw [h] <;> exact Phase.noConfusion
    rw [← hspec, ← next_spec search.1 (trial search.2.nextRequestedQPS)]
    exact startOrResume_applyDomainJob job _ hpending

theorem Resumes.unfinished {row : JobRow} (h : Resumes spec row.job search) : row.unfinished := by
  by_cases hpending : row.job.phase = .pending
  · exact .inl hpending
  · have hresumed := h.resumed
    rw [startOrResume, if_neg hpending] at hresumed
    have hphase : row.job.phase = search.1.phase := congrArg (fun r => r.1.phase) hresumed
    exact .inr (hphase ▸ h.goesOn.1)

theorem mem_takenStep (hdistinct : s.DistinctJobs) (hjob : ∃ row ∈ s.jobs, row.job = job)
    {row' : JobRow} :
    row' ∈ (s.takenStep specs job trial).jobs ↔
      row' = { job := job.stepped (specs job.id) trial, claimedAt := none } ∨
        row' ∈ s.jobs ∧ row'.job.id ≠ job.id := by
  obtain ⟨row, hrow, rfl⟩ := hjob
  refine mem_updateJob.trans (or_congr_left ⟨?_, ?_⟩)
  · rintro ⟨old, hold, hid, rfl⟩
    rw [hdistinct.eq_of_id_eq hold hrow hid]
    rfl
  · rintro rfl
    exact ⟨row, hrow, rfl, rfl⟩

theorem Store.DistinctJobs.claim (h : s.DistinctJobs) (jobId now : ℤ) :
    (s.claim jobId now).DistinctJobs :=
  h.updateJob fun _ => rfl

theorem distinctJobs_takenStep (hdistinct : s.DistinctJobs) (job : CalibrationJob) :
    (s.takenStep specs job trial).DistinctJobs := by
  have hupdated : (s.updateJob job.id (·.recorded (job.stepped (specs job.id) trial))).DistinctJobs :=
    hdistinct.updateJob fun _ => rfl
  exact ⟨hupdated.nodup, hupdated.lt⟩

theorem getCalibrationJob_takenStep (hdistinct : s.DistinctJobs)
    (hjob : ∃ row ∈ s.jobs, row.job = job) :
    (s.takenStep specs job trial).getCalibrationJob job.id =
      some (job.stepped (specs job.id) trial) := by
  have hmem : { job := job.stepped (specs job.id) trial, claimedAt := none } ∈
      (s.takenStep specs job trial).jobs := (mem_takenStep hdistinct hjob).mpr (.inl rfl)
  have hfind := (Keyed.find?_eq_some_iff (distinctJobs_takenStep hdistinct job).nodup).mpr
    ⟨hmem, rfl⟩
  exact congrArg (Option.map _) hfind

end Step

theorem log_apply_step (hdistinct : j.store.DistinctJobs) {now : ℤ} {row : JobRow}
    (hdue : j.store.due now = some row) {search : Job × Action}
    (h : Resumes (specs row.job.id) row.job search) (trial : Trial) :
    (j.apply specs (.step now trial)).log =
      Function.update j.log row.job.id (j.log row.job.id ++
        [{ trial
           taken :=
             { requestedQPS := search.2.nextRequestedQPS
               snapshot := some (advance search trial).1.snapshot } }]) := by
  -- in the row that was claimed the job is the same
  have hclaimed := hdistinct.claim row.job.id now
  have hjob : ∃ row' ∈ (j.store.claim row.job.id now).jobs, row'.job = row.job :=
    ⟨_, mem_updateJob.mpr (.inl ⟨row, (due_eq_some hdue).1, rfl, rfl⟩), rfl⟩
  have hget : ((j.store.claim row.job.id now).takenStep specs row.job trial).getCalibrationJob
      row.job.id = some (row.job.stepped (specs row.job.id) trial) :=
    getCalibrationJob_takenStep hclaimed hjob
  simp only [Journal.apply, hdue, hget, Option.map_some, h.resumed, h.snapshot_stepped]

theorem store_apply_step {now : ℤ} {row : JobRow} (hdue : j.store.due now = some row)
    (trial : Trial) :
    (j.apply specs (.step now trial)).store =
      (j.store.claim row.job.id now).takenStep specs row.job trial := by
  rw [Journal.apply, hdue]

theorem Journal.Faithful.step (h : j.Faithful specs) {now : ℤ} {row : JobRow}
    (hdue : j.store.due now = some row) (trial : Trial) :
    (j.apply specs (.step now trial)).Faithful specs := by
  obtain ⟨hrow, hclaimable⟩ := due_eq_some hdue
  have hresumes := h.resumes row hrow (claimable_iff.mp hclaimable).1
  have hclaimed := h.claim row.job.id now
  have hlog := log_apply_step h.distinct hdue hresumes trial
  have hstore : (j.apply specs (.step now trial)).store = _ := store_apply_step hdue trial
  refine ⟨?_, fun jobId hid => ?_, fun jobId => ?_, fun r hr hunfinished => ?_⟩
  · rw [hstore]
    exact distinctJobs_takenStep hclaimed.distinct row.job
  · rw [hstore] at hid
    have hne : jobId ≠ row.job.id := (lt_of_lt_of_le (h.distinct.lt row hrow) hid).ne'
    rw [hlog, Function.update_of_ne hne]
    exact h.unborn jobId hid
  · rw [Journal.trials, hlog]
    rcases eq_or_ne jobId row.job.id with rfl | hne
    · have hdone : ¬(standing (specs row.job.id) (j.trials row.job.id)).2.done = true := by
        rw [hresumes.not_done]
        exact Bool.noConfusion
      simp only [Function.update_self, List.map_append, List.map_singleton]
      rw [uninterrupted, iterate_concat, h.taken]
      exact congrArg _ (if_neg hdone).symm
    · rw [Function.update_of_ne hne]
      exact h.taken jobId
  · rw [hstore] at hr
    rw [Journal.trials, hlog]
    rcases (mem_takenStep hclaimed.distinct ⟨_, mem_updateJob.mpr (.inl ⟨row, hrow, rfl, rfl⟩),
      rfl⟩).mp hr with rfl | ⟨hr, hne⟩
    · have hid : (row.job.stepped (specs row.job.id) trial).id = row.job.id := rfl
      rw [hid, Function.update_self, List.map_append, List.map_singleton, standing_concat]
      exact hresumes.stepped.resolve_left fun hdone => hunfinished.not_done hdone.2
    · rw [Function.update_of_ne hne]
      exact hclaimed.resumes r hr hunfinished

theorem Journal.Faithful.apply (h : j.Faithful specs) (e : SearchEvent) :
    (j.apply specs e).Faithful specs := by
  cases e with
  | create executionId scenarioId => exact h.create executionId scenarioId
  | step now trial =>
      cases hdue : j.store.due now with
      | none => 
        simp only [Journal.apply, hdue]
        exact h
      | some row => exact h.step hdue trial
  | abandon now =>
      rw [Journal.apply]
      split
      · exact h
      · exact h.claim _ now
  | fail now reason =>
      rw [Journal.apply]
      split
      · exact h
      · exact (h.claim _ now).markFailed _ reason

theorem Journal.Faithful.run (h : j.Faithful specs) (events : List SearchEvent) :
    (j.run specs events).Faithful specs := by
  induction events generalizing j with
  | nil => exact h
  | cons e events ih => exact ih (h.apply e)

/-! ### One search -/

theorem due_singleton {s : Store Content} {row : JobRow} (hjobs : s.jobs = [row])
    (hclaim : row.claimedAt = none) (now : ℤ) :
    s.due now = if row.unfinished then some row else none := by
  have hclaimable : Store.claimable now row = decide row.unfinished := by
    rw [Store.claimable, hclaim]
    exact decide_eq_decide.mpr (and_iff_left (.inl rfl))
  rw [Store.due, hjobs, List.find?_singleton, hclaimable]
  simp only [decide_eq_true_iff]

/-- The job is the only one, and nobody has it. What follows in the log is what the search does in
memory from where it stands. -/
theorem taken_run_steps {row : JobRow} {search : Job × Action} (hjobs : j.store.jobs = [row])
    (hclaim : row.claimedAt = none) (hdistinct : j.store.DistinctJobs)
    (hsearch : search.2.done = true ∧ row.job.phase = .done ∨
      Resumes (specs row.job.id) row.job search) (rounds : List (ℤ × Trial)) :
    ((j.run specs (rounds.map fun r => .step r.1 r.2)).log row.job.id).map (·.taken) =
      (j.log row.job.id).map (·.taken) ++ iterate search (rounds.map (·.2)) := by
  induction rounds generalizing j row search with
  | nil =>
      rw [List.map_nil, List.map_nil, iterate, List.append_nil]
      rfl
  | cons round rounds ih =>
      obtain ⟨now, trial⟩ := round
      have hdue := due_singleton hjobs hclaim now
      rw [List.map_cons, List.map_cons, Journal.run, List.foldl_cons]
      rcases hsearch with ⟨hdone, hphase⟩ | hresumes
      · rw [if_neg fun h => h.not_done hphase] at hdue
        have happly : j.apply specs (.step now trial) = j := by rw [Journal.apply, hdue]
        have hrest := ih hjobs hclaim hdistinct (.inl ⟨hdone, hphase⟩)
        rw [iterate_of_done hdone] at hrest ⊢
        rw [happly]
        exact hrest
      · rw [if_pos hresumes.unfinished] at hdue
        let stepped : JobRow :=
          { job := row.job.stepped (specs row.job.id) trial, claimedAt := none }
        have hstore : (j.apply specs (.step now trial)).store.jobs = [stepped] := by
          rw [store_apply_step hdue]
          simp only [Store.takenStep, Store.record, Store.claim, Store.updateJob, hjobs,
            List.map_singleton, if_pos]
          rfl
        have hdistinct' : (j.apply specs (.step now trial)).store.DistinctJobs := by
          rw [store_apply_step hdue]
          exact distinctJobs_takenStep (hdistinct.claim row.job.id now) row.job
        have hrest := ih hstore rfl hdistinct' hresumes.stepped
        rw [log_apply_step hdistinct hdue hresumes trial] at hrest
        have hid : stepped.job.id = row.job.id := rfl
        rw [hid, Function.update_self, List.map_append, List.append_assoc,
          hresumes.advance_eq] at hrest
        rw [iterate, if_neg (by rw [hresumes.not_done]; exact Bool.noConfusion)]
        exact hrest

end Service

/-- A search that is kept in the store takes the steps that it would take in memory: in whatever
order replicas claim, abandon, fail and advance any number of jobs, and in particular if all that
happens is that one job is advanced by one trial after the other. -/
theorem persisted_eq_uninterrupted {Content : Type} (specs : ℤ → Spec) (s : Store Content)
    (hs : s.jobs = []) :
    (∀ events jobId, ((s.journal.run specs events).log jobId).map (·.taken) =
        uninterrupted (specs jobId) (((s.journal.run specs events).log jobId).map (·.trial))) ∧
      ∀ (executionId scenarioId : ℤ) (rounds : List (ℤ × Trial)),
        ((s.journal.run specs (.create executionId scenarioId ::
            rounds.map fun r => .step r.1 r.2)).log s.nextJob).map (·.taken) =
          uninterrupted (specs s.nextJob) (rounds.map (·.2)) := by
  have hbegins : s.journal.Faithful specs := faithful_journal hs
  refine ⟨fun events jobId => (hbegins.run events).taken jobId,
    fun executionId scenarioId rounds => ?_⟩
  have hcreated := hbegins.create executionId scenarioId
  obtain ⟨row, hjobs, hid, hclaim, hphase⟩ :
      ∃ row, (s.journal.apply specs (.create executionId scenarioId)).store.jobs = [row] ∧
        row.job.id = s.nextJob ∧ row.claimedAt = none ∧ row.job.phase = .pending := by
    rw [Journal.apply, Store.insertJob, Store.journal, hs, List.nil_append]
    exact ⟨_, rfl, rfl, rfl, rfl⟩
  have hrun := taken_run_steps hjobs hclaim hcreated.distinct
    (.inr (resumes_start (specs row.job.id) hphase)) rounds
  rw [hid] at hrun
  exact hrun

theorem persisted_eq_uninterrupted_storeWith :
    (storeWith []).jobs = [] ∧
      (((storeWith []).journal.run (fun _ => Search.defaultSpec)
          [.create 1 1, .step 0 fun qps => ⟨qps, qps, .clean⟩,
            .step 5 fun qps => ⟨qps, 1, .targetSaturated⟩]).log 1).map (·.taken) =
        uninterrupted Search.defaultSpec
          [fun qps => ⟨qps, qps, .clean⟩, fun qps => ⟨qps, 1, .targetSaturated⟩] :=
  ⟨rfl, (persisted_eq_uninterrupted (fun _ => Search.defaultSpec) (storeWith []) rfl).2 1 1
    [(0, fun qps => ⟨qps, qps, .clean⟩), (5, fun qps => ⟨qps, 1, .targetSaturated⟩)]⟩

end Honryu.Calibration
