import Honryu.Calibration.Advance

/-!
Whether the steps of one execution can overlap.

The lease is on the row of a job, and what a step drives is the execution. As long as no job is
claimed while another one of its execution is under a lease, the steps of an execution follow
each other.
-/

namespace Honryu.Calibration

open Call

/-! ### What is noted of a call -/

/-- The time that a call goes by, the job that it has claimed, the execution that it is running
a step of, and the job whose search it has ended. A step is running from when its load profile is
stored until its run is stopped, or else until the job is given up. -/
structure Progress where
  now : Option ℤ
  claimed : Option CalibrationJob
  running : Option ℤ
  ended : Option ℤ
  deriving DecidableEq

namespace Progress

def fresh : Progress := { now := none, claimed := none, running := none, ended := none }

def note : (q : Question) → Except Failure (Answer q) → Progress → Progress
  | .now, .ok t, g => if g.now = none then { g with now := some t } else g
  | .claimNextStep _, .ok (some job), g => { g with claimed := some job }
  | .storeLoadProfile e _, .ok (), g => { g with running := some e }
  | .stop _, _, g => { g with running := none }
  | .recordStep jobId _ updated, .ok (), g =>
      { g with
        claimed := none
        running := none
        ended := if updated.phase = .done then some jobId else none }
  | .markFailed _ _, _, g => { g with claimed := none, running := none }
  | _, _, g => g

/-- What a call may ask. It changes only the job that it has claimed, or whose search it has
ended, and stores load profiles only for the execution of the job it has claimed. -/
def rule (g : Progress) : Question → Prop
  | .claimNextStep now => g.now = some now ∧ g.claimed = none
  | .storeLoadProfile e _ => g.claimed.map (·.executionId) = some e
  | .recordStep jobId _ _ => g.claimed.map (·.id) = some jobId
  | .markFailed jobId _ => g.claimed.map (·.id) = some jobId ∨ g.ended = some jobId
  | .sleep duration => 0 ≤ duration
  | _ => True

end Progress

/-! ### The calls keep to the rule -/

section Obeys

variable {g : Progress} {job : CalibrationJob} {now : ℤ}

def Progress.atWork (now : ℤ) (job : CalibrationJob) (g : Progress) : Prop :=
  g.now = some now ∧ g.claimed = some job

abbrev Keeps {α : Type} (c : Proc α) (g : Progress) : Prop :=
  c.Obeys Progress.rule Progress.note (fun _ _ => True) g

theorem Looking.aside {q : Question} (h : Looking q) (g : Progress) :
    g.rule q ∧ ∀ r, Progress.note q r g = g := by
  cases q with
  | getExecution | criteriaFor | calibrationBoundsFor | loadProfileFor | stepsFor
  | scenarioFingerprint => exact ⟨trivial, fun r => by cases r <;> rfl⟩
  | _ => cases h

theorem RunningOf.keeps {q : Question} (h : RunningOf job.executionId q) (hg : g.atWork now job) :
    g.rule q ∧ ∀ r, (Progress.note q r g).atWork now job := by
  obtain ⟨hnow, hclaimed⟩ := hg
  cases q with
  | now =>
      refine ⟨trivial, fun r => ?_⟩
      cases r with
      | error e => exact ⟨hnow, hclaimed⟩
      | ok t => simp [Progress.note, hnow, Progress.atWork, hclaimed]
  | sleep duration =>
      cases h
      exact ⟨(by decide : (0 : ℤ) ≤ pollInterval), fun r => by cases r <;> exact ⟨hnow, hclaimed⟩⟩
  | storeLoadProfile e entries =>
      cases h
      refine ⟨by simp [Progress.rule, hclaimed], fun r => ?_⟩
      cases r <;> exact ⟨hnow, hclaimed⟩
  | loadProfileFor | deploy | trigger | currentRun | getReport | stop | touchActivity =>
      exact ⟨trivial, fun r => by cases r <;> exact ⟨hnow, hclaimed⟩⟩
  | _ => cases h

theorem keeps_failJob {α : Type} {jobId : ℤ} {reason : Failure}
    (h : g.rule (.markFailed jobId reason)) : Keeps (failJob jobId reason : Proc α) g :=
  ⟨h, fun _ => trivial⟩

theorem keeps_writeProfile (result : Result) : Keeps (writeProfile job result now) g := by
  have haside : ∀ {α : Type} {q : Question} {f : Answer q → Proc α}, Looking q →
      (∀ a, Keeps (f a) g) → Keeps (query q >>= f) g := by
    intro α q f hq hf
    exact (asks_need.mpr hq).obeys_bind (fun o ho => Looking.aside ho g) hf fun _ => trivial
  refine haside trivial fun exe => haside trivial fun entries => ?_
  split
  · refine haside trivial fun fingerprint => ?_
    exact obeys_need.mpr ⟨trivial, fun _ => trivial⟩
  · trivial

theorem keeps_finishSearch {done : Job} (h : g.ended = some job.id) :
    Keeps (finishSearch job done now) g := by
  have himpaired : (environmentImpaired job.id done).Asks Looking := by
    unfold environmentImpaired
    split
    · trivial
    · exact .need trivial fun _ => trivial
  refine himpaired.obeys_bind (fun o ho => Looking.aside ho g) (fun impaired => ?_) fun _ => trivial
  cases impaired with
  | true => exact keeps_failJob (.inr h)
  | false =>
      simp only [Bool.false_eq_true, if_false]
      split
      · exact keeps_writeProfile _
      · trivial

theorem keeps_concludeStep {search : Job} {step : Step} (hg : g.atWork now job) :
    Keeps (concludeStep job search step now) g := by
  refine ⟨by simp [Progress.rule, hg.2], fun r => ?_⟩
  cases r with
  | error e => trivial
  | ok u =>
      change Keeps (if _ then _ else _) _
      split
      · trivial
      · rename_i hdone
        refine keeps_finishSearch ?_
        exact if_pos (not_not.mp hdone)

theorem keeps_advanceClaimed (hg : g.atWork now job) : Keeps (advanceClaimed job now) g := by
  have hfail : ∀ {g : Progress} {α : Type} {reason : Failure}, g.atWork now job →
      Keeps (failJob job.id reason : Proc α) g :=
    fun hg => keeps_failJob (.inl (by simp [hg.2]))
  have hspec : (specFor job.executionId).Obeys Progress.rule Progress.note
      (fun _ => Progress.atWork now job) g :=
    asks_specFor.obeys (fun o ho => Looking.aside ho g) fun _ => hg
  refine hspec.attempt_bind fun spec g hg => ?_
  cases spec with
  | error e => exact hfail hg
  | ok spec =>
      have hstep : (takeStep job.executionId (startOrResume spec job).2 spec).Obeys Progress.rule
          Progress.note (fun _ => Progress.atWork now job) g :=
        (asks_takeStep _ _).obeys_within (Progress.atWork now job) (fun o g ho hg => ho.keeps hg) hg
          fun _ _ hg => hg
      refine hstep.attempt_bind fun step g hg => ?_
      cases step with
      | error e => exact hfail hg
      | ok step => exact keeps_concludeStep hg

theorem keeps_body (task : Task) : Keeps task.body .fresh := by
  cases task with
  | advance =>
      refine ⟨trivial, fun r => ?_⟩
      cases r with
      | error e => trivial
      | ok now =>
          refine ⟨⟨rfl, rfl⟩, fun r => ?_⟩
          cases r with
          | error e => trivial
          | ok claimed =>
              cases claimed with
              | none => trivial
              | some job => exact keeps_advanceClaimed ⟨rfl, rfl⟩
  | trigger executionId =>
      have hp : ∀ q, Triggering q →
          Progress.fresh.rule q ∧ ∀ r, Progress.note q r .fresh = .fresh := by
        rintro q (hq | ⟨e, k, rfl⟩)
        · exact hq.aside .fresh
        · exact ⟨trivial, fun r => rfl⟩
      exact asks_trigger.obeys_bind hp (fun _ => trivial) fun _ => trivial

end Obeys

/-! ### Replicas side by side -/

section Replicas

variable {Content : Type} (fingerprint : Content → String)

def replicas : Traffic Answer Failure Unit (Store Content) Moment Task Progress (Edit Content) where
  server := server fingerprint
  body := Task.body
  blank := .fresh
  opening _ := .fresh
  note := Progress.note
  outside edit s := s.edit edit

def InTime (p : Pool Answer Failure Unit (Store Content) Progress) : Prop :=
  ∀ i, (p.notes i).claimed ≠ none → ∀ t ∈ (p.notes i).now, p.state.clock ≤ t + leaseFor

/-- The other jobs of the execution of the job that is claimed are not under a lease. -/
def NoSibling (s : Store Content) (now : ℤ) : Prop :=
  ∀ row ∈ s.due now, ∀ other ∈ s.jobs, other.job.id ≠ row.job.id →
    other.job.executionId = row.job.executionId → other.unfinished →
      ∀ t ∈ other.claimedAt, t + leaseFor < now

/-- Every step takes no longer than the lease, and no job is claimed while another one of its
execution is under a lease. -/
def OneByOne (p : Pool Answer Failure Unit (Store Content) Progress) :
    Turn Moment Task (Edit Content) → Prop
  | .go i _ _ => InTime p ∧ ∀ now, Traffic.asks p i = some (.claimNextStep now) →
      NoSibling p.state now
  | _ => InTime p

/-- No two steps of an execution are running, and nobody is about to rewrite the load profile of
an execution that another one is running a step of. -/
structure Apart (p : Pool Answer Failure Unit (Store Content) Progress) : Prop where
  running : ∀ i j e, (p.notes i).running = some e → (p.notes j).running = some e → i = j
  rewriting : ∀ i j e entries, Traffic.asks p i = some (.storeLoadProfile e entries) →
    (p.notes j).running = some e → i = j

/-! ### The jobs in hand -/

/-- What holds of one call. The job that it has claimed is under its lease, and the one whose
search it has ended stays ended. -/
structure InHand (s : Store Content) (g : Progress) : Prop where
  now : ∀ t ∈ g.now, t ≤ s.clock
  claimed : ∀ job ∈ g.claimed, ∃ row ∈ s.jobs, row.job.id = job.id ∧
    row.job.executionId = job.executionId ∧ row.unfinished ∧ row.claimedAt = g.now ∧ g.now ≠ none
  running : ∀ e ∈ g.running, ∃ job ∈ g.claimed, job.executionId = e
  ended : ∀ jobId ∈ g.ended, ∃ row ∈ s.jobs, row.job.id = jobId ∧ ¬row.unfinished

structure Leased (s : Store Content) (notes : ℕ → Progress) : Prop where
  distinct : s.DistinctJobs
  each : ∀ i, InHand s (notes i)
  apart : ∀ i j job job', (notes i).claimed = some job → (notes j).claimed = some job' →
    job.executionId = job'.executionId → i = j

section Leased

variable {fingerprint} {s s' : Store Content} {notes : ℕ → Progress} {g : Progress} {i : ℕ}
  {ready : Bool}

theorem InHand.frame (h : InHand s g) (hjobs : ∀ row ∈ s.jobs, row ∈ s'.jobs)
    (hclock : s.clock ≤ s'.clock) : InHand s' g where
  now t ht := (h.now t ht).trans hclock
  claimed job hjob := by
    obtain ⟨row, hrow, hrest⟩ := h.claimed job hjob
    exact ⟨row, hjobs row hrow, hrest⟩
  running := h.running
  ended jobId hjobId := by
    obtain ⟨row, hrow, hrest⟩ := h.ended jobId hjobId
    exact ⟨row, hjobs row hrow, hrest⟩

theorem InHand.release (h : InHand s g) : InHand s { g with claimed := none, running := none } :=
  ⟨h.now, fun _ hnone => absurd hnone (Option.not_mem_none _),
    fun _ hnone => absurd hnone (Option.not_mem_none _), h.ended⟩

theorem InHand.stopped (h : InHand s g) : InHand s { g with running := none } :=
  ⟨h.now, h.claimed, fun _ hnone => absurd hnone (Option.not_mem_none _), h.ended⟩

/-- An update of one row, seen by a call that has not claimed it. -/
theorem InHand.updateJob (h : InHand s g) {jobId : ℤ} {f : JobRow → JobRow}
    (hid : ∀ row, (f row).job.id = row.job.id) (hclaimed : ∀ job ∈ g.claimed, job.id ≠ jobId)
    (hended : jobId ∈ g.ended → ∀ row ∈ s.jobs, row.job.id = jobId → ¬row.unfinished →
      ¬(f row).unfinished) : InHand (s.updateJob jobId f) g where
  now := h.now
  claimed job hjob := by
    obtain ⟨row, hrow, hrowid, hrest⟩ := h.claimed job hjob
    exact ⟨row, mem_updateJob.mpr (.inr ⟨hrow, hrowid ▸ hclaimed job hjob⟩), hrowid, hrest⟩
  running := h.running
  ended id hmem := by
    obtain ⟨row, hrow, rfl, hfinished⟩ := h.ended id hmem
    by_cases heq : row.job.id = jobId
    · exact ⟨f row, mem_updateJob.mpr (.inl ⟨row, hrow, heq, rfl⟩), hid row,
        hended (heq ▸ hmem) row hrow heq hfinished⟩
    · exact ⟨row, mem_updateJob.mpr (.inr ⟨hrow, heq⟩), rfl, hfinished⟩

/-- It is enough to say what the others see of a question, and what the one who asks has in hand
after it. -/
theorem Leased.update (h : Leased s notes) (hdistinct : s'.DistinctJobs)
    (hothers : ∀ j, j ≠ i → InHand s' (notes j)) (hmine : InHand s' g)
    (hclaimed : ∀ job ∈ g.claimed, (notes i).claimed = some job ∨
      ∀ j, j ≠ i → ∀ job' ∈ (notes j).claimed, job.executionId ≠ job'.executionId) :
    Leased s' (Function.update notes i g) := by
  have hmixed : ∀ j, j ≠ i → ∀ job job', g.claimed = some job → (notes j).claimed = some job' →
      job.executionId ≠ job'.executionId := by
    intro j hj job job' hjob hjob' heq
    rcases hclaimed job hjob with hold | hnew
    · exact hj (h.apart j i job' job hjob' hold heq.symm)
    · exact hnew j hj job' hjob' heq
  refine ⟨hdistinct, fun j => ?_, fun j k job job' hjob hjob' heq => ?_⟩
  · by_cases hj : j = i
    · rwa [hj, Function.update_self]
    · rw [Function.update_of_ne hj]
      exact hothers j hj
  · by_cases hj : j = i <;> by_cases hk : k = i
    · rw [hj, hk]
    · rw [hj, Function.update_self] at hjob
      rw [Function.update_of_ne hk] at hjob'
      exact absurd heq (hmixed k hk job job' hjob hjob')
    · rw [Function.update_of_ne hj] at hjob
      rw [hk, Function.update_self] at hjob'
      exact absurd heq.symm (hmixed j hj job' job hjob' hjob)
    · rw [Function.update_of_ne hj] at hjob
      rw [Function.update_of_ne hk] at hjob'
      exact h.apart j k job job' hjob hjob' heq

theorem Leased.frame (h : Leased s notes) (hjobs : s'.jobs = s.jobs ∧ s'.nextJob = s.nextJob)
    (hclock : s.clock ≤ s'.clock) (hmine : InHand s' g)
    (hclaimed : g.claimed = none ∨ g.claimed = (notes i).claimed) :
    Leased s' (Function.update notes i g) := by
  refine h.update ⟨hjobs.1 ▸ h.distinct.nodup, ?_⟩
    (fun j _ => (h.each j).frame (by rw [hjobs.1]; exact fun _ => id) hclock) hmine
    fun job hjob => ?_
  · rw [hjobs.1, hjobs.2]
    exact h.distinct.lt
  · rcases hclaimed with hnone | hsame
    · cases hnone.symm.trans hjob
    · exact .inl (hsame ▸ hjob)

/-- What one call has claimed no other one has, and nobody has ended it. -/
theorem Leased.claimed_by_one (h : Leased s notes) {job : CalibrationJob}
    (hjob : (notes i).claimed = some job) {j : ℕ} (hj : j ≠ i) :
    (∀ job' ∈ (notes j).claimed, job'.id ≠ job.id) ∧ job.id ∉ (notes j).ended := by
  obtain ⟨row, hrow, hid, hexecution, hunfinished, -⟩ := (h.each i).claimed job hjob
  refine ⟨fun job' hjob' heq => ?_, fun hended => ?_⟩
  · obtain ⟨row', hrow', hid', hexecution', -⟩ := (h.each j).claimed job' hjob'
    obtain rfl := h.distinct.eq_of_id_eq hrow hrow' (hid.trans (heq.symm.trans hid'.symm))
    exact hj (h.apart j i job' job hjob' hjob (hexecution'.symm.trans hexecution))
  · obtain ⟨row', hrow', hid', hfinished⟩ := (h.each j).ended job.id hended
    obtain rfl := h.distinct.eq_of_id_eq hrow hrow' (hid.trans hid'.symm)
    exact hfinished hunfinished

/-- A job is claimed that nobody has in hand, and none of its execution either. -/
theorem Leased.claim (h : Leased s notes) {now : ℤ} (hnow : (notes i).now = some now)
    (hfree : (notes i).claimed = none) (hsibling : NoSibling s now)
    (htime : ∀ j, (notes j).claimed ≠ none → ∀ t ∈ (notes j).now, now ≤ t + leaseFor)
    {row : JobRow} (hdue : s.due now = some row) :
    Leased (s.claim row.job.id now)
      (Function.update notes i { notes i with claimed := some row.job }) := by
  obtain ⟨hrow, hclaimable⟩ := due_eq_some hdue
  obtain ⟨hunfinished, hexpired⟩ := claimable_iff.mp hclaimable
  have hheld : ∀ j job', (notes j).claimed = some job' →
      job'.id ≠ row.job.id ∧ job'.executionId ≠ row.job.executionId := by
    intro j job' hjob'
    obtain ⟨row', hrow', hid', hexecution', hunfinished', hat, hne⟩ := (h.each j).claimed job' hjob'
    obtain ⟨t, ht⟩ := Option.ne_none_iff_exists'.mp hne
    have hleased : ¬t + leaseFor < now :=
      not_lt.mpr (htime j (by rw [hjob']; exact Option.some_ne_none _) t ht)
    have hid : job'.id ≠ row.job.id := by
      intro heq
      obtain rfl := h.distinct.eq_of_id_eq hrow' hrow (hid'.trans heq)
      exact hleased (hexpired t (hat.trans ht))
    exact ⟨hid, fun heq => hleased (hsibling row hdue row' hrow' (hid' ▸ hid)
      (hexecution'.trans heq) hunfinished' t (hat.trans ht))⟩
  have hsees : ∀ j, InHand (s.claim row.job.id now) (notes j) := fun j =>
    (h.each j).updateJob (fun _ => rfl) (fun job' hjob' => (hheld j job' hjob').1)
      fun _ _ _ _ hfinished => hfinished
  refine h.update (h.distinct.updateJob fun _ => rfl) (fun j _ => hsees j) ?_ fun job hjob => ?_
  · refine ⟨(hsees i).now, fun job hjob => ?_, fun e he => ?_, (hsees i).ended⟩
    · obtain rfl := Option.some_inj.mp hjob
      exact ⟨{ row with claimedAt := some now }, mem_updateJob.mpr (.inl ⟨row, hrow, rfl, rfl⟩), rfl,
        rfl, hunfinished, hnow.symm, by rw [hnow]; exact Option.some_ne_none _⟩
    · obtain ⟨job, hjob, -⟩ := (hsees i).running e he
      cases hfree.symm.trans hjob
  · obtain rfl := Option.some_inj.mp hjob
    exact .inr fun j _ job' hjob' heq => (hheld j job' hjob').2 heq.symm

theorem Leased.claimed_by_none (h : Leased s notes) {jobId : ℤ}
    (hmine : (notes i).claimed.map (·.id) = some jobId ∨ (notes i).ended = some jobId) {j : ℕ}
    (hj : j ≠ i) : ∀ job' ∈ (notes j).claimed, job'.id ≠ jobId := by
  rcases hmine with hclaimed | hended
  · obtain ⟨job, hjob, rfl⟩ := Option.map_eq_some_iff.mp hclaimed
    exact (h.claimed_by_one hjob hj).1
  · rintro job' hjob' rfl
    obtain ⟨row, hrow, hid, -, hunfinished, -⟩ := (h.each j).claimed job' hjob'
    obtain ⟨row', hrow', hid', hfinished⟩ := (h.each i).ended job'.id hended
    obtain rfl := h.distinct.eq_of_id_eq hrow hrow' (hid.trans hid'.symm)
    exact hfinished hunfinished

theorem Leased.hasJob (h : Leased s notes) {jobId : ℤ}
    (hclaimed : (notes i).claimed.map (·.id) = some jobId) : s.hasJob jobId = true := by
  obtain ⟨job, hjob, rfl⟩ := Option.map_eq_some_iff.mp hclaimed
  obtain ⟨row, hrow, hid, -⟩ := (h.each i).claimed job hjob
  exact List.any_eq_true.mpr ⟨row, hrow, decide_eq_true hid⟩

theorem Leased.record (h : Leased s notes) {jobId : ℤ} (step : Step) (updated : CalibrationJob)
    (hclaimed : (notes i).claimed.map (·.id) = some jobId) :
    Leased (s.record jobId step updated)
      (Function.update notes i
        { notes i with
          claimed := none
          running := none
          ended := if updated.phase = .done then some jobId else none }) := by
  obtain ⟨job, hjob, rfl⟩ := Option.map_eq_some_iff.mp hclaimed
  obtain ⟨row, hrow, hid, -⟩ := (h.each i).claimed job hjob
  have hdistinct : (s.updateJob job.id (·.recorded updated)).DistinctJobs :=
    h.distinct.updateJob fun _ => rfl
  refine h.update ⟨hdistinct.nodup, hdistinct.lt⟩ (fun j hj => ?_) ?_
    fun _ hnone => absurd hnone (Option.not_mem_none _)
  · obtain ⟨hothers, hended⟩ := h.claimed_by_one hjob hj
    have hsees : InHand (s.updateJob job.id (·.recorded updated)) (notes j) :=
      (h.each j).updateJob (fun _ => rfl) hothers fun hmem => absurd hmem hended
    exact hsees.frame (fun _ => id) le_rfl
  · refine ⟨(h.each i).now, fun _ hnone => absurd hnone (Option.not_mem_none _),
      fun _ hnone => absurd hnone (Option.not_mem_none _), fun id hmem => ?_⟩
    simp only [Option.mem_def, Option.ite_none_right_eq_some, Option.some_inj] at hmem
    obtain ⟨hdone, rfl⟩ := hmem
    refine ⟨row.recorded updated, mem_updateJob.mpr (.inl ⟨row, hrow, hid, rfl⟩), hid, ?_⟩
    simp [JobRow.unfinished, JobRow.recorded, hdone]

/-- A job that one has claimed, or whose search one has ended, is marked as failed. -/
theorem Leased.markFailed (h : Leased s notes) {jobId : ℤ} {reason : Failure}
    (hmine : (notes i).claimed.map (·.id) = some jobId ∨ (notes i).ended = some jobId) :
    Leased (s.markFailed jobId reason)
      (Function.update notes i { notes i with claimed := none, running := none }) := by
  have hfailed : ∀ row : JobRow, ¬(row.failedWith reason).unfinished := by
    intro row
    simp [JobRow.unfinished, JobRow.failedWith]
  refine h.update (h.distinct.updateJob fun _ => rfl) (fun j hj => ?_) ?_
    fun _ hnone => absurd hnone (Option.not_mem_none _)
  · exact (h.each j).updateJob (fun _ => rfl) (h.claimed_by_none hmine hj)
      fun _ row _ _ _ => hfailed row
  · exact (h.each i).release.updateJob (fun _ => rfl)
      (fun _ hnone => absurd hnone (Option.not_mem_none _)) fun _ row _ _ _ => hfailed row

theorem leased_performed (h : Leased s notes) {q : Question} (hrule : (notes i).rule q)
    (hclaims : ∀ now, q = .claimNextStep now → NoSibling s now ∧
      ∀ j, (notes j).claimed ≠ none → ∀ t ∈ (notes j).now, now ≤ t + leaseFor) :
    Leased (effect ready s q)
      (Function.update notes i (Progress.note q (reply fingerprint ready s q) (notes i))) := by
  -- what changes neither a row nor what is noted
  have haside : ∀ q : Question, q.sparesJobs → s.clock ≤ (effect ready s q).clock →
      Leased (effect ready s q) (Function.update notes i (notes i)) := by
    intro q hq hclock
    obtain ⟨hjobs, hnext, -⟩ : (effect ready s q).jobs = s.jobs ∧
        (effect ready s q).nextJob = s.nextJob ∧ _ := effect_of_sparesJobs hq
    exact h.frame ⟨hjobs, hnext⟩ hclock
      ((h.each i).frame (by rw [hjobs]; exact fun _ => id) hclock) (.inr rfl)
  cases q with
  | now =>
      simp only [reply, Progress.note]
      split
      · rename_i hnone
        refine h.frame ⟨rfl, rfl⟩ le_rfl ⟨?_, fun job hjob => ?_, ?_, ?_⟩ (.inr rfl)
        · rintro t ⟨⟩
          exact le_rfl
        · obtain ⟨-, -, -, -, -, -, hne⟩ := (h.each i).claimed job hjob
          exact absurd hnone hne
        · exact (h.each i).running
        · exact (h.each i).ended
      · exact haside .now trivial le_rfl
  | sleep duration => exact haside (.sleep duration) trivial (le_add_of_nonneg_right hrule)
  | claimNextStep now =>
      obtain ⟨hsibling, htime⟩ := hclaims now rfl
      cases hdue : s.due now with
      | none =>
          simp only [effect, reply, hdue]
          exact haside (.touchActivity 0) trivial le_rfl
      | some row =>
          simp only [effect, reply, hdue]
          exact h.claim hrule.1 hrule.2 hsibling htime hdue
  | createCalibrationJob e k =>
      have hold : ∀ row ∈ s.jobs, row ∈ (s.insertJob e k).jobs :=
        fun row hrow => List.mem_append_left _ hrow
      exact h.update (h.distinct.insertJob e k) (fun j _ => (h.each j).frame hold le_rfl)
        ((h.each i).frame hold le_rfl) fun job hjob => .inl hjob
  | storeLoadProfile e entries =>
      obtain ⟨job, hjob, rfl⟩ := Option.map_eq_some_iff.mp hrule
      refine h.frame ⟨rfl, rfl⟩ le_rfl ⟨(h.each i).now, (h.each i).claimed, ?_, (h.each i).ended⟩
        (.inr rfl)
      rintro _ ⟨⟩
      exact ⟨job, hjob, rfl⟩
  | stop e =>
      exact h.frame ⟨rfl, rfl⟩ le_rfl ((h.each i).stopped.frame (fun _ => id) le_rfl) (.inr rfl)
  | recordStep jobId step updated =>
      simp only [effect, reply, h.hasJob hrule, if_true]
      exact h.record step updated hrule
  | markFailed jobId reason => exact h.markFailed hrule
  | deploy e =>
      refine haside (.deploy e) trivial ?_
      simp only [effect]
      split <;> exact le_rfl
  | trigger e =>
      refine haside (.trigger e) trivial ?_
      simp only [effect]
      split <;> exact le_rfl
  | getExecution | criteriaFor | calibrationBoundsFor | loadProfileFor | currentRun | getReport
  | touchActivity | stepsFor | scenarioFingerprint => exact haside (.touchActivity 0) trivial le_rfl
  | upsertCapacityProfile profile => exact haside (.upsertCapacityProfile profile) trivial le_rfl

theorem note_error (q : Question) (e : Failure) (g : Progress) :
    Progress.note q (.error e) g = g ∨ Progress.note q (.error e) g = { g with running := none } ∨
      Progress.note q (.error e) g = { g with claimed := none, running := none } := by
  cases q with
  | stop => exact .inr (.inl rfl)
  | markFailed => exact .inr (.inr rfl)
  | _ => exact .inl rfl

theorem inHand_fresh : InHand s .fresh := by
  refine ⟨?_, ?_, ?_, ?_⟩ <;> exact fun _ hnone => absurd hnone (Option.not_mem_none _)

end Leased

theorem preserves_leased :
    (replicas fingerprint).Preserves Progress.rule (fun _ => True) OneByOne Leased where
  body := keeps_body
  opening p i task h hblank _ := by
    have hsame : Function.update p.notes i ((replicas fingerprint).opening task) = p.notes :=
      Function.update_eq_self_iff.mpr hblank.symm
    rwa [hsame]
  closing s notes i h _ :=
    h.frame ⟨rfl, rfl⟩ le_rfl inHand_fresh (.inl rfl)
  performed p i q m fails h hasks hrule hok _ := by
    have hclock : p.state.clock ≤ (p.state.pass m).clock :=
      le_add_of_nonneg_right (Int.natCast_nonneg _)
    have hpassed : Leased (p.state.pass m) p.notes :=
      ⟨⟨h.distinct.nodup, h.distinct.lt⟩, fun j => (h.each j).frame (fun _ => id) hclock, h.apart⟩
    refine leased_performed hpassed hrule fun now hq => ⟨hok.2 now (hq ▸ hasks), ?_⟩
    subst hq
    intro j hclaimed t ht
    exact ((h.each i).now now hrule.1).trans (hok.1 j hclaimed t ht)
  failed p i q m e h _ _ _ _ := by
    change Leased p.state (Function.update p.notes i (Progress.note q (.error e) (p.notes i)))
    rcases note_error q e (p.notes i) with hnote | hnote | hnote <;> rw [hnote]
    · exact h.frame ⟨rfl, rfl⟩ le_rfl (h.each i) (.inr rfl)
    · exact h.frame ⟨rfl, rfl⟩ le_rfl (h.each i).stopped (.inr rfl)
    · exact h.frame ⟨rfl, rfl⟩ le_rfl (h.each i).release (.inl rfl)
  outside p edit h _ :=
    ⟨⟨h.distinct.nodup, h.distinct.lt⟩, fun j => (h.each j).frame (fun _ => id) le_rfl, h.apart⟩

/-- In every run in which no step takes longer than the lease, and no job is claimed while another
one of its execution is under a lease, the steps of an execution never overlap. -/
theorem apart_run (s : Store Content) (hs : s.DistinctJobs)
    (turns : List (Turn Moment Task (Edit Content)))
    (hok : (replicas fingerprint).Along OneByOne ((replicas fingerprint).quiet s) turns) :
    Apart ((replicas fingerprint).run ((replicas fingerprint).quiet s) turns) := by
  have hquiet : Leased s fun _ => Progress.fresh :=
    ⟨hs, fun _ => inHand_fresh, fun _ _ _ _ hnone => absurd hnone (Option.not_mem_none _)⟩
  obtain ⟨htidy, h⟩ := (preserves_leased fingerprint).run hquiet hok
  refine ⟨fun i j e hi hj => ?_, fun i j e entries hasks hj => ?_⟩
  · obtain ⟨job, hjob, hexecution⟩ := (h.each i).running e hi
    obtain ⟨job', hjob', hexecution'⟩ := (h.each j).running e hj
    exact h.apart i j job job' hjob hjob' (hexecution.trans hexecution'.symm)
  · obtain ⟨job, hjob, hexecution⟩ := Option.map_eq_some_iff.mp (htidy.rule_of_asks hasks)
    obtain ⟨job', hjob', hexecution'⟩ := (h.each j).running e hj
    exact h.apart i j job job' hjob hjob' (hexecution.trans hexecution'.symm)

end Replicas

/-! ### Two jobs -/

def advances (i questions : ℕ) : List (Turn Moment Task (Edit String)) :=
  .start i .advance :: List.replicate questions (.go i calm false)

/-- The job of a search that is to run at a rate next. -/
def jobAt (id executionId : ℤ) (qps : ℚ) : JobRow :=
  { job :=
      { id, executionId, scenarioId := 1, phase := .bracketing, stepCount := 1
        bracketLoRequested := qps / 2, bracketLoAchieved := qps / 2, bracketHiRequested := 0
        nextRequestedQPS := qps, result := none, failureReason := none }
    claimedAt := none }

def claimsAlone (s : Store String) : Option Question → Bool
  | some (.claimNextStep now) =>
      match s.due now with
      | some row => s.jobs.all fun other =>
          other.job.id = row.job.id || other.job.executionId ≠ row.job.executionId
      | none => true
  | _ => true

def oneByOne (p : Pool Answer Failure Unit (Store String) Progress)
    (t : Turn Moment Task (Edit String)) : Bool :=
  ([0, 1].all fun i => (p.notes i).now.all fun t => p.state.clock ≤ t + leaseFor) &&
    match t with
    | .go i _ _ => claimsAlone p.state (Traffic.asks p i)
    | _ => true

theorem oneByOne_of_eq_true (p : Pool Answer Failure Unit (Store String) Progress)
    (t : Turn Moment Task (Edit String)) (hothers : ∀ i, i ∉ [0, 1] → p.notes i = .fresh)
    (h : oneByOne p t = true) : OneByOne p t := by
  unfold oneByOne at h
  rw [Bool.and_eq_true, List.all_eq_true] at h
  have hintime : InTime p := by
    intro i hclaimed t ht
    by_cases hi : i ∈ [0, 1]
    · have hall := h.1 i hi
      rw [Option.mem_def.mp ht] at hall
      exact of_decide_eq_true hall
    · rw [hothers i hi] at hclaimed
      exact absurd rfl hclaimed
  cases t with
  | start => exact hintime
  | outside => exact hintime
  | go i m fails =>
      refine ⟨hintime, fun now hasks row hrow other hother hid hexecution => ?_⟩
      have halone := h.2
      simp only [hasks, claimsAlone, Option.mem_def.mp hrow, List.all_eq_true] at halone
      simpa [hid, hexecution] using halone other hother

/-- Two jobs of two executions are advanced side by side. -/
theorem apart_twoExecutions :
    let p := (replicas id).run ((replicas id).quiet (storeWith [jobAt 1 1 20, jobAt 2 2 10]))
      (advances 0 11 ++ advances 1 7)
    (p.notes 0).running = some 1 ∧ (p.notes 1).running = some 2 ∧ Apart p := by
  refine ⟨by decide +kernel, by decide +kernel, ?_⟩
  refine apart_run id _ ⟨by decide +kernel, by decide +kernel⟩ _ ?_
  exact Traffic.Along.of_callers [0, 1] (by decide) oneByOne_of_eq_true (fun _ _ => rfl)
    (by decide +kernel : (replicas id).Along (oneByOne · · = true) _ _)

/-- Two jobs of one execution are advanced side by side, and no time passes. The second step
rewrites the load profile while the run of the first one is open. -/
theorem not_apart_twoJobs :
    let p := (replicas id).run ((replicas id).quiet (storeWith [jobAt 1 1 20, jobAt 2 1 10]))
      (advances 0 11 ++ advances 1 7)
    p.state.clock = 0 ∧ p.state.marker 1 = some 1 ∧
      (p.state.loadProfiles 1).map (·.throughput) = [10] ∧ ¬Apart p := by
  refine ⟨by decide +kernel, by decide +kernel, by decide +kernel, fun h => ?_⟩
  exact absurd (h.running 0 1 1 (by decide +kernel) (by decide +kernel)) (by decide)

end Honryu.Calibration
