import Honryu.ScenarioApp.Versions

/-!
Uploads that fail.

`UploadFile` records the file, makes a scenario with a script a native one, and stores the file, each
in a call of its own. If storing fails it takes the record back, but not the kind; and if setting the
kind fails it takes back nothing.
-/

namespace Honryu.ScenarioApp

open Taurus

/-- The calls that `UploadFile` makes, those of `captureVersion` among them, apart from the one that
takes the record back. -/
inductive UploadCall
  | getScenario
  | scenarioFilesFor
  | captureGetScenario
  | captureScenarioFilesFor
  | captureScenarioRequests
  | appendScenarioVersion
  | addScenarioFile
  | setScenarioKind
  | upload
  deriving DecidableEq

inductive UploadError
  | refused (e : Failure)
  | failed (call : UploadCall)
  deriving DecidableEq

structure Stored where
  store : Store
  objects : String → Option String

abbrev Upload := ExceptT UploadError (StateM Stored)

namespace Upload

def onStore {α : Type} (x : Service α) : Upload α := ExceptT.mk fun s =>
  match x.run.run s.store with
  | (.ok a, store) => (.ok a, { s with store })
  | (.error e, store) => (.error (.refused e), { s with store })

def scenarioKey (scenarioId : ℤ) (filename : String) : String := s!"scenario/{scenarioId}/{filename}"

section Calls

variable (cfg : Setting) (failing : Option UploadCall) (filename actor content : String)

def answers (call : UploadCall) : Upload Unit :=
  if failing = some call then throw (.failed call) else pure ()

/-- `UploadFile`, up to the version that it records. -/
def check : Upload Unit := do
  onStore (refuse (validateFilename filename = false) .invalidFilename)
  answers failing .getScenario
  answers failing .scenarioFilesFor
  let pf ← onStore (scenarioFilesFor cfg)
  onStore (refuse (filePresent pf filename (isTestFile filename) = true) .fileExists)
  answers failing .captureGetScenario
  answers failing .captureScenarioFilesFor
  answers failing .captureScenarioRequests
  answers failing .appendScenarioVersion
  onStore (captureVersion cfg actor)

def setKind : Upload Unit :=
  match engineForArtefact filename with
  | some engine => do
      answers failing .setScenarioKind
      onStore (setScenarioKind .native engine)
  | none => pure ()

/-- `s.store.Upload`, and taking the record back if it fails. -/
def put : Upload Unit := do
  if failing = some .upload then
    tryCatch (onStore (deleteScenarioFile cfg filename (isTestFile filename))) fun _ => pure ()
    throw (.failed .upload)
  else
    modify fun s =>
      { s with
        objects := Function.update s.objects (scenarioKey s.store.live.row.id filename) (some content) }

/-- `UploadFile`, from the record of the file on. -/
def record : Upload Unit := do
  answers failing .addScenarioFile
  onStore (addScenarioFile cfg filename (isTestFile filename))
  setKind failing filename
  put cfg failing filename content

def uploadFile : Upload Unit := do
  check cfg failing filename actor
  record cfg failing filename content

end Calls

/-! ### What a call leaves as it is -/

structure Unchanged (s s' : Stored) : Prop where
  kind : s'.store.live.row.kind = s.store.live.row.kind
  engine : s'.store.live.row.engine = s.store.live.row.engine
  testFile : s'.store.live.testFile = s.store.live.testFile
  data : s'.store.live.data = s.store.live.data
  objects : s'.objects = s.objects

theorem Unchanged.of_eq {s s' : Stored} (hlive : s'.store.live = s.store.live)
    (hobjects : s'.objects = s.objects) : Unchanged s s' := by
  constructor <;> first | rw [hlive] | exact hobjects

/-- A call that leaves the scenario and the objects as they are, whether it fails or not. -/
def Keeps {α : Type} (x : Upload α) : Prop :=
  ∀ s, (x.run.run s).2.store.live = s.store.live ∧ (x.run.run s).2.objects = s.objects

theorem Keeps.bind {α β : Type} {x : Upload α} {f : α → Upload β} (hx : Keeps x)
    (hf : ∀ a, Keeps (f a)) : Keeps (x >>= f) := by
  intro s
  have hx := hx s
  rw [Checked.run_bind]
  generalize x.run.run s = r at hx
  obtain ⟨r, s'⟩ := r
  cases r with
  | error e => exact hx
  | ok a => exact ⟨(hf a s').1.trans hx.1, (hf a s').2.trans hx.2⟩

theorem run_onStore {α : Type} (x : Service α) (s : Stored) :
    (onStore x).run.run s =
      ((x.run.run s.store).1.mapError .refused, { s with store := (x.run.run s.store).2 }) := by
  have hrun : (onStore x).run.run s =
      match x.run.run s.store with
      | (.ok a, store) => (.ok a, { s with store })
      | (.error e, store) => (.error (.refused e), { s with store }) := rfl
  rw [hrun]
  rcases x.run.run s.store with ⟨r, store⟩
  cases r <;> rfl

theorem keeps_onStore {α : Type} {x : Service α} (hx : ∀ s, (x.run.run s).2.live = s.live) :
    Keeps (onStore x) := by
  intro s
  rw [run_onStore]
  exact ⟨hx s.store, rfl⟩

theorem keeps_answers (failing : Option UploadCall) (call : UploadCall) :
    Keeps (answers failing call) := by
  intro s
  unfold answers
  split <;> exact ⟨rfl, rfl⟩

section Upload

variable {cfg : Setting} {failing : Option UploadCall} {filename actor content : String}

theorem keeps_check : Keeps (check cfg failing filename actor) := by
  have hrefuse : ∀ (c : Prop) [Decidable c] (e : Failure), Keeps (onStore (refuse c e)) := by
    intro c _ e
    refine keeps_onStore fun s => ?_
    unfold refuse
    split <;> rfl
  refine (hrefuse _ _).bind fun _ => (keeps_answers _ _).bind fun _ => (keeps_answers _ _).bind fun _ =>
    (keeps_onStore fun s => rfl).bind fun pf => (hrefuse _ _).bind fun _ => ?_
  exact (keeps_answers _ _).bind fun _ => (keeps_answers _ _).bind fun _ =>
    (keeps_answers _ _).bind fun _ => (keeps_answers _ _).bind fun _ => keeps_onStore fun s => rfl

theorem run_answers (failing : Option UploadCall) (call : UploadCall) (s : Stored) :
    (answers failing call).run.run s =
      if failing = some call then (.error (.failed call), s) else (.ok (), s) := by
  unfold answers
  split <;> rfl

theorem valid_of_check {s s' : Stored} {u : Unit}
    (h : (check cfg failing filename actor).run.run s = (.ok u, s')) :
    validateFilename filename = true := by
  by_contra hinvalid
  rw [Bool.not_eq_true] at hinvalid
  unfold check at h
  rw [refuse, if_pos hinvalid] at h
  cases h

/-- With nothing that speaks against it, the checks are passed. -/
theorem check_ok {s : Stored} {call : UploadCall} (hcall : call = .setScenarioKind ∨ call = .upload)
    (hvalid : validateFilename filename = true) (htest : isTestFile filename = true)
    (hnone : s.store.live.testFile = none) :
    ∃ s', (check cfg (some call) filename actor).run.run s = (.ok (), s') := by
  have hanswers : ∀ (c : UploadCall) (s : Stored), call ≠ c →
      (answers (some call) c).run.run s = (.ok (), s) := by
    intro c s hne
    rw [run_answers, if_neg fun h => hne (Option.some.inj h)]
  have hne : filename ≠ "" := by
    rintro rfl
    cases hvalid
  have hrefuse : ∀ (c : Prop) [Decidable c] (e : Failure) (s : Stored), ¬c →
      (onStore (refuse c e)).run.run s = (.ok (), s) := by
    intro c _ e s hc
    rw [refuse, if_neg hc]
    rfl
  have hfiles : (onStore (scenarioFilesFor cfg)).run.run s =
      (.ok ⟨s.store.live.testFile.getD "", cfg.listed s.store.live.data⟩, s) := rfl
  have habsent : ¬filePresent ⟨s.store.live.testFile.getD "", cfg.listed s.store.live.data⟩ filename
      (isTestFile filename) = true := by
    rw [hnone, htest]
    simpa [filePresent] using hne.symm
  have hlater : ∀ c, c ≠ .setScenarioKind → c ≠ .upload → call ≠ c := by
    rintro c hkind hupload rfl
    exact hcall.elim hkind hupload
  unfold check
  rw [Checked.run_bind_of_ok (hrefuse _ _ s (by rw [hvalid]; nofun)),
    Checked.run_bind_of_ok (hanswers .getScenario s (hlater _ nofun nofun)),
    Checked.run_bind_of_ok (hanswers .scenarioFilesFor s (hlater _ nofun nofun)),
    Checked.run_bind_of_ok hfiles, Checked.run_bind_of_ok (hrefuse _ _ s habsent),
    Checked.run_bind_of_ok (hanswers .captureGetScenario s (hlater _ nofun nofun)),
    Checked.run_bind_of_ok (hanswers .captureScenarioFilesFor s (hlater _ nofun nofun)),
    Checked.run_bind_of_ok (hanswers .captureScenarioRequests s (hlater _ nofun nofun)),
    Checked.run_bind_of_ok (hanswers .appendScenarioVersion s (hlater _ nofun nofun))]
  exact ⟨_, rfl⟩

theorem run_addScenarioFile_test (s : Store) :
    (addScenarioFile cfg filename true).run.run s =
      if s.live.testFile.isSome = true then (.error .fileExists, s)
      else (.ok (), s.withTestFile (some filename)) := by
  change (refuse _ _ >>= fun _ => modifyLive _).run.run s = _
  unfold refuse
  split <;> rfl

theorem run_addScenarioFile_data (s : Store) :
    (addScenarioFile cfg filename false).run.run s =
      if ∃ name ∈ s.live.data, cfg.collate name = cfg.collate filename then (.error .fileExists, s)
      else (.ok (), s.withData (insert filename s.live.data)) := by
  change (refuse _ _ >>= fun _ => modifyLive _).run.run s = _
  unfold refuse
  split <;> rfl

/-- What is done after a file could not be stored, whether the record is there or not. -/
theorem run_tryCatch (x : Upload Unit) (s : Stored) :
    (tryCatch x fun _ => pure ()).run.run s = (.ok (), (x.run.run s).2) := by
  simp only [tryCatch, tryCatchThe, MonadExceptOf.tryCatch, ExceptT.tryCatch, ExceptT.run_mk,
    StateT.run_bind]
  have hx : StateT.run x s = x.run.run s := rfl
  rw [hx]
  rcases x.run.run s with ⟨r, s'⟩
  cases r <;> rfl

theorem run_put (s : Stored) :
    (put cfg failing filename content).run.run s =
      if failing = some .upload then
        (.error (.failed .upload), { s with
          store := ((deleteScenarioFile cfg filename (isTestFile filename)).run.run s.store).2 })
      else
        (.ok (), { s with
          objects := Function.update s.objects (scenarioKey s.store.live.row.id filename)
            (some content) }) := by
  unfold put
  split
  · rw [Checked.run_bind_of_ok (run_tryCatch _ s), run_onStore]
    rfl
  · rfl

theorem isTestFile_of_some {engine : Executor} (h : engineForArtefact filename = some engine) :
    isTestFile filename = true := by rw [isTestFile, h]; rfl

theorem isTestFile_of_none (h : engineForArtefact filename = none) :
    isTestFile filename = false := by rw [isTestFile, h]; rfl

/-- Recording a script: what is left when the scenario has no script yet. -/
theorem run_record_script {s : Stored} {engine : Executor}
    (hengine : engineForArtefact filename = some engine) (hnone : s.store.live.testFile = none) :
    (record cfg failing filename content).run.run s =
      if failing = some .addScenarioFile then (.error (.failed .addScenarioFile), s)
      else if failing = some .setScenarioKind then
        (.error (.failed .setScenarioKind),
          { s with store := s.store.withTestFile (some filename) })
      else
        (put cfg failing filename content).run.run
          { s with
            store := { s.store with
              live := { s.store.live with
                testFile := some filename
                row := { s.store.live.row with kind := .native, engine } } } } := by
  unfold record
  rw [Checked.run_bind, run_answers]
  by_cases hadd : failing = some .addScenarioFile
  · simp only [if_pos hadd]
  · simp only [if_neg hadd]
    rw [isTestFile_of_some hengine, Checked.run_bind, run_onStore, run_addScenarioFile_test,
      if_neg (by rw [hnone]; nofun)]
    simp only [Except.mapError, setKind, hengine]
    rw [Checked.run_bind, Checked.run_bind, run_answers]
    by_cases hkind : failing = some .setScenarioKind
    · simp only [if_pos hkind]
    · simp only [if_neg hkind]
      rfl

theorem run_record_script_taken {s : Stored} {engine : Executor}
    (hengine : engineForArtefact filename = some engine) (hsome : s.store.live.testFile ≠ none) :
    ((record cfg failing filename content).run.run s).2 = s := by
  unfold record
  rw [Checked.run_bind, run_answers]
  by_cases hadd : failing = some .addScenarioFile
  · simp only [if_pos hadd]
  · simp only [if_neg hadd]
    rw [isTestFile_of_some hengine, Checked.run_bind, run_onStore, run_addScenarioFile_test,
      if_pos (Option.isSome_iff_ne_none.mpr hsome)]
    rfl

theorem run_record_data {s s' : Stored} {e : UploadError} (hengine : engineForArtefact filename = none)
    (h : (record cfg failing filename content).run.run s = (.error e, s')) : s' = s := by
  unfold record at h
  rw [Checked.run_bind, run_answers] at h
  by_cases hadd : failing = some .addScenarioFile
  · simp only [if_pos hadd] at h
    exact (congrArg Prod.snd h).symm
  · simp only [if_neg hadd] at h
    rw [isTestFile_of_none hengine, Checked.run_bind, run_onStore, run_addScenarioFile_data] at h
    by_cases htaken : ∃ name ∈ s.store.live.data, cfg.collate name = cfg.collate filename
    · rw [if_pos htaken] at h
      exact (congrArg Prod.snd h).symm
    · rw [if_neg htaken] at h
      simp only [Except.mapError, setKind, hengine] at h
      rw [Checked.run_bind] at h
      change (put cfg failing filename content).run.run _ = _ at h
      rw [run_put, isTestFile_of_none hengine] at h
      by_cases hupload : failing = some .upload
      · have hdelete : (deleteScenarioFile cfg filename false).run.run
            (s.store.withData (insert filename s.store.live.data)) = (.ok (), _) :=
          run_deleteDataFile.mpr ⟨⟨filename, Finset.mem_insert_self _ _, rfl⟩, rfl⟩
        have hback : (insert filename s.store.live.data).filter
            (fun name => cfg.collate name ≠ cfg.collate filename) = s.store.live.data := by
          rw [Finset.filter_insert, if_neg (not_not_intro rfl), Finset.filter_eq_self]
          exact fun name hname heq => htaken ⟨name, hname, heq⟩
        rw [if_pos hupload, hdelete] at h
        have hs' := (congrArg Prod.snd h).symm
        simp only [Store.withData, hback] at hs'
        exact hs'
      · rw [if_neg hupload] at h
        cases h

end Upload

def FailsCleanly (cfg : Setting) (failing : Option UploadCall) (filename actor content : String)
    (s : Stored) : Prop :=
  ∀ e s', (uploadFile cfg failing filename actor content).run.run s = (.error e, s') → Unchanged s s'

/-- An upload fails cleanly, whichever call fails, unless it is one of a script to a scenario without
one and setting the kind fails, or storing the file does and the scenario was not of that kind. -/
theorem failsCleanly_iff (cfg : Setting) (failing : Option UploadCall)
    (filename actor content : String) (s : Stored) :
    FailsCleanly cfg failing filename actor content s ↔
      ∀ engine, engineForArtefact filename = some engine → validateFilename filename = true →
        s.store.live.testFile = none →
          failing ≠ some .setScenarioKind ∧
            (failing = some .upload →
              s.store.live.row.kind = .native ∧ s.store.live.row.engine = engine) := by
  have hkeeps := (keeps_check : Keeps (check cfg failing filename actor)) s
  constructor
  · intro hclean engine hengine hvalid hnone
    have hchecked : ∀ call, call = .setScenarioKind ∨ call = .upload → failing = some call →
        ∃ s₁, (check cfg failing filename actor).run.run s = (.ok (), s₁) := by
      rintro call hcall rfl
      exact check_ok hcall hvalid (isTestFile_of_some hengine) hnone
    constructor
    · intro hfailing
      obtain ⟨s₁, hcheck⟩ := hchecked _ (.inl rfl) hfailing
      rw [hcheck] at hkeeps
      have hrun : (uploadFile cfg failing filename actor content).run.run s =
          (.error (.failed .setScenarioKind),
            { s₁ with store := s₁.store.withTestFile (some filename) }) := by
        rw [uploadFile, Checked.run_bind_of_ok hcheck, run_record_script hengine (hkeeps.1 ▸ hnone),
          if_neg (by rw [hfailing]; nofun), if_pos hfailing]
      have hfile := (hclean _ _ hrun).testFile
      rw [hnone] at hfile
      cases hfile
    · intro hfailing
      obtain ⟨s₁, hcheck⟩ := hchecked _ (.inr rfl) hfailing
      rw [hcheck] at hkeeps
      rcases hrun : (uploadFile cfg failing filename actor content).run.run s with ⟨r, s'⟩
      have hrun' := hrun
      rw [uploadFile, Checked.run_bind_of_ok hcheck, run_record_script hengine (hkeeps.1 ▸ hnone),
        if_neg (by rw [hfailing]; nofun), if_neg (by rw [hfailing]; nofun), run_put,
        if_pos hfailing, isTestFile_of_some hengine, (run_deleteTestFile (u := ())).mpr ⟨rfl, rfl⟩]
        at hrun'
      obtain ⟨rfl, rfl⟩ := Prod.mk.inj hrun'
      have hsame := hclean _ _ hrun
      exact ⟨hsame.kind.symm, hsame.engine.symm⟩
  · intro h e s' hrun
    rw [uploadFile, Checked.run_bind] at hrun
    rcases hcheck : (check cfg failing filename actor).run.run s with ⟨r, s₁⟩
    rw [hcheck] at hkeeps hrun
    cases r with
    | error e' =>
        obtain ⟨-, rfl⟩ := Prod.mk.inj hrun
        exact .of_eq hkeeps.1 hkeeps.2
    | ok u =>
        cases hengine : engineForArtefact filename with
        | none =>
            obtain rfl := run_record_data hengine hrun
            exact .of_eq hkeeps.1 hkeeps.2
        | some engine =>
            by_cases hnone : s₁.store.live.testFile = none
            · obtain ⟨hkind, hupload⟩ := h engine hengine (valid_of_check hcheck) (hkeeps.1 ▸ hnone)
              simp only [run_record_script hengine hnone, if_neg hkind, run_put] at hrun
              split at hrun
              · obtain ⟨-, rfl⟩ := Prod.mk.inj hrun
                exact .of_eq hkeeps.1 hkeeps.2
              · split at hrun
                next hfailing =>
                  obtain ⟨hnative, hpinned⟩ := hupload hfailing
                  rw [isTestFile_of_some hengine, (run_deleteTestFile (u := ())).mpr ⟨rfl, rfl⟩] at hrun
                  obtain ⟨-, rfl⟩ := Prod.mk.inj hrun
                  have hdata : s₁.store.live.data = s.store.live.data := congrArg Live.data hkeeps.1
                  exact ⟨hnative.symm, hpinned.symm, by rw [← hkeeps.1, hnone]; rfl, hdata, hkeeps.2⟩
                · cases hrun
            · obtain rfl := (congrArg Prod.snd hrun).symm.trans (run_record_script_taken hengine hnone)
              exact .of_eq hkeeps.1 hkeeps.2

def portableShop : Stored where
  store :=
    { live :=
        { row := ⟨1, "shop", 1, .portable, ⟨""⟩, none, "ann", "ann", 0, false, ""⟩
          testFile := none, data := ∅, requests := none }
      versions := [] }
  objects _ := none

/-- The object store does not take the script: the scenario is a native one without a script. -/
theorem not_failsCleanly_portableShop :
    ¬FailsCleanly plainSetting (some .upload) "plan.jmx" "ann" "<plan/>" portableShop := by
  intro h
  have hfailed : ((uploadFile plainSetting (some .upload) "plan.jmx" "ann" "<plan/>").run.run
      portableShop).1 = .error (.failed .upload) := by decide +kernel
  have hkind : ((uploadFile plainSetting (some .upload) "plan.jmx" "ann" "<plan/>").run.run
      portableShop).2.store.live.row.kind = .native := by decide +kernel
  generalize hrun : (uploadFile plainSetting (some .upload) "plan.jmx" "ann" "<plan/>").run.run
    portableShop = r at hfailed hkind
  have hsame := (h _ r.2 (hrun.trans (Prod.ext hfailed rfl))).kind
  rw [hkind] at hsame
  cases hsame

end Upload

end Honryu.ScenarioApp
