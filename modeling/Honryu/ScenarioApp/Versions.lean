import Honryu.Lib.Checked
import Honryu.Lib.Keyed
import Honryu.Lib.Text
import Honryu.Lib.Visit
import Honryu.Taurus.Executor

/-!
The versions of a scenario.

Every call that changes a scenario records what it is before the change, as the next version.
`Restore` does so as well, and then makes the scenario what it was at some version: its row, the
names of its files, and its requests. So no state is lost, and a restore can be undone.
-/

namespace Honryu.ScenarioApp

open Taurus

/-! ### Scenarios -/

inductive Kind
  | portable
  | native
  deriving DecidableEq

/-- `Scenario` is a row of the table `scenario`. -/
@[ext]
structure Scenario where
  id : ℤ
  name : String
  projectId : ℤ
  kind : Kind
  /-- empty for a portable scenario -/
  engine : Executor
  tenantId : Option ℤ
  createdBy : String
  updatedBy : String
  createdTime : ℤ
  isTemplate : Bool
  templateName : String
  deriving DecidableEq

inductive Invalid
  | nameRequired
  | nameTooLong
  | projectRequired
  | templateNameRequired
  | templateNameTooLong
  | portableEnginePinned (engine : Executor)
  | nativeEngineRequired
  | engineUnknown (engine : Executor)
  deriving DecidableEq

def maxNameLen : ℕ := 100

def maxTemplateNameLen : ℕ := 128

/-- `Validate`, the engine of a scenario. -/
def Scenario.validateEngine (s : Scenario) : Except Invalid Unit :=
  match s.kind with
  | .portable => if s.engine ≠ ⟨""⟩ then .error (.portableEnginePinned s.engine) else .ok ()
  | .native =>
      if s.engine = ⟨""⟩ then .error .nativeEngineRequired
      else if s.engine.known = false then .error (.engineUnknown s.engine)
      else .ok ()

def Scenario.validate (s : Scenario) : Except Invalid Unit :=
  if s.name = "" then .error .nameRequired
  else if maxNameLen < s.name.utf8ByteSize then .error .nameTooLong
  else if s.isTemplate ∧ s.templateName = "" then .error .templateNameRequired
  else if s.isTemplate ∧ maxTemplateNameLen < s.templateName.utf8ByteSize then
    .error .templateNameTooLong
  else if ¬s.isTemplate ∧ s.templateName ≠ "" then .error .templateNameRequired
  else if s.projectId ≤ 0 ∧ ¬s.isTemplate then .error .projectRequired
  else s.validateEngine

/-- `New`: a portable scenario, without what the database assigns. -/
def newScenario (name : String) (projectId : ℤ) : Except Invalid Scenario :=
  let s : Scenario :=
    { id := 0, name := Text.trimSpace name, projectId, kind := .portable, engine := ⟨""⟩
      tenantId := none, createdBy := "", updatedBy := "", createdTime := 0, isTemplate := false
      templateName := "" }
  s.validate.map fun _ => s

/-! ### Files -/

/-- `filepath.Ext`: what follows the last dot, with the dot. -/
def ext (filename : String) : String :=
  let last := filename.toList.reverse.span fun c => c ≠ '.' ∧ c ≠ '/'
  match last.2 with
  | '.' :: _ => String.ofList ('.' :: last.1.reverse)
  | _ => ""

/-- `engineForArtefact`: the engine that runs a script. -/
def engineForArtefact (filename : String) : Option Executor :=
  if Text.toLower (ext filename) = ".jmx" then some ⟨"jmeter"⟩
  else if Text.toLower (ext filename) = ".js" then some ⟨"k6"⟩
  else none

def isTestFile (filename : String) : Bool := (engineForArtefact filename).isSome

/-- `validateFilename` accepts the name of a file. -/
def validateFilename (filename : String) : Bool :=
  filename ≠ "" ∧ '/' ∉ filename.toList ∧ '\\' ∉ filename.toList ∧ filename ≠ "." ∧ filename ≠ ".."

/-- `ScenarioFiles`: the test file is empty if there is none. -/
structure ScenarioFiles where
  testFile : String
  data : List String
  deriving DecidableEq

def filePresent (pf : ScenarioFiles) (filename : String) (isTest : Bool) : Bool :=
  if isTest then pf.testFile = filename else filename ∈ pf.data

/-! ### Requests -/

structure Diagnostic where
  message : String
  path : String
  line : ℕ
  deriving DecidableEq

/-- What the libraries and the database make of a text: how the column of the file names compares
them, in which order a query returns them, and what a requests fragment reads as, which is the
list of its URLs, or what is wrong with it. An empty document has no requests. -/
structure Setting where
  collate : String → String
  listed : Finset String → List String
  mem_listed : ∀ names name, name ∈ listed names ↔ name ∈ names
  nodup_listed : ∀ names, (listed names).Nodup
  parse : String → Except (List Diagnostic) (List String)
  parse_empty : parse "" = .ok []
  /-- the tenant of a project, if it exists and has one -/
  tenantOf : ℤ → Option ℤ

/-- `requestDiagnostics`: none, if a fragment can be stored. -/
def requestDiagnostics (cfg : Setting) (raw : String) : List Diagnostic :=
  match cfg.parse raw with
  | .error diagnostics => diagnostics
  | .ok [] => [⟨"at least one request is required", "requests", 0⟩]
  | .ok urls =>
      urls.zipIdx.filterMap fun (url, i) =>
        if url = "" then some ⟨s!"request {i} has no url", s!"requests[{i}].url", 0⟩ else none

/-! ### Versions -/

/-- `ScenarioSnapshot` is what a scenario was at some point. -/
structure ScenarioSnapshot where
  id : ℤ
  name : String
  projectId : ℤ
  kind : Kind
  engine : Executor
  tenantId : Option ℤ
  createdBy : String
  updatedBy : String
  createdTime : ℤ
  isTemplate : Bool
  templateName : String
  testFile : String
  data : List String
  requests : String
  deriving DecidableEq

/-- A row of the table `scenario_versions`. -/
structure ScenarioVersion where
  version : ℕ
  snapshot : ScenarioSnapshot
  createdBy : Option String
  deriving DecidableEq

structure Live where
  row : Scenario
  testFile : Option String
  data : Finset String
  requests : Option String
  deriving DecidableEq

structure Store where
  live : Live
  versions : List ScenarioVersion
  deriving DecidableEq

inductive Failure
  | invalid (e : Invalid)
  | invalidFilename
  | notFound
  | fileExists
  | notPortable (kind : Kind)
  | requestsInvalid (diagnostics : List Diagnostic)
  | versionNotFound
  /-- the object store did not take a file, or did not delete it -/
  | objectStore
  deriving DecidableEq

abbrev Service := ExceptT Failure (StateM Store)

def ofValid : Except Invalid Unit → Service Unit
  | .error e => throw (.invalid e)
  | .ok () => pure ()

def refuse (c : Prop) [Decidable c] (e : Failure) : Service Unit :=
  if c then throw e else pure ()

variable (cfg : Setting)

/-! ### The repository -/

def modifyLive (f : Live → Live) : Service Unit := modify fun s => { s with live := f s.live }

def scenarioFilesFor : Service ScenarioFiles := do
  let s ← get
  return ⟨s.live.testFile.getD "", cfg.listed s.live.data⟩

/-- `AddScenarioFile`. There is one test file at most, and the names of the others differ. -/
def addScenarioFile (filename : String) (isTest : Bool) : Service Unit := do
  let s ← get
  if isTest then
    refuse (s.live.testFile.isSome = true) .fileExists
    modifyLive fun l => { l with testFile := some filename }
  else
    refuse (∃ name ∈ s.live.data, cfg.collate name = cfg.collate filename) .fileExists
    modifyLive fun l => { l with data := insert filename l.data }

def deleteScenarioFile (filename : String) (isTest : Bool) : Service Unit := do
  let s ← get
  if isTest then
    refuse (s.live.testFile.map cfg.collate ≠ some (cfg.collate filename)) .notFound
    modifyLive fun l => { l with testFile := none }
  else
    refuse (¬∃ name ∈ s.live.data, cfg.collate name = cfg.collate filename) .notFound
    modifyLive fun l =>
      { l with data := l.data.filter fun name => cfg.collate name ≠ cfg.collate filename }

def setScenarioKind (kind : Kind) (engine : Executor) : Service Unit :=
  modifyLive fun l => { l with row := { l.row with kind, engine } }

def setScenarioRequests (raw : String) : Service Unit :=
  modifyLive fun l => { l with requests := some raw }

def deleteScenarioRequests : Service Unit := modifyLive fun l => { l with requests := none }

/-- `UpdateScenario` writes the name, the kind, the engine, and what makes a template. -/
def updateScenario (p : Scenario) : Service Unit :=
  modifyLive fun l =>
    { l with
      row :=
        { l.row with
          name := p.name, kind := p.kind, engine := p.engine, isTemplate := p.isTemplate
          templateName := p.templateName } }

def nullString (s : String) : Option String := if s = "" then none else some s

/-- `AppendScenarioVersion` takes the number after the largest. -/
def appendScenarioVersion (snapshot : ScenarioSnapshot) (createdBy : String) : Service ℕ := do
  let s ← get
  let next := (s.versions.map (·.version)).foldr max 0 + 1
  modify fun s =>
    { s with versions := s.versions ++ [⟨next, snapshot, nullString createdBy⟩] }
  return next

def scenarioVersion (version : ℕ) : Service ScenarioVersion := do
  let s ← get
  match s.versions.find? fun v => v.version = version with
  | some v => return v
  | none => throw .versionNotFound

/-! ### The service -/

/-- `scenarioSnapshot`, of a row, the files, and the requests, if there are any. -/
def snapshotOf (sc : Scenario) (files : ScenarioFiles) (requests : Option String) :
    ScenarioSnapshot :=
  { id := sc.id, name := sc.name, projectId := sc.projectId, kind := sc.kind, engine := sc.engine
    tenantId := sc.tenantId, createdBy := sc.createdBy, updatedBy := sc.updatedBy
    createdTime := sc.createdTime, isTemplate := sc.isTemplate, templateName := sc.templateName
    testFile := files.testFile, data := files.data, requests := requests.getD "" }

/-- `captureVersionOf` records what the scenario is, and returns the number. -/
def captureVersionOf (sc : Scenario) (actor : String) : Service ℕ := do
  let files ← scenarioFilesFor cfg
  let s ← get
  appendScenarioVersion (snapshotOf sc files s.live.requests) actor

def captureVersion (actor : String) : Service Unit := do
  let s ← get
  let _ ← captureVersionOf cfg s.live.row actor

def setKindFor (filename : String) : Service Unit :=
  match engineForArtefact filename with
  | some engine => setScenarioKind .native engine
  | none => pure ()

/-- `UploadFile`. The record goes again if the file could not be stored. -/
def uploadFile (filename actor : String) (stored : Bool) : Service Unit := do
  refuse (validateFilename filename = false) .invalidFilename
  let isTest := isTestFile filename
  let pf ← scenarioFilesFor cfg
  refuse (filePresent pf filename isTest = true) .fileExists
  captureVersion cfg actor
  addScenarioFile cfg filename isTest
  setKindFor filename
  if stored then pure ()
  else
    tryCatch (deleteScenarioFile cfg filename isTest) fun _ => pure ()
    throw .objectStore

def deleteFile (filename actor : String) (deleted : Bool) : Service Unit := do
  refuse (validateFilename filename = false) .invalidFilename
  let isTest := isTestFile filename
  let pf ← scenarioFilesFor cfg
  refuse (filePresent pf filename isTest = false) .notFound
  captureVersion cfg actor
  deleteScenarioFile cfg filename isTest
  refuse (deleted = false) .objectStore

def setRequests (raw actor : String) : Service Unit := do
  let s ← get
  refuse (s.live.row.kind ≠ .portable) (.notPortable s.live.row.kind)
  refuse (requestDiagnostics cfg raw ≠ []) (.requestsInvalid (requestDiagnostics cfg raw))
  captureVersion cfg actor
  setScenarioRequests raw

def removeOthers (wanted : List String) : List String → Service Unit
  | [] => return ()
  | name :: rest => do
      (if name ∈ wanted then pure () else deleteScenarioFile cfg name false)
      removeOthers wanted rest

def addMissing (present : List String) : List String → Service Unit
  | [] => return ()
  | name :: rest => do
      (if name ∈ present then pure () else addScenarioFile cfg name false)
      addMissing present rest

def restoreTestFile (current wanted : String) : Service Unit :=
  if current = wanted then pure ()
  else do
    (if current = "" then pure () else deleteScenarioFile cfg current true)
    if wanted = "" then pure () else addScenarioFile cfg wanted true

/-- `restoreFiles` goes by the names in a snapshot. The files themselves are left alone. -/
def restoreFiles (snap : ScenarioSnapshot) : Service Unit := do
  let current ← scenarioFilesFor cfg
  restoreTestFile cfg current.testFile snap.testFile
  removeOthers cfg snap.data current.data
  addMissing cfg current.data snap.data

structure RestoreResult where
  restoredFrom : ℕ
  version : ℕ
  deriving DecidableEq

/-- The row that a snapshot asks for. -/
def ScenarioSnapshot.rewound (snap : ScenarioSnapshot) (scenarioId : ℤ) : Scenario :=
  { id := scenarioId, name := snap.name, projectId := snap.projectId, kind := snap.kind
    engine := snap.engine, tenantId := none, createdBy := "", updatedBy := "", createdTime := 0
    isTemplate := snap.isTemplate, templateName := snap.templateName }

def restore (version : ℕ) (actor : String) : Service RestoreResult := do
  let s ← get
  let stored ← scenarioVersion version
  let preRestore ← captureVersionOf cfg s.live.row actor
  let rewound := stored.snapshot.rewound s.live.row.id
  ofValid rewound.validate
  updateScenario rewound
  restoreFiles cfg stored.snapshot
  (if stored.snapshot.requests = "" then deleteScenarioRequests
    else setScenarioRequests stored.snapshot.requests)
  return ⟨version, preRestore⟩

structure Creation where
  name : String
  projectId : ℤ
  actor : String
  id : ℤ
  createdTime : ℤ

/-- `Create`. The first version is the scenario as it was created. -/
def create (c : Creation) : Except Failure Store :=
  match newScenario c.name c.projectId with
  | .error e => .error (.invalid e)
  | .ok p =>
      let row := { p with tenantId := cfg.tenantOf c.projectId, id := c.id, createdTime := c.createdTime }
      let bare : Store := ⟨⟨row, none, ∅, none⟩, []⟩
      match (captureVersionOf cfg row c.actor).run.run bare with
      | (.ok _, s) => .ok s
      | (.error e, _) => .error e

inductive Request
  | uploadFile (filename : String)
  | deleteFile (filename : String)
  | setRequests (raw : String)
  | restore (version : ℕ)

def serve (actor : String) : Request → Service Unit
  | .uploadFile filename => uploadFile cfg filename actor true
  | .deleteFile filename => deleteFile cfg filename actor true
  | .setRequests raw => setRequests cfg raw actor
  | .restore version => do let _ ← restore cfg version actor

def served (s : Store) : List (String × Request) → Option Store
  | [] => some s
  | (actor, request) :: rest =>
      match (serve cfg actor request).run.run s with
      | (.ok (), s') => served s' rest
      | (.error _, _) => none

/-! ### What a scenario and its versions keep to -/

def Live.snapshot (l : Live) : ScenarioSnapshot :=
  snapshotOf l.row ⟨l.testFile.getD "", cfg.listed l.data⟩ l.requests

structure Live.Sound (l : Live) : Prop where
  valid : l.row.validate = .ok ()
  distinct : Set.InjOn cfg.collate (l.data : Set String)
  testFile : l.testFile ≠ some ""
  requests : l.requests ≠ some ""

structure SameScenario (l l' : Live) : Prop where
  id : l'.row.id = l.row.id
  projectId : l'.row.projectId = l.row.projectId
  tenantId : l'.row.tenantId = l.row.tenantId
  createdBy : l'.row.createdBy = l.row.createdBy
  updatedBy : l'.row.updatedBy = l.row.updatedBy
  createdTime : l'.row.createdTime = l.row.createdTime

structure Store.Sound (s : Store) : Prop where
  live : s.live.Sound cfg
  numbered : s.versions.map (·.version) = List.range' 1 s.versions.length
  snapshots : ∀ v ∈ s.versions, ∃ l : Live,
    l.Sound cfg ∧ SameScenario s.live l ∧ v.snapshot = l.snapshot cfg

structure Recorded (s s' : Store) : Prop where
  versions : ∃ createdBy, s'.versions =
    s.versions ++ [⟨s.versions.length + 1, s.live.snapshot cfg, createdBy⟩]
  live : s'.live.Sound cfg
  same : SameScenario s.live s'.live

def Store.captured (s : Store) (actor : String) : Store :=
  { s with versions := s.versions ++
    [⟨s.versions.length + 1, s.live.snapshot cfg, nullString actor⟩] }

def Store.withData (s : Store) (data : Finset String) : Store :=
  { s with live := { s.live with data } }

def Store.withTestFile (s : Store) (testFile : Option String) : Store :=
  { s with live := { s.live with testFile } }

section Calls

variable {cfg} {s s' : Store} {l l' : Live} {actor : String}

theorem SameScenario.of_row (h : l'.row = l.row) : SameScenario l l' := by
  constructor <;> rw [h]

theorem SameScenario.symm (h : SameScenario l l') : SameScenario l' l :=
  ⟨h.id.symm, h.projectId.symm, h.tenantId.symm, h.createdBy.symm, h.updatedBy.symm,
    h.createdTime.symm⟩

theorem SameScenario.trans {l'' : Live} (h : SameScenario l l') (h' : SameScenario l' l'') :
    SameScenario l l'' :=
  ⟨h'.id.trans h.id, h'.projectId.trans h.projectId, h'.tenantId.trans h.tenantId,
    h'.createdBy.trans h.createdBy, h'.updatedBy.trans h.updatedBy,
    h'.createdTime.trans h.createdTime⟩

theorem SameScenario.row_eq (h : SameScenario l l') :
    { l.row with
      name := l'.row.name, kind := l'.row.kind, engine := l'.row.engine
      isTemplate := l'.row.isTemplate, templateName := l'.row.templateName } = l'.row :=
  Scenario.ext h.id.symm rfl h.projectId.symm rfl rfl h.tenantId.symm h.createdBy.symm
    h.updatedBy.symm h.createdTime.symm rfl rfl

theorem foldr_max_range' (n m : ℕ) : (List.range' 1 n).foldr max m = max n m := by
  induction n generalizing m with
  | zero => exact (Nat.zero_max m).symm
  | succ n ih =>
      rw [List.range'_concat, List.foldr_append, List.foldr_cons, List.foldr_nil, ih]
      omega

theorem Recorded.sound (h : s.Sound cfg) (hs : Recorded cfg s s') : s'.Sound cfg := by
  obtain ⟨createdBy, hversions⟩ := hs.versions
  refine ⟨hs.live, ?_, fun v hv => ?_⟩
  · rw [hversions, List.map_append, h.numbered, List.length_append, List.length_singleton,
      List.range'_concat]
    simp [Nat.add_comm]
  · rw [hversions] at hv
    rcases List.mem_append.mp hv with hv | hv
    · obtain ⟨l, hl, hsame, heq⟩ := h.snapshots v hv
      exact ⟨l, hl, hs.same.symm.trans hsame, heq⟩
    · obtain rfl := List.mem_singleton.mp hv
      exact ⟨s.live, h.live, hs.same.symm, rfl⟩

/-- Once a version is recorded, only the scenario itself is still to change. -/
theorem run_captureVersionOf (h : s.Sound cfg) {row : Scenario} (hrow : s.live.row = row) :
    (captureVersionOf cfg row actor).run.run s =
      (.ok (s.versions.length + 1), s.captured cfg actor) := by
  subst hrow
  have hnext : (s.versions.map (·.version)).foldr max 0 = s.versions.length := by
    rw [h.numbered, foldr_max_range', Nat.max_zero]
  change (Except.ok ((s.versions.map (·.version)).foldr max 0 + 1), _) = _
  simp only [hnext]
  rfl

theorem run_captureVersion (h : s.Sound cfg) {u : Unit} :
    (captureVersion cfg actor).run.run s = (.ok u, s') ↔ s' = s.captured cfg actor := by
  have hrun : (captureVersion cfg actor).run.run s =
      (captureVersionOf cfg s.live.row actor >>= fun _ => pure ()).run.run s := rfl
  rw [hrun, Checked.run_bind_of_ok (run_captureVersionOf h rfl)]
  exact ⟨fun heq => (congrArg Prod.snd heq).symm, fun heq => heq ▸ rfl⟩

theorem run_refuse {c : Prop} [Decidable c] {e : Failure} {u : Unit} :
    (refuse c e).run.run s = (.ok u, s') ↔ ¬c ∧ s' = s := by
  unfold refuse
  split
  · rename_i hc
    exact ⟨nofun, fun h => absurd hc h.1⟩
  · rename_i hc
    exact ⟨fun h => ⟨hc, (congrArg Prod.snd h).symm⟩, fun h => h.2 ▸ rfl⟩

theorem run_modifyLive {f : Live → Live} {u : Unit} :
    (modifyLive f).run.run s = (.ok u, s') ↔ s' = { s with live := f s.live } :=
  ⟨fun h => (congrArg Prod.snd h).symm, fun h => h ▸ rfl⟩

theorem run_addTestFile {filename : String} {u : Unit} :
    (addScenarioFile cfg filename true).run.run s = (.ok u, s') ↔
      s.live.testFile = none ∧
        s' = s.withTestFile (some filename) := by
  have hrun : (addScenarioFile cfg filename true).run.run s =
      (refuse (s.live.testFile.isSome = true) .fileExists >>= fun _ =>
        modifyLive fun l => { l with testFile := some filename }).run.run s := rfl
  rw [hrun, Checked.run_bind_eq_ok]
  simp only [run_refuse, run_modifyLive, Bool.not_eq_true, Option.isSome_eq_false_iff,
    Option.isNone_iff_eq_none]
  constructor
  · rintro ⟨_, _, ⟨hnone, rfl⟩, hs'⟩
    exact ⟨hnone, hs'⟩
  · exact fun ⟨hnone, hs'⟩ => ⟨(), s, ⟨hnone, rfl⟩, hs'⟩

theorem run_addDataFile {filename : String} {u : Unit} :
    (addScenarioFile cfg filename false).run.run s = (.ok u, s') ↔
      (∀ name ∈ s.live.data, cfg.collate name ≠ cfg.collate filename) ∧
        s' = s.withData (insert filename s.live.data) := by
  have hrun : (addScenarioFile cfg filename false).run.run s =
      (refuse (∃ name ∈ s.live.data, cfg.collate name = cfg.collate filename) .fileExists
        >>= fun _ => modifyLive fun l => { l with data := insert filename l.data }).run.run s := rfl
  rw [hrun, Checked.run_bind_eq_ok]
  simp only [run_refuse, run_modifyLive, not_exists, not_and]
  constructor
  · rintro ⟨_, _, ⟨hfresh, rfl⟩, hs'⟩
    exact ⟨hfresh, hs'⟩
  · exact fun ⟨hfresh, hs'⟩ => ⟨(), s, ⟨hfresh, rfl⟩, hs'⟩

theorem run_deleteTestFile {filename : String} {u : Unit} :
    (deleteScenarioFile cfg filename true).run.run s = (.ok u, s') ↔
      s.live.testFile.map cfg.collate = some (cfg.collate filename) ∧
        s' = s.withTestFile none := by
  have hrun : (deleteScenarioFile cfg filename true).run.run s =
      (refuse (s.live.testFile.map cfg.collate ≠ some (cfg.collate filename)) .notFound >>= fun _ =>
        modifyLive fun l => { l with testFile := none }).run.run s := rfl
  rw [hrun, Checked.run_bind_eq_ok]
  simp only [run_refuse, run_modifyLive, not_not]
  constructor
  · rintro ⟨_, _, ⟨hthere, rfl⟩, hs'⟩
    exact ⟨hthere, hs'⟩
  · exact fun ⟨hthere, hs'⟩ => ⟨(), s, ⟨hthere, rfl⟩, hs'⟩

theorem run_deleteDataFile {filename : String} {u : Unit} :
    (deleteScenarioFile cfg filename false).run.run s = (.ok u, s') ↔
      (∃ name ∈ s.live.data, cfg.collate name = cfg.collate filename) ∧
        s' = s.withData (s.live.data.filter fun name => cfg.collate name ≠ cfg.collate filename) := by
  have hrun : (deleteScenarioFile cfg filename false).run.run s =
      (refuse (¬∃ name ∈ s.live.data, cfg.collate name = cfg.collate filename) .notFound
        >>= fun _ => modifyLive fun l =>
          { l with data := l.data.filter fun name => cfg.collate name ≠ cfg.collate filename }
        ).run.run s := rfl
  rw [hrun, Checked.run_bind_eq_ok]
  simp only [run_refuse, run_modifyLive, not_not]
  constructor
  · rintro ⟨_, _, ⟨hthere, rfl⟩, hs'⟩
    exact ⟨hthere, hs'⟩
  · exact fun ⟨hthere, hs'⟩ => ⟨(), s, ⟨hthere, rfl⟩, hs'⟩

theorem validate_native {row : Scenario} {engine : Executor} (h : row.validate = .ok ())
    (hne : engine ≠ ⟨""⟩) (hknown : engine.known = true) :
    { row with kind := Kind.native, engine }.validate = .ok () := by
  simp only [Scenario.validate, Checked.guard_eq_ok] at h ⊢
  simp only [Scenario.validateEngine, hne, hknown, if_false]
  tauto

theorem engineForArtefact_known {filename : String} {engine : Executor}
    (h : engineForArtefact filename = some engine) : engine ≠ ⟨""⟩ ∧ engine.known = true := by
  unfold engineForArtefact at h
  split at h
  · cases h
    decide
  · split at h
    · cases h
      decide
    · cases h

/-- The kind of a scenario changes with its script, and nothing else of it. -/
theorem run_setKindFor {filename : String} {u : Unit} (hlive : s.live.Sound cfg)
    (h : (setKindFor filename).run.run s = (.ok u, s')) :
    s'.versions = s.versions ∧ s'.live.Sound cfg ∧ SameScenario s.live s'.live := by
  unfold setKindFor at h
  split at h
  · rename_i engine hengine
    obtain ⟨hne, hknown⟩ := engineForArtefact_known hengine
    obtain rfl := run_modifyLive.mp h
    exact ⟨rfl, ⟨validate_native hlive.valid hne hknown, hlive.distinct, hlive.testFile,
      hlive.requests⟩, rfl, rfl, rfl, rfl, rfl, rfl⟩
  · obtain rfl : s = s' := congrArg Prod.snd h
    exact ⟨rfl, hlive, .of_row rfl⟩

theorem injOn_insert {data : Finset String} {filename : String}
    (h : Set.InjOn cfg.collate (data : Set String))
    (hfresh : ∀ name ∈ data, cfg.collate name ≠ cfg.collate filename) :
    Set.InjOn cfg.collate (insert filename data : Finset String) := by
  have hnot : filename ∉ (data : Set String) := fun hmem => hfresh filename hmem rfl
  rw [Finset.coe_insert, Set.injOn_insert hnot]
  refine ⟨h, ?_⟩
  rintro ⟨name, hname, heq⟩
  exact hfresh name hname heq

theorem uploadFile_recorded (h : s.Sound cfg) {filename : String}
    (hok : (uploadFile cfg filename actor true).run.run s = (.ok (), s')) :
    Recorded cfg s s' := by
  unfold uploadFile at hok
  simp only [Checked.run_bind_eq_ok, run_refuse] at hok
  obtain ⟨_, s₁, ⟨hname, rfl⟩, pf, s₂, hpf, _, s₃, ⟨-, rfl⟩, _, s₄, hcapture, _, s₅, hadd, _, s₆,
    hkind, hlast⟩ := hok
  obtain rfl : s₁ = s₃ := congrArg Prod.snd hpf
  obtain rfl : s₆ = s' := congrArg Prod.snd hlast
  obtain rfl := (run_captureVersion h).mp hcapture
  have hnonempty : filename ≠ "" := by
    rintro rfl
    exact hname rfl
  have hadded : s₅.live.Sound cfg ∧ SameScenario s₁.live s₅.live ∧
      s₅.versions = (s₁.captured cfg actor).versions := by
    cases hisTest : isTestFile filename with
    | true =>
        rw [hisTest, run_addTestFile] at hadd
        obtain ⟨-, rfl⟩ := hadd
        exact ⟨⟨h.live.valid, h.live.distinct, fun heq => hnonempty (Option.some_inj.mp heq),
          h.live.requests⟩, .of_row rfl, rfl⟩
    | false =>
        rw [hisTest, run_addDataFile] at hadd
        obtain ⟨hfresh, rfl⟩ := hadd
        refine ⟨⟨h.live.valid, ?_, h.live.testFile, h.live.requests⟩, .of_row rfl, rfl⟩
        exact injOn_insert h.live.distinct hfresh
  obtain ⟨hlive, hsame, hversions⟩ := hadded
  obtain ⟨hkept, hlive', hsame'⟩ := run_setKindFor hlive hkind
  exact ⟨⟨_, hkept.trans hversions⟩, hlive', hsame.trans hsame'⟩

theorem deleteFile_recorded (h : s.Sound cfg) {filename : String}
    (hok : (deleteFile cfg filename actor true).run.run s = (.ok (), s')) :
    Recorded cfg s s' := by
  unfold deleteFile at hok
  simp only [Checked.run_bind_eq_ok, run_refuse] at hok
  obtain ⟨_, s₁, ⟨-, rfl⟩, pf, s₂, hpf, _, s₃, ⟨-, rfl⟩, _, s₄, hcapture, _, s₅, hdelete, -, rfl⟩ :=
    hok
  obtain rfl : s₁ = s₃ := congrArg Prod.snd hpf
  obtain rfl := (run_captureVersion h).mp hcapture
  cases hisTest : isTestFile filename with
  | true =>
      rw [hisTest, run_deleteTestFile] at hdelete
      obtain ⟨-, rfl⟩ := hdelete
      exact ⟨⟨_, rfl⟩, ⟨h.live.valid, h.live.distinct, nofun, h.live.requests⟩, .of_row rfl⟩
  | false =>
      rw [hisTest, run_deleteDataFile] at hdelete
      obtain ⟨-, rfl⟩ := hdelete
      refine ⟨⟨_, rfl⟩, ⟨h.live.valid, ?_, h.live.testFile, h.live.requests⟩, .of_row rfl⟩
      exact h.live.distinct.mono (Finset.coe_subset.mpr (Finset.filter_subset _ _))

theorem setRequests_recorded (h : s.Sound cfg) {raw : String}
    (hok : (setRequests cfg raw actor).run.run s = (.ok (), s')) : Recorded cfg s s' := by
  unfold setRequests at hok
  simp only [Checked.run_bind_eq_ok, run_refuse] at hok
  obtain ⟨_, s₁, hget, _, s₂, ⟨-, rfl⟩, _, s₃, ⟨hfine, rfl⟩, _, s₄, hcapture, hset⟩ := hok
  obtain rfl : s = s₃ := congrArg Prod.snd hget
  obtain rfl := (run_captureVersion h).mp hcapture
  obtain rfl := run_modifyLive.mp hset
  have hnonempty : raw ≠ "" := by
    rintro rfl
    simp [requestDiagnostics, cfg.parse_empty] at hfine
  exact ⟨⟨_, rfl⟩, ⟨h.live.valid, h.live.distinct, h.live.testFile,
    fun heq => hnonempty (Option.some_inj.mp heq)⟩, .of_row rfl⟩

/-! ### Restoring -/

/-- The names in a list that are not wanted go, one after the other. -/
theorem run_removeOthers (wanted : List String) {names : List String}
    (hlive : Set.InjOn cfg.collate (s.live.data : Set String)) (hnames : names.Nodup)
    (hthere : ∀ name ∈ names, name ∈ s.live.data) :
    (removeOthers cfg wanted names).run.run s = (.ok (),
      s.withData (s.live.data.filter fun name => name ∈ wanted ∨ name ∉ names)) := by
  induction names generalizing s with
  | nil =>
      have hall : s.live.data.filter (fun name => name ∈ wanted ∨ name ∉ ([] : List String)) =
          s.live.data := Finset.filter_true_of_mem fun name _ => .inr List.not_mem_nil
      rw [hall]
      rfl
  | cons name rest ih =>
      obtain ⟨hname, hrest⟩ := List.nodup_cons.mp hnames
      obtain ⟨hmem, hothers⟩ := List.forall_mem_cons.mp hthere
      unfold removeOthers
      split
      · rename_i hwanted
        rw [pure_bind, ih hlive hrest hothers]
        refine congrArg (fun data => (Except.ok (), s.withData data)) ?_
        refine Finset.filter_congr fun other _ => ?_
        by_cases hother : other = name <;> simp [hother, hwanted]
      · rename_i hunwanted
        have hdelete : (deleteScenarioFile cfg name false).run.run s = (.ok (), _) :=
          run_deleteDataFile.mpr ⟨⟨name, hmem, rfl⟩, rfl⟩
        rw [Checked.run_bind_of_ok hdelete, ih (hlive.mono (Finset.coe_subset.mpr
          (Finset.filter_subset _ _))) hrest fun other hother => ?_]
        · refine congrArg (fun data => (Except.ok (), s.withData data)) ?_
          rw [Store.withData, Finset.filter_filter]
          refine Finset.filter_congr fun other hother => ?_
          have hsame : cfg.collate other = cfg.collate name ↔ other = name :=
            hlive.eq_iff hother hmem
          by_cases heq : other = name <;> simp [hsame, heq, hunwanted]
        · have hne : other ≠ name := fun heq => hname (heq ▸ hother)
          refine Finset.mem_filter.mpr ⟨hothers other hother, fun heq => hne ?_⟩
          exact hlive (hothers other hother) hmem heq

/-- The names in a list that are missing are added, one after the other. -/
theorem run_addMissing (present : List String) {names : List String}
    (hlive : Set.InjOn cfg.collate ((s.live.data : Set String) ∪ {name | name ∈ names}))
    (hnames : names.Nodup) (hmissing : ∀ name ∈ names, name ∉ present → name ∉ s.live.data)
    (hpresent : ∀ name ∈ names, name ∈ present → name ∈ s.live.data) :
    (addMissing cfg present names).run.run s = (.ok (),
      s.withData (s.live.data ∪ names.toFinset)) := by
  induction names generalizing s with
  | nil =>
      rw [List.toFinset_nil, Finset.union_empty]
      rfl
  | cons name rest ih =>
      obtain ⟨hname, hrest⟩ := List.nodup_cons.mp hnames
      obtain ⟨hmiss, hmissing⟩ := List.forall_mem_cons.mp hmissing
      obtain ⟨hpres, hpresent⟩ := List.forall_mem_cons.mp hpresent
      unfold addMissing
      split
      · rename_i hthere
        rw [pure_bind, ih (hlive.mono ?_) hrest hmissing hpresent]
        · refine congrArg (fun data => (Except.ok (), s.withData data)) ?_
          rw [List.toFinset_cons, Finset.union_insert, Finset.insert_eq_of_mem]
          exact Finset.mem_union_left _ (hpres hthere)
        · exact Set.union_subset_union_right _ fun other => List.mem_cons_of_mem _
      · rename_i hnot
        have hadd : (addScenarioFile cfg name false).run.run s =
            (.ok (), s.withData (insert name s.live.data)) := by
          refine run_addDataFile.mpr ⟨fun other hother heq => ?_, rfl⟩
          have hsame := hlive (.inl hother) (.inr List.mem_cons_self) heq
          exact hmiss hnot (hsame ▸ hother)
        rw [Checked.run_bind_of_ok hadd, ih (hlive.mono ?_) hrest (fun other hother hnew hmem => ?_)
          fun other hother hold => Finset.mem_insert_of_mem (hpresent other hother hold)]
        · refine congrArg (fun data => (Except.ok (), s.withData data)) ?_
          rw [Store.withData, List.toFinset_cons, Finset.insert_union, Finset.union_insert]
        · rintro other (hother | hother)
          · rcases Finset.mem_insert.mp hother with rfl | hother
            · exact .inr List.mem_cons_self
            · exact .inl hother
          · exact .inr (List.mem_cons_of_mem _ hother)
        · rcases Finset.mem_insert.mp hmem with rfl | hmem
          · exact hname hother
          · exact hmissing other hother hnew hmem

theorem Store.withTestFile_self : s.withTestFile s.live.testFile = s := rfl

theorem getD_inj {testFile wanted : Option String} (h : testFile ≠ some "") (h' : wanted ≠ some "") :
    testFile.getD "" = wanted.getD "" ↔ testFile = wanted := by
  cases testFile with
  | none =>
      cases wanted with
      | none => simp
      | some name => simpa [eq_comm] using h'
  | some name =>
      cases wanted with
      | none => simpa using h
      | some name' => simp

theorem run_restoreTestFile {wanted : Option String} (hcurrent : s.live.testFile ≠ some "")
    (hwanted : wanted ≠ some "") :
    (restoreTestFile cfg (s.live.testFile.getD "") (wanted.getD "")).run.run s =
      (.ok (), s.withTestFile wanted) := by
  unfold restoreTestFile
  split
  · rename_i heq
    rw [← (getD_inj hcurrent hwanted).mp heq, Store.withTestFile_self]
    rfl
  · have hgone : (if s.live.testFile.getD "" = "" then pure ()
        else deleteScenarioFile cfg (s.live.testFile.getD "") true : Service Unit).run.run s =
        (.ok (), s.withTestFile none) := by
      split
      · rename_i hempty
        have hnone := (getD_inj hcurrent (Option.some_ne_none "").symm).mp hempty
        rw [← hnone, Store.withTestFile_self]
        rfl
      · rename_i hthere
        refine run_deleteTestFile.mpr ⟨?_, rfl⟩
        cases htest : s.live.testFile with
        | none => rw [htest] at hthere; exact absurd rfl hthere
        | some name => rfl
    rw [Checked.run_bind_of_ok hgone]
    split
    · rename_i hempty
      have hnone := (getD_inj hwanted (Option.some_ne_none "").symm).mp hempty
      rw [hnone]
      rfl
    · rename_i hthere
      obtain ⟨name, rfl⟩ : ∃ name, wanted = some name :=
        Option.ne_none_iff_exists'.mp fun hnone => hthere (hnone ▸ rfl)
      exact run_addTestFile.mpr ⟨rfl, rfl⟩

theorem run_restoreFiles (hdistinct : Set.InjOn cfg.collate (s.live.data : Set String))
    (htestFile : s.live.testFile ≠ some "") (hl : l.Sound cfg) :
    (restoreFiles cfg (l.snapshot cfg)).run.run s =
      (.ok (), (s.withTestFile l.testFile).withData l.data) := by
  have hrun : (restoreFiles cfg (l.snapshot cfg)).run.run s =
      (restoreTestFile cfg (s.live.testFile.getD "") (l.testFile.getD "") >>= fun _ =>
        removeOthers cfg (cfg.listed l.data) (cfg.listed s.live.data) >>= fun _ =>
          addMissing cfg (cfg.listed s.live.data) (cfg.listed l.data)).run.run s := rfl
  have hremove : (removeOthers cfg (cfg.listed l.data) (cfg.listed s.live.data)).run.run
      (s.withTestFile l.testFile) = _ :=
    run_removeOthers _ hdistinct (cfg.nodup_listed _)
      fun name hname => (cfg.mem_listed _ _).mp hname
  rw [hrun, Checked.run_bind_of_ok (run_restoreTestFile htestFile hl.testFile),
    Checked.run_bind_of_ok hremove]
  -- what is left is wanted
  have hleft : (s.withTestFile l.testFile).live.data.filter
      (fun name => name ∈ cfg.listed l.data ∨ name ∉ cfg.listed s.live.data) =
      s.live.data ∩ l.data := by
    ext name
    simp only [Store.withTestFile, Finset.mem_filter, cfg.mem_listed, Finset.mem_inter]
    tauto
  rw [hleft, run_addMissing]
  · refine congrArg (fun data => (Except.ok (), (s.withTestFile l.testFile).withData data)) ?_
    ext name
    simp only [Store.withData, Finset.mem_union, Finset.mem_inter, List.mem_toFinset,
      cfg.mem_listed]
    tauto
  · refine hl.distinct.mono (Set.union_subset ?_ fun name hname => (cfg.mem_listed _ _).mp hname)
    exact Finset.coe_subset.mpr Finset.inter_subset_right
  · exact cfg.nodup_listed _
  · intro name _ hnew hmem
    exact hnew ((cfg.mem_listed _ _).mpr (Finset.mem_of_mem_inter_left hmem))
  · intro name hname hold
    exact Finset.mem_inter.mpr ⟨(cfg.mem_listed _ _).mp hold, (cfg.mem_listed _ _).mp hname⟩

theorem rewound_validate (hl : l.Sound cfg) (id : ℤ) :
    ((l.snapshot cfg).rewound id).validate = .ok () := hl.valid

theorem run_scenarioVersion {version : ℕ} {v : ScenarioVersion} :
    (scenarioVersion version).run.run s = (.ok v, s') ↔
      s.versions.find? (fun w => w.version = version) = some v ∧ s' = s := by
  have hrun : (scenarioVersion version).run.run s =
      (match s.versions.find? (fun w => w.version = version) with
      | some v => pure v
      | none => throw .versionNotFound : Service ScenarioVersion).run.run s := rfl
  rw [hrun]
  cases s.versions.find? fun w => w.version = version with
  | none => exact ⟨nofun, nofun⟩
  | some w =>
      constructor
      · intro h
        obtain ⟨hw, hs⟩ := Prod.mk.inj h
        exact ⟨congrArg some (Except.ok.inj hw), hs.symm⟩
      · rintro ⟨hw, rfl⟩
        cases hw
        rfl

theorem run_restoreRequests {raw : Option String} (hraw : raw ≠ some "") :
    (if raw.getD "" = "" then deleteScenarioRequests
      else setScenarioRequests (raw.getD "")).run.run s =
      (.ok (), { s with live := { s.live with requests := raw } }) := by
  cases raw with
  | none => rfl
  | some text =>
      have hne : text ≠ "" := fun heq => hraw (congrArg some heq)
      rw [Option.getD_some, if_neg hne]
      rfl

theorem run_restore (h : s.Sound cfg) {version : ℕ} {v : ScenarioVersion}
    (hv : s.versions.find? (fun w => w.version = version) = some v) (hl : l.Sound cfg)
    (hsame : SameScenario s.live l) (hsnapshot : v.snapshot = l.snapshot cfg) (actor : String) :
    (restore cfg version actor).run.run s =
      (.ok ⟨version, s.versions.length + 1⟩, ⟨l, (s.captured cfg actor).versions⟩) := by
  have hversion := run_scenarioVersion.mpr ⟨hv, rfl⟩
  have hget : (get : Service Store).run.run s = (.ok s, s) := rfl
  have hvalid : ofValid ((l.snapshot cfg).rewound s.live.row.id).validate = pure () := by
    rw [rewound_validate hl]
    rfl
  have hupdate : (updateScenario ((l.snapshot cfg).rewound s.live.row.id)).run.run
      (s.captured cfg actor) =
      (.ok (), ⟨{ s.live with row := l.row }, (s.captured cfg actor).versions⟩) := by
    refine run_modifyLive.mpr ?_
    rw [← hsame.row_eq]
    rfl
  have hfiles : (restoreFiles cfg (l.snapshot cfg)).run.run
      ⟨{ s.live with row := l.row }, (s.captured cfg actor).versions⟩ = _ :=
    run_restoreFiles h.live.distinct h.live.testFile hl
  rw [restore, Checked.run_bind_of_ok hget, Checked.run_bind_of_ok hversion,
    Checked.run_bind_of_ok (run_captureVersionOf h rfl), hsnapshot]
  simp only [hvalid, pure_bind]
  rw [Checked.run_bind_of_ok hupdate, Checked.run_bind_of_ok hfiles]
  exact (Checked.run_bind_of_ok (run_restoreRequests hl.requests)).trans rfl

theorem restore_recorded (h : s.Sound cfg) {version : ℕ} {r : RestoreResult}
    (hok : (restore cfg version actor).run.run s = (.ok r, s')) : Recorded cfg s s' := by
  have hfound : ∃ v, s.versions.find? (fun w => w.version = version) = some v := by
    unfold restore at hok
    simp only [Checked.run_bind_eq_ok, run_scenarioVersion] at hok
    obtain ⟨_, s₁, hget, v, _, ⟨hv, -⟩, -⟩ := hok
    obtain rfl : s = s₁ := congrArg Prod.snd hget
    exact ⟨v, hv⟩
  obtain ⟨v, hv⟩ := hfound
  obtain ⟨l, hl, hsame, hsnapshot⟩ := h.snapshots v (List.mem_of_find?_eq_some hv)
  rw [run_restore h hv hl hsame hsnapshot] at hok
  obtain rfl := (Prod.mk.inj hok).2
  exact ⟨⟨_, rfl⟩, hl, hsame⟩

theorem serve_recorded (h : s.Sound cfg) {request : Request}
    (hok : (serve cfg actor request).run.run s = (.ok (), s')) : Recorded cfg s s' := by
  cases request with
  | uploadFile filename => exact uploadFile_recorded h hok
  | deleteFile filename => exact deleteFile_recorded h hok
  | setRequests raw => exact setRequests_recorded h hok
  | restore version =>
      obtain ⟨r, s₁, hrestore, hlast⟩ := Checked.run_bind_eq_ok.mp hok
      obtain rfl : s₁ = s' := congrArg Prod.snd hlast
      exact restore_recorded h hrestore

/-! ### One call after the other -/

/-- What the database assigns does not matter for a scenario to be valid. -/
theorem validate_assigned (row : Scenario) (tenantId : Option ℤ) (id createdTime : ℤ) :
    { row with tenantId, id, createdTime }.validate = row.validate := rfl

theorem capturedFirst_sound {row : Scenario} {n : ℕ} (hvalid : row.validate = .ok ())
    (hrun : (captureVersionOf cfg row actor).run.run ⟨⟨row, none, ∅, none⟩, []⟩ = (.ok n, s)) :
    s.Sound cfg := by
  have hlive : Live.Sound cfg ⟨row, none, ∅, none⟩ := ⟨hvalid, by simp, nofun, nofun⟩
  have hbare : Store.Sound cfg ⟨⟨row, none, ∅, none⟩, []⟩ := ⟨hlive, rfl, List.forall_mem_nil _⟩
  rw [run_captureVersionOf hbare rfl] at hrun
  obtain rfl := (Prod.mk.inj hrun).2
  exact Recorded.sound hbare ⟨⟨_, rfl⟩, hlive, .of_row rfl⟩

theorem create_sound {c : Creation} (hok : create cfg c = .ok s) : s.Sound cfg := by
  unfold create at hok
  cases hnew : newScenario c.name c.projectId with
  | error e => simp [hnew] at hok
  | ok p =>
      obtain ⟨u, hvalid, rfl⟩ := Checked.map_eq_ok.mp hnew
      simp only [hnew] at hok
      split at hok
      · rename_i n s' hrun
        cases hok
        exact capturedFirst_sound ((validate_assigned _ _ _ _).trans hvalid) hrun
      · cases hok

variable {requests : List (String × Request)}

theorem served_sound (h : s.Sound cfg) (hserved : served cfg s requests = some s') :
    s'.Sound cfg ∧ s.versions <+: s'.versions ∧
      (s.live ≠ s'.live → ∃ v ∈ s'.versions, v.snapshot = s.live.snapshot cfg) := by
  induction requests generalizing s with
  | nil =>
      obtain rfl := Option.some_inj.mp hserved
      exact ⟨h, List.prefix_rfl, fun hne => absurd rfl hne⟩
  | cons request rest ih =>
      unfold served at hserved
      split at hserved
      · rename_i s₁ hserve
        have hrecorded := serve_recorded h hserve
        obtain ⟨hsound, hgrown, -⟩ := ih (hrecorded.sound h) hserved
        obtain ⟨createdBy, hversions⟩ := hrecorded.versions
        refine ⟨hsound, (hversions ▸ List.prefix_append _ _).trans hgrown, fun _ => ?_⟩
        refine ⟨_, hgrown.subset (hversions ▸ List.mem_append_right _ List.mem_cons_self), rfl⟩
      · cases hserved

theorem served_append {before after : List (String × Request)} :
    served cfg s (before ++ after) = (served cfg s before).bind (served cfg · after) := by
  induction before generalizing s with
  | nil => rfl
  | cons request rest ih =>
      rw [List.cons_append, served, served]
      split
      · exact ih
      · rfl

theorem find?_version (h : s.Sound cfg) {v : ScenarioVersion} (hv : v ∈ s.versions) :
    s.versions.find? (fun w => w.version = v.version) = some v := by
  have hnodup : (s.versions.map (·.version)).Nodup := by
    rw [h.numbered]
    exact List.nodup_range' ..
  exact (Keyed.find?_eq_some_iff hnodup).mpr ⟨hv, rfl⟩

/-- A restore is undone by restoring the version that it recorded. -/
theorem restore_undone (h : s.Sound cfg) {v : ScenarioVersion} (hv : v ∈ s.versions)
    (actor actor' : String) :
    ∃ r s₁, (restore cfg v.version actor).run.run s = (.ok r, s₁) ∧
      ∃ r' s₂, (restore cfg r.version actor').run.run s₁ = (.ok r', s₂) ∧ s₂.live = s.live := by
  obtain ⟨l, hl, hsame, hsnapshot⟩ := h.snapshots v hv
  have hrun := run_restore h (find?_version h hv) hl hsame hsnapshot actor
  have hsound := (restore_recorded h hrun).sound h
  have hlast : (⟨s.versions.length + 1, s.live.snapshot cfg, nullString actor⟩ : ScenarioVersion) ∈
      (s.captured cfg actor).versions := List.mem_append_right _ List.mem_cons_self
  exact ⟨_, _, hrun, _, _,
    run_restore hsound (find?_version hsound hlast) h.live hsame.symm rfl actor', rfl⟩

end Calls

/-- Of calls that are made one after the other, after a scenario was created, and that all succeed:
the versions have the numbers from one on, and stay as they were recorded; whatever the scenario was
between two calls, and is no longer, is recorded; and a restore of any version can be undone. -/
theorem versions_complete {c : Creation} {requests : List (String × Request)} {s₀ s : Store}
    (hcreate : create cfg c = .ok s₀) (hserved : served cfg s₀ requests = some s) :
    s.versions.map (·.version) = List.range' 1 s.versions.length ∧
      (∀ before after, requests = before ++ after → ∃ s', served cfg s₀ before = some s' ∧
        s'.versions <+: s.versions ∧
        (s'.live ≠ s.live → ∃ v ∈ s.versions, v.snapshot = s'.live.snapshot cfg)) ∧
      ∀ v ∈ s.versions, ∀ actor actor', ∃ r s₁,
        (restore cfg v.version actor).run.run s = (.ok r, s₁) ∧ ∃ r' s₂,
          (restore cfg r.version actor').run.run s₁ = (.ok r', s₂) ∧ s₂.live = s.live := by
  have hsound := create_sound hcreate
  refine ⟨(served_sound hsound hserved).1.numbered, fun before after heq => ?_, fun v hv => ?_⟩
  · rw [heq, served_append] at hserved
    obtain ⟨s', hbefore, hafter⟩ := Option.bind_eq_some_iff.mp hserved
    exact ⟨s', hbefore, (served_sound (served_sound hsound hbefore).1 hafter).2⟩
  · exact restore_undone (served_sound hsound hserved).1 hv

/-- Names are compared as they are, and a fragment is its one URL. -/
def plainSetting : Setting where
  collate := id
  listed names :=
    Quotient.liftOn names.val (List.insertionSort (· ≤ ·)) fun _ _ h =>
      Visit.insertionSort_eq_of_perm _ h fun _ _ _ _ => le_antisymm
  mem_listed names name := by
    obtain ⟨⟨l⟩, hl⟩ := names
    exact List.mem_insertionSort _
  nodup_listed names := by
    obtain ⟨⟨l⟩, hl⟩ := names
    exact (List.perm_insertionSort (· ≤ ·) l).nodup_iff.mpr hl
  parse raw := .ok (if raw = "" then [] else [raw])
  parse_empty := rfl
  tenantOf _ := none

def someRequests : List (String × Request) :=
  [("ann", .setRequests "http://shop"), ("bob", .uploadFile "users.csv"),
    ("bob", .uploadFile "plan.jmx"), ("ann", .restore 4), ("ann", .deleteFile "users.csv")]

theorem versions_complete_someRequests :
    ∃ s₀ s, create plainSetting ⟨"shop", 1, "ann", 7, 0⟩ = .ok s₀ ∧
      served plainSetting s₀ someRequests = some s ∧
      s.versions.map (·.version) = List.range' 1 s.versions.length := by
  have hserved : ((create plainSetting ⟨"shop", 1, "ann", 7, 0⟩).toOption.bind fun s₀ =>
      served plainSetting s₀ someRequests).isSome := by decide +kernel
  obtain ⟨s, hs⟩ := Option.isSome_iff_exists.mp hserved
  obtain ⟨s₀, hoption, hs⟩ := Option.bind_eq_some_iff.mp hs
  obtain ⟨_, hcreate, rfl⟩ := Checked.exists_ok (congrArg (Option.map id) hoption)
  exact ⟨_, s, hcreate, hs, (versions_complete plainSetting hcreate hs).1⟩

end Honryu.ScenarioApp
