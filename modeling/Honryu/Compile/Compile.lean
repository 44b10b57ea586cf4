import Honryu.Compile.Criteria
import Honryu.LoadProfile.Profile
import Honryu.Taurus.Config

/-!
Turning a load profile and the scenarios it runs into a Taurus configuration.
-/

namespace Honryu.Compile

open LoadProfile

/-! ### Scenarios -/

inductive Kind
  | portable
  | native
  | other (text : String)
  deriving DecidableEq

structure Scenario where
  id : ℤ
  name : String
  kind : Kind
  engine : Taurus.Executor
  deriving DecidableEq

inductive ScenarioError
  | engineUnknown (engine : Taurus.Executor)
  | enginePinned (pinned engine : Taurus.Executor)
  | engineNeedsScript (engine : Taurus.Executor)
  | kindUnknown (kind : Kind)
  deriving DecidableEq

/-- `CanRunOn`: whether the scenario may run on an engine, and why not. -/
def Scenario.canRunOn (s : Scenario) (engine : Taurus.Executor) : Except ScenarioError Unit :=
  if engine.known = false then .error (.engineUnknown engine)
  else
    match s.kind with
    | .native => if engine ≠ s.engine then .error (.enginePinned s.engine engine) else .ok ()
    | .portable =>
        if engine.acceptsDeclarativeRequests = false then .error (.engineNeedsScript engine)
        else .ok ()
    | .other text => .error (.kindUnknown (.other text))

/-! ### Names -/

structure Runes where
  lower : Char → Char
  isLetter : Char → Bool
  isDigit : Char → Bool

namespace Runes

variable (runes : Runes)

/-- One rune of the loop of `slug`: the text so far, and whether it ends in a
hyphen. -/
def slugRune (st : List Char × Bool) (c : Char) : List Char × Bool :=
  if runes.isLetter c || runes.isDigit c then (st.1 ++ [c], false)
  else if st.2 = false then (st.1 ++ ['-'], true)
  else st

/-- `slug` reduces a text to lower-case letters, digits and single hyphens. -/
def slug (s : String) : String :=
  let built := ((s.toList.map runes.lower).foldl runes.slugRune ([], true)).1
  String.ofList ((built.dropWhile (· = '-')).rdropWhile (· = '-'))

/-- `scenarioKey` names a scenario within a config. -/
def scenarioKey (s : Scenario) : String := s!"{runes.slug s.name}-{s.id}"

/-- `requestLabel` names the request at a position. -/
def requestLabel (s : Scenario) (r : Taurus.Request) (i : ℕ) : String :=
  let target := runes.slug r.url
  if target ≠ "" then s!"{runes.slug s.name}-{target}" else s!"{runes.slug s.name}-{i}"

end Runes

/-! ### Compilation -/

inductive CompileError
  | noEntries
  | engineRequired
  | scenarioMissing (scenarioId : ℤ)
  | cannotRun (name : String) (e : ScenarioError)
  | scriptRequired (name : String)
  | requestsRequired (name : String)
  | invalid (e : Taurus.ConfigError)
  deriving DecidableEq

/-- `ScenarioInput` is one scenario and the artefacts it runs with. -/
structure ScenarioInput where
  scenario : Scenario
  scriptPath : String
  defaultAddress : String
  requests : List Taurus.Request
  headers : TallyMap String String
  timeout : ℤ
  keepAlive : Option Bool
  dataPaths : List String

/-- `Input` is everything needed to compile one execution. -/
structure Input where
  tests : List Entry
  engine : Taurus.Executor
  scenarios : TallyMap ℤ ScenarioInput
  headers : TallyMap String String
  criteria : List String
  sequential : Bool

def dataSources (paths : List String) : List Taurus.DataSource :=
  (paths.insertionSort (· ≤ ·)).map fun path => { path }

/-- `compileScenario`: the fragment's own headers lie beneath those of the
execution. -/
def compileScenario (runes : Runes) (si : ScenarioInput) (headers : TallyMap String String) :
    Except CompileError Taurus.Scenario :=
  if si.scenario.kind = .native then
    if si.scriptPath = "" then .error (.scriptRequired si.scenario.name)
    else
      .ok
        { script := si.scriptPath, defaultAddress := "", headers, requests := []
          dataSources := dataSources si.dataPaths, timeout := 0, keepAlive := none }
  else if si.requests = [] then .error (.requestsRequired si.scenario.name)
  else
    .ok
      { script := "", defaultAddress := si.defaultAddress
        headers := headers.toList.foldl (fun m h => m.insert h.1 h.2) si.headers
        requests := si.requests.zipIdx.map fun (r, i) =>
          if r.label = "" then { r with label := runes.requestLabel si.scenario r i } else r
        dataSources := dataSources si.dataPaths, timeout := si.timeout, keepAlive := si.keepAlive }

/-- `time.Second`. -/
def second : ℤ := 10 ^ 9

/-- One entry of the loop of `Taurus`. -/
def compileEntry (runes : Runes) (input : Input) (cfg : Taurus.Config) (entry : Entry) :
    Except CompileError Taurus.Config :=
  match input.scenarios[entry.scenarioId]? with
  | none => .error (.scenarioMissing entry.scenarioId)
  | some si =>
      match si.scenario.canRunOn input.engine with
      | .error e => .error (.cannotRun si.scenario.name e)
      | .ok () =>
          let key := runes.scenarioKey si.scenario
          match compileScenario runes si input.headers with
          | .error e => .error e
          | .ok ts =>
              .ok
                { cfg with
                  scenarios := cfg.scenarios.insert key ts
                  execution := cfg.execution ++
                    [{ executor := input.engine, concurrency := entry.concurrency
                       rampUp := entry.rampup * second, holdFor := entry.duration * second
                       iterations := 0, throughput := entry.throughput, scenario := key }] }

def withReporting (input : Input) (cfg : Taurus.Config) : Taurus.Config :=
  if input.criteria ≠ [] then
    { cfg with
      reporting := cfg.reporting ++
        [{ module := "passfail", criteria := floorCriteriaToViolation input.criteria }] }
  else cfg

/-- The flag of the local provisioner, without which it would start every
execution at once. -/
def withModules (input : Input) (cfg : Taurus.Config) : Taurus.Config :=
  if input.sequential ∧ 1 < cfg.execution.length then
    { cfg with modules := cfg.modules.insert "local" { sequential := some true } }
  else cfg

/-- `Taurus` compiles the input into a configuration, and validates it. -/
def taurus (runes : Runes) (v : Visit) (input : Input) : Except CompileError Taurus.Config :=
  if input.engine.name = "" then .error .engineRequired
  else if input.tests = [] then .error .noEntries
  else
    match input.tests.foldlM (compileEntry runes input)
      { execution := [], scenarios := ∅, reporting := [], modules := ∅ } with
    | .error e => .error e
    | .ok cfg =>
        let cfg := withModules input (withReporting input cfg)
        match cfg.validate v with
        | .error e => .error (.invalid e)
        | .ok () => .ok cfg

/-! ### The load of a compiled config -/

structure Block where
  concurrency : ℤ
  throughput : ℤ
  rampup : ℤ
  hold : ℤ
  deriving DecidableEq

def Block.ofExecution (x : Taurus.Execution) : Block :=
  { concurrency := x.concurrency, throughput := x.throughput, rampup := x.rampUp, hold := x.holdFor }

def Block.ofEntry (e : Entry) : Block :=
  { concurrency := e.concurrency, throughput := e.throughput, rampup := e.rampup * second
    hold := e.duration * second }

section Blocks

variable {runes : Runes} {v : Visit} {input : Input} {cfg cfg' : Taurus.Config}

theorem compileEntry_blocks {entry : Entry} (h : compileEntry runes input cfg entry = .ok cfg') :
    cfg'.execution.map Block.ofExecution =
        cfg.execution.map Block.ofExecution ++ [Block.ofEntry entry] ∧
      cfg'.modules = cfg.modules := by
  unfold compileEntry at h
  split at h
  · cases h
  · split at h
    · cases h
    · simp only at h
      split at h
      · cases h
      · cases h
        exact ⟨List.map_append, rfl⟩

theorem foldlM_compileEntry_blocks {tests : List Entry}
    (h : tests.foldlM (compileEntry runes input) cfg = .ok cfg') :
    cfg'.execution.map Block.ofExecution =
        cfg.execution.map Block.ofExecution ++ tests.map Block.ofEntry ∧
      cfg'.modules = cfg.modules := by
  induction tests generalizing cfg with
  | nil =>
      cases h
      simp
  | cons entry tests ih =>
      rw [List.foldlM_cons, Checked.bind_eq_ok] at h
      obtain ⟨mid, hmid, hrest⟩ := h
      have hstep := compileEntry_blocks hmid
      have htests := ih hrest
      constructor
      · rw [htests.1, hstep.1, List.append_assoc]
        rfl
      · rw [htests.2, hstep.2]

theorem execution_withModules :
    (withModules input (withReporting input cfg)).execution = cfg.execution := by
  unfold withModules withReporting
  split <;> split <;> rfl

theorem modules_withReporting : (withReporting input cfg).modules = cfg.modules := by
  unfold withReporting
  split <;> rfl

theorem isSequential_withModules (h : cfg.modules = ∅) :
    (withModules input (withReporting input cfg)).isSequential = true ↔
      input.sequential = true ∧ 1 < cfg.execution.length := by
  have hexecution : (withReporting input cfg).execution = cfg.execution := by
    unfold withReporting
    split <;> rfl
  rw [withModules, hexecution, modules_withReporting, h]
  split
  case isTrue hsequential => simp [Taurus.Config.isSequential, hsequential]
  case isFalse hsequential =>
    simp [Taurus.Config.isSequential, hsequential, modules_withReporting, h]

/-- A config carries the load of its entries, in their order; the entries run one
after another if that was asked for and there are several. -/
theorem blocks_taurus (h : taurus runes v input = .ok cfg) :
    cfg.execution.map Block.ofExecution = input.tests.map Block.ofEntry ∧
      (cfg.isSequential = true ↔ input.sequential = true ∧ 1 < input.tests.length) := by
  simp only [taurus, Checked.guard_eq_ok] at h
  obtain ⟨-, -, h⟩ := h
  split at h
  · cases h
  case h_2 base hbase =>
    have hblocks := foldlM_compileEntry_blocks hbase
    have hlength : base.execution.length = input.tests.length := by
      simpa using congrArg List.length hblocks.1
    split at h
    · cases h
    · cases h
      rw [execution_withModules, isSequential_withModules hblocks.2, hlength, hblocks.1]
      exact ⟨rfl, Iff.rfl⟩

end Blocks

end Honryu.Compile
