import Honryu.Compile.Compile
import Honryu.Lifecycle.System
import Honryu.LoadProfile.Staircase

/-!
What `Deploy` sends to the scheduler: for every entry of the load profile its
shards, each with the config its pod runs, once for every cluster.

A compiled config is kept as it is before it is written out as YAML. The copy of
it that is staged in the object store is left out.
-/

namespace Honryu.Lifecycle

open LoadProfile

/-! ### What is stored -/

structure StoreError where
  text : String
  deriving DecidableEq

structure ScenarioFiles where
  testFile : String
  data : List String

inductive StoredRequests
  | notFound
  | unreadable (e : StoreError)
  | malformed (e : StoreError)
  | fragment (frag : Taurus.Scenario)

structure Artefacts where
  getScenario : ℤ → Except StoreError Compile.Scenario
  scenarioFilesFor : ℤ → Except StoreError ScenarioFiles
  download : String → Except StoreError String
  getScenarioRequests : ℤ → StoredRequests
  criteriaFor : ℤ → Except StoreError (List String)

inductive ProvisionError
  | plan (e : PlanError)
  | store (e : StoreError)
  | noTestFile
  | file (scenarioId : ℤ) (name : String) (e : StoreError)
  | requests (scenarioId : ℤ) (e : StoreError)
  | storedRequests (scenarioId : ℤ) (e : StoreError)
  | compile (e : Compile.CompileError)
  deriving DecidableEq

/-! ### Compiling an entry -/

/-- `ShardSpec` is one pod of a deploy, and the config it runs. -/
structure ShardSpec where
  index : ℤ
  concurrency : ℤ
  config : Taurus.Config
  deriving DecidableEq

def podScenarioPath : String := "/honryu/config/scenario/"

def scenarioKey (scenarioId : ℤ) (filename : String) : String := s!"scenario/{scenarioId}/{filename}"

structure Toolchain where
  artefacts : Artefacts
  runes : Compile.Runes
  visit : Visit
  executionId : ℤ
  engine : Taurus.Executor
  headers : TallyMap String String

namespace Toolchain

variable (t : Toolchain) (entry : Entry)

def requireTestFile (sc : Compile.Scenario) (pf : ScenarioFiles) : Except ProvisionError Unit :=
  if sc.kind = .native ∧ pf.testFile = "" then .error .noTestFile else .ok ()

/-- One name of the loop that fetches a scenario's files. -/
def addFile (files : TallyMap String String) (name : String) :
    Except ProvisionError (TallyMap String String) :=
  if name = "" then .ok files
  else
    match t.artefacts.download (scenarioKey entry.scenarioId name) with
    | .error e => .error (.file entry.scenarioId name e)
    | .ok content => .ok (files.insert name content)

/-- The part of `compileShards` that puts together what a scenario is compiled
from. A portable scenario without requests is left to the compiler to refuse. -/
def scenarioInput (sc : Compile.Scenario) (pf : ScenarioFiles) :
    Except ProvisionError Compile.ScenarioInput :=
  let si : Compile.ScenarioInput :=
    { scenario := sc, scriptPath := "", defaultAddress := "", requests := [], headers := ∅
      timeout := 0, keepAlive := none, dataPaths := pf.data.map (podScenarioPath ++ ·) }
  match sc.kind with
  | .native => .ok { si with scriptPath := podScenarioPath ++ pf.testFile }
  | .other _ => .ok si
  | .portable =>
      match t.artefacts.getScenarioRequests entry.scenarioId with
      | .notFound => .ok si
      | .unreadable e => .error (.requests entry.scenarioId e)
      | .malformed e => .error (.storedRequests entry.scenarioId e)
      | .fragment frag =>
          .ok
            { si with
              requests := frag.requests, defaultAddress := frag.defaultAddress
              headers := frag.headers, timeout := frag.timeout, keepAlive := frag.keepAlive }

/-- One step of a staircase, as the pod of an index carries it: its share of the
step's row, at least one of each. -/
def stepEntry (pods i : ℤ) (st : StaircaseStep) : Entry :=
  { entry with
    concurrency := max 1 (split st.concurrency pods i)
    throughput := max 1 (split st.throughput pods i)
    -- the step edges are the shape
    rampup := 0 }

/-- The entries a pod's config is compiled from, and whether they run one after
another. -/
def shardTests (pods i : ℤ) (sh : Shard) : List Entry × Bool :=
  if 1 < entry.steps then
    ((staircaseSteps entry.concurrency entry.throughput entry.steps).map (stepEntry entry pods i),
      true)
  else ([{ entry with concurrency := sh.concurrency, throughput := sh.throughput }], false)

def compileShard (si : Compile.ScenarioInput) (criteria : List String) (pods : ℤ)
    (sh : Shard × ℕ) : Except ProvisionError ShardSpec :=
  let (tests, sequential) := shardTests entry pods sh.2 sh.1
  let scenarios := (∅ : TallyMap ℤ Compile.ScenarioInput).insert entry.scenarioId si
  match Compile.taurus t.runes t.visit
    { tests, engine := t.engine, scenarios, headers := t.headers, criteria, sequential } with
  | .error e => .error (.compile e)
  | .ok config => .ok { index := sh.1.index, concurrency := sh.1.concurrency, config }

/-- `compileShards` turns one scenario's share of the load into a config per
pod. -/
def compileShards (shards : List Shard) :
    Except ProvisionError (List ShardSpec × TallyMap String String) := do
  let sc ← (t.artefacts.getScenario entry.scenarioId).mapError .store
  let pf ← (t.artefacts.scenarioFilesFor entry.scenarioId).mapError .store
  requireTestFile sc pf
  let files ← (pf.testFile :: pf.data).foldlM (t.addFile entry) ∅
  let si ← t.scenarioInput entry sc pf
  let criteria ← (t.artefacts.criteriaFor t.executionId).mapError .store
  let specs ← shards.zipIdx.mapM (t.compileShard entry si criteria shards.length)
  return (specs, files)

/-! ### What is compiled -/

/-- What a pod's config comes to: the load of its executions in their order, and
whether they run one after another. -/
structure Outline where
  index : ℤ
  blocks : List Compile.Block
  sequential : Bool
  deriving DecidableEq

end Toolchain

open Toolchain

def ShardSpec.outline (s : ShardSpec) : Outline :=
  { index := s.index, blocks := s.config.execution.map .ofExecution
    sequential := s.config.isSequential }

namespace Toolchain

variable {t : Toolchain} {entry : Entry}

theorem compileShard_outline {si : Compile.ScenarioInput} {criteria : List String} {pods : ℤ}
    {sh : Shard × ℕ} {spec : ShardSpec} (h : t.compileShard entry si criteria pods sh = .ok spec) :
    spec.outline =
      { index := sh.1.index
        blocks := (shardTests entry pods sh.2 sh.1).1.map .ofEntry
        sequential := (shardTests entry pods sh.2 sh.1).2 &&
          decide (1 < (shardTests entry pods sh.2 sh.1).1.length) } := by
  simp only [compileShard] at h
  split at h
  · cases h
  case h_2 config hconfig =>
    cases h
    have hblocks := Compile.blocks_taurus hconfig
    rw [ShardSpec.outline, hblocks.1, Outline.mk.injEq, Bool.eq_iff_iff, hblocks.2, Bool.and_eq_true,
      decide_eq_true_iff]
    exact ⟨rfl, rfl, Iff.rfl⟩

theorem compileShards_outline {shards : List Shard} {specs : List ShardSpec}
    {files : TallyMap String String} (h : t.compileShards entry shards = .ok (specs, files)) :
    specs.map ShardSpec.outline = shards.zipIdx.map fun sh =>
      { index := sh.1.index
        blocks := (shardTests entry shards.length sh.2 sh.1).1.map .ofEntry
        sequential := (shardTests entry shards.length sh.2 sh.1).2 &&
          decide (1 < (shardTests entry shards.length sh.2 sh.1).1.length) } := by
  simp only [compileShards, Checked.bind_eq_ok] at h
  obtain ⟨_, -, _, -, _, -, _, -, si, -, criteria, -, _, hspecs, hreturn⟩ := h
  cases hreturn
  exact Checked.map_of_mapM_eq_ok hspecs fun _ _ => compileShard_outline

end Toolchain

/-! ### Deploying a profile -/
/-- What `Deploy` reads of an execution besides what the life cycle does. -/
structure Deployment extends Execution where
  projectId : ℤ
  engine : Taurus.Executor
  cpu : String
  memory : String

/-- `engineOf` is the execution's engine, or the default if it names none. -/
def Deployment.engineOf (exe : Deployment) (fallback : Taurus.Executor) : Taurus.Executor :=
  if exe.engine.name ≠ "" then exe.engine else fallback

/-- `DeploySpec` is one call of the scheduler. -/
structure DeploySpec where
  cluster : String
  projectId : ℤ
  executionId : ℤ
  scenarioId : ℤ
  image : String
  cpu : String
  memory : String
  shards : List ShardSpec
  scenarioFiles : TallyMap String String

/-- What `Deploy` has settled before it comes to the scenarios. -/
structure DeployContext where
  artefacts : Artefacts
  runes : Compile.Runes
  visit : Visit
  image : String
  defaultEngine : Taurus.Executor
  headers : TallyMap String String

namespace Deployment

variable (exe : Deployment) (ctx : DeployContext)

def toolchain : Toolchain :=
  { artefacts := ctx.artefacts, runes := ctx.runes, visit := ctx.visit
    executionId := exe.executionId, engine := exe.engineOf ctx.defaultEngine
    headers := ctx.headers }

/-- The calls for one entry: its full shard set, on every cluster. -/
def deployEntry (ep : Entry) : Except ProvisionError (List DeploySpec) :=
  match plan ep ep.engines with
  | .error e => .error (.plan e)
  | .ok shards =>
      match (exe.toolchain ctx).compileShards ep shards with
      | .error e => .error e
      | .ok (specs, files) =>
          .ok (exe.clusters.map fun cluster =>
            { cluster, projectId := exe.projectId, executionId := exe.executionId
              scenarioId := ep.scenarioId, image := ctx.image, cpu := exe.cpu, memory := exe.memory
              shards := specs, scenarioFiles := files })

/-- The loop of `Deploy`: the calls that are made for some entries, and the error
that ends them. -/
def deploySpecs : List Entry → List DeploySpec × Option ProvisionError
  | [] => ([], none)
  | ep :: scenarios =>
      match exe.deployEntry ctx ep with
      | .error e => ([], some e)
      | .ok specs =>
          let (rest, e) := deploySpecs scenarios
          (specs ++ rest, e)

end Deployment

namespace Deployment

variable {exe : Deployment} {ctx : DeployContext}

theorem deployEntry_eq_ok {ep : Entry} {specs : List DeploySpec}
    (h : exe.deployEntry ctx ep = .ok specs) :
    ∃ shards shardSpecs files, plan ep ep.engines = .ok shards ∧
      (exe.toolchain ctx).compileShards ep shards = .ok (shardSpecs, files) ∧
      specs = exe.clusters.map fun cluster =>
        { cluster, projectId := exe.projectId, executionId := exe.executionId
          scenarioId := ep.scenarioId, image := ctx.image, cpu := exe.cpu, memory := exe.memory
          shards := shardSpecs, scenarioFiles := files } := by
  unfold deployEntry at h
  split at h
  · cases h
  case h_2 shards hshards =>
    split at h
    · cases h
    case h_2 shardSpecs files hspecs =>
      cases h
      exact ⟨shards, shardSpecs, files, hshards, hspecs, rfl⟩

theorem deploySpecs_eq {scenarios : List Entry}
    (h : (exe.deploySpecs ctx scenarios).2 = none) :
    exe.deploySpecs ctx scenarios = ((exe.deploySpecs ctx scenarios).1, none) :=
  Prod.ext rfl h

theorem deploySpecs_cons {ep : Entry} {scenarios : List Entry} {specs : List DeploySpec}
    (h : exe.deploySpecs ctx (ep :: scenarios) = (specs, none)) :
    ∃ first rest, exe.deployEntry ctx ep = .ok first ∧
      exe.deploySpecs ctx scenarios = (rest, none) ∧ specs = first ++ rest := by
  rw [deploySpecs] at h
  split at h
  · cases h
  case h_2 first hfirst =>
    obtain ⟨hspecs, hnone⟩ := Prod.mk.inj h
    exact ⟨first, _, hfirst, Prod.ext rfl hnone, hspecs.symm⟩

end Deployment

/-! ### A small toolchain -/

def jmxArtefacts : Artefacts where
  getScenario id := .ok { id, name := "checkout", kind := .native, engine := ⟨"jmeter"⟩ }
  scenarioFilesFor _ := .ok { testFile := "plan.jmx", data := [] }
  download _ := .ok "<jmeterTestPlan/>"
  getScenarioRequests _ := .notFound
  criteriaFor _ := .ok []

def plainRunes : Compile.Runes where
  lower := Char.toLower
  isLetter := Char.isAlpha
  isDigit := Char.isDigit

def jmxTools : Toolchain where
  artefacts := jmxArtefacts
  runes := plainRunes
  visit := .sorted
  executionId := 1
  engine := ⟨"jmeter"⟩
  headers := ∅

def jmxContext : DeployContext where
  artefacts := jmxArtefacts
  runes := plainRunes
  visit := .sorted
  image := "taurus"
  defaultEngine := ⟨"jmeter"⟩
  headers := ∅

def jmxDeployment (fanOutTargets : List String) (profile : List Entry) : Deployment :=
  { executionId := 1, cluster := "", fanOutTargets, profile, projectId := 1, engine := ⟨"jmeter"⟩
    cpu := "", memory := "" }

def ratedEntry (engines throughput : ℤ) : Entry :=
  { oneUser engines with concurrency := engines, throughput }

end Honryu.Lifecycle
