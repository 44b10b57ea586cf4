import Honryu.Lib.Checked
import Honryu.Lib.Visit
import Honryu.Taurus.Executor

/-!
The Taurus configuration: the shape executions and scenarios are compiled into,
and what makes one acceptable to bzt. A duration is a number of nanoseconds.
-/

namespace Honryu.Taurus

/-- `Execution` is one load phase: an engine driving one scenario at a given
load. A throughput of zero is left out of the text, which means unlimited. -/
structure Execution where
  executor : Executor
  concurrency : ℤ
  rampUp : ℤ
  holdFor : ℤ
  iterations : ℤ
  throughput : ℤ
  scenario : String
  deriving DecidableEq

/-- `Request` is one declarative HTTP request within a scenario. -/
structure Request where
  url : String
  label : String
  method : String
  headers : TallyMap String String
  deriving DecidableEq

structure DataSource where
  path : String
  deriving DecidableEq

/-- `Scenario` is a named workload: a script of an engine, or a list of
requests. -/
structure Scenario where
  script : String
  defaultAddress : String
  headers : TallyMap String String
  requests : List Request
  dataSources : List DataSource
  timeout : ℤ
  keepAlive : Option Bool
  deriving DecidableEq

/-- `Reporter` is one entry of the reporting chain. -/
structure Reporter where
  module : String
  criteria : List String
  deriving DecidableEq

/-- `Module` configures a bzt module. -/
structure Module where
  sequential : Option Bool
  deriving DecidableEq

structure Config where
  execution : List Execution
  scenarios : TallyMap String Scenario
  reporting : List Reporter
  modules : TallyMap String Module
  deriving DecidableEq

/-! ### Validation -/

inductive ExecutionError
  | executorRequired
  | concurrencyInvalid
  | scenarioRequired
  | scenarioUndefined (key : String)
  | durationRequired
  deriving DecidableEq

def Execution.validate (scenarios : TallyMap String Scenario) (e : Execution) :
    Except ExecutionError Unit :=
  if e.executor.name = "" then .error .executorRequired
  else if e.concurrency ≤ 0 then .error .concurrencyInvalid
  else if e.scenario = "" then .error .scenarioRequired
  else if e.scenario ∉ scenarios then .error (.scenarioUndefined e.scenario)
  else if e.holdFor = 0 ∧ e.iterations = 0 then .error .durationRequired
  else .ok ()

inductive ConfigError
  | noExecution
  | execution (index : ℕ) (e : ExecutionError)
  | scenarioEmpty (name : String)
  deriving DecidableEq

/-- The first loop of `Config.Validate`, from the execution of an index on. -/
def validateExecutions (scenarios : TallyMap String Scenario) (index : ℕ) :
    List Execution → Except ConfigError Unit
  | [] => .ok ()
  | e :: executions =>
      match e.validate scenarios with
      | .error err => .error (.execution index err)
      | .ok () => validateExecutions scenarios (index + 1) executions

/-- `Validate` checks what bzt would otherwise fail on in a pod. -/
def Config.validate (v : Visit) (c : Config) : Except ConfigError Unit :=
  if c.execution = [] then .error .noExecution
  else
    match validateExecutions c.scenarios 0 c.execution with
    | .error err => .error err
    | .ok () =>
        match (v.list c.scenarios).find? fun s => s.2.script = "" ∧ s.2.requests = [] with
        | some s => .error (.scenarioEmpty s.1)
        | none => .ok ()

/-! ### The load of a config -/

def Config.isSequential (c : Config) : Bool :=
  (c.modules["local"]?).any fun m => m.sequential = some true

/-- What a pod holds at its busiest, of a figure of its executions: they run one
after another, or all at once. -/
def Config.peak (c : Config) (figure : Execution → ℤ) : ℤ :=
  if c.isSequential then (c.execution.map figure).foldl max 0 else (c.execution.map figure).sum

end Honryu.Taurus
