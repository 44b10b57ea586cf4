import Mathlib.Data.Int.Notation

/-!
The engines bzt runs load with, and how a run of one can end.
-/

namespace Honryu.Taurus

/-- `Executor` names a load-generation engine as bzt knows it. -/
structure Executor where
  name : String
  deriving DecidableEq

/-- `declarativeSupport`: the executors that are modelled, and whether they run a
scenario that is a list of requests. -/
def declarativeSupport : List (Executor × Bool) :=
  [(⟨"jmeter"⟩, true), (⟨"gatling"⟩, true), (⟨"locust"⟩, true), (⟨"apiritif"⟩, true),
    (⟨"ab"⟩, true), (⟨"siege"⟩, true), (⟨"k6"⟩, false)]

def Executor.known (e : Executor) : Bool := (declarativeSupport.lookup e).isSome

def Executor.acceptsDeclarativeRequests (e : Executor) : Bool :=
  (declarativeSupport.lookup e).getD false

/-- `Outcome` is how a run ended. A stored report may carry another text. -/
inductive Outcome
  | passed
  | failed
  | aborted
  | error
  | unknown (text : String)
  deriving DecidableEq

/-- `OutcomeFromExitCode` interprets an exit code of bzt: the shutdown was normal,
by hand, or because a criterion tripped. -/
def outcomeFromExitCode (code : ℤ) : Outcome :=
  if code = 0 then .passed else if code = 2 then .aborted else if code = 3 then .failed else .error

/-- `WorstOutcome`: the most severe of several outcomes. -/
def worstOutcome (outcomes : List Outcome) : Outcome :=
  if .error ∈ outcomes then .error
  else if .failed ∈ outcomes then .failed
  else if .aborted ∈ outcomes then .aborted
  else .passed

/-- `CombineOutcomes` of the exit codes of a run's shards. No code at all is no
evidence. -/
def combineOutcomes (codes : List ℤ) : Outcome :=
  if codes = [] then .error else worstOutcome (codes.map outcomeFromExitCode)

end Honryu.Taurus
