import Mathlib.Data.Int.Notation
import Mathlib.Logic.Function.Basic

/-!
Launches: what the usage of an execution is accounted by.
-/

namespace Honryu.Usage

/-- A row of `execution_launch_history`. -/
structure Launch where
  executionId : ℤ
  context : String
  owner : String
  engines : ℤ
  vu : ℤ
  launchId : ℤ
  started : ℤ
  ended : Option ℤ
  deriving DecidableEq

/-- The tables of launches. `active` is `execution_launch`, which has one row for an
execution that has an open launch. -/
structure Launches where
  active : ℤ → Option ℤ
  nextId : ℤ
  history : List Launch

namespace Launches

def none : Launches := { active := fun _ => .none, nextId := 1, history := [] }

/-- `StartLaunch`, if there is no open launch of the execution. -/
def start (l : Launches) (now executionId : ℤ) (context owner : String) (engines vu : ℤ) :
    Launches :=
  match l.active executionId with
  | some _ => l
  | .none =>
      { active := Function.update l.active executionId (some l.nextId)
        nextId := l.nextId + 1
        history := l.history ++
          [{ executionId, context, owner, engines, vu, launchId := l.nextId, started := now
             ended := .none }] }

/-- `FinishLaunch` ends the open launch of an execution, if there is one. -/
def finish (l : Launches) (now executionId vu : ℤ) : Launches :=
  match l.active executionId with
  | .none => l
  | some id =>
      { l with
        active := Function.update l.active executionId .none
        history := l.history.map fun x =>
          if x.launchId = id then { x with ended := some now, vu } else x }

/-- `LaunchHistory`: the launches that have ended, and lie within a window. -/
def launchHistory (l : Launches) (startTime endTime : ℤ) : List Launch :=
  l.history.filter fun x => startTime ≤ x.started ∧ x.ended.any (· ≤ endTime)

@[simp] theorem active_finish (l : Launches) (now executionId vu : ℤ) :
    (l.finish now executionId vu).active executionId = .none := by
  unfold finish
  cases h : l.active executionId with
  | none => exact h
  | some id => exact Function.update_self ..

end Launches

end Honryu.Usage
