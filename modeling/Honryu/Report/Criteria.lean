import Honryu.Compile.Criteria
import Honryu.Lib.Text
import Honryu.Report.Report

/-!
Judging a report by pass/fail criteria.

A criterion is a condition of failure, or a floor that is turned into one first. What cannot be
read is listed among the failed criteria too, and marked as not read.
-/

namespace Honryu.Report

open Compile (isBlank isSubject takeThreshold takeUnit floorToViolation)

/-- An operator of the evaluator's grammar. There are two spellings of equality. -/
inductive Op
  | ge
  | le
  | eq
  | gt
  | lt
  deriving DecidableEq

def takeOp : List Char → Option (Op × List Char)
  | '>' :: '=' :: rest => some (.ge, rest)
  | '<' :: '=' :: rest => some (.le, rest)
  | '=' :: '=' :: rest => some (.eq, rest)
  | '>' :: rest => some (.gt, rest)
  | '<' :: rest => some (.lt, rest)
  | '=' :: rest => some (.eq, rest)
  | _ => none

/-- The parts of a criterion that `criterionPattern` matches. -/
structure CriterionMatch where
  subject : List Char
  op : Op
  threshold : List Char
  unit : List Char
  deriving DecidableEq

/-- `criterionPattern`: a subject, an operator, a number and perhaps a unit, with blanks between
them. -/
def criterionPattern (c : String) : Option CriterionMatch :=
  let (subject, rest) := (c.toList.dropWhile isBlank).span isSubject
  if subject = [] then none
  else
    match takeOp (rest.dropWhile isBlank) with
    | none => none
    | some (op, rest) =>
        match takeThreshold (rest.dropWhile isBlank) with
        | none => none
        | some (threshold, rest) =>
            let (unit, rest) := takeUnit (rest.dropWhile isBlank)
            if rest.all isBlank then some { subject, op, threshold, unit } else none

/-- `FailedCriterion` is a criterion that triggered, or one that could not be read. -/
structure FailedCriterion where
  criterion : String
  unparsed : Bool
  deriving DecidableEq

/-- `criterionTriggered`: the comparison holds. -/
def criterionTriggered (measured : ℚ) (op : Op) (threshold : ℚ) : Bool :=
  match op with
  | .gt => threshold < measured
  | .ge => threshold ≤ measured
  | .lt => measured < threshold
  | .le => measured ≤ threshold
  | .eq => measured = threshold

/-- What a criterion compares, and what with, if the report has it and the unit fits. -/
def compared (r : Report) (subject : String) (unit : List Char) (rawThreshold : ℚ) :
    Option (ℚ × ℚ) :=
  if subject = "failures" ∨ subject = "fail" then
    if unit = ['%'] then some (r.errorRate * 100, rawThreshold) else none
  else
    match subject.toList with
    | 'p' :: pct =>
        match Text.parseFloat pct with
        | none => none
        | some pct =>
            match r.latency[pct]? with
            | none => none
            | some latency =>
                if unit = ['m', 's'] ∨ unit = [] then some (latency, rawThreshold / 1000)
                else if unit = ['s'] then some (latency, rawThreshold)
                else none
    | _ => none

/-- `evaluateOne` says how a criterion failed, if it did. -/
def evaluateOne (r : Report) (c : String) : Option FailedCriterion :=
  match criterionPattern c with
  | none => some { criterion := c, unparsed := true }
  | some m =>
      match Text.parseDecimal m.threshold with
      | none => some { criterion := c, unparsed := true }
      | some rawThreshold =>
          match compared r (Text.toLower (String.ofList m.subject)) m.unit rawThreshold with
          | none => some { criterion := c, unparsed := true }
          | some (measured, threshold) =>
              if criterionTriggered measured m.op threshold then
                some { criterion := c, unparsed := false }
              else none

/-! ### Floors -/

def takeFloor : List Char → Option (Op × List Char)
  | '<' :: '=' :: rest => some (.le, rest)
  | '<' :: rest => some (.lt, rest)
  | _ => none

/-- `floorCriterion` matches what `criterionPattern` does, with the two operators of a floor. -/
def floorCriterion (c : String) : Option CriterionMatch :=
  let (subject, rest) := (c.toList.dropWhile isBlank).span isSubject
  if subject = [] then none
  else
    match takeFloor (rest.dropWhile isBlank) with
    | none => none
    | some (op, rest) =>
        match takeThreshold (rest.dropWhile isBlank) with
        | none => none
        | some (threshold, rest) =>
            let (unit, rest) := takeUnit (rest.dropWhile isBlank)
            if rest.all isBlank then some { subject, op, threshold, unit } else none

/-- One criterion of the loop of `floorsToViolations`. -/
def floorRewritten (c : String) : String :=
  match floorCriterion c with
  | none => c
  | some m =>
      let inverted := if m.op = .lt then ['>', '='] else ['>']
      String.ofList (m.subject ++ inverted ++ m.threshold ++ m.unit)

/-- `floorsToViolations` rewrites floors into conditions of failure, as the compiler does. -/
def floorsToViolations (criteria : List String) : List String := criteria.map floorRewritten

/-- `EvaluateCriteria` lists the criteria that failed. -/
def evaluateCriteria (r : Report) (criteria : List String) : List FailedCriterion :=
  (floorsToViolations criteria).filterMap (evaluateOne r)

/-- `EngineImpaired` reports whether the generator's own failures dominated the run. -/
def engineImpaired (r : Report) : Bool :=
  if r.attribution.engine = 0 then false else r.attribution.target < r.attribution.engine

theorem takeFloorOp_eq (cs : List Char) :
    Compile.takeFloorOp cs = (takeFloor cs).map fun p =>
      (if p.1 = .lt then ['>', '='] else ['>'], p.2) := by
  fun_cases takeFloor cs with
  | case1 rest => rfl
  | case2 rest hnot => simp [Compile.takeFloorOp]
  | case3 hnot hnot' => simp [Compile.takeFloorOp]

theorem floorRewritten_eq (c : String) : floorRewritten c = floorToViolation c := by
  simp only [floorRewritten, floorCriterion, floorToViolation, takeFloorOp_eq]
  generalize (c.toList.dropWhile isBlank).span isSubject = s
  by_cases hsubject : s.1 = []
  · simp only [hsubject, if_true]
  · simp only [hsubject, if_false]
    cases takeFloor (s.2.dropWhile isBlank) with
    | none => rfl
    | some p =>
        simp only [Option.map_some]
        cases takeThreshold (p.2.dropWhile isBlank) with
        | none => rfl
        | some q =>
            cases hblank : (takeUnit (q.2.dropWhile isBlank)).2.all isBlank <;> simp [hblank]

theorem floorsToViolations_eq (criteria : List String) :
    floorsToViolations criteria = criteria.map floorToViolation :=
  List.map_congr_left fun c _ => floorRewritten_eq c

theorem evaluateCriteria_ne_nil {r : Report} {criteria : List String} :
    evaluateCriteria r criteria ≠ [] ↔
      ∃ c ∈ criteria, (evaluateOne r (floorToViolation c)).isSome = true := by
  rw [evaluateCriteria, floorsToViolations_eq, Ne, List.filterMap_eq_nil_iff]
  simp [Option.isSome_iff_ne_none]

end Honryu.Report
