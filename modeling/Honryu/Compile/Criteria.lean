import Mathlib.Init

/-!
Rewriting floor assertions, which a user writes, into the conditions of failure
that bzt reads.
-/

namespace Honryu.Compile

def isBlank (c : Char) : Bool := c ∈ ['\t', '\n', '\x0c', '\r', ' ']

def isSubject (c : Char) : Bool := c.isAlphanum || c = '_' || c = '-'

/-- The number at the head of a text: digits, and digits after a point if there
is one. -/
def takeThreshold (cs : List Char) : Option (List Char × List Char) :=
  match cs.span Char.isDigit with
  | ([], _) => none
  | (whole, '.' :: rest) =>
      match rest.span Char.isDigit with
      | ([], _) => none
      | (part, rest) => some (whole ++ '.' :: part, rest)
  | (whole, rest) => some (whole, rest)

def takeUnit : List Char → List Char × List Char
  | '%' :: rest => (['%'], rest)
  | 'm' :: 's' :: rest => (['m', 's'], rest)
  | 's' :: rest => (['s'], rest)
  | rest => ([], rest)

def takeFloorOp : List Char → Option (List Char × List Char)
  | '<' :: '=' :: rest => some (['>'], rest)
  | '<' :: rest => some (['>', '='], rest)
  | _ => none

/-- `floorToViolation` rewrites one criterion, or leaves it as it is if it does
not have the form of a floor: a subject, an operator, a number, perhaps a unit,
with blanks between them. -/
def floorToViolation (c : String) : String :=
  let (subject, rest) := (c.toList.dropWhile isBlank).span isSubject
  if subject = [] then c
  else
    match takeFloorOp (rest.dropWhile isBlank) with
    | none => c
    | some (op, rest) =>
        match takeThreshold (rest.dropWhile isBlank) with
        | none => c
        | some (threshold, rest) =>
            let (unit, rest) := takeUnit (rest.dropWhile isBlank)
            if rest.all isBlank then String.ofList (subject ++ op ++ threshold ++ unit) else c

def floorCriteriaToViolation (criteria : List String) : List String := criteria.map floorToViolation

example : floorToViolation " p95 <= 800.5 ms" = "p95>800.5ms" := by decide +kernel

end Honryu.Compile
