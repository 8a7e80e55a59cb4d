import TopicHub.Expression.Run
import TopicHub.Sql.Evaluate
import TopicHub.Text.Input

/-!
Calculations as rules write them: SQL expressions with other signs for conjunction and disjunction, with
a word around them that says that there is something to calculate, and with a semicolon at the end.
-/

namespace TopicHub.Calculation

open Text

def calcWord : List Char := "calc".toList

def prepare (text : List Char) : List Char :=
  let s := replace ['|', '|'] " or ".toList (replace ['&', '&'] " and ".toList text)
  trimEndWhile (fun c => c = ';' || isBlank c) (trim (replaceAnyCase calcWord [] s))

def scalarOf : Sql.Value → Scalar
  | .null => .null
  | .integer n => .integer n
  | .real x => .real x
  | .text s => .text (String.ofList s)
  | .blob s => .text (String.ofList s)

/-- What a text comes to with a database that queries are put to. Nothing to calculate is null. -/
def calculateBy (query : List Char → Option Sql.Value) (text : String) : Except RuleError Scalar :=
  let prepared := prepare text.toList
  if prepared.isEmpty then .ok .null
  else match query prepared with
    | some v => .ok (scalarOf v)
    | none => .error (.calculation (String.ofList prepared))

def calculate : String → Except RuleError Scalar := calculateBy Sql.evaluate?

end TopicHub.Calculation
