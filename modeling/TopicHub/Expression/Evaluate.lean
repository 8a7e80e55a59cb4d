import TopicHub.Condition
import TopicHub.Expression.Scripts
import TopicHub.Expression.Variables
import TopicHub.Text.Input

/-!
Conditions of rules. An expression is empty and matches, or its parts are joined by one kind of
combinator, or it is a single test: a JSON path against a payload, a condition object, a list of them,
or text to be calculated. Only a script that fails is a failure; everything else that goes wrong is no
match.
-/

namespace TopicHub.Expression

open Text Json

def andSeparators : List (List Char) := [" && ".toList, " and ".toList]

def orSeparators : List (List Char) := [" || ".toList, " or ".toList]

def noExpressionProtocol : String := "no expressions ➔ treat as positive evaluated"

/-- A picked value as it is written into an expression: numbers, and texts that read as numbers, as
they are; anything else in single quotes. -/
def literal (v : Value) : List Char :=
  match v with
  | .number n => n.text.toList
  | v =>
    let text := v.plainText.toList
    if (Number.float? (trim text)).isSome then text else '\'' :: text ++ ['\'']

/-- The first path of an expression replaced by the value that it picks from the payload. Without such
a value the expression stays as it is. -/
def substitutePath (write : Value → List Char) (text : List Char) (payload : String) : List Char :=
  match Inline.find? text with
  | none => text
  | some i =>
    match firstMatch i.path payload with
    | none => text
    | some v => i.before ++ write v ++ i.after

def evaluateCondition (expression payload : String) : Evaluation :=
  match Condition.read? expression with
  | none => .negative (expression ++ " ➔ invalid condition")
  | some c =>
    let protocol := c.operator ++ " " ++ c.value ++ " ➔ "
    if c.holds payload then .positive (protocol ++ "matches") else .negative (protocol ++ "no match")

def evaluateConditionList (expression payload : String) : Evaluation :=
  match Condition.readList? expression with
  | some list =>
    if Condition.anyHolds list payload then .positive "at least one matches" else .negative "no match"
  | none => .negative "no match"

def calculate (c : Collaborators) (resolved : List Char) : Run Evaluation := do
  let text := String.ofList resolved
  match ← c.runCalculation text with
  | .ok value => pure (.ofScalar text value)
  | .error e => pure (.negative (text ++ " ➔ " ++ e.message))

def evaluateSingle (c : Collaborators) (expression : List Char) (payload : String) :
    Run Evaluation :=
  if expression.isEmpty then pure (.positive noExpressionProtocol)
  else if holdsPath expression then calculate c (substitutePath literal expression payload)
  else if expression.head? = some '[' then
    pure (evaluateConditionList (String.ofList expression) payload)
  else if expression.head? = some '{' then
    pure (evaluateCondition (String.ofList expression) payload)
  else do
    let text := Variables.resolve c.lookup (replaceInput expression payload.toList)
    calculate c (← Scripts.resolve c text)

/-- Parts are evaluated from left to right up to the first one whose outcome is `stop`, and that is the
outcome of the whole; the protocols are written one to a line. -/
def evaluateUntil (c : Collaborators) (stop : Bool) (payload : String) :
    (protocol : String) → List (List Char) → Run Evaluation
  | protocol, [] => pure ⟨!stop, protocol, none⟩
  | protocol, segment :: rest => do
    let e ← evaluateSingle c segment payload
    let protocol := protocol ++ e.protocol ++ "\n"
    if e.isMatch = stop then pure ⟨stop, protocol, none⟩
    else evaluateUntil c stop payload protocol rest

/-- A text with both kinds of combinators is split at the conjunctions only. -/
def evaluateText (c : Collaborators) (expression : List Char) (payload : String) : Run Evaluation :=
  match splitAny? andSeparators expression with
  | some segments => evaluateUntil c false payload "" segments
  | none =>
    match splitAny? orSeparators expression with
    | some segments => evaluateUntil c true payload "" segments
    | none => evaluateSingle c expression payload

def evaluate (c : Collaborators) (expression : Option String) (payload : String) : Run Evaluation :=
  match expression with
  | none => pure (.positive noExpressionProtocol)
  | some text =>
    let text := trim text.toList
    if text.isEmpty then pure (.positive noExpressionProtocol) else evaluateText c text payload

end TopicHub.Expression
