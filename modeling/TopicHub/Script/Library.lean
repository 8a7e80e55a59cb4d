import TopicHub.Expression.Run
import TopicHub.Script.Evaluate

/-!
Scripts by name. A script that defines a function of its own name is called with the argument, any other
is run with the argument under a fixed name.
-/

namespace TopicHub

/-- The scripts that can be read, the latest source of each name. -/
structure ScriptLibrary where
  scripts : List (String × Script.Program)

namespace ScriptLibrary

open Script

def empty : ScriptLibrary := ⟨[]⟩

def register (l : ScriptLibrary) (name source : String) : Except RuleError ScriptLibrary :=
  match Program.read? source.toList with
  | none => .error (.scriptSource name)
  | some p => .ok ⟨Json.setField name p l.scripts⟩

def contains (l : ScriptLibrary) (name : String) : Bool := (Json.lookup? name l.scripts).isSome

def size (l : ScriptLibrary) : Nat := l.scripts.length

def argumentName : String := "argument"

def outcome (p : Program) (name : String) (argument : List Char) : Outcome :=
  if p.defines name then
    p.call name (if argument.isEmpty then [] else [argumentValue argument])
  else p.runBody [(argumentName, argumentValue argument)]

/-- The text of what a script yields; a script that is not there yields nothing. -/
def invoke (l : ScriptLibrary) (name argument : String) : Except RuleError String :=
  match Json.lookup? name l.scripts with
  | none => .ok ""
  | some p =>
    match outcome p name argument.toList with
    | .ok v => .ok (String.ofList v.text)
    | .error _ => .error (.script name)

end ScriptLibrary

end TopicHub
