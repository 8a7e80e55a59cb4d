import TopicHub.Rule

/-!
Evaluation against collaborators: a memory of payloads, scripts, and a calculator. The collaborators
are functions of their arguments. A run yields its result together with a log of the scripts that it
invoked and of the texts that it had calculated.
-/

namespace TopicHub

/-- Failures of collaborators. The reasons are placeholders, for the wording of the calculator and of the
script language is not this library's. -/
inductive RuleError where
  | calculation (expression : String)
  | script (name : String)
  | scriptSource (name : String)
  deriving DecidableEq, Repr

def RuleError.message : RuleError → String
  | .calculation e => "calculation of '" ++ e ++ "' failed: <sqlite>"
  | .script name => "script '" ++ name ++ "' failed: <rhai>"
  | .scriptSource name => "script '" ++ name ++ "' failed: failed to compile script: <rhai>"

structure Collaborators where
  lookup : String → Option String
  invoke : (name argument : String) → Except RuleError String
  calculate : String → Except RuleError Scalar

structure Log where
  calculated : List String
  calls : List (String × String)
  deriving DecidableEq, Repr

namespace Log

def empty : Log := ⟨[], []⟩

def append (a b : Log) : Log := ⟨a.calculated ++ b.calculated, a.calls ++ b.calls⟩

end Log

structure Run (α : Type) where
  log : Log
  result : Except RuleError α

namespace Run

variable {α β : Type}

def pure (a : α) : Run α := ⟨.empty, .ok a⟩

def bind (x : Run α) (f : α → Run β) : Run β :=
  match x.result with
  | .error e => ⟨x.log, .error e⟩
  | .ok a => ⟨x.log.append (f a).log, (f a).result⟩

instance : Monad Run where
  pure := Run.pure
  bind := Run.bind

end Run

namespace Collaborators

def runScript (c : Collaborators) (call : String × String) : Run String :=
  ⟨⟨[], [call]⟩, c.invoke call.1 call.2⟩

/-- A failed calculation is a result like any other. -/
def runCalculation (c : Collaborators) (text : String) : Run (Except RuleError Scalar) :=
  ⟨⟨[text], []⟩, .ok (c.calculate text)⟩

end Collaborators

end TopicHub
