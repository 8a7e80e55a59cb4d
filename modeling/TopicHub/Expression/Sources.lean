import TopicHub.Calculation
import TopicHub.Expression.Template
import TopicHub.RecentCache
import TopicHub.Script.Library
import TopicHub.Store.Persistence

/-!
Where the values in expressions come from: payloads from the memory of recent messages or else from the
known topics, results of scripts from the library, results of calculations from the calculator.
-/

namespace TopicHub

def lastPayload? (cache : RecentCache) (store : Store) (name : String) : Option String :=
  match cache.lookup? name with
  | some payload => some payload
  | none => store.lastPayload? name

/-- What scripts and calculations yield, as functions of their arguments. -/
structure Engine where
  invoke : (name argument : String) → Except RuleError String
  calculate : String → Except RuleError Scalar

def Engine.ofLibrary (scripts : ScriptLibrary) : Engine := ⟨scripts.invoke, Calculation.calculate⟩

def Collaborators.ofSources (cache : RecentCache) (store : Store) (engine : Engine) :
    Collaborators :=
  ⟨lastPayload? cache store, engine.invoke, engine.calculate⟩

end TopicHub
