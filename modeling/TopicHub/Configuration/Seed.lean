import TopicHub.Configuration.Configured
import TopicHub.Script.Library
import TopicHub.Store.Basic

/-!
Bringing what is stored in line with the configuration. Known topics that are stored stay as they are;
configured rules take the place of stored ones but keep how they were last evaluated; stored rules
that were configured once and no longer are go away.
-/

namespace TopicHub

structure SeedCounts where
  topics : Nat
  rules : Nat
  deriving DecidableEq, Repr

structure ScriptFailure where
  name : String
  deriving DecidableEq, Repr

def ScriptFailure.message (f : ScriptFailure) : String :=
  "failed to compile script '" ++ f.name ++ "'"

/-- The scripts of a configuration. The first source that cannot be read is named. -/
def Settings.library (s : Settings) : Except ScriptFailure ScriptLibrary :=
  s.scripts.foldlM (fun l script =>
    match l.register script.name script.source with
    | .ok l => .ok l
    | .error _ => .error ⟨script.name⟩) ScriptLibrary.empty

namespace Store

def seedTopics (s : Store) (topics : List KnownTopic) : Store × Nat :=
  topics.foldl (fun (s, count) k =>
    if (s.knownTopic? k.project k.topic).isSome then (s, count)
    else (s.insertKnownTopic k, count + 1)) (s, 0)

def isDerived (r : Rule) : Bool := derivedIdStart.toList.isPrefixOf r.id.toList

def staleIds (s : Store) (configured : List Rule) : List String :=
  ((s.rules.values.filter isDerived).filter fun r =>
    !(configured.any fun c => c.id = r.id)).map Rule.id

def dropStale (s : Store) (configured : List Rule) : Store :=
  (s.staleIds configured).foldl removeRule s

def withStoredEvaluation (s : Store) (r : Rule) : Rule :=
  match s.rules.get? r.id with
  | none => r
  | some stored =>
    { r with
      lastTrigger := stored.lastTrigger, evaluationResult := stored.evaluationResult,
      evaluationProtocol := stored.evaluationProtocol }

def seedRules (s : Store) (configured : List Rule) : Store :=
  configured.foldl (fun s r => s.insertRule (s.withStoredEvaluation r)) s

/-- Brings a store in line with settings. -/
def seed (s : Store) (settings : Settings) : Store × SeedCounts :=
  let (s, topics) := s.seedTopics settings.configuredTopics
  let configured := settings.configuredRules
  ((s.dropStale configured).seedRules configured, ⟨topics, configured.length⟩)

end Store

end TopicHub
