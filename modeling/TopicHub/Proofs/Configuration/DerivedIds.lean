import TopicHub.Proofs.Configuration.SeededRules

/-!
The ids of the configured rules that have none of their own. They are told apart, whatever characters
the project and the topics of a rule hold, and they depend on the rules in front of a rule only: rules that
are added at the end of a configuration leave all others as they are.
-/

namespace TopicHub.Settings

variable {space : String} {seen : List String} {rules : List RuleSettings}

def seenBehind (seen : List String) : List RuleSettings → List String
  | [] => seen
  | r :: rest => seenBehind (if r.id.isNone then r.derivedId :: seen else seen) rest

theorem rulesAfter_append (rules more : List RuleSettings) :
    rulesAfter space seen (rules ++ more) =
      rulesAfter space seen rules ++ rulesAfter space (seenBehind seen rules) more := by
  induction rules generalizing seen with
  | nil => rfl
  | cons r rules ih => exact congrArg (r.rule space (idAfter seen r) :: ·) ih

theorem length_rulesAfter : (rulesAfter space seen rules).length = rules.length := by
  induction rules generalizing seen with
  | nil => rfl
  | cons r rules ih => exact congrArg (· + 1) ih

/-- The ids that are given to the rules without an id of their own, in the order of the rules. -/
def derivedIds (s : Settings) : List String :=
  ((s.configuredRules.zip s.rules).filter fun x => x.2.id = none).map fun x => x.1.id

/-- The settings with further rules at the end. -/
def extended (s : Settings) (more : List RuleSettings) : Settings :=
  { s with rules := s.rules ++ more }

/-- Each rule gets an id, no two rules without an id of their own get the same one, and all rules stay what
they are when others are added at the end. -/
theorem derived_ids_distinct_and_stable (s : Settings) (more : List RuleSettings) :
    s.configuredRules.length = s.rules.length ∧ s.derivedIds.Nodup ∧
      s.configuredRules <+: (s.extended more).configuredRules := by
  refine ⟨length_rulesAfter, ?_, ?_⟩
  · rw [derivedIds, List.Nodup, List.pairwise_map, List.pairwise_filter]
    refine derived_apart.imp ?_
    intro x y h hx hy
    exact h (of_decide_eq_true hx) (of_decide_eq_true hy)
  · rw [configuredRules, configuredRules, extended, rulesAfter_append]
    exact List.prefix_append ..

example :
    let lamp := buttonRule "p" none
    let numbered := { lamp with targetTopic := "lamp/5#2" }
    ({ standard with rules := [lamp, numbered, lamp] } : Settings).derivedIds =
      ["config:p/button/lamp/5", "config:p/button/lamp/5#2/5", "config:p/button/lamp/5#2"] := by
  decide

end TopicHub.Settings
