import Mathlib.Data.List.Pairwise
import TopicHub.Configuration.Fault
import TopicHub.Configuration.Seed
import TopicHub.Proofs.Address
import TopicHub.Proofs.Ends
import TopicHub.Proofs.Json.Literal
import TopicHub.Proofs.Rules
import TopicHub.Proofs.Store

/-!
What becomes of the configured rules. Rules without an id never get the id of one another, and each
configured rule takes the place of the one before it with the same id. A rule is found under the
address of its source if no other one has taken its place and its project can stand between two
slashes.
-/

namespace TopicHub

theorem append_cons_inj {c : Char} {s t u v : List Char} (ht : c ∉ t) (hv : c ∉ v)
    (h : s ++ c :: t = u ++ c :: v) : s = u ∧ t = v := by
  rcases List.append_eq_append_iff.mp h with ⟨more, hu, ht'⟩ | ⟨more, hs, hv'⟩
  · cases more with
    | nil => exact ⟨(hu.trans (List.append_nil _)).symm, List.cons_inj_right c |>.mp ht'⟩
    | cons d more =>
      obtain ⟨-, rfl⟩ := List.cons.inj ht'
      exact absurd (List.mem_append_right _ (List.mem_cons_self ..)) ht
  · cases more with
    | nil => exact ⟨hs.trans (List.append_nil _), (List.cons_inj_right c |>.mp hv').symm⟩
    | cons d more =>
      obtain ⟨-, rfl⟩ := List.cons.inj hv'
      exact absurd (List.mem_append_right _ (List.mem_cons_self ..)) hv

namespace RuleSettings

def numbered (derived : String) (count : Nat) : String :=
  if 1 < count then derived ++ "#" ++ toString count else derived

theorem notMem_toDigits {c : Char} (hc : c.isDigit = false) (n : Nat) : c ∉ Nat.toDigits 10 n := by
  intro h
  have hd := Nat.isDigit_of_mem_toDigits (by decide) (by decide) h
  rw [hc] at hd
  cases hd

theorem exists_derivedId (r : RuleSettings) :
    ∃ front number, r.derivedId.toList = front ++ '/' :: number ∧ '/' ∉ number ∧ '#' ∉ number := by
  refine ⟨(derivedIdStart ++ r.project ++ "/" ++ r.sourceTopic ++ "/" ++ r.targetTopic).toList,
    (Number.intText r.priority).toList, ?_, ?_, ?_⟩
  · unfold derivedId Number.intText
    simp only [String.toList_append, List.append_assoc]
    rfl
  · rw [Json.toList_intText]
    exact List.not_mem_append (by split <;> decide) (notMem_toDigits rfl _)
  · rw [Json.toList_intText]
    exact List.not_mem_append (by split <;> decide) (notMem_toDigits rfl _)

theorem toList_numbered {derived : String} {count : Nat} (h : 1 < count) :
    (numbered derived count).toList = derived.toList ++ '#' :: Nat.toDigits 10 count := by
  unfold numbered
  rw [if_pos h, String.toList_append, String.toList_append, ← Nat.toList_repr, List.append_assoc]
  rfl

/-- No derived id is a numbered one. -/
theorem derivedId_ne_numbered (r q : RuleSettings) {count : Nat} (h : 1 < count) :
    r.derivedId ≠ numbered q.derivedId count := by
  intro he
  obtain ⟨front, number, hr, hs, hn⟩ := r.exists_derivedId
  obtain ⟨front', number', hq, hs', -⟩ := q.exists_derivedId
  have hl := congrArg String.toList he
  rw [toList_numbered h, hr, hq, List.append_assoc, List.cons_append] at hl
  have hfree : '/' ∉ number' ++ '#' :: Nat.toDigits 10 count :=
    List.not_mem_append hs' (List.not_mem_cons_of_ne_of_not_mem (by decide) (notMem_toDigits rfl _))
  obtain ⟨-, rfl⟩ := append_cons_inj hs hfree hl
  exact hn (List.mem_append_right _ (List.mem_cons_self ..))

theorem numbered_inj {r q : RuleSettings} {m n : Nat} (hm : 0 < m) (hn : 0 < n)
    (h : numbered r.derivedId m = numbered q.derivedId n) : r.derivedId = q.derivedId ∧ m = n := by
  have hone {k : Nat} (hk : ¬ 1 < k) (d : String) : numbered d k = d := if_neg hk
  by_cases h₁ : 1 < m
  · by_cases h₂ : 1 < n
    · have hl := congrArg String.toList h
      rw [toList_numbered h₁, toList_numbered h₂] at hl
      obtain ⟨hd, hc⟩ := append_cons_inj (notMem_toDigits rfl m) (notMem_toDigits rfl n) hl
      have hn := congrArg (Nat.ofDigitChars 10 · 0) hc
      simp only [Nat.ofDigitChars_ten_toDigits] at hn
      exact ⟨String.toList_inj.mp hd, hn⟩
    · exact absurd ((hone h₂ q.derivedId).symm.trans h.symm) (derivedId_ne_numbered q r h₁)
  · by_cases h₂ : 1 < n
    · exact absurd ((hone h₁ r.derivedId).symm.trans h) (derivedId_ne_numbered r q h₂)
    · refine ⟨(hone h₁ _).symm.trans (h.trans (hone h₂ _)), by omega⟩

end RuleSettings

namespace Settings

open RuleSettings

variable {space : String} {seen : List String} {rules : List RuleSettings}

theorem idAfter_derived {r : RuleSettings} (h : r.id = none) :
    idAfter seen r = numbered r.derivedId (seen.count r.derivedId + 1) := by
  unfold idAfter
  rw [h]
  rfl

/-- A rule without an id is counted behind those in front of it. -/
theorem exists_numbered {x : Rule × RuleSettings}
    (hx : x ∈ (rulesAfter space seen rules).zip rules) (hn : x.2.id = none) :
    ∃ count, seen.count x.2.derivedId < count ∧ x.1.id = numbered x.2.derivedId count := by
  induction rules generalizing seen with
  | nil => cases hx
  | cons r rules ih =>
    rcases List.mem_cons.mp hx with rfl | hx
    · exact ⟨_, Nat.lt_succ_self _, idAfter_derived hn⟩
    · obtain ⟨count, hc, hi⟩ := ih hx
      refine ⟨count, Nat.lt_of_le_of_lt ?_ hc, hi⟩
      split
      · exact List.count_le_count_cons
      · exact Nat.le_refl _

/-- Two rules without an id never get the same one. -/
theorem derived_apart : ((rulesAfter space seen rules).zip rules).Pairwise fun x y =>
    x.2.id = none → y.2.id = none → x.1.id ≠ y.1.id := by
  induction rules generalizing seen with
  | nil => exact .nil
  | cons r rules ih =>
    refine List.pairwise_cons.mpr ⟨?_, ih⟩
    intro y hy hr hn he
    obtain ⟨count, hc, hi⟩ := exists_numbered hy hn
    have hid : (r.rule space (idAfter seen r)).id = numbered r.derivedId (seen.count r.derivedId + 1) :=
      idAfter_derived hr
    obtain ⟨hd, rfl⟩ := numbered_inj (Nat.succ_pos _) (by omega) (hid.symm.trans (he.trans hi))
    -- The later rule has the derived id of this one in front of it.
    have hr : r.id = none := hr
    rw [← hd, hr, Option.isNone_none, if_pos rfl, List.count_cons_self] at hc
    exact Nat.lt_irrefl _ hc

theorem exists_rule {x : Rule × RuleSettings} (hx : x ∈ (rulesAfter space seen rules).zip rules) :
    ∃ before, x.1 = x.2.rule space (idAfter before x.2) := by
  induction rules generalizing seen with
  | nil => cases hx
  | cons r rules ih =>
    rcases List.mem_cons.mp hx with rfl | hx
    · exact ⟨_, rfl⟩
    · exact ih hx

theorem exists_partner {rule : Rule} (h : rule ∈ rulesAfter space seen rules) :
    ∃ r, (rule, r) ∈ (rulesAfter space seen rules).zip rules := by
  induction rules generalizing seen with
  | nil => cases h
  | cons r rules ih =>
    rcases List.mem_cons.mp h with rfl | h
    · exact ⟨r, List.mem_cons_self ..⟩
    · obtain ⟨q, hq⟩ := ih h
      exact ⟨q, List.mem_cons_of_mem _ hq⟩

end Settings

def Rule.Fresh (rule : Rule) : Prop :=
  rule.lastTrigger = none ∧ rule.evaluationResult = false ∧ rule.evaluationProtocol = none

/-- The rule with the last evaluation of the one that is stored in its place, if there is one. -/
def Rule.evaluatedAs (rule : Rule) (stored : Option Rule) : Rule :=
  { rule with
    lastTrigger := stored.bind Rule.lastTrigger
    evaluationResult := stored.any Rule.evaluationResult
    evaluationProtocol := stored.bind Rule.evaluationProtocol }

theorem Rule.evaluatedAs_none {rule : Rule} (h : rule.Fresh) : rule.evaluatedAs none = rule := by
  obtain ⟨ht, he, hp⟩ := h
  cases rule
  cases ht
  cases he
  cases hp
  rfl

theorem Rule.evaluatedAs_some (rule other : Rule) (stored : Option Rule) :
    rule.evaluatedAs (some (other.evaluatedAs stored)) = rule.evaluatedAs stored := by
  cases stored <;> rfl

namespace Store

theorem withStoredEvaluation_eq (s : Store) {rule : Rule} (h : rule.Fresh) :
    s.withStoredEvaluation rule = rule.evaluatedAs (s.rules.get? rule.id) := by
  unfold withStoredEvaluation
  cases s.rules.get? rule.id with
  | none => exact (Rule.evaluatedAs_none h).symm
  | some stored => rfl

theorem findRev?_cons {α : Type} (p : α → Bool) (a : α) (as : List α) :
    (a :: as).findRev? p = (as.findRev? p).or (if p a then some a else none) := by
  rw [List.findRev?_eq_find?_reverse, List.findRev?_eq_find?_reverse, List.reverse_cons,
    List.find?_append, List.find?_singleton]

/-- Of rules with one id the last one is kept, with the evaluation that was stored before the first. -/
theorem get?_seedRules {s : Store} {configured : List Rule} (hc : ∀ rule ∈ configured, rule.Fresh)
    (id : String) : (s.seedRules configured).rules.get? id =
      ((configured.findRev? (·.id = id)).map (·.evaluatedAs (s.rules.get? id))).or
        (s.rules.get? id) := by
  induction configured generalizing s with
  | nil => rfl
  | cons rule configured ih =>
    let t := s.insertRule (rule.evaluatedAs (s.rules.get? rule.id))
    have hfirst : s.seedRules (rule :: configured) = t.seedRules configured := by
      unfold seedRules
      rw [List.foldl_cons, withStoredEvaluation_eq s (hc rule (List.mem_cons_self ..))]
    have ht : t.rules.get? id =
        if id = rule.id then some (rule.evaluatedAs (s.rules.get? rule.id)) else s.rules.get? id :=
      Table.get?_insert ..
    rw [hfirst, ih fun q hq => hc q (List.mem_cons_of_mem _ hq), ht, findRev?_cons]
    by_cases h : id = rule.id
    · subst h
      cases configured.findRev? (·.id = rule.id) <;> simp [Rule.evaluatedAs_some]
    · have hne : ¬ rule.id = id := fun he => h he.symm
      simp [h, hne]

theorem seedTopics_fst (s : Store) (topics : List KnownTopic) :
    (s.seedTopics topics).1 = topics.foldl addTopic s := by
  unfold seedTopics
  generalize 0 = count
  induction topics generalizing s count with
  | nil => rfl
  | cons k topics ih =>
    rw [List.foldl_cons, List.foldl_cons]
    unfold addTopic
    dsimp only
    split
    · exact ih s count
    · exact ih (s.insertKnownTopic k) (count + 1)

theorem rules_seedTopics (s : Store) (topics : List KnownTopic) :
    (s.seedTopics topics).1.rules = s.rules := by
  rw [seedTopics_fst]
  induction topics generalizing s with
  | nil => rfl
  | cons k topics ih =>
    refine (ih (s.addTopic k)).trans ?_
    unfold addTopic
    split <;> rfl

theorem dropStale_empty {s : Store} (h : s.rules = .empty) (configured : List Rule) :
    s.dropStale configured = s := by
  have hn : s.staleIds configured = [] := by
    unfold staleIds
    rw [h]
    rfl
  unfold dropStale
  rw [hn]
  rfl

end Store

namespace Settings

open Store

theorem fresh_configured (settings : Settings) : ∀ rule ∈ settings.configuredRules, rule.Fresh := by
  intro rule hr
  obtain ⟨r, hx⟩ := exists_partner hr
  obtain ⟨before, hb⟩ := exists_rule hx
  dsimp only at hb
  rw [hb]
  exact ⟨rfl, rfl, rfl⟩

theorem get?_seed {s : Store} (h : s.rules = .empty) (settings : Settings) (id : String) :
    (s.seed settings).1.rules.get? id = settings.configuredRules.findRev? (·.id = id) := by
  have ht : (s.seedTopics settings.configuredTopics).1.rules = .empty :=
    (rules_seedTopics s _).trans h
  have hs : (s.seed settings).1 =
      (s.seedTopics settings.configuredTopics).1.seedRules settings.configuredRules :=
    congrArg (seedRules · settings.configuredRules) (dropStale_empty ht _)
  have hf := settings.fresh_configured
  rw [hs, get?_seedRules hf, ht, Table.get?_empty, Option.or_none]
  cases hl : settings.configuredRules.findRev? (·.id = id) with
  | none => rfl
  | some last => exact congrArg some (Rule.evaluatedAs_none (hf last (Ends.of_findRev? hl).1))

theorem mem_seeded {s : Store} (h : s.rules = .empty) {settings : Settings} {rule : Rule} :
    rule ∈ (s.seed settings).1.rules.values ↔
      settings.configuredRules.findRev? (·.id = rule.id) = some rule := by
  constructor
  · intro hm
    obtain ⟨k, hk⟩ := Table.mem_values.mp hm
    have hg := (get?_seed h settings k).symm.trans (Table.get?_eq_some.mpr hk)
    have hi : rule.id = k := of_decide_eq_true (Ends.of_findRev? hg).2
    rw [hi]
    exact hg
  · intro hf
    exact Table.mem_values.mpr ⟨rule.id, Table.get?_eq_some.mp ((get?_seed h settings rule.id).trans hf)⟩

theorem rule_faultless {settings : Settings} {index : Nat} {rules : List RuleSettings}
    (h : settings.firstFault? index rules = none) {r : RuleSettings} (hr : r ∈ rules) :
    settings.ruleFault? r = none := by
  induction rules generalizing index with
  | nil => cases hr
  | cons q rules ih =>
    unfold firstFault? at h
    split at h
    · cases h
    · rename_i hq
      rcases List.mem_cons.mp hr with rfl | hr
      · exact hq
      · exact ih h hr

theorem sourceTopic_of_faultless {settings : Settings} {r : RuleSettings}
    (h : settings.ruleFault? r = none) : r.sourceTopic.isEmpty = false := by
  rw [Bool.eq_false_iff]
  intro he
  have hb : isBlankText r.sourceTopic = true := by
    rw [String.isEmpty_iff.mp he]
    rfl
  unfold ruleFault? at h
  rw [hb, Bool.true_or, if_pos rfl] at h
  cases h

theorem of_faultless {settings : Settings} (h : settings.fault? = none) :
    IsSegment settings.namespaceName ∧ ∀ r ∈ settings.rules, r.sourceTopic.isEmpty = false := by
  unfold fault? at h
  split at h
  · cases h
  · rename_i hn
    obtain ⟨he, hs⟩ := not_or.mp (mt (Bool.or_eq_true ..).mpr hn)
    refine ⟨⟨Bool.eq_false_iff.mpr he, fun hm => hs (List.contains_iff_mem.mpr hm)⟩, ?_⟩
    intro r hr
    split at h
    · cases h
    · cases hf : settings.firstFault? 0 settings.rules with
      | some fault =>
        rw [hf] at h
        cases h
      | none => exact sourceTopic_of_faultless (rule_faultless hf hr)

/-- The rule is what these settings ask for. -/
structure Realizes (rule : Rule) (r : RuleSettings) : Prop where
  project : rule.project = r.project
  sourceTopic : rule.sourceTopic = r.sourceTopic
  targetTopic : rule.targetTopic = r.targetTopic
  expression : rule.expression = r.expression
  targetPayload : rule.targetPayload = r.targetPayload
  priority : rule.priority = r.priority
  enabled : rule.enabled = r.enabled
  delayMs : rule.delayMs = r.delayMs

/-- A rule with its id and its settings listens to the address of its source, and that is in the
namespace. -/
def Listens (s : Store) (space : String) (rule : Rule) (r : RuleSettings) : Prop :=
  ∃ path, TopicPath.parse rule.sourceAddress = .ok path ∧ path.namespaceName = space ∧
    ∃ found ∈ s.rulesFor path.project path.topic true, found.id = rule.id ∧ Realizes found r

theorem realizes_rule (r : RuleSettings) (space id : String) : Realizes (r.rule space id) r :=
  ⟨rfl, rfl, rfl, rfl, rfl, rfl, rfl, rfl⟩

theorem listens_iff {settings : Settings} (hv : settings.fault? = none) {s : Store}
    (hs : s.rules = .empty) {rule : Rule} {r : RuleSettings}
    (hx : (rule, r) ∈ settings.configuredRules.zip settings.rules) (he : r.enabled = true) :
    Listens (s.seed settings).1 settings.namespaceName rule r ↔ IsSegment r.project ∧
      ∃ last, settings.configuredRules.findRev? (·.id = rule.id) = some last ∧ Realizes last r := by
  obtain ⟨hspace, htopic⟩ := of_faultless hv
  constructor
  · rintro ⟨path, hpath, -, found, hf, hi, hz⟩
    obtain ⟨hm, hp, -, -⟩ := mem_rulesFor.mp hf
    refine ⟨?_, found, ?_, hz⟩
    · rw [← hz.project, hp]
      exact (segments_of_parse hpath).2
    · rw [← hi]
      exact (mem_seeded hs).mp hm
  · rintro ⟨hp, last, hl, hz⟩
    have hi : last.id = rule.id := of_decide_eq_true (Ends.of_findRev? hl).2
    obtain ⟨before, hb⟩ := exists_rule hx
    dsimp only at hb
    refine ⟨⟨settings.namespaceName, r.project, r.sourceTopic⟩, ?_, rfl, last, ?_, hi, hz⟩
    · rw [hb]
      exact parse_address hspace hp (htopic r (List.of_mem_zip hx).2)
    · refine mem_rulesFor.mpr ⟨(mem_seeded hs).mpr (hi ▸ hl), hz.project, hz.sourceTopic, ?_⟩
      rw [hz.enabled, he]

theorem last_of_derived {settings : Settings} {rule : Rule} {r : RuleSettings}
    (hx : (rule, r) ∈ settings.configuredRules.zip settings.rules) (hn : r.id = none)
    (ho : ∀ other ∈ settings.rules, other.id ≠ some rule.id) :
    settings.configuredRules.findRev? (·.id = rule.id) = some rule := by
  have hm := (List.of_mem_zip hx).1
  cases hf : settings.configuredRules.findRev? (·.id = rule.id) with
  | none => exact absurd (decide_eq_true rfl) (Ends.findRev?_eq_none.mp hf rule hm)
  | some last =>
    obtain ⟨hl, hi⟩ := Ends.of_findRev? hf
    replace hi : last.id = rule.id := of_decide_eq_true hi
    obtain ⟨q, hy⟩ := exists_partner hl
    obtain ⟨before, hb⟩ := exists_rule hy
    have hid : last.id = idAfter before q := congrArg Rule.id hb
    have hq : q.id = none := by
      cases hq : q.id with
      | none => rfl
      | some id =>
        have hsame : last.id = id := by
          rw [hid, idAfter, hq]
        exact absurd (by rw [hq, ← hsame, hi]) (ho q (List.of_mem_zip hy).2)
    by_contra hne
    have hpair : (last, q) ≠ (rule, r) := fun he => hne (congrArg some (Prod.mk.inj he).1)
    have hsymm : Std.Symm fun x y : Rule × RuleSettings =>
        x.2.id = none → y.2.id = none → x.1.id ≠ y.1.id :=
      ⟨fun _ _ h hy hx he => h hx hy he.symm⟩
    exact derived_apart.forall hy hx hpair hq hn hi

/-- Settings that are accepted, in a store without rules. A rule that is enabled listens to its source
if and only if its project can stand between two slashes and the last rule with its id is what its own
settings ask for. For a rule without an id of its own it depends on the project alone, unless another
rule is given the id that it gets. -/
theorem configured_rule_listens_iff {settings : Settings} (hv : settings.fault? = none) {s : Store}
    (hs : s.rules = .empty) {rule : Rule} {r : RuleSettings}
    (hx : (rule, r) ∈ settings.configuredRules.zip settings.rules) (he : r.enabled = true) :
    let listens := Listens (s.seed settings).1 settings.namespaceName rule r
    (listens ↔ IsSegment r.project ∧ ∃ last,
      settings.configuredRules.findRev? (·.id = rule.id) = some last ∧ Realizes last r) ∧
      (r.id = none → (∀ other ∈ settings.rules, other.id ≠ some rule.id) →
        (listens ↔ IsSegment r.project)) := by
  intro listens
  have hl := listens_iff hv hs hx he
  refine ⟨hl, ?_⟩
  intro hn ho
  obtain ⟨before, hb⟩ := exists_rule hx
  have hz : Realizes rule r := by
    dsimp only at hb
    rw [hb]
    exact realizes_rule ..
  exact hl.trans (and_iff_left ⟨rule, last_of_derived hx hn ho, hz⟩)

def buttonRule (project : String) (id : Option String) : RuleSettings :=
  { id, project, sourceTopic := "button", targetTopic := "lamp", expression := none,
    targetPayload := some "on", triggerCondition := .always, priority := defaultPriority,
    enabled := true, delayMs := 0 }

/-- Of two equal rules without an id, both listen. -/
theorem buttons_listen :
    let r := buttonRule "garden" none
    let settings := { Settings.standard with rules := [r, r] }
    settings.fault? = none ∧ (inMemory .empty).rules = .empty ∧
      ∀ x ∈ settings.configuredRules.zip settings.rules, x.2.enabled = true ∧
        Listens ((inMemory .empty).seed settings).1 settings.namespaceName x.1 x.2 := by
  intro r settings
  have hv : settings.fault? = none := by decide
  refine ⟨hv, rfl, ?_⟩
  rintro ⟨rule, q⟩ hx
  obtain rfl : q = r := by
    have hq := (List.of_mem_zip hx).2
    simpa [settings] using hq
  have hl := (configured_rule_listens_iff hv (s := inMemory .empty) rfl hx rfl).2
  refine ⟨rfl, (hl rfl ?_).mpr (by decide)⟩
  intro other ho
  have hn : other.id = none := by
    obtain rfl | rfl : other = r ∨ other = r := by simpa [settings] using ho
    all_goals rfl
  rw [hn]
  exact nofun

/-- A rule for the shed in the garden is accepted and never found, and so is the first of two rules that
are given one id. -/
theorem accepted_rules_unheard :
    let shed := buttonRule "garden/shed" none
    let button := buttonRule "garden" (some "ring")
    let door := { button with sourceTopic := "door" }
    let settings := { Settings.standard with rules := [shed, button, door] }
    let unheard (r : RuleSettings) (id : String) :=
      (r.rule "iotzoo" id, r) ∈ settings.configuredRules.zip settings.rules ∧ r.enabled = true ∧
        ¬ Listens ((inMemory .empty).seed settings).1 settings.namespaceName (r.rule "iotzoo" id) r
    settings.fault? = none ∧ unheard shed shed.derivedId ∧ unheard button "ring" := by
  intro shed button door settings unheard
  have hv : settings.fault? = none := by decide
  have hshed : (shed.rule "iotzoo" shed.derivedId, shed) ∈ settings.configuredRules.zip settings.rules :=
    List.mem_cons_self ..
  have hbutton : (button.rule "iotzoo" "ring", button) ∈ settings.configuredRules.zip settings.rules :=
    List.mem_cons_of_mem _ (List.mem_cons_self ..)
  refine ⟨hv, ⟨hshed, rfl, ?_⟩, hbutton, rfl, ?_⟩
  · intro hl
    have hproject := ((listens_iff hv rfl hshed rfl).mp hl).1
    exact absurd hproject (by decide)
  · intro hl
    obtain ⟨-, last, hlast, hz⟩ := (listens_iff hv rfl hbutton rfl).mp hl
    have hdoor : settings.configuredRules.findRev? (·.id = "ring") = some (door.rule "iotzoo" "ring") := by
      decide
    obtain rfl : door.rule "iotzoo" "ring" = last := Option.some.inj (hdoor.symm.trans hlast)
    exact absurd hz.sourceTopic (by decide)

end Settings

end TopicHub
