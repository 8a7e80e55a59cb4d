import Mathlib.Data.List.Find
import TopicHub.Proofs.Configuration.SeededRules
import TopicHub.Proofs.HistoryWindow
import TopicHub.Proofs.KnownTopics
import TopicHub.Proofs.Persistence

/-!
Bringing the records in line with the settings. What becomes of a rule or of a known topic depends on
nothing but the settings and what was stored under its key, and doing it a second time changes nothing.
Nor does any number of restarts, in each of which a new store loads the disk, is brought in line and is
written again.
-/

namespace TopicHub

open Persistence

namespace Store

theorem get?_removeRules (ids : List String) (s : Store) (id : String) :
    (ids.foldl removeRule s).rules.get? id = if id ∈ ids then none else s.rules.get? id := by
  induction ids generalizing s with
  | nil => rfl
  | cons other ids ih =>
    have ho : (s.removeRule other).rules.get? id = if id = other then none else s.rules.get? id :=
      Table.get?_erase ..
    rw [List.foldl_cons, ih, ho]
    by_cases h : id = other <;> simp [h]

def IsDerivedId (id : String) : Prop := derivedIdStart.toList <+: id.toList

instance (id : String) : Decidable (IsDerivedId id) := inferInstanceAs (Decidable (_ <+: _))

/-- The id was derived for a rule that is not configured any more. -/
def IsStale (configured : List Rule) (id : String) : Prop :=
  IsDerivedId id ∧ ∀ rule ∈ configured, rule.id ≠ id

instance (configured : List Rule) (id : String) : Decidable (IsStale configured id) :=
  inferInstanceAs (Decidable (_ ∧ _))

theorem mem_staleIds {s : Store} {configured : List Rule} {id : String} :
    id ∈ s.staleIds configured ↔ ∃ rule ∈ s.rules.values, IsStale configured rule.id ∧ rule.id = id := by
  unfold staleIds isDerived IsStale IsDerivedId
  simp only [List.mem_map, List.mem_filter, List.isPrefixOf_iff_prefix, Bool.not_eq_true',
    List.any_eq_false, decide_eq_true_eq, and_assoc, ne_eq]

theorem get?_dropStale {s : Store} (h : s.rules.Keyed) (configured : List Rule) (id : String) :
    (s.dropStale configured).rules.get? id =
      if IsStale configured id then none else s.rules.get? id := by
  unfold dropStale
  rw [get?_removeRules]
  by_cases hs : IsStale configured id
  · rw [if_pos hs]
    split
    · rfl
    · rename_i hn
      cases hg : s.rules.get? id with
      | none => rfl
      | some rule =>
        have hm := Table.get?_eq_some.mp hg
        have hi : id = rule.id := h _ hm
        rw [hi] at hs hn
        exact absurd (mem_staleIds.mpr ⟨rule, Table.mem_values.mpr ⟨id, hm⟩, hs, rfl⟩) hn
  · rw [if_neg hs]
    apply if_neg
    intro hm
    obtain ⟨rule, -, hr, rfl⟩ := mem_staleIds.mp hm
    exact hs hr

end Store

namespace Settings

open Store

variable {s t : Store} {settings : Settings}

def ruleOver (settings : Settings) (id : String) (stored : Option Rule) : Option Rule :=
  match settings.configuredRules.findRev? (·.id = id) with
  | some last => some (last.evaluatedAs stored)
  | none => if IsDerivedId id then none else stored

def topicOver (settings : Settings) (key : String) (stored : Option KnownTopic) : Option KnownTopic :=
  stored.or (settings.configuredTopics.find? (knownTopicKey · = key))

theorem ruleOver_again (id : String) (stored : Option Rule) :
    settings.ruleOver id (settings.ruleOver id stored) = settings.ruleOver id stored := by
  unfold ruleOver
  cases settings.configuredRules.findRev? (·.id = id) with
  | some last => exact congrArg some (last.evaluatedAs_some last stored)
  | none =>
    dsimp only
    split <;> rfl

theorem topicOver_again (key : String) (stored : Option KnownTopic) :
    settings.topicOver key (settings.topicOver key stored) = settings.topicOver key stored := by
  unfold topicOver
  rw [Option.or_assoc, Option.or_self]

theorem seed_eq (s : Store) (settings : Settings) : (s.seed settings).1 =
    ((settings.configuredTopics.foldl addTopic s).dropStale settings.configuredRules).seedRules
      settings.configuredRules := by
  rw [← seedTopics_fst]
  rfl

theorem isStale_iff {id : String} : IsStale settings.configuredRules id ↔
    IsDerivedId id ∧ settings.configuredRules.findRev? (·.id = id) = none := by
  unfold IsStale
  simp only [Ends.findRev?_eq_none, decide_eq_true_eq, ne_eq]

theorem get?_rules_seed (h : s.rules.Keyed) (id : String) :
    (s.seed settings).1.rules.get? id = settings.ruleOver id (s.rules.get? id) := by
  have hr : (settings.configuredTopics.foldl addTopic s).rules = s.rules := by
    rw [← seedTopics_fst]
    exact rules_seedTopics ..
  have hk : (settings.configuredTopics.foldl addTopic s).rules.Keyed := hr ▸ h
  rw [seed_eq, get?_seedRules settings.fresh_configured, get?_dropStale hk, hr]
  unfold ruleOver
  cases hl : settings.configuredRules.findRev? (·.id = id) with
  | some last =>
    have hn : ¬ IsStale settings.configuredRules id := by
      rw [isStale_iff, hl]
      exact fun hs => Option.some_ne_none _ hs.2
    rw [if_neg hn]
    rfl
  | none =>
    have hs : IsStale settings.configuredRules id ↔ IsDerivedId id := by
      rw [isStale_iff, hl]
      exact and_iff_left rfl
    simp only [hs]
    rfl

theorem get?_knownTopics_seed (key : String) :
    (s.seed settings).1.knownTopics.get? key = settings.topicOver key (s.knownTopics.get? key) := by
  have hr := foldl_same Store.knownTopics
    (fun s rule => s.insertRule (s.withStoredEvaluation rule)) (fun _ _ => rfl) settings.configuredRules
  have hd := foldl_same Store.knownTopics removeRule (fun _ _ => rfl)
  rw [seed_eq]
  unfold seedRules dropStale
  rw [hr, hd]
  exact get?_addTopics ..

theorem keyed_seed (h : s.rules.Keyed) (settings : Settings) : (s.seed settings).1.rules.Keyed := by
  intro e he
  have hg : settings.ruleOver e.1 (s.rules.get? e.1) = some e.2 :=
    (get?_rules_seed h e.1).symm.trans (Table.get?_eq_some.mpr he)
  unfold ruleOver at hg
  cases hl : settings.configuredRules.findRev? (·.id = e.1) with
  | some last =>
    rw [hl] at hg
    have hi : last.id = e.1 := of_decide_eq_true (Ends.of_findRev? hl).2
    have hr : last.evaluatedAs (s.rules.get? e.1) = e.2 := Option.some.inj hg
    rw [← hr]
    exact hi.symm
  | none =>
    rw [hl] at hg
    dsimp only at hg
    split at hg
    · cases hg
    · exact h _ (Table.get?_eq_some.mp hg)

theorem seed_seed (h : s.rules.Keyed) (ht : t.rules = (s.seed settings).1.rules)
    (hk : t.knownTopics = (s.seed settings).1.knownTopics) :
    (t.seed settings).1.rules = t.rules ∧ (t.seed settings).1.knownTopics = t.knownTopics := by
  constructor
  · apply Table.ext_get?
    intro id
    have hkeyed : t.rules.Keyed := ht ▸ keyed_seed h settings
    rw [get?_rules_seed hkeyed, ht, get?_rules_seed h, ruleOver_again]
  · apply Table.ext_get?
    intro key
    rw [get?_knownTopics_seed, hk, get?_knownTopics_seed, topicOver_again]

def Fits (settings : Settings) : Prop :=
  ∀ r ∈ settings.rules, -(Number.span31 : Int) ≤ r.priority ∧ r.priority ≤ Number.span31 - 1 ∧
    r.delayMs < Number.span64

theorem fits_configured (h : settings.Fits) : ∀ rule ∈ settings.configuredRules, rule.Fits := by
  intro rule hr
  obtain ⟨r, hx⟩ := exists_partner hr
  obtain ⟨before, hb⟩ := exists_rule hx
  obtain ⟨hl, hu, hd⟩ := h r (List.of_mem_zip hx).2
  dsimp only at hb
  rw [hb]
  exact ⟨hl, hu, hd, fun _ ht => by cases ht⟩

theorem fits_withStoredEvaluation {start : Disk} (h : Intact start s) {rule : Rule} (hr : rule.Fits) :
    (s.withStoredEvaluation rule).Fits := by
  unfold withStoredEvaluation
  cases hg : s.rules.get? rule.id with
  | none => exact hr
  | some stored =>
    have hs : stored.Fits := (h.rules _ (Table.get?_eq_some.mp hg)).2
    exact ⟨hr.priority_ge, hr.priority_le, hr.delay_lt, hs.trigger⟩

theorem intact_addTopic {start : Disk} (h : Intact start s) {k : KnownTopic} (hk : k.Fits) :
    Intact start (s.addTopic k) := by
  unfold addTopic
  split
  · exact h
  · exact h.insertKnownTopic hk

theorem intact_removeRule {start : Disk} (h : Intact start s) (id : String) :
    Intact start (s.removeRule id) :=
  ⟨h.persistent, h.accepting, Table.keyedBy_erase h.rules id, h.knownTopics, h.devices, h.histories,
    h.readable⟩

theorem intact_seed {start : Disk} (h : Intact start s) (hf : settings.Fits) :
    Intact start (s.seed settings).1 := by
  rw [seed_eq]
  have ht : ∀ k ∈ settings.configuredTopics, k.Fits := by
    intro k hk
    obtain ⟨t, -, rfl⟩ := List.mem_map.mp hk
    exact fun _ hu => by cases hu
  have hadded := intact_foldl (P := KnownTopic.Fits) (fun _ _ h hk => intact_addTopic h hk) ht h
  have hdropped : Intact start
      ((settings.configuredTopics.foldl addTopic s).dropStale settings.configuredRules) :=
    intact_foldl (P := fun _ => True) (fun _ id h _ => intact_removeRule h id) (fun _ _ => trivial) hadded
  exact intact_foldl (P := Rule.Fits) (fun _ _ h hr => h.insertRule (fits_withStoredEvaluation h hr))
    (fits_configured hf) hdropped

theorem seed_apart (s : Store) (settings : Settings) :
    ((s.seed settings).1.devices, (s.seed settings).1.disk) = (s.devices, s.disk) := by
  have ha (s : Store) (k : KnownTopic) : ((s.addTopic k).devices, (s.addTopic k).disk) =
      (s.devices, s.disk) := by
    unfold addTopic
    split <;> rfl
  rw [seed_eq]
  unfold seedRules dropStale
  have hr := foldl_same (fun s => (s.devices, s.disk))
    (fun s rule => s.insertRule (s.withStoredEvaluation rule)) (fun _ _ => rfl) settings.configuredRules
  have hd := foldl_same (fun s => (s.devices, s.disk)) removeRule fun _ _ => rfl
  have ht := foldl_same (fun s => (s.devices, s.disk)) addTopic ha settings.configuredTopics s
  exact (hr _).trans ((hd _ _).trans ht)

/-- A new store loads what is on the disk, is brought in line with the settings and is written. -/
def restart (settings : Settings) (limit : Nat) : StoreM Unit := do
  modify fun s => onDisk s.disk limit
  loadAll
  modify fun s => (s.seed settings).1
  persist

def restarts (settings : Settings) (limit : Nat) : Nat → StoreM Unit
  | 0 => pure ()
  | n + 1 => do
    restart settings limit
    restarts settings limit n

/-- The store holds these records and so does its disk, which can be read and written. -/
structure Kept (h : Holdings) (v : Store) : Prop where
  holds : holdings v = h
  written : ∃ start u, Intact start u ∧ HistoriesReadable start ∧ holdings u = h ∧
    persist.run.run u = (.ok (), v)
  writable : v.disk.writable = true

theorem keeps_persist : Keeps persist := by
  rw [← persistAmid_calm]
  exact keeps_persistAmid _ _ _ _

theorem kept_persist {start : Disk} (hi : Intact start s) (hr : HistoriesReadable start)
    (hw : s.disk.writable = true) :
    ∃ v, persist.run.run s = (.ok (), v) ∧ Kept (holdings s) v := by
  obtain ⟨v, hv, -, hd⟩ := succeeds_persist s hi.persistent hw
  exact ⟨v, hv, ((keeps_persist).of_run hi hv).2, ⟨start, s, hi, hr, rfl, hv⟩, hd⟩

theorem of_loadAll {disk : Disk} {limit : Nat} {r : Except StoreError Unit}
    (h : loadAll.run.run (onDisk disk limit) = (r, s)) : Intact disk s ∧ s.disk = disk := by
  have hi := intact_opened (@Opened.loaded disk limit)
  have hd := (onRecords_loadAll (onDisk disk limit) disk fun _ _ => rfl).2
  rw [h] at hi hd
  exact ⟨hi, hd⟩

theorem histories_of_loadAll {disk : Disk} {limit : Nat}
    (h : loadAll.run.run (onDisk disk limit) = (.ok (), s)) : HistoriesReadable disk := by
  unfold loadAll at h
  obtain ⟨rules, _, h₁, h⟩ := of_bind_ok h
  obtain ⟨_, _, h₂, h⟩ := of_bind_ok h
  obtain ⟨known, _, h₃, h⟩ := of_bind_ok h
  obtain ⟨_, _, h₄, h⟩ := of_bind_ok h
  obtain ⟨entries, _, h₅, -⟩ := of_bind_ok h
  rw [run_load] at h₁ h₃ h₅
  rw [run_modify] at h₂ h₄
  obtain ⟨-, rfl⟩ := Prod.mk.inj h₁
  obtain ⟨-, rfl⟩ := Prod.mk.inj h₂
  obtain ⟨-, rfl⟩ := Prod.mk.inj h₃
  obtain ⟨-, rfl⟩ := Prod.mk.inj h₄
  have hr := foldl_same keptOn insertRule (fun _ _ => rfl) rules (onDisk disk limit)
  have hk := (foldl_same keptOn insertKnownTopic (fun _ _ => rfl) known _).trans hr
  obtain ⟨hp, hd⟩ := Prod.mk.inj hk
  rw [hp, hd] at h₅
  exact ⟨entries, (Prod.mk.inj h₅).1⟩

theorem restart_loaded (hf : settings.Fits) {limit : Nat}
    (hl : loadAll.run.run (onDisk t.disk limit) = (.ok (), s)) (hw : t.disk.writable = true) :
    ∃ v, (restart settings limit).run.run t = (.ok (), v) ∧
      Kept (holdings (s.seed settings).1) v := by
  obtain ⟨hi, hd⟩ := of_loadAll hl
  have hdisk : (s.seed settings).1.disk = t.disk := (Prod.mk.inj (seed_apart s settings)).2.trans hd
  obtain ⟨v, hv, hk⟩ := kept_persist (intact_seed hi hf) (histories_of_loadAll hl) (by rw [hdisk, hw])
  refine ⟨v, ?_, hk⟩
  unfold restart
  rw [run_bind_ok (run_modify _ t), run_bind_ok hl, run_bind_ok (run_modify _ s)]
  exact hv

variable {h : Holdings}

/-- Records that are in line with the settings are the same after a restart. -/
theorem kept_restart (hf : settings.Fits)
    (hs : ∀ s : Store, s.rules.Keyed → holdings s = h → holdings (s.seed settings).1 = h)
    (hv : Kept h t) (limit : Nat) :
    ∃ w, (restart settings limit).run.run t = (.ok (), w) ∧ Kept h w := by
  obtain ⟨start, u, hu, hr, rfl, hp⟩ := hv.written
  have hl := loaded_of_persisted hu (w := .calm) (x := .calm) (y := .calm) (z := .calm)
    (by rw [persistAmid_calm]; exact hp) limit
  obtain ⟨s, hload⟩ := hl.1 hr
  obtain ⟨w, hw, hk⟩ := restart_loaded hf hload hv.writable
  have hkeyed : s.rules.Keyed := fun e he => ((of_loadAll hload).1.rules e he).1
  rw [hs s hkeyed (hl.2 s hload)] at hk
  exact ⟨w, hw, hk⟩

theorem kept_restarts (hf : settings.Fits)
    (hs : ∀ s : Store, s.rules.Keyed → holdings s = h → holdings (s.seed settings).1 = h)
    (hv : Kept h t) (limit n : Nat) :
    ∃ w, (restarts settings limit n).run.run t = (.ok (), w) ∧ Kept h w := by
  induction n generalizing t with
  | zero => exact ⟨t, rfl, hv⟩
  | succ n ih =>
    obtain ⟨w, hw, hk⟩ := kept_restart hf hs hv limit
    obtain ⟨x, hx, hk⟩ := ih hk
    exact ⟨x, (run_bind_ok hw).trans hx, hk⟩

theorem holdings_seed_seed (h : s.rules.Keyed) (ht : holdings t = holdings (s.seed settings).1) :
    holdings (t.seed settings).1 = holdings (s.seed settings).1 := by
  obtain ⟨hr, hk⟩ := seed_seed h (congrArg Holdings.rules ht) (congrArg Holdings.knownTopics ht)
  have hd := (Prod.mk.inj (seed_apart t settings)).1
  rw [← ht]
  unfold holdings
  rw [hr, hk, hd]

/-- What has become of the records that were brought in line with the settings. -/
structure BroughtInLine (settings : Settings) (s u : Store) : Prop where
  stored : ∀ key k, s.knownTopics.get? key = some k → u.knownTopics.get? key = some k
  /-- Of the configured topics with one project and name, the first is added if there was none. -/
  added : ∀ project topic, '/' ∉ project.toList → s.knownTopic? project topic = none →
    u.knownTopic? project topic =
      settings.configuredTopics.find? fun k => k.project = project ∧ k.topic = topic
  known : ∀ key k, u.knownTopics.get? key = some k →
    s.knownTopics.get? key = some k ∨ k ∈ settings.configuredTopics
  /-- Of the configured rules with one id, the last is there, with the evaluation that was stored. -/
  configured : ∀ id last, settings.configuredRules.findRev? (·.id = id) = some last →
    u.rules.get? id = some (last.evaluatedAs (s.rules.get? id))
  dropped : ∀ id, IsDerivedId id → (∀ rule ∈ settings.configuredRules, rule.id ≠ id) →
    u.rules.get? id = none
  apart : ∀ id, ¬ IsDerivedId id → (∀ rule ∈ settings.configuredRules, rule.id ≠ id) →
    u.rules.get? id = s.rules.get? id

theorem broughtInLine_seed (h : s.rules.Keyed)
    (hp : ∀ t ∈ settings.knownTopics, '/' ∉ t.project.toList) :
    BroughtInLine settings s (s.seed settings).1 := by
  have hplain : ∀ k ∈ settings.configuredTopics, '/' ∉ k.project.toList := by
    intro k hk
    obtain ⟨t, ht, rfl⟩ := List.mem_map.mp hk
    exact hp t ht
  have hnone {id : String} (ho : ∀ rule ∈ settings.configuredRules, rule.id ≠ id) :
      settings.configuredRules.findRev? (·.id = id) = none :=
    Ends.findRev?_eq_none.mpr fun rule hr he => ho rule hr (of_decide_eq_true he)
  constructor
  case stored =>
    intro key k hk
    rw [get?_knownTopics_seed, hk]
    rfl
  case added =>
    intro project topic hproject hk
    unfold knownTopic? at hk ⊢
    rw [get?_knownTopics_seed, hk]
    refine List.find?_congr fun k hk => ?_
    exact decide_eq_decide.mpr (HistoryWindow.topicKey_inj (hplain k hk) hproject)
  case known =>
    intro key k hk
    rw [get?_knownTopics_seed] at hk
    rcases Option.or_eq_some_iff.mp hk with hk | ⟨-, hk⟩
    · exact Or.inl hk
    · exact Or.inr (List.mem_of_find?_eq_some hk)
  case configured =>
    intro id last hl
    rw [get?_rules_seed h, ruleOver, hl]
  case dropped =>
    intro id hd ho
    rw [get?_rules_seed h, ruleOver, hnone ho]
    exact if_pos hd
  case apart =>
    intro id hd ho
    rw [get?_rules_seed h, ruleOver, hnone ho]
    exact if_neg hd

/-- Bringing a store in line with settings, whatever it holds, says what becomes of each rule and of each
known topic, and doing it once is enough. It makes no difference to do it again, or to restart any
number of times from what has been written, be it after it was done in memory or from the start. -/
theorem seeding_settles {s : Store} (hs : s.rules.Keyed) {settings : Settings}
    (hp : ∀ t ∈ settings.knownTopics, '/' ∉ t.project.toList) :
    let u := (s.seed settings).1
    let same (t : Store) : Prop := t.rules = u.rules ∧ t.knownTopics = u.knownTopics
    BroughtInLine settings s u ∧ same (u.seed settings).1 ∧
      (settings.Fits → s.disk.writable = true →
        (∀ start, Intact start s → HistoriesReadable start → ∃ v, persist.run.run u = (.ok (), v) ∧
          ∀ limit n, ∃ w, (restarts settings limit n).run.run v = (.ok (), w) ∧ same w) ∧
        ∀ t limit, loadAll.run.run (onDisk t.disk limit) = (.ok (), s) →
          ∀ n, ∃ w, (restarts settings limit (n + 1)).run.run t = (.ok (), w) ∧ same w) := by
  intro u same
  have hsame {w : Store} (hw : holdings w = holdings u) : same w :=
    ⟨congrArg Holdings.rules hw, congrArg Holdings.knownTopics hw⟩
  have hagain : ∀ t : Store, t.rules.Keyed → holdings t = holdings u →
      holdings (t.seed settings).1 = holdings u := fun t _ ht => holdings_seed_seed hs ht
  refine ⟨broughtInLine_seed hs hp, hsame (holdings_seed_seed hs rfl), ?_⟩
  intro hf hw
  constructor
  · intro start hi hr
    have hd : u.disk = s.disk := (Prod.mk.inj (seed_apart s settings)).2
    obtain ⟨v, hv, hk⟩ := kept_persist (intact_seed hi hf) hr (by rw [hd, hw])
    refine ⟨v, hv, ?_⟩
    intro limit n
    obtain ⟨w, hrun, hk⟩ := kept_restarts hf hagain hk limit n
    exact ⟨w, hrun, hsame hk.holds⟩
  · intro t limit hl n
    obtain ⟨v, hv, hk⟩ := restart_loaded hf hl (by rw [← (of_loadAll hl).2, hw])
    obtain ⟨w, hrun, hk⟩ := kept_restarts hf hagain hk limit n
    exact ⟨w, (run_bind_ok hv).trans hrun, hsame hk.holds⟩

def doorTopic (description : String) : TopicSettings :=
  { project := "garden", topic := "door", description := some description, direction := .inbound,
    keepHistory := false }

/-- A rule is configured twice under the id of one that was triggered before, another one is no longer
configured, and of a topic there are two descriptions. -/
theorem garden_settles :
    let ring := buttonRule "garden" (some "ring")
    let settings := { Settings.standard with
      rules := [ring, { ring with sourceTopic := "door" }, buttonRule "garden" none]
      knownTopics := [doorTopic "front", doorTopic "back"] }
    let fired := { ring.rule "iotzoo" "ring" with evaluationResult := true }
    let gone := ring.rule "iotzoo" "config:garden/gate/lamp/5"
    let own := ring.rule "iotzoo" "night"
    let held := (((Store.onDisk .empty 5).insertRule fired).insertRule gone).insertRule own
    ∃ t s, loadAll.run.run (onDisk t.disk 5) = (.ok (), s) ∧ holdings s = holdings held ∧
      s.rules.Keyed ∧ settings.Fits ∧ s.disk.writable = true ∧
      let u := (s.seed settings).1
      u.rules.get? "ring" = some { fired with sourceTopic := "door" } ∧
        u.rules.get? "config:garden/gate/lamp/5" = none ∧ u.rules.get? "night" = some own ∧
        u.knownTopic? "garden" "door" = some ((doorTopic "front").knownTopic "iotzoo") ∧
        (u.seed settings).1.rules = u.rules ∧
        ∃ w, (restarts settings 5 3).run.run t = (.ok (), w) ∧ w.rules = u.rules ∧
          w.knownTopics = u.knownTopics := by
  intro ring settings fired gone own held
  have hfired : fired.Fits := ⟨by decide, by decide, by decide, fun _ ht => by cases ht⟩
  have hfits (id : String) : (ring.rule "iotzoo" id).Fits :=
    ⟨hfired.priority_ge, hfired.priority_le, hfired.delay_lt, fun _ ht => by cases ht⟩
  have hi : Intact .empty held :=
    (((intact_fresh .empty 5).insertRule hfired).insertRule (hfits _)).insertRule (hfits _)
  obtain ⟨t, ht, hk⟩ := kept_persist hi ⟨[], rfl⟩ rfl
  have hl := loaded_of_persisted hi (w := .calm) (x := .calm) (y := .calm) (z := .calm)
    (by rw [persistAmid_calm]; exact ht) 5
  obtain ⟨s, hload⟩ := hl.1 ⟨[], rfl⟩
  have hh := hl.2 s hload
  obtain ⟨his, hd⟩ := of_loadAll hload
  have hkeyed : s.rules.Keyed := fun e he => (his.rules e he).1
  have hw : s.disk.writable = true := hd ▸ hk.writable
  have hf : settings.Fits := by
    intro r hr
    simp only [settings, List.mem_cons, List.not_mem_nil, or_false] at hr
    rcases hr with rfl | rfl | rfl <;> exact ⟨by decide, by decide, by decide⟩
  have hplain : ∀ t ∈ settings.knownTopics, '/' ∉ t.project.toList := by decide
  obtain ⟨hb, hagain, hrestart⟩ := seeding_settles hkeyed hplain
  obtain ⟨w, hrun, hsame⟩ := (hrestart hf hw).2 t 5 hload 2
  have hr : s.rules = held.rules := congrArg Holdings.rules hh
  have hkn : s.knownTopics = .empty := congrArg Holdings.knownTopics hh
  refine ⟨t, s, hload, hh, hkeyed, hf, hw, ?_, ?_, ?_, ?_, hagain.1, w, hrun, hsame⟩
  · rw [hb.configured "ring" (RuleSettings.rule { ring with sourceTopic := "door" } "iotzoo" "ring")
      (by decide), hr]
    decide
  · exact hb.dropped _ (by decide) (by decide)
  · rw [hb.apart "night" (by decide) (by decide), hr]
    decide
  · rw [hb.added "garden" "door" (by decide) (by rw [knownTopic?, hkn]; rfl)]
    decide

end Settings

end TopicHub
