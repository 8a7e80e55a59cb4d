import TopicHub.Proofs.Store

/-!
The rules in the store. Each of them is kept under its own id, whatever is done to the store, and
so no two of them share one. The rules of a topic are then strictly ordered by priority and id, in
whatever order they were saved.
-/

namespace TopicHub

def Rule.Before (a b : Rule) : Prop :=
  a.priority < b.priority ∨ a.priority = b.priority ∧ a.id < b.id

namespace Table

theorem mem_values {α : Type} {t : Table α} {v : α} : v ∈ t.values ↔ ∃ k, (k, v) ∈ t.entries := by
  simp [values]

theorem lookup?_of_mem {α : Type} {entries : List (String × α)} {k : String} {v : α}
    (h : entries.Pairwise fun a b => a.1 < b.1) (hv : (k, v) ∈ entries) :
    Json.lookup? k entries = some v := by
  induction entries with
  | nil => cases hv
  | cons e rest ih =>
    obtain ⟨hf, hr⟩ := List.pairwise_cons.mp h
    rcases List.mem_cons.mp hv with rfl | hm
    · simp [Json.lookup?]
    · have hne : e.1 ≠ k := String.ne_of_lt (hf _ hm)
      simp [Json.lookup?, hne, ih hr hm]

theorem mem_of_lookup? {α : Type} {entries : List (String × α)} {k : String} {v : α}
    (h : Json.lookup? k entries = some v) : (k, v) ∈ entries := by
  induction entries with
  | nil => cases h
  | cons e rest ih =>
    by_cases he : e.1 = k
    · simp only [Json.lookup?, he, if_true, Option.some.injEq] at h
      rw [← he, ← h]
      exact List.mem_cons_self ..
    · simp only [Json.lookup?, he, if_false] at h
      exact List.mem_cons_of_mem _ (ih h)

theorem get?_eq_some {α : Type} {t : Table α} {k : String} {v : α} :
    t.get? k = some v ↔ (k, v) ∈ t.entries :=
  ⟨mem_of_lookup?, lookup?_of_mem t.ordered⟩

def Keyed (t : Table Rule) : Prop := ∀ e ∈ t.entries, e.1 = e.2.id

theorem keyed_empty : (empty : Table Rule).Keyed := by
  intro e he
  cases he

theorem keyed_insert {t : Table Rule} (h : t.Keyed) (rule : Rule) :
    (t.insert rule.id rule).Keyed := by
  intro e he
  rcases eq_or_mem_of_mem_insertInto he with rfl | hm
  · rfl
  · exact h e hm

theorem keyed_erase {t : Table Rule} (h : t.Keyed) (id : String) : (t.erase id).Keyed := by
  intro e he
  exact h e (List.mem_filter.mp he).1

theorem get?_id {t : Table Rule} (h : t.Keyed) {rule : Rule} (hr : rule ∈ t.values) :
    t.get? rule.id = some rule := by
  obtain ⟨k, hk⟩ := mem_values.mp hr
  have hi : k = rule.id := h _ hk
  rw [← hi]
  exact get?_eq_some.mpr hk

theorem nodup_ids {t : Table Rule} (h : t.Keyed) : (t.values.map Rule.id).Nodup := by
  have hk : t.values.map Rule.id = t.entries.map Prod.fst := by
    unfold values
    rw [List.map_map]
    exact List.map_congr_left fun e he => (h e he).symm
  rw [hk]
  exact List.pairwise_map.mpr (t.ordered.imp String.ne_of_lt)

end Table

namespace Store

theorem mem_rulesFor {s : Store} {project topic : String} {rule : Rule} :
    rule ∈ s.rulesFor project topic true ↔
      rule ∈ s.rules.values ∧ rule.project = project ∧ rule.sourceTopic = topic ∧
        rule.enabled = true := by
  simp only [rulesFor, List.mem_mergeSort, List.mem_filter, Bool.and_eq_true, decide_eq_true_eq,
    Bool.not_true, Bool.false_or, and_assoc]

theorem precedes_trans (a b c : Rule) (hab : precedes a b = true) (hbc : precedes b c = true) :
    precedes a c = true := by
  simp only [precedes, Bool.or_eq_true, Bool.and_eq_true, decide_eq_true_eq] at *
  rcases hab with hab | ⟨hab, hi⟩
  · left
    omega
  · rcases hbc with hbc | ⟨hbc, hj⟩
    · left
      omega
    · exact Or.inr ⟨hab.trans hbc, String.le_trans hi hj⟩

theorem precedes_total (a b : Rule) : (precedes a b || precedes b a) = true := by
  simp only [precedes, Bool.or_eq_true, Bool.and_eq_true, decide_eq_true_eq]
  rcases Int.lt_trichotomy a.priority b.priority with h | h | h
  · exact Or.inl (Or.inl h)
  · rcases String.le_total a.id b.id with hi | hi
    · exact Or.inl (Or.inr ⟨h, hi⟩)
    · exact Or.inr (Or.inr ⟨h.symm, hi⟩)
  · exact Or.inr (Or.inl h)

theorem nodup_rulesFor {s : Store} (h : s.rules.Keyed) (project topic : String) :
    ((s.rulesFor project topic true).map Rule.id).Nodup := by
  unfold rulesFor
  rw [((List.mergeSort_perm _ _).map Rule.id).nodup_iff]
  exact List.Nodup.sublist (List.filter_sublist.map _) (Table.nodup_ids h)

theorem ordered_rulesFor {s : Store} (h : s.rules.Keyed) (project topic : String) :
    (s.rulesFor project topic true).Pairwise Rule.Before := by
  have hs : (s.rulesFor project topic true).Pairwise fun a b => precedes a b = true :=
    List.pairwise_mergeSort precedes_trans precedes_total _
  have hn := List.pairwise_map.mp (nodup_rulesFor h project topic)
  apply List.Pairwise.imp₂ _ hs hn
  intro a b hab hne
  simp only [precedes, Bool.or_eq_true, Bool.and_eq_true, decide_eq_true_eq] at hab
  rcases hab with hab | ⟨hab, hi⟩
  · exact Or.inl hab
  · exact Or.inr ⟨hab, String.not_le.mp fun hj => hne (String.le_antisymm hi hj)⟩

/-- The rules are kept by their ids, and they can be loaded. -/
structure Sound (s : Store) : Prop where
  keyed : s.rules.Keyed
  loadable : .loadRules ∉ s.outages

theorem sound_of_registry {s u : Store} (h : s.Sound) (hr : u.registry = s.registry) : u.Sound := by
  obtain ⟨hr, ho⟩ := Prod.mk.inj hr
  refine ⟨?_, ?_⟩
  · rw [hr]
    exact h.keyed
  · rw [ho]
    exact h.loadable

theorem sound_keeping {s : Store} (h : s.Sound) (rule : Rule) : (s.keeping rule).Sound := by
  obtain ⟨disk, hd⟩ := s.keeping_eq rule
  rw [hd]
  refine ⟨?_, h.loadable⟩
  dsimp only
  split
  · exact Table.keyed_insert h.keyed rule
  · exact h.keyed

def Careful {α : Type} (x : StoreM α) : Prop := ∀ s : Store, s.Sound → (x.run.run s).2.Sound

theorem careful_bind {α β : Type} {x : StoreM α} {f : α → StoreM β} (hx : Careful x)
    (hf : ∀ a, Careful (f a)) : Careful (x >>= f) := by
  intro s h
  have hs := hx s h
  rw [run_bind]
  rcases hr : x.run.run s with ⟨e | a, u⟩
  · rw [hr] at hs
    exact hs
  · rw [hr] at hs
    exact hf a u hs

theorem careful_of_aside {α : Type} {x : StoreM α} (hx : Aside x) : Careful x :=
  fun s h => sound_of_registry h (hx s)

theorem careful_insertRules (rules : List Rule) :
    Careful (modify fun s => rules.foldl insertRule s) := by
  intro s h
  change (rules.foldl insertRule s).Sound
  induction rules generalizing s with
  | nil => exact h
  | cons rule rules ih => exact ih _ ⟨Table.keyed_insert h.keyed rule, h.loadable⟩

theorem careful_loadAll : Careful loadAll := by
  apply careful_bind (careful_of_aside (aside_load _))
  intro rules
  apply careful_bind (careful_insertRules rules)
  intro _
  apply careful_bind (careful_of_aside (aside_load _))
  intro known
  apply careful_bind (careful_of_aside (aside_foldl insertKnownTopic (fun _ _ => rfl) known))
  intro _
  apply careful_bind (careful_of_aside (aside_load _))
  intro entries
  apply careful_bind (careful_of_aside (aside_foldl pushHistory (fun _ _ => rfl) entries))
  intro _
  apply careful_bind (careful_of_aside (aside_load _))
  intro devices
  exact careful_of_aside (aside_foldl insertDevice (fun _ _ => rfl) devices)

end Store

end TopicHub
