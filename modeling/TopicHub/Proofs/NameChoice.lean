import Mathlib.Data.List.MinMax
import Mathlib.Data.Prod.Lex
import Mathlib.Data.Set.Basic
import Mathlib.Data.String.Basic
import TopicHub.Proofs.Ends
import TopicHub.Proofs.Persistence

/-!
Which known topic a name means when no project goes with it. The name may be the address of several known
topics and the topic of others. An address counts before a topic, and of several the one with the least
key is meant. Keys are all different, so this depends on what is known and on nothing else: not on the
order in which it came in, and not on the order in which it is gone through.
-/

namespace TopicHub

namespace Table

variable {α : Type} {key : α → String} {P : α → Prop}

theorem get?_insertAll (t : Table α) (key : α → String) (values : List α) (k : String) :
    (t.insertAll key values).get? k = (values.findRev? (key · = k)).or (t.get? k) := by
  unfold insertAll
  induction values using List.reverseRecOn with
  | nil => rfl
  | append_singleton values v ih =>
    rw [List.foldl_append, List.foldl_cons, List.foldl_nil, get?_insert, ih, Ends.findRev?_concat]
    by_cases h : key v = k
    · rw [if_pos h.symm, if_pos (decide_eq_true h)]
      rfl
    · rw [if_neg (Ne.symm h), if_neg (by simpa using h)]

theorem KeyedBy.insertAll {t : Table α} (h : t.KeyedBy key fun _ => True) (values : List α) :
    (t.insertAll key values).KeyedBy key fun _ => True := by
  unfold Table.insertAll
  induction values generalizing t with
  | nil => exact h
  | cons v values ih => exact ih (keyedBy_insert h trivial)

theorem KeyedBy.values_ordered {t : Table α} (h : t.KeyedBy key P) :
    t.values.Pairwise fun a b => key a < key b := by
  refine List.pairwise_map.mpr (t.ordered.imp_of_mem ?_)
  intro a b ha hb hlt
  rwa [(h a ha).1, (h b hb).1] at hlt

end Table

namespace KnownTopics

open Store Persistence

/-- The known topic with the least key. -/
def LeastKey (known : Set KnownTopic) (k : KnownTopic) : Prop :=
  k ∈ known ∧ ∀ other ∈ known, knownTopicKey k ≤ knownTopicKey other

/-- Of those with that address the one with the least key and, if there are none, of those with that
topic. -/
def Means (known : Set KnownTopic) (name : String) (k : KnownTopic) : Prop :=
  LeastKey {x ∈ known | x.address = name} k ∨
    (∀ x ∈ known, x.address ≠ name) ∧ LeastKey {x ∈ known | x.topic = name} k

def Answers (known : Set KnownTopic) (name : String) : Option KnownTopic → Prop
  | none => ∀ k ∈ known, ¬ (k.address = name ∨ k.topic = name)
  | some k => Means known name k

variable {known : Set KnownTopic} {name : String} {k l : KnownTopic}

theorem Means.named (h : Means known name k) : k ∈ known ∧ (k.address = name ∨ k.topic = name) := by
  rcases h with ⟨⟨hk, ha⟩, -⟩ | ⟨-, ⟨hk, ht⟩, -⟩
  · exact ⟨hk, Or.inl ha⟩
  · exact ⟨hk, Or.inr ht⟩

theorem LeastKey.unique (hkeys : Set.InjOn knownTopicKey known) {p : KnownTopic → Prop}
    (hk : LeastKey {x ∈ known | p x} k) (hl : LeastKey {x ∈ known | p x} l) : k = l :=
  hkeys hk.1.1 hl.1.1 (String.le_antisymm (hk.2 l hl.1) (hl.2 k hk.1))

theorem Means.unique (hkeys : Set.InjOn knownTopicKey known) (hk : Means known name k)
    (hl : Means known name l) : k = l := by
  rcases hk with hk | ⟨hnone, hk⟩
  · rcases hl with hl | ⟨hnone, -⟩
    · exact hk.unique hkeys hl
    · exact absurd hk.1.2 (hnone k hk.1.1)
  · rcases hl with hl | ⟨-, hl⟩
    · exact absurd hl.1.2 (hnone l hl.1.1)
    · exact hk.unique hkeys hl

theorem Answers.eq (hkeys : Set.InjOn knownTopicKey known) {o u : Option KnownTopic}
    (ho : Answers known name o) (hu : Answers known name u) : o = u := by
  cases o with
  | none =>
    cases u with
    | none => rfl
    | some l => exact absurd hu.named.2 (ho l hu.named.1)
  | some k =>
    cases u with
    | none => exact absurd ho.named.2 (hu k ho.named.1)
    | some l => exact congrArg some (ho.unique hkeys hu)

theorem leastKey_of_find? {values : List KnownTopic}
    (ho : values.Pairwise fun a b => knownTopicKey a < knownTopicKey b) {p : KnownTopic → Prop}
    [DecidablePred p] (h : values.find? (p ·) = some k) : LeastKey {x | x ∈ values ∧ p x} k := by
  obtain ⟨hp, front, rest, rfl, hfront⟩ := List.find?_eq_some_iff_append.mp h
  refine ⟨⟨List.mem_append_right _ (List.mem_cons_self ..), of_decide_eq_true hp⟩, ?_⟩
  rintro other ⟨hm, hother⟩
  rcases List.mem_append.mp hm with hm | hm
  · have hnot := hfront other hm
    rw [decide_eq_true hother] at hnot
    cases hnot
  · rcases List.mem_cons.mp hm with rfl | hm
    · exact String.le_refl _
    · have hbehind := (List.pairwise_append.mp ho).2.1
      exact le_of_lt ((List.pairwise_cons.mp hbehind).1 other hm)

theorem answers_findKnownTopic? {s : Store} (h : s.knownTopics.KeyedBy knownTopicKey fun _ => True)
    (name : String) : Answers {k | k ∈ s.knownTopics.values} name (s.findKnownTopic? name) := by
  unfold findKnownTopic?
  cases ha : s.knownTopics.values.find? fun k => k.address = name with
  | some k => exact Or.inl (leastKey_of_find? h.values_ordered ha)
  | none =>
    have hnone : ∀ x ∈ s.knownTopics.values, x.address ≠ name := by
      simpa using List.find?_eq_none.mp ha
    dsimp only
    cases ht : s.knownTopics.values.find? fun k => k.topic = name with
    | some k => exact Or.inr ⟨hnone, leastKey_of_find? h.values_ordered ht⟩
    | none =>
      intro k hk
      have htopic : k.topic ≠ name := by
        simpa using List.find?_eq_none.mp ht k hk
      exact not_or.mpr ⟨hnone k hk, htopic⟩

/-- An address ranks before a topic. -/
def rank? (name : String) (k : KnownTopic) : Option ℕ :=
  if k.address = name then some 0 else if k.topic = name then some 1 else none

def candidate? (name : String) (e : String × KnownTopic) : Option ((ℕ ×ₗ String) × KnownTopic) :=
  (rank? name e.2).map fun rank => (toLex (rank, e.1), e.2)

/-- The choice among entries that come in some order: the least candidate by rank and key, and of equal
ones the first. -/
def chosen (name : String) (listing : List (String × KnownTopic)) : Option KnownTopic :=
  ((listing.filterMap (candidate? name)).argmin Prod.fst).map Prod.snd

theorem rank?_eq_zero_iff : rank? name k = some 0 ↔ k.address = name := by
  unfold rank?
  split
  · rename_i h
    exact iff_of_true rfl h
  · rename_i h
    split
    · exact iff_of_false nofun h
    · exact iff_of_false nofun h

theorem rank?_eq_none_iff : rank? name k = none ↔ ¬ (k.address = name ∨ k.topic = name) := by
  unfold rank?
  split
  · rename_i h
    exact iff_of_false nofun (not_not_intro (Or.inl h))
  · rename_i ha
    split
    · rename_i ht
      exact iff_of_false nofun (not_not_intro (Or.inr ht))
    · rename_i ht
      exact iff_of_true rfl (not_or.mpr ⟨ha, ht⟩)

theorem rank?_cases {rank : ℕ} (h : rank? name k = some rank) :
    rank = 0 ∧ k.address = name ∨ rank = 1 ∧ k.address ≠ name ∧ k.topic = name := by
  unfold rank? at h
  split at h
  · rename_i ha
    exact Or.inl ⟨(Option.some.inj h).symm, ha⟩
  · rename_i ha
    split at h
    · rename_i ht
      exact Or.inr ⟨(Option.some.inj h).symm, ha, ht⟩
    · cases h

theorem rank?_of_topic (ha : k.address ≠ name) (ht : k.topic = name) : rank? name k = some 1 := by
  unfold rank?
  rw [if_neg ha, if_pos ht]

theorem answers_chosen {listing : List (String × KnownTopic)}
    (hkeys : ∀ e ∈ listing, e.1 = knownTopicKey e.2) (name : String) :
    Answers {k | ∃ key, (key, k) ∈ listing} name (chosen name listing) := by
  unfold chosen
  cases hc : (listing.filterMap (candidate? name)).argmin Prod.fst with
  | none =>
    rintro k ⟨key, hm⟩
    have hnone := List.filterMap_eq_nil_iff.mp (List.argmin_eq_none.mp hc) (key, k) hm
    exact rank?_eq_none_iff.mp (Option.map_eq_none_iff.mp hnone)
  | some c =>
    obtain ⟨⟨key, k⟩, hm, hcandidate⟩ := List.mem_filterMap.mp (List.argmin_mem hc)
    obtain ⟨rank, hrank, rfl⟩ := Option.map_eq_some_iff.mp hcandidate
    -- No candidate has a lower rank, and none of the same rank has a lower key.
    have hleast {other : KnownTopic} {key' : String} (ho : (key', other) ∈ listing) {rank' : ℕ}
        (hr : rank? name other = some rank') : rank < rank' ∨
          rank = rank' ∧ knownTopicKey k ≤ knownTopicKey other := by
      have hmem : (toLex (rank', key'), other) ∈ listing.filterMap (candidate? name) :=
        List.mem_filterMap.mpr ⟨(key', other), ho, congrArg (Option.map _) hr⟩
      rw [← hkeys _ hm, ← hkeys _ ho]
      exact Prod.Lex.toLex_le_toLex.mp (List.le_of_mem_argmin hmem hc)
    rcases rank?_cases hrank with ⟨rfl, ha⟩ | ⟨rfl, -, ht⟩
    · refine Or.inl ⟨⟨⟨key, hm⟩, ha⟩, ?_⟩
      rintro other ⟨⟨key', ho⟩, ha'⟩
      exact ((hleast ho (rank?_eq_zero_iff.mpr ha')).resolve_left (Nat.lt_irrefl 0)).2
    · have hnone : ∀ x, (∃ key, (key, x) ∈ listing) → x.address ≠ name := by
        rintro x ⟨key', ho⟩ ha'
        rcases hleast ho (rank?_eq_zero_iff.mpr ha') with hlt | ⟨heq, -⟩
        · exact Nat.not_lt_zero 1 hlt
        · exact Nat.one_ne_zero heq
      refine Or.inr ⟨hnone, ⟨⟨key, hm⟩, ht⟩, ?_⟩
      rintro other ⟨⟨key', ho⟩, ht'⟩
      have hrank' := rank?_of_topic (hnone other ⟨key', ho⟩) ht'
      exact ((hleast ho hrank').resolve_left (Nat.lt_irrefl 1)).2

def lastInserted (inserted : List KnownTopic) : Set KnownTopic :=
  {k | inserted.findRev? (knownTopicKey · = knownTopicKey k) = some k}

theorem injOn_lastInserted (inserted : List KnownTopic) :
    Set.InjOn knownTopicKey (lastInserted inserted) := by
  intro k hk l hl h
  have hk : inserted.findRev? (knownTopicKey · = knownTopicKey k) = some k := hk
  rw [h] at hk
  exact Option.some.inj (hk.symm.trans hl)

theorem knownTopics_inserted {start : Store} (hs : start.knownTopics = .empty)
    (inserted : List KnownTopic) :
    (inserted.foldl insertKnownTopic start).knownTopics =
      Table.empty.insertAll knownTopicKey inserted := by
  rw [← hs]
  exact congrArg Holdings.knownTopics (holdings_insertKnownTopics inserted start)

theorem keyedBy_inserted (inserted : List KnownTopic) :
    (Table.empty.insertAll knownTopicKey inserted).KeyedBy knownTopicKey fun _ => True :=
  Table.KeyedBy.insertAll Table.keyedBy_empty inserted

theorem mem_inserted_iff {inserted : List KnownTopic} {k : KnownTopic} :
    (∃ key, (key, k) ∈ (Table.empty.insertAll knownTopicKey inserted).entries) ↔
      k ∈ lastInserted inserted := by
  have hget := Table.get?_insertAll Table.empty knownTopicKey inserted (knownTopicKey k)
  rw [Table.get?_empty, Option.or_none] at hget
  constructor
  · rintro ⟨key, hm⟩
    obtain rfl : key = knownTopicKey k := (keyedBy_inserted inserted _ hm).1
    exact hget.symm.trans (Table.get?_eq_some.mpr hm)
  · intro h
    exact ⟨_, Table.get?_eq_some.mp (hget.trans h)⟩

/-- A name means the known topic with the least key among those with that address or, if there are none,
among those with that topic, and nothing exactly if there are none either. In whatever order the table
is gone through, this is the one that is chosen. -/
theorem meant_by_contents {start : Store} (hs : start.knownTopics = .empty)
    (inserted : List KnownTopic) {listing : List (String × KnownTopic)}
    (hl : listing.Perm (inserted.foldl insertKnownTopic start).knownTopics.entries) (name : String) :
    let found := (inserted.foldl insertKnownTopic start).findKnownTopic? name
    let known := lastInserted inserted
    chosen name listing = found ∧
      (found.isSome = true ↔ ∃ k ∈ known, k.address = name ∨ k.topic = name) ∧
      ∀ k, found = some k ↔ LeastKey {x ∈ known | x.address = name} k ∨
        (∀ x ∈ known, x.address ≠ name) ∧ LeastKey {x ∈ known | x.topic = name} k := by
  intro found known
  have htable := knownTopics_inserted hs inserted
  have hkeyed := keyedBy_inserted inserted
  have hfound : Answers known name found := by
    have h := answers_findKnownTopic? (s := inserted.foldl insertKnownTopic start)
      (by rw [htable]; exact hkeyed) name
    rw [htable] at h
    have hset : {k | k ∈ (Table.empty.insertAll knownTopicKey inserted).values} = known :=
      Set.ext fun k => Table.mem_values.trans mem_inserted_iff
    rwa [hset] at h
  rw [htable] at hl
  have hchosen : Answers known name (chosen name listing) := by
    have h := answers_chosen (fun e he => (hkeyed e (hl.mem_iff.mp he)).1) name
    have hset : {k | ∃ key, (key, k) ∈ listing} = known := by
      refine Set.ext fun k => ?_
      rw [← mem_inserted_iff]
      exact exists_congr fun key => hl.mem_iff
    rwa [hset] at h
  have hinj := injOn_lastInserted inserted
  refine ⟨hchosen.eq hinj hfound, ?_, fun k => ⟨fun h => ?_, fun h => ?_⟩⟩
  · cases hf : found with
    | none =>
      rw [hf] at hfound
      refine iff_of_false nofun ?_
      rintro ⟨k, hk, hn⟩
      exact hfound k hk hn
    | some k =>
      rw [hf] at hfound
      exact iff_of_true rfl ⟨k, hfound.named⟩
  · rw [h] at hfound
    exact hfound
  · exact hfound.eq hinj (u := some k) h

/-- The topic of the attic has the lesser key, but the name is the address of the one in the kitchen. Of
this the last version counts. -/
theorem kitchen_colors_meant :
    let red := { KnownTopic.bare "kitchen" "colors" with lastPayload := some "red" }
    let inserted := [KnownTopic.bare "kitchen" "colors", KnownTopic.bare "attic" "kitchen/colors", red]
    let s := inserted.foldl insertKnownTopic (inMemory .empty)
    (inMemory .empty).knownTopics = .empty ∧ s.knownTopics.entries.reverse.Perm s.knownTopics.entries ∧
      chosen "kitchen/colors" s.knownTopics.entries.reverse = some red := by
  intro red inserted s
  have hl : s.knownTopics.entries.reverse.Perm s.knownTopics.entries := List.reverse_perm _
  have hfound : s.findKnownTopic? "kitchen/colors" = some red := by decide
  obtain ⟨hchosen, -, -⟩ := meant_by_contents rfl inserted hl "kitchen/colors"
  exact ⟨rfl, hl, hchosen.trans hfound⟩

end KnownTopics

end TopicHub
