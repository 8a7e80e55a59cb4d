import TopicHub.Proofs.Persistence
import TopicHub.Proofs.Splitting

/-!
Known topics by project and topic. Project and topic are joined with a slash to one key, and both may
have slashes of their own. What is done to a known topic leaves another one alone unless the two names
overlap: where the topic of one goes on with segments that belong to the project of the other, they
are the same known topic with the same history.
-/

namespace TopicHub

namespace Store

open Persistence

theorem get?_addTopic (s : Store) (k : KnownTopic) (key : String) :
    (s.addTopic k).knownTopics.get? key =
      (s.knownTopics.get? key).or (if knownTopicKey k = key then some k else none) := by
  unfold addTopic
  cases hs : s.knownTopic? k.project k.topic with
  | some stored =>
    simp only [Option.isSome_some, if_true]
    by_cases h : knownTopicKey k = key
    · rw [← h, show s.knownTopics.get? (knownTopicKey k) = some stored from hs]
      rfl
    · rw [if_neg h, Option.or_none]
  | none =>
    simp only [Option.isSome_none, Bool.false_eq_true, if_false]
    refine (Table.get?_insert s.knownTopics (knownTopicKey k) key k).trans ?_
    by_cases h : knownTopicKey k = key
    · rw [if_pos h.symm, if_pos h, ← h,
        show s.knownTopics.get? (knownTopicKey k) = none from hs]
      rfl
    · rw [if_neg (Ne.symm h), if_neg h, Option.or_none]

theorem get?_addTopics (topics : List KnownTopic) (s : Store) (key : String) :
    (topics.foldl addTopic s).knownTopics.get? key =
      (s.knownTopics.get? key).or (topics.find? (knownTopicKey · = key)) := by
  induction topics generalizing s with
  | nil => exact Option.or_none.symm
  | cons k topics ih =>
    rw [List.foldl_cons, ih, get?_addTopic, Option.or_assoc, List.find?_cons]
    by_cases h : knownTopicKey k = key <;> simp [h]

end Store

namespace KnownTopics

open Store

theorem run_getKnownTopic (project topic : String) (s : Store) :
    (getKnownTopic project topic).run.run s =
      (if .findKnownTopic ∈ s.outages then
        .error (.invalid StoreAccess.findKnownTopic.name "unavailable")
      else .ok (s.knownTopic? project topic), s) := by
  unfold getKnownTopic
  rw [run_bind, run_ensure]
  by_cases h : .findKnownTopic ∈ s.outages
  · simp only [h, if_true]
  · simp only [h, if_false]
    rfl

def Admits (s : Store) (k : KnownTopic) : Prop :=
  .saveKnownTopic ∉ s.outages ∧ k.topic.isEmpty = false

instance (s : Store) (k : KnownTopic) : Decidable (Admits s k) := inferInstanceAs (Decidable (_ ∧ _))

theorem after_saveKnownTopic (s : Store) (k : KnownTopic) :
    ∃ disk, ((saveKnownTopic k).run.run s).2 =
      { s with
        knownTopics := if Admits s k then (s.insertKnownTopic k).knownTopics else s.knownTopics
        disk } := by
  by_cases ho : .saveKnownTopic ∈ s.outages
  · refine ⟨s.disk, ?_⟩
    unfold saveKnownTopic
    rw [run_bind, run_ensure, if_pos ho, if_neg fun ha : Admits s k => ha.1 ho]
  · have hr := run_save ho k.topic.isEmpty (.invalid "known topic" "topic cannot be empty")
      (insertKnownTopic · k) writeKnownTopics
    change (saveKnownTopic k).run.run s = _ at hr
    rw [hr]
    cases hi : k.topic.isEmpty with
    | true =>
      refine ⟨s.disk, ?_⟩
      rw [if_pos rfl, if_neg fun ha : Admits s k => Bool.false_ne_true (ha.2.symm.trans hi)]
    | false =>
      obtain ⟨disk, hd⟩ := after_write .knownTopics (s.insertKnownTopic k).knownTopics.values
        (s.insertKnownTopic k)
      refine ⟨disk, ?_⟩
      rw [if_neg Bool.false_ne_true, if_pos ⟨ho, hi⟩]
      unfold writeKnownTopics
      rw [run_bind, run_get]
      exact hd

theorem after_appendHistory (s : Store) (e : HistoryEntry) : ((appendHistory e).run.run s).2 =
    if .appendHistory ∈ s.outages then s else { s.pushHistory e with historyChanged := true } := by
  by_cases ho : .appendHistory ∈ s.outages
  · unfold appendHistory
    rw [run_bind, run_ensure, if_pos ho, if_pos ho]
  · rw [run_appendHistory ho, if_neg ho]

structure Name where
  project : String
  topic : String
  deriving DecidableEq, Repr

namespace Name

def key (n : Name) : String := topicKey n.project n.topic

/-- The segments in between are counted to the topic of `n` and to the project of `m`. -/
def ContinuesIn (n m : Name) : Prop :=
  ∃ between, m.project = n.project ++ "/" ++ between ∧ n.topic = between ++ "/" ++ m.topic

def Overlaps (n m : Name) : Prop := n.ContinuesIn m ∨ m.ContinuesIn n

theorem key_of_continuesIn {n m : Name} (h : n.ContinuesIn m) : n.key = m.key := by
  obtain ⟨between, hp, ht⟩ := h
  unfold key topicKey
  rw [hp, ht]
  simp only [String.append_assoc]

theorem slash_of_continuesIn {n m : Name} (h : n.ContinuesIn m) :
    '/' ∈ m.project.toList ∧ '/' ∈ n.topic.toList := by
  obtain ⟨between, hp, ht⟩ := h
  rw [hp, ht]
  simp

/-- If the project of `m` is the longer one, its end is a part of the topic of `n`. -/
theorem eq_or_continuesIn {n m : Name} {more : List Char}
    (hm : m.project.toList = n.project.toList ++ more)
    (hn : '/' :: n.topic.toList = more ++ '/' :: m.topic.toList) : n = m ∨ n.ContinuesIn m := by
  cases more with
  | nil =>
    left
    have hp : n.project = m.project := String.toList_injective (by rw [hm, List.append_nil])
    have ht : n.topic = m.topic := String.toList_injective (List.cons_inj_right _ |>.mp hn)
    cases n
    cases m
    cases hp
    cases ht
    rfl
  | cons c between =>
    right
    obtain ⟨rfl, ht⟩ := List.cons.inj hn
    refine ⟨String.ofList between, ?_, ?_⟩
    · apply String.toList_injective
      simp [hm]
    · apply String.toList_injective
      simp [ht]

theorem key_eq_iff {n m : Name} : n.key = m.key ↔ n = m ∨ n.Overlaps m := by
  constructor
  · intro h
    have hl := congrArg String.toList h
    simp only [key, topicKey, String.toList_append, List.append_assoc] at hl
    rcases List.append_eq_append_iff.mp hl with ⟨more, hm, hn⟩ | ⟨more, hm, hn⟩
    · exact (eq_or_continuesIn hm hn).imp_right .inl
    · exact (eq_or_continuesIn hm hn).imp Eq.symm .inr
  · rintro (rfl | h | h)
    · rfl
    · exact key_of_continuesIn h
    · exact (key_of_continuesIn h).symm

end Name

def nameOf (k : KnownTopic) : Name := ⟨k.project, k.topic⟩

inductive Event where
  | insert (k : KnownTopic)
  | save (k : KnownTopic)
  | remove (n : Name)
  | append (e : HistoryEntry)

namespace Event

def subject : Event → Name
  | insert k => nameOf k
  | save k => nameOf k
  | remove n => n
  | append e => ⟨e.project, e.topic⟩

end Event

def next (s : Store) : Event → Store
  | .insert k => s.insertKnownTopic k
  | .save k => ((saveKnownTopic k).run.run s).2
  | .remove n => s.removeKnownTopic n.project n.topic
  | .append e => ((appendHistory e).run.run s).2

/-- The stores that come about, whatever happens to the disk and whatever cannot be done at times. -/
inductive Reached : Store → Prop where
  | start {s : Store} (hk : s.knownTopics = .empty) (hh : s.histories = .empty) : Reached s
  | step {s : Store} (e : Event) (h : Reached s) : Reached (next s e)
  | disturbed {s : Store} (disk : Disk) (outages : List StoreAccess) (h : Reached s) :
    Reached { s with disk, outages }

/-- The known topic of that name and its history. -/
def records (s : Store) (n : Name) : Option KnownTopic × List HistoryEntry :=
  (s.knownTopic? n.project n.topic, s.history n.project n.topic)

theorem records_congr {s u : Store} {n m : Name}
    (hk : s.knownTopics.get? n.key = u.knownTopics.get? m.key)
    (hh : s.histories.get? n.key = u.histories.get? m.key) : records s n = records u m := by
  unfold records knownTopic? history
  change (s.knownTopics.get? n.key, (s.histories.get? n.key).getD []) =
    (u.knownTopics.get? m.key, (u.histories.get? m.key).getD [])
  rw [hk, hh]

theorem records_next_ne {s : Store} {e : Event} {n : Name} (hn : n.key ≠ e.subject.key) :
    records (next s e) n = records s n := by
  cases e with
  | insert k => exact records_congr ((Table.get?_insert ..).trans (if_neg hn)) rfl
  | save k =>
    obtain ⟨disk, hd⟩ := after_saveKnownTopic s k
    change records ((saveKnownTopic k).run.run s).2 n = _
    rw [hd]
    refine records_congr ?_ rfl
    dsimp only
    split
    · exact (Table.get?_insert ..).trans (if_neg hn)
    · rfl
  | remove m => exact records_congr ((Table.get?_erase ..).trans (if_neg hn)) rfl
  | append e =>
    change records ((appendHistory e).run.run s).2 n = _
    rw [after_appendHistory]
    split
    · rfl
    · exact records_congr rfl ((Table.get?_insert ..).trans (if_neg hn))

/-- Every known topic can be made to appear, or to disappear. -/
theorem exists_disturbing (s : Store) (m : Name) :
    ∃ e : Event, e.subject = m ∧ records (next s e) m ≠ records s m := by
  cases hk : s.knownTopics.get? m.key with
  | none =>
    refine ⟨.insert (.bare m.project m.topic), rfl, ?_⟩
    intro h
    have hg := (Prod.mk.inj h).1
    have hi : (next s (.insert (.bare m.project m.topic))).knownTopics.get? m.key =
        some (.bare m.project m.topic) := (Table.get?_insert ..).trans (if_pos rfl)
    exact Option.some_ne_none _ (hi.symm.trans (hg.trans hk))
  | some k =>
    refine ⟨.remove m, rfl, ?_⟩
    intro h
    have hg := (Prod.mk.inj h).1
    have hi : (next s (.remove m)).knownTopics.get? m.key = none :=
      (Table.get?_erase ..).trans (if_pos rfl)
    exact Option.some_ne_none k (hk.symm.trans (hg.symm.trans hi))

def Keyed (s : Store) : Prop :=
  s.knownTopics.KeyedBy (Name.key ∘ nameOf) fun _ => True

theorem keyed_insert {s : Store} (h : Keyed s) (k : KnownTopic) : Keyed (s.insertKnownTopic k) := by
  have hi := Table.keyedBy_insert h (v := k) trivial
  exact hi

theorem keyed_next {s : Store} (h : Keyed s) (e : Event) : Keyed (next s e) := by
  cases e with
  | insert k => exact keyed_insert h k
  | save k =>
    obtain ⟨disk, hd⟩ := after_saveKnownTopic s k
    change Keyed ((saveKnownTopic k).run.run s).2
    rw [hd]
    unfold Keyed
    dsimp only
    split
    · exact keyed_insert h k
    · exact h
  | remove n => exact Table.keyedBy_erase h n.key
  | append e =>
    change Keyed ((appendHistory e).run.run s).2
    rw [after_appendHistory]
    split
    · exact h
    · exact h

theorem keyed_reached {s : Store} (h : Reached s) : Keyed s := by
  induction h with
  | start hk =>
    unfold Keyed
    rw [hk]
    exact Table.keyedBy_empty
  | step e _ ih => exact keyed_next ih e
  | disturbed _ _ _ ih => exact ih

theorem overlaps_of_found {s u : Store} (h : Reached s) {n : Name} {k : KnownTopic}
    (hf : (getKnownTopic n.project n.topic).run.run s = (.ok (some k), u)) :
    nameOf k = n ∨ n.Overlaps (nameOf k) := by
  rw [run_getKnownTopic] at hf
  obtain ⟨hf, -⟩ := Prod.mk.inj hf
  split at hf
  · cases hf
  · have hk : s.knownTopics.get? n.key = some k := Except.ok.inj hf
    have hkey : n.key = (nameOf k).key := (keyed_reached h _ (Table.get?_eq_some.mp hk)).1
    exact (Name.key_eq_iff.mp hkey).imp_left Eq.symm

/-- What is done to a known topic can disturb another one if and only if their names overlap, and this
takes a slash in one of the projects. Overlapping names always have one record and one history between
them, and a known topic that is found under a name of which it is not has an overlapping one. -/
theorem disturbed_iff_overlaps {s : Store} (h : Reached s) {n m : Name} (hne : n ≠ m) :
    ((∃ e : Event, e.subject = m ∧ records (next s e) n ≠ records s n) ↔ n.Overlaps m) ∧
      (n.Overlaps m → records s n = records s m ∧
        ('/' ∈ n.project.toList ∨ '/' ∈ m.project.toList)) ∧
      ∀ k u, (getKnownTopic n.project n.topic).run.run s = (.ok (some k), u) →
        nameOf k = n ∨ n.Overlaps (nameOf k) := by
  have hshared (hk : n.key = m.key) (u : Store) : records u n = records u m :=
    records_congr (by rw [hk]) (by rw [hk])
  refine ⟨⟨?_, ?_⟩, ?_, ?_⟩
  · rintro ⟨e, rfl, hd⟩
    have hk : n.key = e.subject.key := by
      by_contra hk
      exact hd (records_next_ne hk)
    exact (Name.key_eq_iff.mp hk).resolve_left hne
  · intro ho
    have hk : n.key = m.key := Name.key_eq_iff.mpr (.inr ho)
    obtain ⟨e, he, hd⟩ := exists_disturbing s m
    refine ⟨e, he, ?_⟩
    rw [hshared hk, hshared hk]
    exact hd
  · intro ho
    refine ⟨hshared (Name.key_eq_iff.mpr (.inr ho)) s, ?_⟩
    rcases ho with ho | ho
    · exact .inr (Name.slash_of_continuesIn ho).1
    · exact .inl (Name.slash_of_continuesIn ho).1
  · exact fun k u hf => overlaps_of_found h hf

def pump (project : String) : KnownTopic := KnownTopic.bare project "pump"

/-- The pumps of two projects are told apart. -/
theorem pumps_told_apart :
    let s := next (next (inMemory .empty) (.save (pump "garden"))) (.save (pump "kitchen"))
    Reached s ∧ nameOf (pump "garden") ≠ nameOf (pump "kitchen") ∧
      ¬ ∃ e : Event, e.subject = nameOf (pump "kitchen") ∧
        records (next s e) (nameOf (pump "garden")) ≠ records s (nameOf (pump "garden")) := by
  intro s
  have h : Reached s := ((Reached.start rfl rfl).step _).step _
  have hne : nameOf (pump "garden") ≠ nameOf (pump "kitchen") := by decide
  refine ⟨h, hne, ?_⟩
  intro hd
  obtain ⟨hi, hs, -⟩ := disturbed_iff_overlaps h hne
  exact absurd (hs (hi.mp hd)).2 (by decide)

/-- A pump on the shelf of the garden takes the place of the one on the garden's shelf. -/
theorem shelf_pump_replaced :
    let n : Name := ⟨"garden", "shelf/pump"⟩
    let m : Name := ⟨"garden/shelf", "pump"⟩
    let s := next (inMemory .empty) (.save (.bare n.project n.topic))
    let u := next s (.save (.bare m.project m.topic))
    n ≠ m ∧ Reached s ∧ records u n ≠ records s n ∧
      (getKnownTopic n.project n.topic).run.run u = (.ok (some (.bare m.project m.topic)), u) :=
  ⟨by decide, (Reached.start rfl rfl).step _, by decide, rfl⟩

end KnownTopics

end TopicHub
