import Mathlib.Data.List.Dedup
import Mathlib.Data.List.Perm.Subperm
import TopicHub.Proofs.Ends
import TopicHub.RecentCache

/-!
Topics leave the cache in the order in which they came in, and what is kept of a topic are its last
message and the one before it. The messages that were put, and what became of those since the cache
was last cleared, are ghost observations. As long as there is room for all topics, none of them is
forgotten.
-/

namespace TopicHub

namespace Entry

def fresh (e : Entry) : Entry := { e with previousPayload := none, timeDiffMs := none }

/-- What is kept of a topic after these messages, the last of them first. -/
def kept : (latest : Entry) → (earlier : List Entry) → Entry
  | latest, [] => latest.fresh
  | latest, e :: earlier => (kept e earlier).renew latest

theorem kept_payload (latest : Entry) (earlier : List Entry) :
    (kept latest earlier).payload = latest.payload := by
  cases earlier <;> rfl

theorem kept_received (latest : Entry) (earlier : List Entry) :
    (kept latest earlier).received = latest.received := by
  cases earlier <;> rfl

theorem kept_previousPayload (latest : Entry) (earlier : List Entry) :
    (kept latest earlier).previousPayload = earlier.head?.map Entry.payload := by
  cases earlier with
  | nil => rfl
  | cons e earlier => exact congrArg some (kept_payload e earlier)

theorem kept_timeDiffMs (latest : Entry) (earlier : List Entry) :
    (kept latest earlier).timeDiffMs =
      earlier.head?.map fun e => latest.received.millisSince e.received := by
  cases earlier with
  | nil => rfl
  | cons e earlier =>
    exact congrArg (fun t => some (latest.received.millisSince t)) (kept_received e earlier)

theorem exists_kept_address (latest : Entry) (earlier : List Entry) :
    ∃ first ∈ latest :: earlier, (kept latest earlier).address = first.address := by
  induction earlier generalizing latest with
  | nil => exact ⟨latest, List.mem_cons_self .., rfl⟩
  | cons e earlier ih =>
    obtain ⟨first, hf, ha⟩ := ih e
    exact ⟨first, List.mem_cons_of_mem _ hf, ha⟩

end Entry

namespace RecentCache

open Ends

variable {c : RecentCache} {e x : Entry} {topic : String}

theorem mem_topics : topic ∈ c.topics ↔ ∃ x ∈ c.entries, x.topic = topic := List.mem_map

theorem entry?_eq_none : c.entry? topic = none ↔ topic ∉ c.topics := by
  unfold entry?
  rw [List.find?_eq_none, mem_topics]
  simp only [decide_eq_true_eq, not_exists, not_and]

theorem of_entry? (h : c.entry? topic = some x) : x ∈ c.entries ∧ x.topic = topic := by
  unfold entry? at h
  have ht := List.find?_some h
  exact ⟨List.mem_of_find?_eq_some h, of_decide_eq_true ht⟩

theorem topics_renewIn (e : Entry) (entries : List Entry) :
    (renewIn e entries).map Entry.topic = entries.map Entry.topic := by
  unfold renewIn
  rw [List.map_map]
  apply List.map_congr_left
  intro x _
  dsimp only [Function.comp_apply]
  split <;> rfl

/-- The topic that a new one pushes out: the oldest one, if there is no more room. -/
def outgoing (c : RecentCache) : Option String :=
  if c.topics.length = c.capacity then c.topics.head? else none

theorem evicted_eq (hl : c.entries.length ≤ c.capacity) (hc : 0 < c.capacity) (e : Entry) :
    (((c.entries ++ [e]).take ((c.entries ++ [e]).length - c.capacity)).getLast?.map Entry.topic) =
      c.outgoing := by
  have ht : c.topics.length = c.entries.length := List.length_map ..
  unfold outgoing
  rw [ht, List.length_append, List.length_singleton]
  by_cases h : c.entries.length = c.capacity
  · rw [if_pos h, h, Nat.add_sub_cancel_left]
    unfold topics
    cases hx : c.entries with
    | nil =>
      rw [hx] at h
      exact absurd h (Nat.ne_of_lt hc)
    | cons x rest => rfl
  · have hs : c.entries.length + 1 - c.capacity = 0 := by omega
    rw [if_neg h, hs]
    rfl

/-- A message of a topic that is not there goes to the end, and the oldest may have to leave; any
other one renews its topic. -/
theorem put_cases (hl : c.entries.length ≤ c.capacity) (hc : 0 < c.capacity) (e : Entry) :
    (e.topic ∉ c.topics ∧
      c.put e = ({ c with entries := (c.entries ++ [e.fresh]).rtake c.capacity },
        .inserted c.outgoing)) ∨
    ∃ old ∈ c.entries, old.topic = e.topic ∧
      c.put e = ({ c with entries := renewIn e c.entries },
        .updated old.payload (e.received.millisSince old.received)) := by
  unfold put
  cases h : c.entry? e.topic with
  | none =>
    left
    refine ⟨entry?_eq_none.mp h, ?_⟩
    dsimp only
    rw [← evicted_eq hl hc e.fresh]
    rfl
  | some old =>
    right
    obtain ⟨hm, ht⟩ := of_entry? h
    exact ⟨old, hm, ht, rfl⟩

def Update.isInsertion : Update → Bool
  | .inserted _ => true
  | .updated .. => false

inductive Event where
  | put (e : Entry)
  | clear

structure State where
  cache : RecentCache
  puts : List Entry
  answers : List (Entry × Update)

def start (capacity : Nat) : State := ⟨.new capacity, [], []⟩

def next (s : State) : Event → State
  | .put e => ⟨(s.cache.put e).1, s.puts ++ [e], s.answers ++ [(e, (s.cache.put e).2)]⟩
  | .clear => ⟨s.cache.clear, s.puts, []⟩

/-- The topics that came in, in order; one that has left may come in again. -/
def arrivals (answers : List (Entry × Update)) : List String :=
  (answers.filter (·.2.isInsertion)).map (·.1.topic)

/-- The messages of a topic since it last came in, the last of them first. -/
def stay (topic : String) (answers : List (Entry × Update)) : List Entry :=
  let own := (answers.filter (·.1.topic = topic)).reverse
  (own.take (own.findIdx (·.2.isInsertion) + 1)).map Prod.fst

/-- What is kept of a topic goes back to its stay, and that to the last message. -/
def Kept (puts : List Entry) (answers : List (Entry × Update)) (x : Entry) : Prop :=
  ∃ latest earlier, stay x.topic answers = latest :: earlier ∧
    puts.findRev? (·.topic = x.topic) = some latest ∧ x = .kept latest earlier

structure Invariant (capacity : Nat) (s : State) : Prop where
  room : s.cache.capacity = max capacity 1
  arrived : s.cache.topics = (arrivals s.answers).rtake (max capacity 1)
  distinct : s.cache.topics.Nodup
  logged : ∀ a ∈ s.answers, a.1 ∈ s.puts
  kept : ∀ x ∈ s.cache.entries, Kept s.puts s.answers x

section

variable {puts : List Entry} {answers : List (Entry × Update)} {u : Update}

theorem stay_concat (e : Entry) (u : Update) : stay topic (answers ++ [(e, u)]) =
    if e.topic = topic then (if u.isInsertion then [e] else e :: stay topic answers)
    else stay topic answers := by
  unfold stay
  by_cases ht : e.topic = topic
  · have hf : [(e, u)].filter (·.1.topic = topic) = [(e, u)] := by simp [ht]
    rw [if_pos ht, List.filter_append, hf, List.reverse_concat]
    dsimp only
    rw [List.findIdx_cons]
    cases u.isInsertion <;> simp
  · have hf : [(e, u)].filter (·.1.topic = topic) = [] := by simp [ht]
    rw [if_neg ht, List.filter_append, hf, List.append_nil]

theorem of_mem_stay (h : e ∈ stay topic answers) : e.topic = topic ∧ ∃ a ∈ answers, a.1 = e := by
  unfold stay at h
  obtain ⟨a, ha, rfl⟩ := List.mem_map.mp h
  obtain ⟨hm, ht⟩ := List.mem_filter.mp (List.mem_reverse.mp (List.mem_of_mem_take ha))
  exact ⟨of_decide_eq_true ht, a, hm, rfl⟩

theorem logged_concat (h : ∀ a ∈ answers, a.1 ∈ puts) (e : Entry) (u : Update) :
    ∀ a ∈ answers ++ [(e, u)], a.1 ∈ puts ++ [e] := by
  intro a ha
  rcases List.mem_append.mp ha with ha | ha
  · exact List.mem_append_left _ (h a ha)
  · rw [List.mem_singleton.mp ha]
    exact List.mem_append_right _ (List.mem_singleton_self e)

theorem arrivals_concat (e : Entry) (u : Update) : arrivals (answers ++ [(e, u)]) =
    if u.isInsertion then arrivals answers ++ [e.topic] else arrivals answers := by
  unfold arrivals
  cases hu : u.isInsertion <;> simp [hu]

theorem Kept.of_other (h : Kept puts answers x) (ht : e.topic ≠ x.topic) :
    Kept (puts ++ [e]) (answers ++ [(e, u)]) x := by
  obtain ⟨latest, earlier, hs, hp, hx⟩ := h
  refine ⟨latest, earlier, ?_, ?_, hx⟩
  · rw [stay_concat, if_neg ht, hs]
  · rw [findRev?_concat, if_neg (by simp [ht]), hp]

theorem findRev?_latest (puts : List Entry) (e : Entry) :
    (puts ++ [e]).findRev? (·.topic = e.topic) = some e := by
  rw [findRev?_concat, if_pos (decide_eq_true rfl)]

theorem kept_fresh (e : Entry) (evicted : Option String) :
    Kept (puts ++ [e]) (answers ++ [(e, .inserted evicted)]) e.fresh := by
  refine ⟨e, [], ?_, findRev?_latest puts e, rfl⟩
  rw [stay_concat]
  exact (if_pos rfl).trans (if_pos rfl)

theorem Kept.renew (h : Kept puts answers x) (ht : x.topic = e.topic) (previous : String)
    (timeDiffMs : Int) :
    Kept (puts ++ [e]) (answers ++ [(e, .updated previous timeDiffMs)]) (x.renew e) := by
  obtain ⟨latest, earlier, hs, -, hx⟩ := h
  have htopic : (x.renew e).topic = e.topic := ht
  refine ⟨e, latest :: earlier, ?_, ?_, ?_⟩
  · rw [htopic, stay_concat, if_pos rfl, ← ht, hs]
    rfl
  · rw [htopic]
    exact findRev?_latest puts e
  · rw [hx]
    rfl

end

variable {capacity : Nat} {s : State}

theorem Invariant.within (h : Invariant capacity s) :
    s.cache.entries.length ≤ s.cache.capacity ∧ 0 < s.cache.capacity := by
  have hl : s.cache.topics.length = s.cache.entries.length := List.length_map ..
  rw [← hl, h.arrived, h.room]
  exact ⟨length_rtake_le .., by omega⟩

theorem Invariant.insert (h : Invariant capacity s) (hn : e.topic ∉ s.cache.topics)
    (evicted : Option String) :
    Invariant capacity
      ⟨{ s.cache with entries := (s.cache.entries ++ [e.fresh]).rtake s.cache.capacity },
        s.puts ++ [e], s.answers ++ [(e, .inserted evicted)]⟩ := by
  have htopics : ((s.cache.entries ++ [e.fresh]).rtake s.cache.capacity).map Entry.topic =
      (s.cache.topics ++ [e.topic]).rtake s.cache.capacity := by
    have hm : (s.cache.entries ++ [e.fresh]).map Entry.topic = s.cache.topics ++ [e.topic] :=
      List.map_append
    unfold List.rtake
    rw [List.map_drop, hm, ← hm, List.length_map]
  have hnew : (s.cache.topics ++ [e.topic]).Nodup :=
    List.nodup_append.mpr ⟨h.distinct, List.nodup_singleton _, fun a ha b hb hab =>
      hn (List.mem_singleton.mp hb ▸ hab ▸ ha)⟩
  refine ⟨h.room, ?_, ?_, logged_concat h.logged e _, ?_⟩
  · rw [arrivals_concat]
    refine htopics.trans ?_
    rw [h.arrived, h.room]
    exact rtake_append ..
  · unfold topics
    rw [htopics]
    exact hnew.sublist (rtake_sublist ..)
  · intro x hx
    rcases List.mem_append.mp ((rtake_sublist ..).subset hx) with hx | hx
    · exact (h.kept x hx).of_other fun ht => hn (mem_topics.mpr ⟨x, hx, ht.symm⟩)
    · rw [List.mem_singleton.mp hx]
      exact kept_fresh e evicted

theorem Invariant.renew (h : Invariant capacity s) (e : Entry) (previous : String)
    (timeDiffMs : Int) :
    Invariant capacity
      ⟨{ s.cache with entries := renewIn e s.cache.entries }, s.puts ++ [e],
        s.answers ++ [(e, .updated previous timeDiffMs)]⟩ := by
  have htopics : (renewIn e s.cache.entries).map Entry.topic = s.cache.topics := topics_renewIn ..
  refine ⟨h.room, ?_, ?_, logged_concat h.logged e _, ?_⟩
  · rw [arrivals_concat]
    exact htopics.trans h.arrived
  · unfold topics
    rw [htopics]
    exact h.distinct
  · intro x hx
    obtain ⟨y, hy, rfl⟩ := List.mem_map.mp hx
    by_cases hye : y.topic = e.topic
    · rw [if_pos hye]
      exact (h.kept y hy).renew hye previous timeDiffMs
    · rw [if_neg hye]
      exact (h.kept y hy).of_other (Ne.symm hye)

theorem start_invariant (capacity : Nat) : Invariant capacity (start capacity) where
  room := rfl
  arrived := (List.rtake_nil _).symm
  distinct := List.nodup_nil
  logged := List.forall_mem_nil _
  kept := List.forall_mem_nil _

theorem step_preserves_invariant (h : Invariant capacity s) (e : Event) :
    Invariant capacity (next s e) := by
  cases e with
  | put e =>
    obtain ⟨hl, hc⟩ := h.within
    unfold next
    rcases put_cases hl hc e with ⟨hn, hp⟩ | ⟨old, ho, ht, hp⟩
    · dsimp only
      rw [hp]
      exact h.insert hn _
    · dsimp only
      rw [hp]
      exact h.renew e _ _
  | clear =>
    exact ⟨h.room, (List.rtake_nil _).symm, List.nodup_nil, List.forall_mem_nil _,
      List.forall_mem_nil _⟩

theorem run_invariant (h : Invariant capacity s) (events : List Event) :
    Invariant capacity (events.foldl next s) := by
  induction events generalizing s with
  | nil => exact h
  | cons e events ih => exact ih (step_preserves_invariant h e)

/-- The topics that are there are the last ones that came in, as many as there is room for. A message
of another topic comes in, and takes the place of the oldest topic if there is no room. What is kept of
a topic is its last message, and of the message before that only if the topic was there then. -/
theorem turnover_by_arrival (capacity : Nat) (events : List Event) :
    let s := events.foldl next (start capacity)
    let room := max capacity 1
    (s.cache.topics = (arrivals s.answers).rtake room ∧ s.cache.topics.Nodup) ∧
    (∀ e, let a := s.cache.put e
      (a.2.isInsertion = true ↔ e.topic ∉ s.cache.topics) ∧
      (e.topic ∉ s.cache.topics → a.2 = .inserted
        (if s.cache.topics.length = room then s.cache.topics.head? else none)) ∧
      e.topic ∈ a.1.topics) ∧
    ∀ x ∈ s.cache.entries, ∃ latest earlier,
      s.puts.findRev? (·.topic = x.topic) = some latest ∧
      stay x.topic s.answers = latest :: earlier ∧
      x.payload = latest.payload ∧
      x.previousPayload = earlier.head?.map Entry.payload ∧
      x.timeDiffMs = earlier.head?.map fun e => latest.received.millisSince e.received := by
  intro s room
  have h : Invariant capacity s := run_invariant (start_invariant capacity) events
  obtain ⟨hl, hc⟩ := h.within
  refine ⟨⟨h.arrived, h.distinct⟩, ?_, ?_⟩
  · intro e a
    rcases put_cases hl hc e with ⟨hn, hp⟩ | ⟨old, ho, ht, hp⟩
    · have ha : a.2 = .inserted s.cache.outgoing := congrArg Prod.snd hp
      refine ⟨iff_of_true (ha ▸ rfl) hn, fun _ => ?_, ?_⟩
      · rw [ha]
        unfold outgoing
        rw [h.room]
      · have hm : e.fresh ∈ (s.cache.entries ++ [e.fresh]).rtake s.cache.capacity :=
          mem_rtake_concat hc ..
        rw [show a.1 = _ from congrArg Prod.fst hp]
        exact mem_topics.mpr ⟨e.fresh, hm, rfl⟩
    · have ha : a.2 = .updated old.payload _ := congrArg Prod.snd hp
      have hm : e.topic ∈ s.cache.topics := mem_topics.mpr ⟨old, ho, ht⟩
      refine ⟨iff_of_false (by rw [ha]; exact Bool.false_ne_true) (not_not_intro hm),
        fun hn => absurd hm hn, ?_⟩
      rw [show a.1 = _ from congrArg Prod.fst hp]
      unfold topics
      rw [topics_renewIn]
      exact hm
  · intro x hx
    obtain ⟨latest, earlier, hs, hp, rfl⟩ := h.kept x hx
    exact ⟨latest, earlier, hp, hs, Entry.kept_payload .., Entry.kept_previousPayload ..,
      Entry.kept_timeDiffMs ..⟩

theorem run_puts (puts : List Entry) (s : State) :
    ((puts.map Event.put).foldl next s).cache = s.cache.putAll puts ∧
      ((puts.map Event.put).foldl next s).puts = s.puts ++ puts := by
  induction puts generalizing s with
  | nil => exact ⟨rfl, (List.append_nil _).symm⟩
  | cons e puts ih =>
    obtain ⟨hc, hp⟩ := ih (next s (.put e))
    exact ⟨hc, hp.trans (List.append_assoc s.puts [e] puts)⟩

theorem exists_invariant (capacity : Nat) (puts : List Entry) :
    ∃ answers, Invariant capacity ⟨(new capacity).putAll puts, puts, answers⟩ := by
  obtain ⟨hc, hp⟩ := run_puts puts (start capacity)
  have h := run_invariant (start_invariant capacity) (puts.map Event.put)
  generalize (puts.map Event.put).foldl next (start capacity) = s at hc hp h
  obtain ⟨cache, all, answers⟩ := s
  obtain rfl : cache = (new capacity).putAll puts := hc
  obtain rfl : all = puts := hp
  exact ⟨answers, h⟩

theorem length_le_dedup {as bs : List String} (hn : as.Nodup) (hs : as ⊆ bs) :
    as.length ≤ bs.dedup.length :=
  (List.subperm_of_subset hn fun _ ha => List.mem_dedup.mpr (hs ha)).length_le

theorem topics_putAll_subset (capacity : Nat) (puts : List Entry) :
    ((new capacity).putAll puts).topics ⊆ puts.map Entry.topic := by
  obtain ⟨answers, h⟩ := exists_invariant capacity puts
  intro topic ht
  obtain ⟨x, hx, rfl⟩ := mem_topics.mp ht
  obtain ⟨latest, -, -, hp, -⟩ := h.kept x hx
  obtain ⟨hm, hl⟩ := of_findRev? hp
  exact List.mem_map.mpr ⟨latest, hm, of_decide_eq_true hl⟩

theorem mem_topics_put (hl : c.entries.length ≤ c.capacity) (hc : 0 < c.capacity)
    (hr : e.topic ∉ c.topics → c.topics.length < c.capacity) :
    topic ∈ (c.put e).1.topics ↔ topic ∈ c.topics ∨ topic = e.topic := by
  rcases put_cases hl hc e with ⟨hn, hp⟩ | ⟨old, ho, ht, hp⟩
  · have hlen : c.topics.length = c.entries.length := List.length_map ..
    have hroom : (c.entries ++ [e.fresh]).length ≤ c.capacity := by
      rw [List.length_append, ← hlen]
      exact hr hn
    have htopics : (c.put e).1.topics = c.topics ++ [e.topic] := by
      unfold topics
      rw [hp]
      dsimp only
      rw [rtake_of_length_le hroom, List.map_append]
      rfl
    rw [htopics, List.mem_append, List.mem_singleton]
  · have htopics : (c.put e).1.topics = c.topics := by
      rw [hp]
      exact topics_renewIn ..
    rw [htopics]
    refine ⟨Or.inl, ?_⟩
    rintro (h | rfl)
    · exact h
    · exact mem_topics.mpr ⟨old, ho, ht⟩

theorem mem_topics_putAll {capacity : Nat} {puts : List Entry}
    (h : (puts.map Entry.topic).dedup.length ≤ max capacity 1) :
    ∀ e ∈ puts, e.topic ∈ ((new capacity).putAll puts).topics := by
  induction puts using List.reverseRecOn with
  | nil => exact List.forall_mem_nil _
  | append_singleton puts last ih =>
    have hmap : (puts ++ [last]).map Entry.topic = puts.map Entry.topic ++ [last.topic] :=
      List.map_append
    have hless : (puts.map Entry.topic).dedup.length ≤ max capacity 1 := by
      refine (length_le_dedup (List.nodup_dedup _) fun topic ht => ?_).trans h
      rw [hmap]
      exact List.mem_append_left _ (List.dedup_subset _ ht)
    obtain ⟨answers, hi⟩ := exists_invariant capacity puts
    obtain ⟨hl, hc⟩ := hi.within
    have hr : last.topic ∉ ((new capacity).putAll puts).topics →
        ((new capacity).putAll puts).topics.length < ((new capacity).putAll puts).capacity := by
      intro hn
      have hnodup : (last.topic :: ((new capacity).putAll puts).topics).Nodup :=
        List.nodup_cons.mpr ⟨hn, hi.distinct⟩
      have hsub : last.topic :: ((new capacity).putAll puts).topics ⊆
          (puts ++ [last]).map Entry.topic := by
        rw [hmap]
        exact List.cons_subset.mpr ⟨List.mem_append_right _ (List.mem_singleton_self _),
          fun _ ht => List.mem_append_left _ (topics_putAll_subset capacity puts ht)⟩
      have hle := (length_le_dedup hnodup hsub).trans h
      rw [hi.room]
      exact hle
    have hput : (new capacity).putAll (puts ++ [last]) =
        (((new capacity).putAll puts).put last).1 := List.foldl_concat ..
    rw [hput]
    intro e he
    rw [mem_topics_put hl hc hr]
    rcases List.mem_append.mp he with he | he
    · exact Or.inl (ih hless e he)
    · exact Or.inr (List.mem_singleton.mp he ▸ rfl)

theorem get?_putAll {capacity : Nat} {puts : List Entry}
    (h : (puts.map Entry.topic).dedup.length ≤ max capacity 1) (topic : String) :
    ((new capacity).putAll puts).get? topic =
      (puts.findRev? (·.topic = topic)).map Entry.payload := by
  obtain ⟨answers, hi⟩ := exists_invariant capacity puts
  unfold get?
  cases hf : entry? ((new capacity).putAll puts) topic with
  | none =>
    have hn : puts.findRev? (·.topic = topic) = none := by
      rw [findRev?_eq_none]
      intro e he ht
      exact entry?_eq_none.mp hf (of_decide_eq_true ht ▸ mem_topics_putAll h e he)
    rw [hn]
  | some x =>
    obtain ⟨hx, rfl⟩ := of_entry? hf
    obtain ⟨latest, earlier, -, hp, hk⟩ := hi.kept x hx
    rw [hp, Option.map_some, Option.map_some, hk, Entry.kept_payload]

end RecentCache

end TopicHub
