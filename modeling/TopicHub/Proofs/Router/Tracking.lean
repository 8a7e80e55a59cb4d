import TopicHub.Proofs.HistoryWindow
import TopicHub.Proofs.KnownTopics
import TopicHub.Proofs.Router.PayloadChange

/-!
What messages make of the known topics. As long as nothing is registered, each message refreshes the
known topic that it goes to, and nothing else changes them: they are those of the start, brought up to
date by the messages that were routed since.
-/

namespace TopicHub

namespace Table

variable {α β γ : Type}

def map (f : α → β) (t : Table α) : Table β :=
  ⟨t.entries.map fun (k, v) => (k, f v), t.ordered.map _ fun _ _ => id⟩

@[simp] theorem get?_map (f : α → β) (t : Table α) (key : String) :
    (t.map f).get? key = (t.get? key).map f :=
  Json.lookup?_map f key t.entries

@[simp] theorem values_map (f : α → β) (t : Table α) : (t.map f).values = t.values.map f := by
  unfold values map
  rw [List.map_map, List.map_map]
  rfl

theorem map_map (f : α → β) (g : β → γ) (t : Table α) : (t.map f).map g = t.map (g ∘ f) := by
  apply ext_get?
  intro key
  rw [get?_map, get?_map, get?_map, Option.map_map]

theorem map_insert (f : α → β) (t : Table α) (key : String) (value : α) :
    (t.insert key value).map f = (t.map f).insert key (f value) := by
  apply ext_get?
  intro k
  rw [get?_map, get?_insert, get?_insert, get?_map]
  split <;> rfl

theorem map_id (t : Table α) : t.map id = t := by
  apply ext_get?
  intro key
  rw [get?_map, Option.map_id_apply]

theorem eq_of_key {key : α → String} {P : α → Prop} {t : Table α} (h : t.KeyedBy key P) {a b : α}
    (ha : a ∈ t.values) (hb : b ∈ t.values) (hk : key a = key b) : a = b := by
  obtain ⟨k, hm⟩ := mem_values.mp ha
  obtain ⟨l, hn⟩ := mem_values.mp hb
  have hkl : k = l := (h _ hm).1.trans (hk.trans (h _ hn).1.symm)
  rw [hkl] at hm
  exact Option.some.inj ((get?_eq_some.mpr hm).symm.trans (get?_eq_some.mpr hn))

end Table

namespace Router

/-- Whether the message goes to the known topic. -/
def concerns (k : KnownTopic) (e : Entry) : Bool := k.project = e.project && k.topic = e.topic

theorem of_concerns {k : KnownTopic} {e : Entry} (h : concerns k e = true) :
    k.project = e.project ∧ k.topic = e.topic := by
  simpa [concerns] using h

def noticed (e : Entry) (k : KnownTopic) : KnownTopic := if concerns k e then refreshed k e else k

def tracked (routed : List Entry) (k : KnownTopic) : KnownTopic :=
  routed.foldl (fun k e => noticed e k) k

theorem tracked_concat (routed : List Entry) (e : Entry) :
    tracked (routed ++ [e]) = noticed e ∘ tracked routed := by
  funext k
  exact List.foldl_concat ..

/-- What messages leave of a known topic. -/
structure Likeness (a b : KnownTopic) : Prop where
  namespaceName : a.namespaceName = b.namespaceName
  project : a.project = b.project
  topic : a.topic = b.topic
  keepHistory : a.keepHistory = b.keepHistory

theorem likeness_noticed (e : Entry) (k : KnownTopic) : Likeness (noticed e k) k := by
  unfold noticed
  split <;> exact ⟨rfl, rfl, rfl, rfl⟩

theorem likeness_tracked (routed : List Entry) (k : KnownTopic) : Likeness (tracked routed k) k := by
  induction routed using List.reverseRecOn with
  | nil => exact ⟨rfl, rfl, rfl, rfl⟩
  | append_singleton routed e ih =>
    rw [tracked_concat]
    have h := likeness_noticed e (tracked routed k)
    exact ⟨h.1.trans ih.1, h.2.trans ih.2, h.3.trans ih.3, h.4.trans ih.4⟩

theorem concerns_tracked (routed : List Entry) (k : KnownTopic) :
    concerns (tracked routed k) = concerns k := by
  have h := likeness_tracked routed k
  funext e
  unfold concerns
  rw [h.project, h.topic]

theorem lastPayload_tracked (routed : List Entry) (k : KnownTopic) :
    (tracked routed k).lastPayload =
      ((routed.findRev? (concerns k)).map Entry.payload).or k.lastPayload := by
  induction routed using List.reverseRecOn with
  | nil => rfl
  | append_singleton routed e ih =>
    rw [tracked_concat, Ends.findRev?_concat, Function.comp_apply]
    unfold noticed
    rw [concerns_tracked]
    split
    · rfl
    · exact ih

theorem findKnownTopic?_address {s : Store} {k : KnownTopic} (hk : k ∈ s.knownTopics.values)
    (h : ∀ other ∈ s.knownTopics.values, other.address = k.address → other = k) :
    s.findKnownTopic? k.address = some k := by
  unfold Store.findKnownTopic?
  cases hf : s.knownTopics.values.find? fun other => other.address = k.address with
  | none => exact absurd (decide_eq_true rfl) (List.find?_eq_none.mp hf k hk)
  | some other =>
    have hfound := List.find?_some hf
    have ha : other.address = k.address := of_decide_eq_true hfound
    exact congrArg some (h other (List.mem_of_find?_eq_some hf) ha)

/-- Messages are routed to such topics, and otherwise only time passes, the connection changes or timers
are given up. -/
def Confined (space : String) (allowed : TopicPath → Prop) : Event → Prop
  | .arrive m => ∃ path, destination m space = .routed path ∧ allowed path
  | .elapse _ => True
  | .cancelAll => True
  | .connect _ => True
  | _ => False

/-- Nothing is registered there. -/
def Unregistering (path : TopicPath) : Prop :=
  isReserved path.topic registerTopicName = false ∧ isReserved path.topic registerDeviceName = false

theorem preserves_sequence {γ α β : Type} {π : Router → γ} {x : HandlerM α} {f : α → HandlerM β}
    (hx : Preserves π x.run) (hf : ∀ a, Preserves π (f a).run) : Preserves π (x >>= f).run := by
  intro r
  rw [ExceptT.run_bind, StateT.run_bind]
  have h := hx r
  rcases hr : x.run.run r with ⟨e | a, u⟩
  · rw [hr] at h
    exact h
  · rw [hr] at h
    exact (hf a u).trans h

theorem store_publish (m : OutboundMessage) : Preserves Router.store (publish m).run := by
  intro r
  rw [run_publish]
  cases r.outbound.publish m <;> rfl

theorem store_acknowledge (e : Entry) : Preserves Router.store (acknowledge e).run := by
  unfold acknowledge
  apply preserves_sequence (x := get) (fun _ => rfl)
  intro r
  apply preserves_sequence (store_publish _)
  intro _
  split
  · exact fun _ => rfl
  · exact store_publish _

theorem store_handleReserved {e : Entry} (ht : isReserved e.topic registerTopicName = false)
    (hd : isReserved e.topic registerDeviceName = false) :
    Preserves Router.store (handleReserved e).run := by
  unfold handleReserved
  rw [ht, hd]
  split
  · exact fun _ => rfl
  · split
    · exact store_acknowledge e
    · exact fun _ => rfl

/-- The records after a message for that known topic. -/
def noting (s : Store) (k : KnownTopic) (e : Entry) : Store :=
  let t := if k.keepHistory then ((Store.appendHistory (historyOf e)).run.run s).2 else s
  ((Store.saveKnownTopic (refreshed k e)).run.run t).2

theorem run_track {r : Router} (h : .findKnownTopic ∉ r.store.outages) (e : Entry) :
    (track e).run r = match r.store.knownTopic? e.project e.topic with
      | some k => (described e k, { r with store := noting r.store k e })
      | none => (e, r) := by
  unfold track
  rw [StateT.run_bind, run_onStore, KnownTopics.run_getKnownTopic, if_neg h]
  cases r.store.knownTopic? e.project e.topic with
  | none => rfl
  | some k =>
    change StateT.run (if k.keepHistory = true then _ else _ : RouterM Entry) _ =
      (described e k, { r with store := noting r.store k e })
    unfold noting
    by_cases hk : k.keepHistory = true
    · rw [if_pos hk]
      simp only [if_pos hk]
      rfl
    · rw [if_neg hk]
      simp only [if_neg hk]
      rfl

theorem knownTopics_noting {s : Store} (hs : .saveKnownTopic ∉ s.outages) {k : KnownTopic}
    (hk : k.topic.isEmpty = false) (e : Entry) :
    (noting s k e).knownTopics =
      s.knownTopics.insert (Store.topicKey k.project k.topic) (refreshed k e) := by
  -- Whether the history could be appended makes no difference.
  have hkept (t : Store) (hk' : t.knownTopics = s.knownTopics) (ho : t.outages = s.outages) :
      ((Store.saveKnownTopic (refreshed k e)).run.run t).2.knownTopics =
        s.knownTopics.insert (Store.topicKey k.project k.topic) (refreshed k e) := by
    obtain ⟨disk, hd⟩ := KnownTopics.after_saveKnownTopic t (refreshed k e)
    rw [hd]
    dsimp only
    rw [if_pos ⟨by rw [ho]; exact hs, hk⟩, ← hk']
    rfl
  unfold noting
  dsimp only
  apply hkept
  · split
    · rw [KnownTopics.after_appendHistory]
      split <;> rfl
    · rfl
  · split
    · rw [KnownTopics.after_appendHistory]
      split <;> rfl
    · rfl

/-- Before the rules have their turns, the known topics have noticed the message. -/
theorem store_arrival (r : Router) {e : Entry} (ht : isReserved e.topic registerTopicName = false)
    (hd : isReserved e.topic registerDeviceName = false) :
    (r.arrival e).router.store = ((track e).run r).2.store := by
  have he : ((track e).run r).1.topic = e.topic := (entry_arrival r e).2
  have hr : Preserves Router.store (handleReserved ((track e).run r).1).run := by
    apply store_handleReserved
    · rw [he]
      exact ht
    · rw [he]
      exact hd
  exact hr ((track e).run r).2

theorem knownTopics_track {r : Router} (hf : .findKnownTopic ∉ r.store.outages)
    (hs : .saveKnownTopic ∉ r.store.outages)
    (hk : r.store.knownTopics.KeyedBy Persistence.knownTopicKey fun _ => True) {e : Entry}
    (he : e.topic.isEmpty = false)
    (hown : ∀ k, r.store.knownTopic? e.project e.topic = some k → concerns k e = true) :
    ((track e).run r).2.store.knownTopics = r.store.knownTopics.map (noticed e) := by
  have hkey {k : KnownTopic} (hc : concerns k e = true) :
      Store.topicKey k.project k.topic = Store.topicKey e.project e.topic := by
    obtain ⟨hp, ht⟩ := of_concerns hc
    rw [hp, ht]
  have hstands {key : String} {k : KnownTopic} (hg : r.store.knownTopics.get? key = some k) :
      key = Store.topicKey k.project k.topic := (hk _ (Table.get?_eq_some.mp hg)).1
  rw [run_track hf]
  apply Table.ext_get?
  intro key
  rw [Table.get?_map]
  cases hg : r.store.knownTopic? e.project e.topic with
  | none =>
    dsimp only
    cases hk' : r.store.knownTopics.get? key with
    | none => rfl
    | some k =>
      have hn : concerns k e ≠ true := by
        intro hc
        rw [hstands hk', hkey hc] at hk'
        exact Option.some_ne_none k (hk'.symm.trans hg)
      exact congrArg some (if_neg hn).symm
  | some k =>
    have hc := hown k hg
    have ht : k.topic.isEmpty = false := by
      rw [(of_concerns hc).2]
      exact he
    dsimp only
    rw [knownTopics_noting hs ht, Table.get?_insert, hkey hc]
    split
    · rename_i h
      rw [h]
      have hg' : r.store.knownTopics.get? (Store.topicKey e.project e.topic) = some k := hg
      rw [hg']
      exact congrArg some (if_pos hc).symm
    · rename_i h
      cases hk' : r.store.knownTopics.get? key with
      | none => rfl
      | some k' =>
        have hn : concerns k' e ≠ true := fun hc' => h ((hstands hk').trans (hkey hc'))
        exact congrArg some (if_neg hn).symm

/-- The turns of rules change the rules alone, and what is on the disk. -/
theorem store_turns (previous : Option String) (payload : String) (rules : List Rule) :
    ∀ r : Router, ∃ table disk, ((applyRules previous payload rules).run r).2.store =
      { r.store with rules := table, disk } := by
  intro r
  apply preserved_turns (P := fun u => ∃ table disk, u.store = { r.store with rules := table, disk }) _
    ⟨r.store.rules, r.store.disk, rfl⟩
  rintro rule - u ⟨table, disk, h⟩
  obtain ⟨disk', hk⟩ := u.store.keeping_eq (u.turnOf previous payload rule).rule
  unfold after
  rw [hk, h]
  exact ⟨_, _, rfl⟩

def fixture (r : Router) : String × Engine := (r.namespaceName, r.engine)

theorem inherited_fixture : Inherited (Preserves fixture) := inherited_apart fun _ _ _ => rfl

theorem fixture_turns (previous : Option String) (payload : String) (rules : List Rule) :
    ∀ r : Router, ((applyRules previous payload rules).run r).2.fixture = r.fixture := fun r =>
  preserved_turns (P := fun u => u.fixture = r.fixture) (fun _ _ _ h => h) rfl

theorem fixture_conclusion (a : Arrival) : a.aftermath.fixture = a.router.fixture :=
  fixture_turns a.previous a.entry.payload a.rules a.router

theorem fixture_aftermath (r : Router) (e : Entry) : (r.arrival e).aftermath.fixture = r.fixture :=
  (fixture_conclusion _).trans (inherited_fixture.prepare e r)

theorem next_arrive {j : Journal} {m : InboundMessage} {path : TopicPath}
    (hd : destination m j.router.namespaceName = .routed path) :
    let a := j.router.arrival (Entry.ofMessage path m j.router.now)
    j.next (.arrive m) = ⟨a.aftermath, j.routed ++ [a.entry]⟩ := by
  have hr := (run_routed hd).1
  unfold Journal.next routedBy
  dsimp only
  rw [hr]
  change Journal.mk ((handle m).run j.router).2 _ = _
  rw [hr]
  rfl

theorem exists_described (r : Router) (e : Entry) : ∃ isKnown description direction,
    (r.arrival e).entry = { e with isKnown, description, direction } := by
  have he : (r.arrival e).entry = ((track e).run r).1 := rfl
  rcases track_entry e r with h | ⟨k, h⟩
  · exact ⟨_, _, _, he.trans h⟩
  · exact ⟨_, _, _, he.trans h⟩

theorem noticed_arrival (r : Router) (e : Entry) : noticed (r.arrival e).entry = noticed e := by
  obtain ⟨_, _, _, h⟩ := exists_described r e
  rw [h]
  rfl

theorem namespace_arrival (r : Router) (e : Entry) :
    (r.arrival e).entry.namespaceName = e.namespaceName := by
  obtain ⟨_, _, _, h⟩ := exists_described r e
  rw [h]

theorem received_arrival (r : Router) (e : Entry) : (r.arrival e).entry.received = e.received := by
  obtain ⟨_, _, _, h⟩ := exists_described r e
  rw [h]

theorem payload_arrival (r : Router) (e : Entry) : (r.arrival e).entry.payload = e.payload := by
  obtain ⟨_, _, _, h⟩ := exists_described r e
  rw [h]

theorem next_unrouted {j : Journal} {event : Event} (h : routedBy j.router event = none) :
    j.next event = ⟨j.router.next event, j.routed⟩ := by
  unfold Journal.next
  rw [h, Option.toList_none, List.append_nil]

theorem namespace_of_destination {m : InboundMessage} {space : String} {path : TopicPath}
    (h : destination m space = .routed path) : path.namespaceName = space := by
  unfold destination at h
  split at h
  · cases h
  · split at h
    · cases h
    · split at h
      · cases h
      · rename_i hn
        cases h
        exact not_not.mp hn

theorem topic_of_parse {text : String} {path : TopicPath} (h : TopicPath.parse text = .ok path) :
    path.topic.isEmpty = false := by
  unfold TopicPath.parse at h
  split at h
  · cases h
  · split at h
    · cases h
    · split at h
      · cases h
      · split at h
        · cases h
        · split at h
          · cases h
          · rename_i ht
            cases h
            rw [Bool.eq_false_iff]
            intro hc
            have hnil := congrArg String.toList (String.isEmpty_iff.mp hc)
            rw [String.toList_ofList] at hnil
            exact ht (List.isEmpty_iff.mpr hnil)

/-- The known topics can be found and saved, and each stands under its own key. -/
structure Trackable (s : Store) : Prop where
  findable : .findKnownTopic ∉ s.outages
  savable : .saveKnownTopic ∉ s.outages
  keyed : s.knownTopics.KeyedBy Persistence.knownTopicKey fun _ => True

def Owns (s : Store) (path : TopicPath) : Prop :=
  ∀ k, s.knownTopic? path.project path.topic = some k → k.project = path.project ∧ k.topic = path.topic

/-- All messages were routed to such topics, and the known topics are those of the start after them. -/
structure Tracks (start : Router) (allowed : TopicPath → Prop) (j : Journal) : Prop where
  fixture : j.router.fixture = start.fixture
  addressed : ∀ e ∈ j.routed, e.Addressed ∧ e.namespaceName = start.namespaceName
  allowed : ∀ e ∈ j.routed, ∃ path, allowed path ∧ e.project = path.project ∧ e.topic = path.topic
  outages : j.router.store.outages = start.store.outages
  knownTopics : j.router.store.knownTopics = start.store.knownTopics.map (tracked j.routed)

variable {start : Router} {allowed : TopicPath → Prop} {j : Journal}

theorem tracks_start (cache : RecentCache) : Tracks start allowed ⟨{ start with cache }, []⟩ :=
  ⟨rfl, List.forall_mem_nil _, List.forall_mem_nil _, rfl, (Table.map_id _).symm⟩

namespace Tracks

theorem namespaceName (h : Tracks start allowed j) :
    j.router.namespaceName = start.namespaceName := congrArg Prod.fst h.fixture

theorem keyed (h : Tracks start allowed j) (hs : Trackable start.store) :
    j.router.store.knownTopics.KeyedBy Persistence.knownTopicKey fun _ => True := by
  rw [h.knownTopics]
  intro e he
  obtain ⟨⟨key, k⟩, hk, rfl⟩ := List.mem_map.mp he
  have hl := likeness_tracked j.routed k
  refine ⟨?_, trivial⟩
  unfold Persistence.knownTopicKey
  rw [hl.project, hl.topic]
  exact (hs.keyed _ hk).1

theorem owns (h : Tracks start allowed j) {path : TopicPath} (ho : Owns start.store path) :
    Owns j.router.store path := by
  intro k hk
  unfold Store.knownTopic? at hk
  rw [h.knownTopics, Table.get?_map] at hk
  obtain ⟨k', hk', rfl⟩ := Option.map_eq_some_iff.mp hk
  have hl := likeness_tracked j.routed k'
  rw [hl.project, hl.topic]
  exact ho k' hk'

theorem arrival (h : Tracks start allowed j) (hs : Trackable start.store) {m : InboundMessage}
    {path : TopicPath} (hd : destination m j.router.namespaceName = .routed path)
    (hu : Unregistering path) (ho : Owns start.store path) :
    let a := j.router.arrival (Entry.ofMessage path m j.router.now)
    a.router.store.knownTopics = start.store.knownTopics.map (tracked (j.routed ++ [a.entry])) := by
  intro a
  rw [store_arrival j.router hu.1 hu.2, knownTopics_track, h.knownTopics, Table.map_map,
    tracked_concat, noticed_arrival]
  · rw [h.outages]
    exact hs.findable
  · rw [h.outages]
    exact hs.savable
  · exact h.keyed hs
  · exact topic_of_parse (parse_of_destination hd)
  · intro k hk
    obtain ⟨hp, ht⟩ := h.owns ho k hk
    unfold concerns
    rw [hp, ht]
    simp [Entry.ofMessage]

theorem unrouted (h : Tracks start allowed j) {event : Event} (hn : routedBy j.router event = none)
    (hf : (j.router.next event).fixture = j.router.fixture)
    (hs : (j.router.next event).store = j.router.store) : Tracks start allowed (j.next event) := by
  rw [next_unrouted hn]
  refine ⟨hf.trans h.fixture, h.addressed, h.allowed, ?_, ?_⟩
  · rw [hs]
    exact h.outages
  · rw [hs]
    exact h.knownTopics

theorem step (h : Tracks start allowed j) (hs : Trackable start.store)
    (ha : ∀ path, IsSegment path.project → allowed path → Unregistering path ∧ Owns start.store path)
    {event : Event} (he : Confined start.namespaceName allowed event) :
    Tracks start allowed (j.next event) := by
  cases event with
  | arrive m =>
    obtain ⟨path, hd, hp⟩ := he
    rw [← h.namespaceName] at hd
    obtain ⟨hu, ho⟩ := ha path (segments_of_parse (parse_of_destination hd)).2 hp
    let e := Entry.ofMessage path m j.router.now
    let a := j.router.arrival e
    have hk : a.router.store.knownTopics = _ := h.arrival hs hd hu ho
    obtain ⟨table, disk, ht⟩ := store_turns a.previous a.entry.payload a.rules a.router
    have hreg : a.router.store.outages = j.router.store.outages :=
      congrArg Prod.snd (inherited_registry.prepare e j.router)
    have hall {P : Entry → Prop} (hold : ∀ x ∈ j.routed, P x) (hnew : P a.entry) :
        ∀ x ∈ j.routed ++ [a.entry], P x :=
      List.forall_mem_append.mpr ⟨hold, List.forall_mem_singleton.mpr hnew⟩
    rw [next_arrive hd]
    refine ⟨(fixture_aftermath ..).trans h.fixture, hall h.addressed ⟨?_, ?_⟩,
      hall h.allowed ⟨path, hp, entry_arrival j.router e⟩, ?_, ?_⟩
    · exact addressed_arrival j.router hd j.router.now
    · rw [namespace_arrival, ← h.namespaceName, ← namespace_of_destination hd]
      rfl
    · change a.turns.2.store.outages = _
      unfold Arrival.turns
      rw [ht]
      exact hreg.trans h.outages
    · change a.turns.2.store.knownTopics = _
      unfold Arrival.turns
      rw [ht]
      exact hk
  | elapse | cancelAll | connect => exact h.unrouted rfl rfl rfl
  | _ => exact he.elim

end Tracks

end Router

end TopicHub
