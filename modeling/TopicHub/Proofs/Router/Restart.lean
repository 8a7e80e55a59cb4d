import TopicHub.Proofs.Router.Tracking

/-!
Known topics survive a restart. While messages are routed and nothing is registered, the store stays one
that can be written and loaded, and its histories are those of the messages. Once everything has been
written, a new store that loads the disk knows the last payload of every topic that a message went to,
and the last payloads of those that keep a history.
-/

namespace TopicHub

namespace Instant

theorem ofMillis_le {a b : Int} (h : a ≤ b) : (ofMillis a).le (ofMillis b) = true := by
  unfold le ofMillis
  simp only [Bool.or_eq_true, Bool.and_eq_true, decide_eq_true_eq]
  rw [Int.fdiv_eq_ediv_of_nonneg a (by decide), Int.fdiv_eq_ediv_of_nonneg b (by decide),
    Int.fmod_eq_emod_of_nonneg a (by decide), Int.fmod_eq_emod_of_nonneg b (by decide)]
  omega

end Instant

namespace Router

open Store Persistence HistoryWindow

/-- The store can be written, and the histories are windows over these entries, on the disk too unless
they have changed. -/
structure Upkeep (start : Disk) (limit : Nat) (entries : List HistoryEntry) (s : Store) : Prop where
  intact : Intact start s
  writable : s.disk.writable = true
  capacity : s.historyLimit = max limit 1
  holds : Holds (max limit 1) entries s.histories
  written : s.historyChanged = false → s.disk.stored .histories = .ok s.allHistory

variable {start : Disk} {limit : Nat} {entries : List HistoryEntry} {s : Store}

theorem Upkeep.onDisk (h : Upkeep start limit entries s) {disk : Disk} (hw : disk.writable = true)
    (hs : disk.stored .histories = s.disk.stored .histories) :
    Upkeep start limit entries { s with disk } := by
  refine ⟨h.intact.onDisk ?_, hw, h.capacity, h.holds, fun hc => hs.trans (h.written hc)⟩
  unfold HistoriesReadable
  rw [hs]
  exact h.intact.readable

/-- Writing other records leaves the histories on the disk as they are. -/
theorem write_other {α : Type} {f : RecordFile α} (hf : f.name ∈ Disk.recordNames)
    (hn : RecordFile.histories.name ≠ f.name) (records : Store → List α) (hp : s.persistent = true)
    (hw : s.disk.writable = true) :
    ∃ disk, (do write f (records (← get)) : StoreM Unit).run.run s = (.ok (), { s with disk }) ∧
      disk.writable = true ∧ disk.stored .histories = s.disk.stored .histories := by
  obtain ⟨disk, hd, hdw⟩ := Disk.replace?_writable hw f.name (f.text (records s))
  refine ⟨disk, ?_, hdw, Disk.stored_congr _ (Disk.read?_replace_record hd hf (by decide) hn)⟩
  rw [run_bind, run_get]
  dsimp only
  rw [run_write_persistent f (records s) hp, hd]

theorem upkeep_save {α : Type} {f : RecordFile α} (hf : f.name ∈ Disk.recordNames)
    (hn : RecordFile.histories.name ≠ f.name) (records : Store → List α) {a : StoreAccess}
    (h : Upkeep start limit entries s) (refused : Bool) (e : StoreError) (g : Store → Store)
    (hg : Upkeep start limit entries (g s)) :
    Upkeep start limit entries ((do
      ensure a
      if refused then throw e
      modify g
      write f (records (← get)) : StoreM Unit).run.run s).2 := by
  have ha : a ∉ s.outages := by
    rw [h.intact.accepting]
    exact List.not_mem_nil
  rw [run_save ha]
  cases refused with
  | true => exact h
  | false =>
    obtain ⟨disk, hd, hw, hs⟩ := write_other hf hn records hg.intact.persistent hg.writable
    rw [if_neg Bool.false_ne_true, hd]
    exact hg.onDisk hw hs

theorem upkeep_saveKnownTopic (h : Upkeep start limit entries s) {k : KnownTopic} (hk : k.Fits) :
    Upkeep start limit entries ((Store.saveKnownTopic k).run.run s).2 :=
  upkeep_save (f := .knownTopics) (by decide) (by decide) (·.knownTopics.values) h _ _ _
    ⟨h.intact.insertKnownTopic hk, h.writable, h.capacity, h.holds, h.written⟩

theorem upkeep_saveRule (h : Upkeep start limit entries s) {rule : Rule} (hr : rule.Fits) :
    Upkeep start limit entries (s.keeping rule) :=
  upkeep_save (f := .rules) (by decide) (by decide) (·.rules.values) h _ _ _
    ⟨h.intact.insertRule hr, h.writable, h.capacity, h.holds, h.written⟩

theorem upkeep_appendHistory (h : Upkeep start limit entries s) {e : HistoryEntry} (he : e.Fits) :
    Upkeep start limit (entries ++ [e]) ((Store.appendHistory e).run.run s).2 := by
  have hi := h.intact.pushHistory he
  have hl : 0 < s.historyLimit := by
    rw [h.capacity]
    omega
  have hh := holds_push hl (h.capacity ▸ h.holds) e
  rw [h.capacity] at hh
  rw [run_appendHistory (by rw [h.intact.accepting]; exact List.not_mem_nil)]
  exact ⟨⟨hi.persistent, hi.accepting, hi.rules, hi.knownTopics, hi.devices, hi.histories,
    hi.readable⟩, h.writable, h.capacity, hh, fun hc => by cases hc⟩

theorem upkeep_flush (h : Upkeep start limit entries s) :
    ∃ disk, flushHistory.run.run s = (.ok (), { s with disk, historyChanged := false }) ∧
      disk.writable = true ∧ disk.stored .histories = .ok s.allHistory := by
  rw [run_flushHistory h.intact.persistent]
  cases hc : s.historyChanged with
  | false =>
    refine ⟨s.disk, ?_, h.writable, h.written hc⟩
    rw [if_neg Bool.false_ne_true, ← hc]
  | true =>
    obtain ⟨disk, hd, hw⟩ := Disk.replace?_writable h.writable RecordFile.histories.name
      (RecordFile.histories.text s.allHistory)
    refine ⟨disk, ?_, hw, ?_⟩
    · rw [if_pos rfl, hd]
    · exact Disk.stored_replaced hd fun e he =>
        HistoryEntry.readsBack (fits_of_mem_allHistory h.intact e he)

theorem persist_upkeep (h : Upkeep start limit entries s) :
    ∃ u, Store.persist.run.run s = (.ok (), u) ∧ u.disk.stored .histories = .ok s.allHistory := by
  obtain ⟨d₁, h₁, w₁, e₁⟩ := write_other (f := .rules) (by decide) (by decide) (·.rules.values)
    h.intact.persistent h.writable
  have u₁ := h.onDisk w₁ e₁
  obtain ⟨d₂, h₂, w₂, e₂⟩ := write_other (f := .knownTopics) (by decide) (by decide)
    (·.knownTopics.values) u₁.intact.persistent u₁.writable
  have u₂ := u₁.onDisk w₂ e₂
  obtain ⟨d₃, h₃, w₃, e₃⟩ := upkeep_flush u₂
  obtain ⟨d₄, h₄, -, e₄⟩ := write_other (s := { s with disk := d₃, historyChanged := false })
    (f := .devices) (by decide) (by decide) (·.devices.values) h.intact.persistent w₃
  refine ⟨{ s with disk := d₄, historyChanged := false }, ?_, e₄.trans e₃⟩
  unfold Store.persist
  rw [run_bind_ok (x := Store.writeRules) h₁, run_bind_ok (x := Store.writeKnownTopics) h₂,
    run_bind_ok h₃]
  exact h₄

theorem reload_upkeep (h : Upkeep start limit entries s)
    (ht : entries.Pairwise fun d e => d.received.le e.received = true) :
    ∃ u v, Store.persist.run.run s = (.ok (), u) ∧
      loadAll.run.run (Store.onDisk u.disk limit) = (.ok (), v) ∧
      v.knownTopics = s.knownTopics ∧ v.outages = [] ∧
      ∀ project topic, v.history project topic =
        window (max limit 1) entries (topicKey project topic) := by
  obtain ⟨u, hu, he⟩ := persist_upkeep h
  have hp : (persistAmid .calm .calm .calm .calm).run.run s = (.ok (), u) := by
    rw [persistAmid_calm]
    exact hu
  obtain ⟨hr, hk, hd⟩ := stored_of_persisted h.intact hp
  have hload := run_loadAll (s := Store.onDisk u.disk limit) rfl hr hk he hd
  have hsame := (loaded_of_persisted h.intact hp limit).2 _ hload
  have hset := settings_withLoaded (Store.onDisk u.disk limit) s.rules.values s.knownTopics.values
    s.allHistory s.devices.values
  refine ⟨u, _, hu, hload, congrArg Holdings.knownTopics hsame, congrArg (·.2.1) hset, ?_⟩
  intro project topic
  have hl := holds_withLoaded u.disk limit s.rules.values s.knownTopics.values s.allHistory
    s.devices.values
  refine (hl.getD _).trans ?_
  unfold window
  rw [h.holds.filter_allHistory ht]
  exact recent_recent ..

theorem turn_fits {o : Outbound} {rule : Rule} (h : rule.Fits) (ho : (Instant.ofMillis o.clock).Proper)
    (v : Verdict) : (turn o rule v).rule.Fits := by
  have hk (e : Evaluation) : (rule.record e).Fits :=
    ⟨h.priority_ge, h.priority_le, h.delay_lt, h.trigger⟩
  cases v with
  | send evaluation m =>
    have ht : ({ rule.record evaluation with
        lastTrigger := some (Instant.ofMillis o.clock) } : Rule).Fits :=
      ⟨h.priority_ge, h.priority_le, h.delay_lt, fun t ht => Option.some.inj ht ▸ ho⟩
    change (sending o (rule.record evaluation) m).rule.Fits
    unfold sending
    rcases o.schedule m (rule.record evaluation).delayMs with e | ⟨u, _ | _ | _⟩
    · exact hk evaluation
    · exact ht
    · exact hk evaluation
    · exact ht
  | _ => exact hk _

theorem clock_turns (previous : Option String) (payload : String) (rules : List Rule) :
    ∀ r : Router, ((applyRules previous payload rules).run r).2.outbound.clock = r.outbound.clock :=
  fun r => preserved_turns (P := fun u => u.outbound.clock = r.outbound.clock)
    (fun _ _ _ h => (turn_clock ..).trans h) rfl

theorem now_aftermath (a : Arrival) : a.aftermath.now = a.router.now :=
  congrArg (fun ms : Nat => Instant.ofMillis ms)
    (clock_turns a.previous a.entry.payload a.rules a.router)

theorem upkeep_turns (previous : Option String) (payload : String) {rules : List Rule}
    (hr : ∀ rule ∈ rules, rule.Fits) {r : Router} (hn : r.now.Proper)
    (h : Upkeep start limit entries r.store) :
    Upkeep start limit entries ((applyRules previous payload rules).run r).2.store := by
  have hstep : ∀ rule ∈ rules, ∀ u : Router,
      u.now.Proper ∧ Upkeep start limit entries u.store →
        (u.after (u.turnOf previous payload rule)).now.Proper ∧
          Upkeep start limit entries (u.after (u.turnOf previous payload rule)).store := by
    rintro rule hm u ⟨hn, h⟩
    have hc : (u.turnOf previous payload rule).outbound.clock = u.outbound.clock := turn_clock ..
    refine ⟨?_, upkeep_saveRule h (turn_fits (hr rule hm) hn _)⟩
    change (Instant.ofMillis (u.turnOf previous payload rule).outbound.clock).Proper
    rw [hc]
    exact hn
  exact (preserved_turns hstep ⟨hn, h⟩).2

theorem upkeep_aftermath {a : Arrival} (hr : ∀ rule ∈ a.rules, rule.Fits) (hn : a.router.now.Proper)
    (h : Upkeep start limit entries a.router.store) : Upkeep start limit entries a.aftermath.store :=
  upkeep_turns a.previous a.entry.payload hr hn h

def recorded (s : Store) (e : Entry) : Bool :=
  (s.knownTopic? e.project e.topic).any KnownTopic.keepHistory

/-- What the messages leave in the histories. -/
def kept (s : Store) (routed : List Entry) : List HistoryEntry :=
  (routed.filter (recorded s)).map historyOf

theorem upkeep_noting (h : Upkeep start limit entries s) (k : KnownTopic) {e : Entry}
    (he : e.received.Proper) :
    Upkeep start limit (entries ++ if k.keepHistory then [historyOf e] else []) (noting s k e) := by
  have hr : (refreshed k e).Fits := fun t ht => Option.some.inj ht ▸ he
  unfold noting
  by_cases hh : k.keepHistory = true
  · simp only [if_pos hh]
    exact upkeep_saveKnownTopic (upkeep_appendHistory (e := historyOf e) h he) hr
  · simp only [if_neg hh, List.append_nil]
    exact upkeep_saveKnownTopic h hr

theorem upkeep_track {r : Router} (h : Upkeep start limit entries r.store) {e : Entry}
    (he : e.received.Proper) :
    Upkeep start limit (entries ++ kept r.store [e]) ((track e).run r).2.store := by
  have hf : .findKnownTopic ∉ r.store.outages := by
    rw [h.intact.accepting]
    exact List.not_mem_nil
  rw [run_track hf]
  cases hk : r.store.knownTopic? e.project e.topic with
  | none =>
    have hn : kept r.store [e] = [] := by simp [kept, recorded, hk]
    rw [hn, List.append_nil]
    exact h
  | some k =>
    have hn : kept r.store [e] = if k.keepHistory then [historyOf e] else [] := by
      simp only [kept, List.filter_singleton, recorded, hk, Option.any_some]
      cases k.keepHistory <;> rfl
    rw [hn]
    exact upkeep_noting h k he

theorem kept_append (s : Store) (as bs : List Entry) : kept s (as ++ bs) = kept s as ++ kept s bs := by
  unfold kept
  rw [List.filter_append, List.map_append]

theorem kept_arrival (s : Store) (r : Router) (e : Entry) :
    kept s [(r.arrival e).entry] = kept s [e] := by
  obtain ⟨isKnown, description, direction, h⟩ := exists_described r e
  rw [h]
  unfold kept
  rw [List.filter_singleton, List.filter_singleton]
  change List.map historyOf
    (bif recorded s e then [{ e with isKnown, description, direction }] else []) = _
  cases recorded s e <;> rfl

theorem received_of_kept {s : Store} {e : Entry} {d : HistoryEntry} (hd : d ∈ kept s [e]) :
    d.received = e.received := by
  obtain ⟨e', he, rfl⟩ := List.mem_map.mp hd
  rw [List.mem_singleton.mp (List.mem_of_mem_filter he)]
  rfl

theorem recorded_tracks {begin : Router} {allowed : TopicPath → Prop} {j : Journal}
    (h : Tracks begin allowed j) : recorded j.router.store = recorded begin.store := by
  funext e
  unfold recorded Store.knownTopic?
  rw [h.knownTopics, Table.get?_map, Option.any_map]
  congr 1
  funext k
  exact (likeness_tracked j.routed k).keepHistory

/-- A router that keeps its records on the disk, with histories of what was received before. All known
topics are in its namespace and in projects that can stand between two slashes. -/
structure Ready (start : Disk) (limit : Nat) (earlier : List HistoryEntry) (begin : Router) : Prop where
  upkeep : Upkeep start limit earlier begin.store
  timely : earlier.Pairwise fun d e => d.received.le e.received = true
  past : ∀ e ∈ earlier, e.received.le begin.now = true
  plain : ∀ e ∈ earlier, '/' ∉ e.project.toList
  space : IsSegment begin.namespaceName
  known : ∀ k ∈ begin.store.knownTopics.values,
    k.namespaceName = begin.namespaceName ∧ IsSegment k.project

structure Lasts (start : Disk) (limit : Nat) (earlier : List HistoryEntry) (begin : Router)
    (j : Journal) : Prop where
  tracks : Tracks begin Unregistering j
  upkeep : Upkeep start limit (earlier ++ kept begin.store j.routed) j.router.store
  timely : (earlier ++ kept begin.store j.routed).Pairwise fun d e => d.received.le e.received = true
  past : ∀ e ∈ earlier ++ kept begin.store j.routed, e.received.le j.router.now = true

variable {earlier : List HistoryEntry} {begin : Router} {j : Journal}

theorem Ready.trackable (h : Ready start limit earlier begin) : Trackable begin.store := by
  have ho (a : StoreAccess) : a ∉ begin.store.outages := by
    rw [h.upkeep.intact.accepting]
    exact List.not_mem_nil
  exact ⟨ho _, ho _, fun e he => ⟨(h.upkeep.intact.knownTopics e he).1, trivial⟩⟩

theorem Ready.owns (h : Ready start limit earlier begin) {path : TopicPath}
    (hp : IsSegment path.project) : Owns begin.store path := by
  intro k hk
  have hm := Table.get?_eq_some.mp hk
  have hkey : topicKey path.project path.topic = topicKey k.project k.topic :=
    (h.trackable.keyed _ hm).1
  have hplain := (h.known k (Table.mem_values.mpr ⟨_, hm⟩)).2.plain
  obtain ⟨hproject, htopic⟩ := (topicKey_inj hp.plain hplain).mp hkey
  exact ⟨hproject.symm, htopic.symm⟩

theorem lasts_start (h : Ready start limit earlier begin) :
    Lasts start limit earlier begin ⟨begin, []⟩ := by
  have hn : earlier ++ kept begin.store (Journal.mk begin []).routed = earlier := List.append_nil _
  refine ⟨tracks_start begin.cache, ?_, ?_, ?_⟩
  · rw [hn]
    exact h.upkeep
  · rw [hn]
    exact h.timely
  · rw [hn]
    exact h.past

/-- A message is noted, the rules have their turns, and its payload is the last one that was kept. -/
theorem arrive_lasts (h : Lasts start limit earlier begin j)
    {m : InboundMessage} {path : TopicPath} (hd : destination m j.router.namespaceName = .routed path)
    (hu : Unregistering path) (ht : Tracks begin Unregistering (j.next (.arrive m)))
    (hn : j.router.now.Proper) : Lasts start limit earlier begin (j.next (.arrive m)) := by
  rw [next_arrive hd] at ht ⊢
  let e := Entry.ofMessage path m j.router.now
  let a := j.router.arrival e
  have hkept : kept begin.store (j.routed ++ [a.entry]) =
      kept begin.store j.routed ++ kept j.router.store [e] := by
    rw [kept_append, kept_arrival]
    unfold kept
    rw [recorded_tracks h.tracks]
  have hnow : a.router.now = j.router.now := now_arrival ..
  have hproper : a.router.now.Proper := by
    rw [hnow]
    exact hn
  have harrival : Upkeep start limit (earlier ++ kept begin.store j.routed ++ kept j.router.store [e])
      a.router.store := by
    rw [store_arrival j.router hu.1 hu.2]
    exact upkeep_track h.upkeep hn
  have hrules : ∀ rule ∈ a.rules, rule.Fits := by
    intro rule hm
    have hm := (mem_rules_arrival ⟨fun e he => (h.upkeep.intact.rules e he).1, by
      rw [h.upkeep.intact.accepting]
      exact List.not_mem_nil⟩).mp hm
    exact Table.of_mem_values h.upkeep.intact.rules hm.1
  have hlast {d : HistoryEntry} (hd : d ∈ kept j.router.store [e]) : d.received = j.router.now :=
    received_of_kept hd
  refine ⟨ht, ?_, ?_, ?_⟩
  · rw [hkept, ← List.append_assoc]
    exact upkeep_aftermath hrules hproper harrival
  · rw [hkept, ← List.append_assoc]
    refine List.pairwise_append.mpr ⟨h.timely, ?_, ?_⟩
    · unfold kept
      rw [List.filter_singleton]
      cases recorded j.router.store e
      · exact .nil
      · exact List.pairwise_singleton ..
    · intro d hd b hb
      rw [hlast hb]
      exact h.past d hd
  · rw [hkept, ← List.append_assoc, now_aftermath, hnow]
    intro d hd
    rcases List.mem_append.mp hd with hd | hd
    · exact h.past d hd
    · rw [hlast hd]
      exact Instant.ofMillis_le (Int.le_refl _)

theorem unrouted_lasts (h : Lasts start limit earlier begin j) {event : Event}
    (hn : routedBy j.router event = none) (ht : Tracks begin Unregistering (j.next event))
    (hs : (j.router.next event).store = j.router.store)
    (hc : j.router.outbound.clock ≤ (j.router.next event).outbound.clock) :
    Lasts start limit earlier begin (j.next event) := by
  rw [next_unrouted hn] at ht ⊢
  refine ⟨ht, ?_, h.timely, ?_⟩
  · change Upkeep _ _ _ (j.router.next event).store
    rw [hs]
    exact h.upkeep
  · intro e he
    exact Instant.le_trans _ _ _ (h.past e he) (Instant.ofMillis_le (Int.ofNat_le.mpr hc))

theorem step_lasts (hr : Ready start limit earlier begin) (h : Lasts start limit earlier begin j)
    {event : Event} (he : Confined begin.namespaceName Unregistering event)
    (hp : ∀ e ∈ (j.next event).routed, e.received.Proper) :
    Lasts start limit earlier begin (j.next event) := by
  have ht : Tracks begin Unregistering (j.next event) :=
    h.tracks.step hr.trackable (fun _ hp hu => ⟨hu, hr.owns hp⟩) he
  cases event with
  | arrive m =>
    obtain ⟨path, hd, hu⟩ := he
    rw [← h.tracks.namespaceName] at hd
    apply arrive_lasts h hd hu ht
    rw [next_arrive hd] at hp
    have hreceived := hp _ (List.mem_append_right _ (List.mem_singleton_self _))
    rw [received_arrival] at hreceived
    exact hreceived
  | elapse ms => exact unrouted_lasts h rfl ht rfl (Nat.le_add_right ..)
  | cancelAll => exact unrouted_lasts h rfl ht rfl (Nat.le_refl _)
  | connect connection => exact unrouted_lasts h rfl ht rfl (Nat.le_refl _)
  | _ => exact he.elim

theorem run_lasts (hr : Ready start limit earlier begin) {events : List Event}
    (he : ∀ event ∈ events, Confined begin.namespaceName Unregistering event)
    (hp : ∀ e ∈ (events.foldl Journal.next ⟨begin, []⟩).routed, e.received.Proper) :
    Lasts start limit earlier begin (events.foldl Journal.next ⟨begin, []⟩) := by
  induction events using List.reverseRecOn with
  | nil => exact lasts_start hr
  | append_singleton events event ih =>
    rw [List.foldl_concat] at hp ⊢
    have h := ih (fun e hm => he e (List.mem_append_left _ hm)) fun e hm =>
      hp e (List.mem_append_left _ hm)
    exact step_lasts hr h (he event (List.mem_append_right _ (List.mem_singleton_self event))) hp

theorem lookup_address (hr : Ready start limit earlier begin) (h : Tracks begin Unregistering j)
    {v : Store} (hv : v.knownTopics = j.router.store.knownTopics) (ho : v.outages = []) {k : KnownTopic}
    (hk : k ∈ begin.store.knownTopics.values) (capacity : Nat) :
    lastPayload? (.new capacity) v (fullTopic begin.namespaceName k.project k.topic) =
      ((j.routed.findRev? (concerns k)).map Entry.payload).or k.lastPayload := by
  have hvalues : v.knownTopics.values = begin.store.knownTopics.values.map (tracked j.routed) := by
    rw [hv, h.knownTopics, Table.values_map]
  have haddress (k' : KnownTopic) (hk' : k' ∈ begin.store.knownTopics.values) :
      (tracked j.routed k').address = fullTopic begin.namespaceName k'.project k'.topic := by
    have hl := likeness_tracked j.routed k'
    unfold KnownTopic.address
    rw [hl.namespaceName, hl.project, hl.topic, (hr.known k' hk').1]
  have hfound : v.findKnownTopic? (tracked j.routed k).address = some (tracked j.routed k) := by
    apply findKnownTopic?_address
    · rw [hvalues]
      exact List.mem_map_of_mem hk
    · intro other hother ha
      rw [hvalues] at hother
      obtain ⟨k', hk', rfl⟩ := List.mem_map.mp hother
      rw [haddress k' hk', haddress k hk] at ha
      obtain ⟨-, hp, ht⟩ :=
        (fullTopic_inj hr.space (hr.known k' hk').2 hr.space (hr.known k hk).2).mp ha
      have hkey : knownTopicKey k' = knownTopicKey k := by
        unfold knownTopicKey
        rw [hp, ht]
      rw [Table.eq_of_key hr.trackable.keyed hk' hk hkey]
  have hempty : (RecentCache.new capacity).lookup?
      (fullTopic begin.namespaceName k.project k.topic) = none := rfl
  unfold lastPayload? Store.lastPayload?
  rw [hempty, if_neg (by rw [ho]; exact List.not_mem_nil), ← haddress k hk, hfound, Option.bind_some]
  exact lastPayload_tracked j.routed k

theorem filter_kept (hr : Ready start limit earlier begin) (h : Tracks begin Unregistering j)
    {k : KnownTopic} (hk : k ∈ begin.store.knownTopics.values) (hh : k.keepHistory = true) :
    (kept begin.store j.routed).filter (keyOf · = topicKey k.project k.topic) =
      (j.routed.filter (concerns k)).map historyOf := by
  obtain ⟨key, hm⟩ := Table.mem_values.mp hk
  have hstands : key = topicKey k.project k.topic := (hr.trackable.keyed _ hm).1
  rw [hstands] at hm
  unfold kept
  rw [List.filter_map, List.filter_filter]
  congr 1
  apply List.filter_congr
  intro e he
  have hplain := (h.addressed e he).1.project.plain
  have hkey : keyOf (historyOf e) = topicKey k.project k.topic ↔
      e.project = k.project ∧ e.topic = k.topic :=
    topicKey_inj hplain (hr.known k hk).2.plain
  by_cases hc : e.project = k.project ∧ e.topic = k.topic
  · have hrec : recorded begin.store e = true := by
      unfold recorded knownTopic?
      rw [hc.1, hc.2, Table.get?_eq_some.mpr hm]
      exact hh
    simp [hkey, hc, hrec, concerns]
  · have hno : concerns k e = false := by
      rw [Bool.eq_false_iff]
      intro hk
      exact hc ⟨(of_concerns hk).1.symm, (of_concerns hk).2.symm⟩
    simp [hkey, hc, hno]

/-- Whatever is routed while nothing is registered: after everything has been written, a new store that
loads the disk knows the last payload of each known topic that a message went to, under its address, and
the last payloads of those that keep a history, as many as there is room for. -/
theorem known_topics_survive_restart (hr : Ready start limit earlier begin) {events : List Event}
    (he : ∀ event ∈ events, Confined begin.namespaceName Unregistering event) :
    let j := events.foldl Journal.next ⟨begin, []⟩
    (∀ e ∈ j.routed, e.received.Proper) →
    ∃ u v, Store.persist.run.run j.router.store = (.ok (), u) ∧
      loadAll.run.run (Store.onDisk u.disk limit) = (.ok (), v) ∧
      ∀ k ∈ begin.store.knownTopics.values,
        (∀ last, j.routed.findRev? (concerns k) = some last → ∀ capacity,
          lastPayload? (.new capacity) v (fullTopic begin.namespaceName k.project k.topic) =
            some last.payload) ∧
        (k.keepHistory = true → v.history k.project k.topic =
          (earlier.filter (isAbout k.project k.topic) ++
            (j.routed.filter (concerns k)).map historyOf).rtake (max limit 1)) := by
  intro j hp
  have h : Lasts start limit earlier begin j := run_lasts hr he hp
  obtain ⟨u, v, hu, hv, hknown, houtages, hhistory⟩ := reload_upkeep h.upkeep h.timely
  refine ⟨u, v, hu, hv, ?_⟩
  intro k hk
  refine ⟨?_, ?_⟩
  · intro last hl capacity
    rw [lookup_address hr h.tracks hknown houtages hk, hl]
    rfl
  · intro hh
    rw [hhistory]
    unfold window
    rw [List.filter_append, filter_kept hr h.tracks hk hh, filter_key hr.plain (hr.known k hk).2.plain]
    rfl

def lampTopic : KnownTopic := { KnownTopic.bare "p" "t" with namespaceName := "h", keepHistory := true }

def lampHub : Router := { roomy with store := (Store.onDisk .empty 2).insertKnownTopic lampTopic }

theorem ready_lampHub : Ready .empty 2 [] lampHub where
  upkeep :=
    { intact := (intact_fresh .empty 2).insertKnownTopic fun _ ht => by cases ht
      writable := rfl
      capacity := rfl
      holds := holds_empty 2
      written := fun _ => congrArg Except.ok List.mergeSort_nil.symm }
  timely := .nil
  past := List.forall_mem_nil _
  plain := List.forall_mem_nil _
  space := by decide
  known := by decide

/-- Of three messages, two are in the history after a restart. -/
theorem lamp_survives_restart :
    let events := [Event.arrive (press "p" "1"), .elapse 10, .arrive (press "p" "2"),
      .arrive (press "p" "3")]
    let j := events.foldl Journal.next ⟨lampHub, []⟩
    (∀ event ∈ events, Confined lampHub.namespaceName Unregistering event) ∧
      (∀ e ∈ j.routed, e.received.Proper) ∧
      ∃ u v, Store.persist.run.run j.router.store = (.ok (), u) ∧
        loadAll.run.run (Store.onDisk u.disk 2) = (.ok (), v) ∧
        lastPayload? (.new 1) v "h/p/t" = some "3" ∧
        v.history "p" "t" =
          [⟨"p", "t", some "2", .ofMillis 10⟩, ⟨"p", "t", some "3", .ofMillis 10⟩] := by
  intro events j
  have harrive (payload : String) :
      Confined lampHub.namespaceName Unregistering (.arrive (press "p" payload)) :=
    ⟨⟨"h", "p", "t"⟩, by cbv, by decide, by decide⟩
  have he : ∀ event ∈ events, Confined lampHub.namespaceName Unregistering event := by
    simp only [events, List.forall_mem_cons, List.not_mem_nil, false_imp_iff, implies_true, and_true]
    exact ⟨harrive _, trivial, harrive _, harrive _⟩
  have hp : ∀ e ∈ j.routed, e.received.Proper := by decide +kernel
  obtain ⟨u, v, hu, hv, hknown⟩ := known_topics_survive_restart ready_lampHub he hp
  obtain ⟨hlast, hhistory⟩ := hknown lampTopic (List.mem_singleton_self _)
  have hfound : (j.routed.findRev? (concerns lampTopic)).map Entry.payload = some "3" := by
    decide +kernel
  obtain ⟨last, hl, hpayload⟩ := Option.map_eq_some_iff.mp hfound
  refine ⟨he, hp, u, v, hu, hv, ?_, ?_⟩
  · rw [← hpayload]
    exact hlast last hl 1
  · have hentries : (j.routed.filter (concerns lampTopic)).map historyOf =
        [⟨"p", "t", some "1", .ofMillis 0⟩, ⟨"p", "t", some "2", .ofMillis 10⟩,
          ⟨"p", "t", some "3", .ofMillis 10⟩] := by
      decide +kernel
    have hh := hhistory rfl
    rw [hentries] at hh
    exact hh

end Router

end TopicHub
