import TopicHub.Proofs.ReservedNames
import TopicHub.Proofs.Router.Handling

/-!
Topics that register themselves are recognised. A registration puts its known topic under the very key
under which the next message at the address is looked up, whether the topic was announced with the
address or by its name alone.
-/

namespace TopicHub

open Text

/-- The topic is announced by its address, or by its name if that could not be taken for an address
there. -/
def Announces (announced space project topic : String) : Prop :=
  announced = (TopicPath.mk space project topic).text ∨
    announced = topic ∧ ∀ rest, topic ≠ (TopicPath.mk space project rest).text

theorem announces_iff {announced space project topic : String} :
    Announces announced space project topic ↔ withoutAddress announced space project = topic := by
  have hfront (t : String) : (TopicPath.mk space project t).text.toList =
      (space ++ "/" ++ project ++ "/").toList ++ t.toList := String.toList_append
  unfold Announces withoutAddress
  cases hc : after? (space ++ "/" ++ project ++ "/").toList announced.toList with
  | some rest =>
    have ha : announced = (TopicPath.mk space project (String.ofList rest)).text := by
      apply String.toList_injective
      rw [after?_eq hc, hfront, String.toList_ofList]
    constructor
    · rintro (h | ⟨rfl, hn⟩)
      · rw [h, hfront, after?_append] at hc
        rw [← Option.some.inj hc]
        exact String.ofList_toList
      · exact absurd ha (hn _)
    · rintro rfl
      exact .inl ha
  | none =>
    have hn : ∀ rest, announced ≠ (TopicPath.mk space project rest).text := by
      rintro rest rfl
      rw [hfront, after?_append] at hc
      cases hc
    constructor
    · rintro (h | ⟨h, -⟩)
      · exact absurd h (hn _)
      · exact h
    · rintro rfl
      exact .inr ⟨rfl, hn⟩

theorem isHeartbeat_of_isReserved {topic : String} (ht : topic.isEmpty = false)
    (h : isReserved topic registerTopicName = true) : Router.isHeartbeat topic = false := by
  obtain ⟨c, hc⟩ := exists_endsWith ht
  have hlast : c = 'c' := by
    by_contra hne
    rw [isReserved_of_endsWith hc endsWith_registerTopicName hne] at h
    cases h
  rw [hlast] at hc
  exact isHeartbeat_of_endsWith hc (by decide) (by decide) (by decide)

namespace Router

/-- The known topic that is announced. -/
def announcedAs (a : TopicAnnouncement) (space project topic : String) : KnownTopic :=
  { a.toKnownTopic with namespaceName := space, project, topic }

theorem handleReserved_of_registration {e : Entry} (ht : e.topic.isEmpty = false)
    (hr : isReserved e.topic registerTopicName = true) {a : TopicAnnouncement}
    (ha : TopicAnnouncement.read? e.payload = some a) :
    handleReserved e = stored (Store.saveKnownTopic (announcedTopic e a)) := by
  have hp : e.payload ≠ "" := by
    intro hp
    rw [hp] at ha
    cases ha
  simp [handleReserved, registerTopic, hp, isHeartbeat_of_isReserved ht hr, hr, ha]

theorem store_aftermath (a : Arrival) :
    ∃ rules disk, a.aftermath.store = { a.router.store with rules, disk } :=
  store_turns a.previous a.entry.payload a.rules a.router

theorem outages_handle {r : Router} {m : InboundMessage} {path : TopicPath}
    (hd : destination m r.namespaceName = .routed path) :
    ((handle m).run r).2.store.outages = r.store.outages := by
  let e := Entry.ofMessage path m r.now
  obtain ⟨_, _, hs⟩ := store_aftermath (r.arrival e)
  rw [(run_routed hd).1]
  dsimp only
  rw [hs]
  exact congrArg Prod.snd (inherited_registry.prepare e r)

theorem namespace_handle {r : Router} {m : InboundMessage} {path : TopicPath}
    (hd : destination m r.namespaceName = .routed path) :
    ((handle m).run r).2.namespaceName = r.namespaceName := by
  have hf := fixture_aftermath r (Entry.ofMessage path m r.now)
  rw [(run_routed hd).1]
  dsimp only
  exact (Prod.mk.inj hf).1

theorem destination_of_text {m : InboundMessage} {space project topic : String} (hs : IsSegment space)
    (hp : IsSegment project) (ht : topic.isEmpty = false)
    (hm : m.topic = (TopicPath.mk space project topic).text) :
    destination m space = .routed ⟨space, project, topic⟩ := by
  simp [destination, hm, isLost_text, parse_address hs hp ht]

variable {r : Router}

theorem knownTopic?_registered (hs : .saveKnownTopic ∉ r.store.outages) {m : InboundMessage}
    {path : TopicPath} (hd : destination m r.namespaceName = .routed path)
    (hr : isReserved path.topic registerTopicName = true) {a : TopicAnnouncement}
    (ha : TopicAnnouncement.read? m.payload = some a) {project topic : String}
    (hspace : firstNonempty a.namespaceName path.namespaceName = r.namespaceName)
    (hproject : firstNonempty a.project path.project = project)
    (htopic : Announces a.topic r.namespaceName project topic) (ht : topic.isEmpty = false) :
    ((handle m).run r).2.store.knownTopic? project topic =
      some (announcedAs a r.namespaceName project topic) := by
  let e := Entry.ofMessage path m r.now
  let k := announcedAs a r.namespaceName project topic
  let t := ((track e).run r).2
  have hk : announcedTopic (r.arrival e).entry a = k := by
    unfold announcedTopic
    rw [namespace_arrival, (entry_arrival r e).1]
    change { a.toKnownTopic with
      namespaceName := firstNonempty a.namespaceName path.namespaceName
      project := firstNonempty a.project path.project
      topic := withoutAddress a.topic (firstNonempty a.namespaceName path.namespaceName)
        (firstNonempty a.project path.project) } = k
    rw [hspace, hproject, announces_iff.mp htopic]
    rfl
  have hh : handleReserved (r.arrival e).entry = stored (Store.saveKnownTopic k) := by
    have hp := parse_of_destination hd
    rw [← hk]
    apply handleReserved_of_registration
    · rw [(entry_arrival r e).2]
      exact topic_of_parse hp
    · rw [(entry_arrival r e).2]
      exact hr
    · rw [payload_arrival]
      exact ha
  have hadmits : KnownTopics.Admits t.store k := by
    refine ⟨?_, ht⟩
    have ho : t.store.outages = r.store.outages := congrArg Prod.snd (inherited_registry.track e r)
    rw [ho]
    exact hs
  have hstore : (r.arrival e).router.store.knownTopics = (t.store.insertKnownTopic k).knownTopics := by
    have hrun : (r.arrival e).router = ((handleReserved (r.arrival e).entry).run.run t).2 := rfl
    obtain ⟨disk, hsave⟩ := KnownTopics.after_saveKnownTopic t.store k
    rw [hrun, hh, run_stored]
    dsimp only
    rw [hsave]
    exact if_pos hadmits
  obtain ⟨_, _, hu⟩ := store_aftermath (r.arrival e)
  rw [(run_routed hd).1]
  unfold Store.knownTopic?
  dsimp only
  rw [hu]
  dsimp only
  rw [hstore]
  exact (Table.get?_insert ..).trans (if_pos rfl)

theorem histories_noting (s : Store) (k : KnownTopic) (e : Entry) : (noting s k e).histories =
    if k.keepHistory = true ∧ .appendHistory ∉ s.outages then (s.pushHistory (historyOf e)).histories
    else s.histories := by
  have hsave (t : Store) :
      ((Store.saveKnownTopic (refreshed k e)).run.run t).2.histories = t.histories := by
    obtain ⟨disk, hd⟩ := KnownTopics.after_saveKnownTopic t (refreshed k e)
    rw [hd]
  unfold noting
  dsimp only
  rw [hsave]
  by_cases hk : k.keepHistory = true
  · by_cases ho : .appendHistory ∈ s.outages
    · simp [KnownTopics.after_appendHistory, hk, ho]
    · simp [KnownTopics.after_appendHistory, hk, ho]
  · simp [hk]

/-- A message for a known topic at which nothing is registered is recognised and noted. -/
theorem recognised (hf : .findKnownTopic ∉ r.store.outages) (hs : .saveKnownTopic ∉ r.store.outages)
    {n : InboundMessage} {path : TopicPath} (hd : destination n r.namespaceName = .routed path)
    (hu : Unregistering path) {k : KnownTopic}
    (hk : r.store.knownTopic? path.project path.topic = some k) (hp : k.project = path.project)
    (ht : k.topic = path.topic) :
    let e := Entry.ofMessage path n r.now
    let v := ((handle n).run r).2
    (∃ outcomes, ((handle n).run r).1 = .routed (described e k) outcomes) ∧
      v.store.knownTopic? path.project path.topic = some (refreshed k e) ∧
      v.store.history path.project path.topic =
        if k.keepHistory = true ∧ .appendHistory ∉ r.store.outages then
          Store.recent r.store.historyLimit (r.store.history path.project path.topic ++ [historyOf e])
        else r.store.history path.project path.topic := by
  intro e v
  have htrack : (track e).run r = (described e k, { r with store := noting r.store k e }) := by
    rw [run_track hf, show r.store.knownTopic? e.project e.topic = some k from hk]
  have hentry : (r.arrival e).entry = described e k := congrArg Prod.fst htrack
  have hstore : (r.arrival e).router.store = noting r.store k e :=
    (store_arrival r hu.1 hu.2).trans (congrArg (fun t => t.2.store) htrack)
  have hrun := (run_routed hd).1
  have hempty : k.topic.isEmpty = false := by
    rw [ht]
    exact topic_of_parse (parse_of_destination hd)
  have hafter : v = (r.arrival e).aftermath := by
    change ((handle n).run r).2 = _
    rw [hrun]
  obtain ⟨_, _, hv⟩ := store_aftermath (r.arrival e)
  rw [← hafter] at hv
  have hknown : v.store.knownTopics =
      r.store.knownTopics.insert (Store.topicKey k.project k.topic) (refreshed k e) := by
    rw [hv, ← knownTopics_noting hs hempty, ← hstore]
  have hhistories : v.store.histories = (noting r.store k e).histories := by
    rw [hv, ← hstore]
  refine ⟨⟨_, (congrArg Prod.fst hrun).trans (congrArg (MessageOutcome.routed · _) hentry)⟩, ?_, ?_⟩
  · unfold Store.knownTopic?
    rw [hknown, Table.get?_insert, hp, ht, if_pos rfl]
  · unfold Store.history
    rw [hhistories, histories_noting]
    split
    · have hg := Table.get?_insert r.store.histories (Store.topicKey path.project path.topic)
        (Store.topicKey path.project path.topic)
        (Store.recent r.store.historyLimit (r.store.history path.project path.topic ++ [historyOf e]))
      exact congrArg (Option.getD · []) (hg.trans (if_pos rfl))
    · rfl

theorem recent_concat {limit : Nat} (h : 1 ≤ limit) (entries : List HistoryEntry)
    (e : HistoryEntry) :
    Store.recent limit (entries ++ [e]) = Store.recent (limit - 1) entries ++ [e] := by
  have hl : (entries ++ [e]).length - limit = entries.length - (limit - 1) := by
    rw [List.length_append, List.length_singleton]
    omega
  rw [Store.recent, Store.recent, hl]
  exact List.drop_append_of_le_length (Nat.sub_le ..)

/-- If a topic has registered itself, the next message at its address is recognised: it is described as
was announced, its payload is noted, and it goes into the history if and only if the registration asked
for one. -/
theorem registered_topic_recognised {m n : InboundMessage} {path : TopicPath} {a : TopicAnnouncement}
    {project topic : String} (hf : .findKnownTopic ∉ r.store.outages)
    (hs : .saveKnownTopic ∉ r.store.outages) (hh : .appendHistory ∉ r.store.outages)
    (hd : destination m r.namespaceName = .routed path)
    (hr : isReserved path.topic registerTopicName = true)
    (ha : TopicAnnouncement.read? m.payload = some a)
    (hspace : firstNonempty a.namespaceName path.namespaceName = r.namespaceName)
    (hproject : firstNonempty a.project path.project = project) (hplain : '/' ∉ project.toList)
    (htopic : Announces a.topic r.namespaceName project topic) (ht : topic.isEmpty = false)
    (hu : Unregistering ⟨r.namespaceName, project, topic⟩)
    (hn : n.topic = (TopicPath.mk r.namespaceName project topic).text) :
    let u := ((handle m).run r).2
    let v := ((handle n).run u).2
    let e := { Entry.ofMessage ⟨r.namespaceName, project, topic⟩ n u.now with
      isKnown := true, description := a.description, direction := Direction.ofWire a.direction }
    (∃ outcomes, ((handle n).run u).1 = .routed e outcomes) ∧
      v.store.knownTopic? project topic =
        some (refreshed (announcedAs a r.namespaceName project topic) e) ∧
      (v.store.history project topic =
        if a.keepHistory then
          Store.recent u.store.historyLimit (u.store.history project topic ++ [historyOf e])
        else u.store.history project topic) ∧
      (v.store.knownTopic? project topic).bind KnownTopic.lastPayload = some n.payload ∧
      (a.keepHistory = true → 1 ≤ u.store.historyLimit →
        ∃ earlier, v.store.history project topic = earlier ++ [historyOf e] ∧
          (historyOf e).payload = some n.payload) := by
  intro u v e
  have ho : u.store.outages = r.store.outages := outages_handle hd
  have hspaces : u.namespaceName = r.namespaceName := namespace_handle hd
  obtain ⟨hsegment, hp⟩ := segments_of_parse (parse_of_destination hd)
  rw [namespace_of_destination hd] at hsegment
  have hpath : destination n u.namespaceName = .routed ⟨r.namespaceName, project, topic⟩ := by
    have hfull : project.isEmpty = false := by
      rw [← hproject]
      exact firstNonempty_isEmpty hp.nonempty a.project
    rw [hspaces]
    exact destination_of_text hsegment ⟨hfull, hplain⟩ ht hn
  have hk := knownTopic?_registered hs hd hr ha hspace hproject htopic ht
  rw [← ho] at hf hs hh
  obtain ⟨hrun, hknown, hhistory⟩ := recognised hf hs hpath hu hk rfl rfl
  have hkept : v.store.history project topic =
      if a.keepHistory then
        Store.recent u.store.historyLimit (u.store.history project topic ++ [historyOf e])
      else u.store.history project topic := by
    refine hhistory.trans ?_
    by_cases hkeep : a.keepHistory = true
    · rw [if_pos hkeep, if_pos ⟨hkeep, hh⟩]
      rfl
    · rw [if_neg hkeep, if_neg fun h => hkeep h.1]
  refine ⟨hrun, hknown, hkept, ?_, ?_⟩
  · exact congrArg (Option.bind · KnownTopic.lastPayload) hknown
  · intro hkeep hlimit
    rw [if_pos hkeep, recent_concat hlimit] at hkept
    exact ⟨_, hkept, rfl⟩

def lampRegistration : InboundMessage :=
  ⟨"hub/garden/register_known_topic",
    "\x7b\"Topic\":\"hub/garden/lamp\",\"KeepHistory\":true\x7d", 0, false⟩

theorem read?_lampRegistration : TopicAnnouncement.read? lampRegistration.payload =
    some ⟨"", "", "hub/garden/lamp", none, true, none, .null⟩ := by cbv

theorem garden_lamp_recognised :
    let u := ((handle lampRegistration).run (seen ⟨"hub", none, 7⟩)).2
    let n : InboundMessage := ⟨"hub/garden/lamp", "on", 0, false⟩
    let v := ((handle n).run u).2
    ∃ e outcomes, ((handle n).run u).1 = .routed e outcomes ∧ e.isKnown = true ∧
      (v.store.knownTopic? "garden" "lamp").bind KnownTopic.lastPayload = some "on" ∧
      v.store.history "garden" "lamp" = Store.recent u.store.historyLimit
        (u.store.history "garden" "lamp" ++ [historyOf e]) := by
  intro u n v
  have hd : destination lampRegistration "hub" = .routed ⟨"hub", "garden", registerTopicName⟩ :=
    destination_of_text (by decide) (by decide) rfl rfl
  have hu : Unregistering ⟨"hub", "garden", "lamp"⟩ := ⟨by decide, by decide⟩
  have hp : firstNonempty "" "garden" = "garden" := rfl
  obtain ⟨⟨outcomes, hrun⟩, -, hhistory, hpayload, -⟩ := registered_topic_recognised
    (r := seen ⟨"hub", none, 7⟩) List.not_mem_nil List.not_mem_nil List.not_mem_nil hd (by decide)
    read?_lampRegistration rfl hp (by decide) (.inl rfl) rfl hu (n := n) rfl
  refine ⟨_, outcomes, hrun, rfl, hpayload, ?_⟩
  rw [hhistory, if_pos rfl]

end Router

end TopicHub
