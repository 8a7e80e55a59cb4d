import TopicHub.Proofs.ReservedNames
import TopicHub.Proofs.Router.LostDevices

/-!
What the hub tells devices never comes back to it as a call. The topics to which handlers publish end in
characters in which no name ends that the hub answers to, and the settings of a device that was lost are
settled if the hub gets them itself. So whatever is published while a message is handled, the hub can be
sent it in any order: nothing more is published, and no device and no topic is registered.
-/

namespace TopicHub

open Persistence

theorem Table.insert_same {α : Type} {t : Table α} {key : String} {v : α} (h : t.get? key = some v) :
    t.insert key v = t := by
  apply ext_get?
  intro k
  rw [get?_insert]
  split
  · rename_i hk
    rw [hk, h]
  · rfl

/-- What is registered of a known topic, whatever messages have left of it. -/
def KnownTopic.registration (k : KnownTopic) : KnownTopic :=
  { k with lastPayload := none, payloadUpdatedAt := none, retained := none }

namespace Router

/-- It ends as no name does that the hub answers to. -/
def Hushed (topic : String) : Prop := EndsWith topic 'k' ∨ EndsWith topic 'g'

theorem hushed_append (s : String) {t : String} (h : Hushed t) : Hushed (s ++ t) :=
  h.imp (endsWith_append s) (endsWith_append s)

theorem hushed_of_text {p : TopicPath} (ht : p.topic.isEmpty = false) (h : Hushed p.text) :
    Hushed p.topic := by
  obtain ⟨d, hd⟩ := exists_endsWith ht
  have hrest {c : Char} (hc : EndsWith p.text c) : EndsWith p.topic c := by
    have hp : EndsWith p.text d := endsWith_append (p.namespaceName ++ "/" ++ p.project ++ "/") hd
    exact hc.unique hp ▸ hd
  exact h.imp hrest hrest

theorem handleReserved_of_endsWith {e : Entry} {c : Char} (h : EndsWith e.topic c)
    (hs : c ≠ '\u03A3') (hl : Text.lowerChar c = [c]) (hc : c ∉ ['e', 'c', 'r']) :
    handleReserved e = pure () := by
  obtain ⟨he, ht, hd⟩ : c ≠ 'e' ∧ c ≠ 'c' ∧ c ≠ 'r' := by simpa using hc
  have hb := isHeartbeat_of_endsWith h hs hl he
  have hn := isReserved_of_endsWith h endsWith_registerTopicName ht
  have hm := isReserved_of_endsWith h endsWith_registerDeviceName hd
  simp [handleReserved, hb, hn, hm]

theorem handleReserved_of_hushed {e : Entry} (h : Hushed e.topic) : handleReserved e = pure () := by
  rcases h with h | h
  · exact handleReserved_of_endsWith h (by decide) (by decide) (by decide)
  · exact handleReserved_of_endsWith h (by decide) (by decide) (by decide)

theorem turns_of_no_rules {a : Arrival} (h : a.router.store.rules = .empty) :
    a.turns = ([], a.router) := by
  have hv : a.router.store.rules.values = [] := congrArg Table.values h
  have hr : a.rules = [] := by simp [Arrival.rules, heard, Store.rulesFor, hv]
  rw [Arrival.turns, hr]
  rfl

theorem rules_handleLost {r : Router} (payload : String) :
    ((handleLost payload).run.run r).2.store.rules = r.store.rules :=
  (Prod.mk.inj (inherited_registry.handleLost payload r)).1

theorem rules_arrival (r : Router) (e : Entry) : (r.arrival e).router.store.rules = r.store.rules :=
  (Prod.mk.inj (inherited_registry.prepare e r)).1

theorem run_without_rules {r : Router} (h : r.store.rules = .empty) {m : InboundMessage}
    {path : TopicPath} (hd : destination m r.namespaceName = .routed path) :
    ∃ cache, ((handle m).run r).2 =
      { (r.arrival (Entry.ofMessage path m r.now)).router with cache } := by
  have ht := turns_of_no_rules (a := r.arrival (Entry.ofMessage path m r.now))
    ((rules_arrival r _).trans h)
  rw [(run_routed hd).1]
  unfold Arrival.aftermath
  dsimp only
  rw [ht]
  exact ⟨_, rfl⟩

theorem rules_of_message {r : Router} (h : r.store.rules = .empty) (m : InboundMessage) :
    ((handle m).run r).2.store.rules = .empty := by
  cases hd : destination m r.namespaceName with
  | control =>
    rw [run_handle, hd]
    exact (rules_handleLost m.payload).trans h
  | ignored reason =>
    rw [run_handle, hd]
    exact h
  | routed path =>
    obtain ⟨cache, hr⟩ := run_without_rules h hd
    rw [hr]
    exact (rules_arrival r _).trans h

theorem keyed_noting {s : Store} (h : KnownTopics.Keyed s) (k : KnownTopic) (e : Entry) :
    KnownTopics.Keyed (noting s k e) := by
  unfold noting
  split
  · have happended := KnownTopics.keyed_next h (.append (historyOf e))
    exact KnownTopics.keyed_next happended (.save (refreshed k e))
  · exact KnownTopics.keyed_next h (.save (refreshed k e))

theorem steady_keyed : Steady fun r => KnownTopics.Keyed r.store where
  saveKnownTopic k := Carries.storing fun _ h =>
    ⟨KnownTopics.keyed_next h (.save k), fun _ _ => trivial⟩
  saveDevice d _ := by
    apply Carries.storing
    intro r h
    obtain ⟨disk, hd⟩ := Store.after_saveDevice r.store d
    rw [hd]
    exact ⟨h, fun _ _ => trivial⟩

theorem keyed_handle {r : Router} (hd : r.store.devices.InProjects) (h : KnownTopics.Keyed r.store)
    (m : InboundMessage) : KnownTopics.Keyed ((handle m).run r).2.store := by
  refine ((steady_inProjects.and steady_keyed).handle
    (S := fun s => s.devices.InProjects ∧ KnownTopics.Keyed s) (fun _ h => h.1) ?_ (fun _ _ _ h => h)
    ⟨hd, h⟩ m).2
  intro s k e h
  refine ⟨?_, keyed_noting h.2 k e⟩
  obtain ⟨_, _, _, hn⟩ := noting_eq s k e
  rw [hn]
  exact h.1

def Murmurs (sent : List Sent) (r : Router) : Prop :=
  ∃ new, r.outbound.sent = sent ++ new ∧
    ∀ s ∈ new, isLost s.message.topic = false ∧ Hushed s.message.topic

theorem steady_murmurs (sent : List Sent) : Steady (Murmurs sent) where
  saveKnownTopic _ := Carries.storing fun _ h => ⟨h, fun _ _ => trivial⟩
  saveDevice _ _ := Carries.storing fun _ h => ⟨h, fun _ _ => trivial⟩

theorem murmurs_publish {sent : List Sent} {topic : String} (hl : isLost topic = false)
    (hm : Hushed topic) (payload : String) :
    Carries (Murmurs sent) (publish (.plain topic payload)) fun _ => True := by
  rintro r ⟨new, hs, hn⟩
  refine ⟨?_, fun _ _ => trivial⟩
  rw [run_publish]
  cases hp : r.outbound.publish (.plain topic payload) with
  | error e => exact ⟨new, hs, hn⟩
  | ok o =>
    rw [Outbound.publish_ok hp]
    refine ⟨new ++ [⟨r.outbound.clock, .plain topic payload⟩], ?_, ?_⟩
    · dsimp only
      rw [hs, List.append_assoc]
    · intro s hmem
      rcases List.mem_append.mp hmem with hold | hlast
      · exact hn s hold
      · obtain rfl := List.mem_singleton.mp hlast
        exact ⟨hl, hm⟩

theorem murmurs_acknowledge {sent : List Sent} {e : Entry} (he : IsSegment e.namespaceName) :
    Carries (Murmurs sent) (acknowledge e) fun _ => True := by
  have hack : Hushed ackSuffix := .inl ⟨"_ac".toList, by decide⟩
  have halive : Hushed aliveAckName := .inl ⟨"alive_ac".toList, by decide⟩
  have hfirst : e.address ++ ackSuffix =
      (⟨e.namespaceName, e.project, e.topic ++ ackSuffix⟩ : TopicPath).text := by
    unfold Entry.address TopicPath.text
    rw [fullTopic_eq he]
    simp only [String.append_assoc]
  have hsecond (project boardType macAddress : String) :
      isLost (e.namespaceName ++ "/" ++ project ++ "/" ++ boardType ++ "/" ++ macAddress ++ "/" ++
        aliveAckName) = false := by
    have hlost := isLost_text
      ⟨e.namespaceName, project, boardType ++ "/" ++ macAddress ++ "/" ++ aliveAckName⟩
    unfold TopicPath.text at hlost
    simp only [String.append_assoc] at hlost ⊢
    exact hlost
  apply Carries.reading
  intro r _
  have hlost : isLost (e.address ++ ackSuffix) = false := hfirst ▸ isLost_text _
  apply Carries.sequence (murmurs_publish hlost (hushed_append _ hack) _)
  intro _ _
  split
  · exact Carries.value trivial
  · exact murmurs_publish (hsecond _ _ _) (hushed_append _ halive) _

/-- A call for help that is not answered leaves no trace on the way out. -/
def Candid (x : HandlerM Bool) : Prop :=
  ∀ r, (x.run.run r).1 = .ok true ∨ (x.run.run r).2.outbound = r.outbound

theorem candid_sequence {α : Type} {x : HandlerM α} {f : α → HandlerM Bool}
    (hx : Preserves Router.outbound x.run) (hf : ∀ a, Candid (f a)) : Candid (x >>= f) := by
  intro r
  have h := hx r
  rw [run_sequence]
  rcases hr : x.run.run r with ⟨e | a, u⟩
  · rw [hr] at h
    exact .inr h
  · rw [hr] at h
    exact (hf a u).imp_right fun hu => hu.trans h

theorem candid_publish (m : OutboundMessage) : Candid (publish m >>= fun _ => pure true) := by
  intro r
  rw [run_sequence, run_publish]
  cases r.outbound.publish m with
  | error e => exact .inr rfl
  | ok o => exact .inl rfl

theorem outbound_stored {α : Type} (x : StoreM α) : Preserves Router.outbound (stored x).run := by
  intro r
  rw [run_stored]

theorem outbound_recordOf (a : DeviceAnnouncement) (project : String) :
    Preserves Router.outbound (recordOf a project).run := by
  apply preserves_sequence (outbound_stored _)
  intro found
  split
  · exact fun _ => rfl
  · apply preserves_sequence (x := get) (fun _ => rfl)
    intro r
    exact preserves_sequence (outbound_stored _) fun _ _ => rfl

theorem candid_handleLost (payload : String) : Candid (handleLost payload) := by
  rw [handleLost_eq]
  split
  · exact fun _ => .inr rfl
  · split
    · exact fun _ => .inr rfl
    · apply candid_sequence (outbound_recordOf _ _)
      intro d
      apply candid_sequence (x := get) (fun _ => rfl)
      intro r
      dsimp only
      split
      · exact fun _ => .inr rfl
      · exact candid_sequence (outbound_stored _) fun _ => candid_publish _

theorem lost_of_destination {m : InboundMessage} {space : String}
    (h : destination m space = .control) : isLost m.topic = true := by
  unfold destination at h
  split at h
  · assumption
  · split at h
    · cases h
    · split at h <;> cases h

/-- What is sent means nothing to the hub, or it is the settings of a device. -/
theorem sent_of_message {r : Router} (hrules : r.store.rules = .empty)
    (hdevices : r.store.devices.InProjects) (m : InboundMessage) :
    Murmurs r.outbound.sent ((handle m).run r).2 ∨ ∃ d, Adopts r ((handle m).run r).2 d := by
  have hnone : Murmurs r.outbound.sent r := ⟨[], (List.append_nil _).symm, List.forall_mem_nil _⟩
  cases hd : destination m r.namespaceName with
  | control =>
    rw [run_handle, hd]
    rcases candid_handleLost m.payload r with ht | hq
    · exact .inr (adopts_of_handleLost hdevices (Prod.ext ht rfl))
    · left
      dsimp only
      unfold Murmurs
      rw [hq]
      exact hnone
  | ignored reason =>
    rw [run_handle, hd]
    exact .inl hnone
  | routed path =>
    left
    let e := Entry.ofMessage path m r.now
    have ha : ((track e).run r).1.Addressed := addressed_arrival r hd r.now
    have ht : Murmurs r.outbound.sent ((track e).run r).2 := by
      rcases track_cases r e with ht | ⟨k, -, ht⟩
      · rw [ht]
        exact hnone
      · rw [ht]
        exact hnone
    obtain ⟨cache, hr⟩ := run_without_rules hrules hd
    rw [hr]
    exact ((steady_murmurs _).handleReserved ha.project.nonempty
      (murmurs_acknowledge ha.namespaceName) _ ht).1

/-- Nothing was published and nothing registered in between. -/
structure Calm (u v : Router) : Prop where
  namespaceName : v.namespaceName = u.namespaceName
  outbound : v.outbound = u.outbound
  rules : v.store.rules = .empty
  devices : v.store.devices = u.store.devices
  outages : v.store.outages = u.store.outages
  known : KnownTopics.Keyed v.store
  registered : v.store.knownTopics.map KnownTopic.registration =
    u.store.knownTopics.map KnownTopic.registration

variable {u v : Router}

theorem calm_track (h : Calm u v) {e : Entry} (he : e.sender = none) :
    Calm u ((track e).run v).2 := by
  rcases track_cases v e with ht | ⟨k, hk, ht⟩
  · rw [ht]
    exact h
  · have hkeyed := keyed_noting h.known k e
    obtain ⟨histories, changed, disk, hn⟩ := noting_eq v.store k e
    rw [ht]
    dsimp only
    rw [hn] at hkeyed ⊢
    refine ⟨h.namespaceName, h.outbound, h.rules, h.devices, h.outages, hkeyed, ?_⟩
    dsimp only
    split
    · have hkey : Store.topicKey e.project e.topic = knownTopicKey k :=
        (h.known _ (Table.get?_eq_some.mp hk)).1
      have hin : (v.store.insertKnownTopic (refreshed k e)).knownTopics =
          v.store.knownTopics.insert (knownTopicKey k) (refreshed k e) := rfl
      have hr : (refreshed k e).registration = k.registration := by
        unfold refreshed
        rw [he]
        rfl
      have hg : (v.store.knownTopics.map KnownTopic.registration).get? (knownTopicKey k) =
          some k.registration := by
        rw [Table.get?_map, ← hkey, show v.store.knownTopics.get? _ = some k from hk]
        rfl
      rw [hin, Table.map_insert, hr, Table.insert_same hg]
      exact h.registered
    · exact h.registered

theorem calm_hushed (h : Calm u v) {m : InboundMessage} (hl : isLost m.topic = false)
    (hm : Hushed m.topic) : Calm u ((handle m).run v).2 := by
  cases hd : destination m v.namespaceName with
  | control => exact absurd (lost_of_destination hd) (Bool.eq_false_iff.mp hl)
  | ignored reason =>
    rw [run_handle, hd]
    exact h
  | routed path =>
    let e := Entry.ofMessage path m v.now
    have hp := parse_of_destination hd
    have ht : Hushed ((track e).run v).1.topic := by
      rw [show ((track e).run v).1.topic = path.topic from (entry_arrival v e).2]
      exact hushed_of_text (topic_of_parse hp) (text_of_parse hp ▸ hm)
    have ha : (v.arrival e).router = ((track e).run v).2 := by
      change ((handleReserved ((track e).run v).1).run.run ((track e).run v).2).2 = _
      rw [handleReserved_of_hushed ht]
      rfl
    obtain ⟨cache, hr⟩ := run_without_rules h.rules hd
    have hc := calm_track h (e := e) rfl
    rw [hr, ha]
    exact ⟨hc.1, hc.2, hc.3, hc.4, hc.5, hc.6, hc.7⟩

theorem calm_settings {r : Router} {d : Device} (hd : Adopts r u d) (h : Calm u v)
    {m : InboundMessage} (ht : m.topic = (settingsOf d).topic)
    (hp : m.payload = (settingsOf d).payload) : Calm u ((handle m).run v).2 := by
  cases hl : isLost m.topic with
  | true =>
    -- The address of the device begins like the reserved name, so that it seems to be lost once more.
    have hcontrol : destination m v.namespaceName = .control := if_pos hl
    have hrecord : v.store.device? d.macAddress = some d := by
      unfold Store.device?
      rw [h.devices]
      exact hd.onRecord
    have hown := handleLost_own (h.outages ▸ hd.findable) hd.home
      (hd.own.trans h.namespaceName.symm) hrecord
    rw [run_handle, hcontrol]
    dsimp only
    rw [hp, hown]
    exact h
  | false =>
    have hend : Hushed saveConfigName := .inr ⟨"save_microcontroller_confi".toList, by decide⟩
    apply calm_hushed h hl
    rw [ht]
    exact hushed_append _ hend

theorem calm_echo {r : Router} (hrules : r.store.rules = .empty)
    (hdevices : r.store.devices.InProjects) (m : InboundMessage) :
    let u := ((handle m).run r).2
    ∃ new, u.outbound.sent = r.outbound.sent ++ new ∧ ∀ s ∈ new, ∀ e : InboundMessage,
      e.topic = s.message.topic → e.payload = s.message.payload → ∀ v, Calm u v →
        Calm u ((handle e).run v).2 := by
  intro u
  rcases sent_of_message hrules hdevices m with ⟨new, hsent, hnew⟩ | ⟨d, hd⟩
  · refine ⟨new, hsent, fun s hs e ht _ v hv => ?_⟩
    obtain ⟨hl, hm⟩ := hnew s hs
    rw [← ht] at hl hm
    exact calm_hushed hv hl hm
  · refine ⟨_, hd.sent, fun s hs e ht hp v hv => ?_⟩
    obtain rfl := List.mem_singleton.mp hs
    exact calm_settings hd hv ht hp

/-- Without rules, whatever is published while a message is handled can come back to the hub, as often
and in any order: nothing more is published, no device changes and nothing is registered. -/
theorem echoes_change_nothing {r : Router} (hrules : r.store.rules = .empty)
    (hdevices : r.store.devices.InProjects) (hknown : KnownTopics.Keyed r.store) (m : InboundMessage) :
    let u := ((handle m).run r).2
    ∃ new, u.outbound.sent = r.outbound.sent ++ new ∧ ∀ echoes : List InboundMessage,
      (∀ e ∈ echoes, ∃ s ∈ new, e.topic = s.message.topic ∧ e.payload = s.message.payload) →
      let v := echoes.foldl (fun v e => ((handle e).run v).2) u
      v.outbound = u.outbound ∧ v.store.devices = u.store.devices ∧
        v.store.knownTopics.map KnownTopic.registration =
          u.store.knownTopics.map KnownTopic.registration := by
  intro u
  have hu : Calm u u :=
    ⟨rfl, rfl, rules_of_message hrules m, rfl, rfl, keyed_handle hdevices hknown m, rfl⟩
  obtain ⟨new, hsent, hnew⟩ := calm_echo hrules hdevices m
  refine ⟨new, hsent, fun echoes he => ?_⟩
  have hv : Calm u (echoes.foldl (fun v e => ((handle e).run v).2) u) := by
    apply List.foldlRecOn (motive := Calm u) echoes _ hu
    intro v hv e hm
    obtain ⟨s, hs, ht, hp⟩ := he e hm
    exact hnew s hs e ht hp v hv
  exact ⟨hv.outbound, hv.devices, hv.registered⟩

/-- The settings of a device with such a name go to an address at which lost devices report. -/
theorem misnamed_settings_echo :
    let d := { Device.bare "i_am_lost7" with project := "garden" }
    let start := { seen ⟨"hub", none, 7⟩ with store := (Store.inMemory .empty).insertDevice d }
    let m : InboundMessage := ⟨"i_am_lost", "\x7b\"MacAddress\":\"i_am_lost7\"\x7d", 0, false⟩
    let settings := settingsOf { d with namespaceName := "hub" }
    let echo : InboundMessage := ⟨settings.topic, settings.payload, 0, false⟩
    let u := ((handle m).run start).2
    start.store.rules = .empty ∧ start.store.devices.InProjects ∧ KnownTopics.Keyed start.store ∧
      isLost echo.topic = true ∧ u.outbound.sent = [⟨7, settings⟩] ∧
      ((handle echo).run u).2.outbound = u.outbound ∧
      ((handle echo).run u).2.store.devices = u.store.devices := by
  intro d start m settings echo u
  have hdevices : start.store.devices.InProjects :=
    Table.keyedBy_insert Table.keyedBy_empty (by decide)
  have hknown : KnownTopics.Keyed start.store := Table.keyedBy_empty
  have hread : DeviceAnnouncement.read? m.payload = some (.ofDevice (Device.bare "i_am_lost7")) := by
    cbv
  have hlost : handleLost m.payload = takeBack (.ofDevice (Device.bare "i_am_lost7")) := by
    rw [handleLost_eq, hread]
    rfl
  have hsent : u.outbound.sent = [⟨7, settings⟩] := by
    have hcontrol : destination m start.namespaceName = .control := if_pos (by decide)
    have hu : u = ((handleLost m.payload).run.run start).2 := by
      change ((handle m).run start).2 = _
      rw [run_handle, hcontrol]
    rw [hu, hlost]
    rfl
  obtain ⟨new, hn, hechoes⟩ := echoes_change_nothing rfl hdevices hknown m
  have hnew : new = [⟨7, settings⟩] := hn.symm.trans hsent
  have hback : ∀ e ∈ [echo], ∃ s ∈ new,
      e.topic = s.message.topic ∧ e.payload = s.message.payload := by
    simp [hnew, echo]
  obtain ⟨ho, hd, -⟩ := hechoes [echo] hback
  exact ⟨rfl, hdevices, hknown, by decide, hsent, ho, hd⟩

end Router

end TopicHub
