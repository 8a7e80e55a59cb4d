import TopicHub.Proofs.Announcement
import TopicHub.Proofs.Router.Handling

/-!
Lost devices come back for good. Every device on record has an address and a project, whatever messages
arrive. So the settings that a lost device is sent name the project that is on record for it, and a
device that reports them again is left alone.
-/

namespace TopicHub

structure Device.HasHome (d : Device) : Prop where
  address : d.macAddress.isEmpty = false
  project : d.project.isEmpty = false

namespace Table

/-- All devices belong to projects and stand under their own addresses. -/
def InProjects (devices : Table Device) : Prop :=
  devices.KeyedBy Device.macAddress fun d => d.project.isEmpty = false

def AtHome (devices : Table Device) : Prop := devices.KeyedBy Device.macAddress Device.HasHome

theorem AtHome.inProjects {devices : Table Device} (h : devices.AtHome) : devices.InProjects :=
  fun e he => ⟨(h e he).1, (h e he).2.project⟩

end Table

namespace Router

open Persistence

theorem firstNonempty_self {s : String} (h : s.isEmpty = false) (fallback : String) :
    firstNonempty s fallback = s := by
  unfold firstNonempty
  rw [h]
  rfl

theorem steady_devices {Q : Device → Prop} (hq : ∀ d : Device, d.HasHome → Q d) :
    Steady fun r => r.store.devices.KeyedBy Device.macAddress Q where
  saveKnownTopic k := by
    apply Carries.storing
    intro r h
    obtain ⟨disk, hd⟩ := KnownTopics.after_saveKnownTopic r.store k
    rw [hd]
    exact ⟨h, fun _ _ => trivial⟩
  saveDevice d hp := by
    apply Carries.storing
    intro r h
    refine ⟨?_, fun _ _ => trivial⟩
    obtain ⟨disk, hd⟩ := Store.after_saveDevice r.store d
    rw [hd]
    dsimp only
    split
    · rename_i ha
      exact Table.keyedBy_insert h (hq d ⟨ha.2, hp⟩)
    · exact h

theorem steady_inProjects : Steady fun r => r.store.devices.InProjects :=
  steady_devices fun _ h => h.project

theorem steady_atHome : Steady fun r => r.store.devices.AtHome := steady_devices fun _ h => h

theorem Steady.recordOf {P : Router → Prop} (h : Steady P)
    (hp : ∀ r, P r → r.store.devices.InProjects) {a : DeviceAnnouncement} {project : String}
    (ha : a.macAddress.isEmpty = false) (hproject : project.isEmpty = false) :
    Carries P (Router.recordOf a project) Device.HasHome := by
  have hfind : Carries P (stored (Store.getDevice a.macAddress)) fun found =>
      ∀ d ∈ found, d.HasHome := by
    apply Carries.storing
    intro r hr
    rw [Store.run_getDevice]
    refine ⟨hr, fun found hf => ?_⟩
    dsimp only at hf
    split at hf
    · cases hf
    · cases hf
      intro d hd
      obtain ⟨hkey, hproject⟩ := hp r hr _ (Table.get?_eq_some.mp hd)
      have hm : d.macAddress = a.macAddress := hkey.symm
      exact ⟨hm ▸ ha, hproject⟩
  apply Carries.sequence hfind
  intro found hf
  split
  · rename_i d
    exact Carries.value (hf d rfl)
  · apply Carries.reading
    intro r _
    apply Carries.sequence (h.saveDevice (r.adopted a project) hproject)
    intro _ _
    exact Carries.value ⟨ha, hproject⟩

def takeBack (a : DeviceAnnouncement) : HandlerM Bool := do
  let project := firstNonempty a.project defaultProject
  let d ← recordOf a project
  let space := (← get).namespaceName
  if d.project = project && a.namespaceName = space then pure false
  else
    let d := { d with namespaceName := space }
    stored (Store.saveDevice d)
    publish (.plain (d.macAddress ++ "/" ++ saveConfigName)
      (DeviceAnnouncement.ofDevice d).toJson.compact)
    pure true

theorem handleLost_eq (payload : String) : handleLost payload =
    match DeviceAnnouncement.read? payload with
    | none => throw (.invalidPayload lostName unreadableReason)
    | some a =>
      if a.macAddress.isEmpty then throw (.invalidPayload lostName "MAC address is missing")
      else takeBack a := by
  unfold handleLost
  cases DeviceAnnouncement.read? payload with
  | none => rfl
  | some a =>
    dsimp only
    split <;> rfl

theorem Steady.handleLost {P : Router → Prop} (h : Steady P)
    (hp : ∀ r, P r → r.store.devices.InProjects)
    (hpublish : ∀ m, Carries P (publish m) fun _ => True) (payload : String) :
    Carries P (Router.handleLost payload) fun _ => True := by
  rw [handleLost_eq]
  split
  · exact Carries.failure _ _
  · rename_i a _
    split
    · exact Carries.failure _ _
    · rename_i ha
      have hproject := firstNonempty_isEmpty (show defaultProject.isEmpty = false by decide) a.project
      apply Carries.sequence (h.recordOf hp (Bool.eq_false_iff.mpr ha) hproject)
      intro d hd
      apply Carries.reading
      intro r _
      dsimp only
      split
      · exact Carries.value trivial
      · apply Carries.sequence (h.saveDevice { d with namespaceName := r.namespaceName } hd.project)
        intro _ _
        exact Carries.sequence (hpublish _) fun _ _ => Carries.value trivial

/-- What handlers keep in the store, tracking keeps, and rules and disk have no part in, all messages
keep. -/
theorem Steady.handle {S : Store → Prop} (h : Steady fun r => S r.store)
    (hp : ∀ s, S s → s.devices.InProjects) (hnoting : ∀ s k e, S s → S (noting s k e))
    (hturns : ∀ (s : Store) rules disk, S s → S { s with rules, disk }) {r : Router}
    (hr : S r.store) (m : InboundMessage) : S ((Router.handle m).run r).2.store := by
  cases hd : destination m r.namespaceName with
  | control =>
    rw [run_handle, hd]
    have hpublish (m : OutboundMessage) : Carries (fun r => S r.store) (publish m) fun _ => True :=
      Carries.of_store (store_publish m)
    exact (h.handleLost (fun r => hp r.store) hpublish m.payload r hr).1
  | ignored reason =>
    rw [run_handle, hd]
    exact hr
  | routed path =>
    let e := Entry.ofMessage path m r.now
    let a := r.arrival e
    have hproject : ((track e).run r).1.project.isEmpty = false := by
      rw [show ((track e).run r).1.project = path.project from (entry_arrival r e).1]
      exact (segments_of_parse (parse_of_destination hd)).2.nonempty
    have ht : S ((track e).run r).2.store := by
      rcases track_cases r e with ht | ⟨k, -, ht⟩
      · rw [ht]
        exact hr
      · rw [ht]
        exact hnoting r.store k e hr
    have ha : S a.router.store :=
      (h.handleReserved hproject (Carries.of_store (store_acknowledge _)) _ ht).1
    obtain ⟨rules, disk, ht⟩ := store_turns a.previous a.entry.payload a.rules a.router
    have hs : S ((applyRules a.previous a.entry.payload a.rules).run a.router).2.store := by
      rw [ht]
      exact hturns a.router.store rules disk ha
    rw [(run_routed hd).1]
    dsimp only
    rw [aftermath_store]
    exact hs

theorem atHome_handle {r : Router} (h : r.store.devices.AtHome) (m : InboundMessage) :
    ((handle m).run r).2.store.devices.AtHome := by
  refine steady_atHome.handle (S := fun s => s.devices.AtHome) (fun _ h => h.inProjects) ?_
    (fun _ _ _ h => h) h m
  intro s k e h
  obtain ⟨_, _, _, hn⟩ := noting_eq s k e
  rw [hn]
  exact h

/-- Reached from a router by messages. In between, everything but the devices may change. -/
inductive Reached (start : Router) : Router → Prop where
  | start : Reached start start
  | message {r : Router} (m : InboundMessage) : Reached start r → Reached start ((handle m).run r).2
  | meanwhile {r u : Router} : Reached start r → u.store.devices = r.store.devices → Reached start u

theorem atHome_reached {start r : Router} (h : start.store.devices.AtHome) (hr : Reached start r) :
    r.store.devices.AtHome := by
  induction hr with
  | start => exact h
  | message m _ ih => exact atHome_handle ih m
  | meanwhile _ hd ih =>
    rw [hd]
    exact ih

theorem of_recordOf_ok {a : DeviceAnnouncement} {project : String} {r u : Router} {d : Device}
    (h : (recordOf a project).run.run r = (.ok d, u)) : .findDevice ∉ r.store.outages ∧
      ∃ devices disk, u = { r with store := { r.store with devices, disk } } := by
  obtain ⟨found, t, hg, h⟩ := of_sequence_ok h
  obtain ⟨s, hs, rfl⟩ := of_stored_ok hg
  rw [Store.run_getDevice] at hs
  obtain ⟨hfound, rfl⟩ := Prod.mk.inj hs
  have ho : .findDevice ∉ r.store.outages := by
    intro ho
    rw [if_pos ho] at hfound
    cases hfound
  refine ⟨ho, ?_⟩
  cases found with
  | some d =>
    cases h
    exact ⟨r.store.devices, r.store.disk, rfl⟩
  | none =>
    obtain ⟨_, _, hget, h⟩ := of_sequence_ok h
    cases hget
    obtain ⟨_, t, hsave, h⟩ := of_sequence_ok h
    obtain ⟨s, hs, rfl⟩ := of_stored_ok hsave
    obtain ⟨-, disk, rfl⟩ := Store.of_saveDevice_ok hs
    cases h
    exact ⟨_, disk, rfl⟩

def settingsOf (d : Device) : OutboundMessage :=
  .plain (d.macAddress ++ "/" ++ saveConfigName) (DeviceAnnouncement.ofDevice d).toJson.compact

theorem payload_settingsOf (d : Device) :
    (settingsOf d).payload = (DeviceAnnouncement.ofDevice d).toJson.compact := by
  unfold settingsOf OutboundMessage.plain
  dsimp only
  apply if_neg
  intro he
  have hr := DeviceAnnouncement.read?_ofDevice d
  rw [String.isEmpty_iff.mp he] at hr
  cases hr

/-- The device is on record in the namespace, and its settings are all that was sent. -/
structure Adopts (r u : Router) (d : Device) : Prop where
  findable : .findDevice ∉ u.store.outages
  home : d.HasHome
  own : d.namespaceName = u.namespaceName
  onRecord : u.store.device? d.macAddress = some d
  namespaceName : u.namespaceName = r.namespaceName
  sent : u.outbound.sent = r.outbound.sent ++ [⟨r.outbound.clock, settingsOf d⟩]

theorem adopts_of_takeBack {a : DeviceAnnouncement} (ha : a.macAddress.isEmpty = false)
    {r u : Router} (hr : r.store.devices.InProjects) (h : (takeBack a).run.run r = (.ok true, u)) :
    ∃ d, Adopts r u d := by
  obtain ⟨d, t, hd, h⟩ := of_sequence_ok h
  have hhome : d.HasHome := by
    have hp := firstNonempty_isEmpty (show defaultProject.isEmpty = false by decide) a.project
    have hc := steady_inProjects.recordOf (fun _ h => h) ha hp r hr
    rw [hd] at hc
    exact hc.2 d rfl
  obtain ⟨ho, devices, disk, rfl⟩ := of_recordOf_ok hd
  obtain ⟨_, _, hget, h⟩ := of_sequence_ok h
  cases hget
  dsimp only at h
  split at h
  · cases h
  · obtain ⟨_, t, hsave, h⟩ := of_sequence_ok h
    obtain ⟨s, hs, rfl⟩ := of_stored_ok hsave
    obtain ⟨-, disk, rfl⟩ := Store.of_saveDevice_ok hs
    obtain ⟨_, t, hp, h⟩ := of_sequence_ok h
    have ht := of_publish_ok hp
    cases h
    refine ⟨{ d with namespaceName := r.namespaceName }, ?_⟩
    rw [ht]
    have hrecord := (Table.get?_insert devices d.macAddress d.macAddress
      { d with namespaceName := r.namespaceName }).trans (if_pos rfl)
    exact ⟨ho, ⟨hhome.address, hhome.project⟩, rfl, hrecord, rfl, rfl⟩

theorem adopts_of_handleLost {payload : String} {r u : Router} (hr : r.store.devices.InProjects)
    (h : (handleLost payload).run.run r = (.ok true, u)) : ∃ d, Adopts r u d := by
  rw [handleLost_eq] at h
  split at h
  · cases h
  · split at h
    · cases h
    · rename_i ha
      exact adopts_of_takeBack (Bool.eq_false_iff.mpr ha) hr h

theorem handleLost_own {u : Router} {d : Device} (ho : .findDevice ∉ u.store.outages)
    (hd : d.HasHome) (hn : d.namespaceName = u.namespaceName)
    (hr : u.store.device? d.macAddress = some d) :
    (handleLost (settingsOf d).payload).run.run u = (.ok false, u) := by
  have hfound : (stored (Store.getDevice d.macAddress)).run.run u = (.ok (some d), u) := by
    rw [run_stored, Store.run_getDevice, if_neg ho, hr]
    rfl
  have hp : firstNonempty (DeviceAnnouncement.ofDevice d).project defaultProject = d.project :=
    firstNonempty_self hd.project defaultProject
  have hm : ¬ (DeviceAnnouncement.ofDevice d).macAddress.isEmpty = true :=
    Bool.eq_false_iff.mp hd.address
  rw [payload_settingsOf, handleLost_eq, DeviceAnnouncement.read?_ofDevice]
  dsimp only
  rw [if_neg hm]
  have hrecord : (recordOf (DeviceAnnouncement.ofDevice d) (firstNonempty
      (DeviceAnnouncement.ofDevice d).project defaultProject)).run.run u = (.ok d, u) :=
    run_sequence_ok hfound
  have hget : (get : HandlerM Router).run.run u = (.ok u, u) := rfl
  refine (run_sequence_ok hrecord).trans ((run_sequence_ok hget).trans ?_)
  have hown : (d.project = firstNonempty (DeviceAnnouncement.ofDevice d).project defaultProject &&
      (DeviceAnnouncement.ofDevice d).namespaceName = u.namespaceName) = true := by
    rw [hp]
    exact (Bool.and_eq_true ..).mpr ⟨decide_eq_true rfl, decide_eq_true hn⟩
  dsimp only
  rw [if_pos hown]
  rfl

/-- Wherever messages have led, every device has a home. If a call for help is answered with settings,
these are what is on record for the device from then on, in the namespace of the hub, and a device that
reports them is left alone. -/
theorem lost_device_settles {start r : Router} (hs : start.store.devices.AtHome)
    (hr : Reached start r) :
    r.store.devices.AtHome ∧ ∀ payload u, (handleLost payload).run.run r = (.ok true, u) →
      ∃ d a, u.outbound.sent = r.outbound.sent ++ [⟨r.outbound.clock, settingsOf d⟩] ∧
        u.store.device? d.macAddress = some d ∧ d.namespaceName = r.namespaceName ∧
        DeviceAnnouncement.read? (settingsOf d).payload = some a ∧ a.macAddress = d.macAddress ∧
        a.namespaceName = d.namespaceName ∧ a.project = d.project ∧
        (handleLost (settingsOf d).payload).run.run u = (.ok false, u) := by
  have hhome := atHome_reached hs hr
  refine ⟨hhome, fun payload u hu => ?_⟩
  obtain ⟨d, hd⟩ := adopts_of_handleLost hhome.inProjects hu
  have hread : DeviceAnnouncement.read? (settingsOf d).payload = some (.ofDevice d) := by
    rw [payload_settingsOf]
    exact DeviceAnnouncement.read?_ofDevice d
  have hown := handleLost_own hd.findable hd.home hd.own hd.onRecord
  exact ⟨d, _, hd.sent, hd.onRecord, hd.own.trans hd.namespaceName, hread, rfl, rfl, rfl, hown⟩

/-- A device of the garden comes back without any settings. -/
theorem garden_device_settles :
    let d := { Device.bare "a4" with project := "garden" }
    let start := { seen ⟨"hub", none, 7⟩ with store := (Store.inMemory .empty).insertDevice d }
    let payload := "\x7b\"MacAddress\":\"a4\"\x7d"
    let settings := settingsOf { d with namespaceName := "hub" }
    start.store.devices.AtHome ∧ Reached start start ∧
      ∃ u, (handleLost payload).run.run start = (.ok true, u) ∧ u.outbound.sent = [⟨7, settings⟩] ∧
        (handleLost settings.payload).run.run u = (.ok false, u) := by
  intro d start payload settings
  have hs : start.store.devices.AtHome :=
    Table.keyedBy_insert Table.keyedBy_empty ⟨by decide, by decide⟩
  have hread : DeviceAnnouncement.read? payload = some (.ofDevice (Device.bare "a4")) := by cbv
  have hlost : handleLost payload = takeBack (.ofDevice (Device.bare "a4")) := by
    rw [handleLost_eq, hread]
    rfl
  have hok : ((handleLost payload).run.run start).1 = .ok true := by
    rw [hlost]
    rfl
  have hrun : (handleLost payload).run.run start = (.ok true, ((handleLost payload).run.run start).2) :=
    Prod.ext hok rfl
  have hsent : ((handleLost payload).run.run start).2.outbound.sent = [⟨7, settings⟩] := by
    rw [hlost]
    rfl
  obtain ⟨d', a, hd, -, -, -, -, -, -, hagain⟩ :=
    (lost_device_settles hs .start).2 payload _ hrun
  have hsettings : settings = settingsOf d' := by
    have he := hsent.symm.trans hd
    exact (Sent.mk.inj (List.cons.inj he).1).2
  refine ⟨hs, .start, _, hrun, hsent, ?_⟩
  rw [hsettings]
  exact hagain

end Router

end TopicHub
