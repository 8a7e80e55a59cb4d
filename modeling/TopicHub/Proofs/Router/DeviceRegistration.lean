import TopicHub.Proofs.ReservedNames
import TopicHub.Proofs.Router.Handling

/-!
Devices that register themselves and their topics. The topics are saved one after the other, and the
device behind all of them. A topic that is known stays as it is, and a new one becomes what it was
announced as first. Nothing is taken back: if a topic cannot be saved, the device is not saved either,
and the topics in front of that one stay.
-/

namespace TopicHub

open Persistence

namespace Store

def TakesUp (s : Store) (k : KnownTopic) : Prop :=
  .findKnownTopic ∉ s.outages ∧
    ((s.knownTopic? k.project k.topic).isSome = true ∨ KnownTopics.Admits s k)

instance (s : Store) (k : KnownTopic) : Decidable (s.TakesUp k) :=
  inferInstanceAs (Decidable (_ ∧ _))

/-- The topics in front of the first one that is not taken up. -/
def takenUp (s : Store) (ks : List KnownTopic) : List KnownTopic :=
  ks.takeWhile fun k => s.TakesUp k

theorem topicKey_inj {project topic other : String} :
    topicKey project topic = topicKey project other ↔ topic = other := by
  unfold topicKey
  rw [String.append_right_inj]

@[simp] theorem outages_addTopic (s : Store) (k : KnownTopic) :
    (s.addTopic k).outages = s.outages := by
  unfold addTopic
  split <;> rfl

@[simp] theorem persistent_addTopic (s : Store) (k : KnownTopic) :
    (s.addTopic k).persistent = s.persistent := by
  unfold addTopic
  split <;> rfl

theorem persistent_addTopics (s : Store) (ks : List KnownTopic) :
    (ks.foldl addTopic s).persistent = s.persistent := by
  induction ks generalizing s with
  | nil => rfl
  | cons k ks ih => rw [List.foldl_cons, ih, persistent_addTopic]

theorem addTopic_disk (s : Store) (disk : Disk) (k : KnownTopic) :
    { s with disk }.addTopic k = { s.addTopic k with disk } := by
  have hk : { s with disk }.knownTopic? k.project k.topic = s.knownTopic? k.project k.topic := rfl
  unfold addTopic
  rw [hk]
  split <;> rfl

theorem addTopics_disk (s : Store) (disk : Disk) (ks : List KnownTopic) :
    ks.foldl addTopic { s with disk } = { ks.foldl addTopic s with disk } := by
  induction ks generalizing s with
  | nil => rfl
  | cons k ks ih => rw [List.foldl_cons, addTopic_disk, ih, List.foldl_cons]

theorem devices_addTopics (s : Store) (ks : List KnownTopic) :
    (ks.foldl addTopic s).devices = s.devices := by
  induction ks generalizing s with
  | nil => rfl
  | cons k ks ih =>
    rw [List.foldl_cons, ih]
    unfold addTopic
    split <;> rfl

/-- A topic that has been taken up makes no difference to the others of its project. -/
theorem takesUp_addTopic {s : Store} {k other : KnownTopic} (h : s.TakesUp k)
    (hp : other.project = k.project) : (s.addTopic k).TakesUp other ↔ s.TakesUp other := by
  have hlookup : (s.addTopic k).knownTopic? other.project other.topic =
      (s.knownTopic? other.project other.topic).or
        (if k.topic = other.topic then some k else none) := by
    refine (get?_addTopic s k _).trans ?_
    unfold knownTopicKey
    rw [← hp]
    simp only [topicKey_inj]
    rfl
  by_cases ht : k.topic = other.topic
  · obtain ⟨hf, hs⟩ := h
    have hbefore : s.TakesUp other := by
      refine ⟨hf, ?_⟩
      unfold KnownTopics.Admits
      rw [hp, ← ht]
      exact hs
    have hafter : (s.addTopic k).TakesUp other := by
      refine ⟨?_, .inl ?_⟩
      · rwa [outages_addTopic]
      · rw [hlookup, if_pos ht]
        simp
    exact iff_of_true hafter hbefore
  · rw [if_neg ht, Option.or_none] at hlookup
    unfold TakesUp KnownTopics.Admits
    rw [hlookup, outages_addTopic]

theorem takenUp_cons (s : Store) (k : KnownTopic) (ks : List KnownTopic) :
    s.takenUp (k :: ks) = if s.TakesUp k then k :: s.takenUp ks else [] := by
  simp [takenUp, List.takeWhile_cons]

theorem takenUp_addTopic {s : Store} {k : KnownTopic} (h : s.TakesUp k) {ks : List KnownTopic}
    (hp : ∀ other ∈ ks, other.project = k.project) : (s.addTopic k).takenUp ks = s.takenUp ks := by
  induction ks with
  | nil => rfl
  | cons other ks ih =>
    obtain ⟨ho, hks⟩ := List.forall_mem_cons.mp hp
    simp only [takenUp_cons, takesUp_addTopic h ho, ih hks]

theorem of_saveKnownTopic_ok {s u : Store} {k : KnownTopic}
    (h : (saveKnownTopic k).run.run s = (.ok (), u)) :
    ∃ disk, u = { s.insertKnownTopic k with disk } := by
  have ha : KnownTopics.Admits s k := by
    by_cases ho : .saveKnownTopic ∈ s.outages
    · unfold saveKnownTopic at h
      rw [run_bind, run_ensure, if_pos ho] at h
      cases h
    · have hr := run_save ho k.topic.isEmpty (.invalid "known topic" "topic cannot be empty")
        (insertKnownTopic · k) writeKnownTopics
      change (saveKnownTopic k).run.run s = _ at hr
      rw [h] at hr
      cases he : k.topic.isEmpty with
      | true =>
        rw [he] at hr
        cases hr
      | false => exact ⟨ho, he⟩
  obtain ⟨disk, hd⟩ := KnownTopics.after_saveKnownTopic s k
  rw [h, if_pos ha] at hd
  exact ⟨disk, hd⟩

theorem save_inMemory {α : Type} (a : StoreAccess) (refused : Bool) (e : StoreError)
    {s : Store} (g : Store → Store) (hm : (g s).persistent = false) (f : RecordFile α)
    (records : Store → List α) :
    let run := (do
      ensure a
      if refused then throw e
      modify g
      write f (records (← get))).run.run s
    run.2 = (if a ∉ s.outages ∧ refused = false then g s else s) ∧
      (run.1 = .ok () ↔ a ∉ s.outages ∧ refused = false) := by
  intro run
  by_cases ho : a ∈ s.outages
  · have hr : run = (.error (.invalid a.name "unavailable"), s) := by
      unfold run
      rw [run_bind, run_ensure, if_pos ho]
    simp [hr, ho]
  · have hr : run = _ := run_save ho refused e g (do write f (records (← get)))
    cases refused with
    | true => simp [hr]
    | false =>
      rw [if_neg Bool.false_ne_true, run_bind, run_get] at hr
      dsimp only at hr
      rw [run_write, hm] at hr
      simp [hr, ho]

theorem saveKnownTopic_inMemory {s : Store} (hm : s.persistent = false) (k : KnownTopic) :
    let run := (saveKnownTopic k).run.run s
    run.2 = (if KnownTopics.Admits s k then s.insertKnownTopic k else s) ∧
      (run.1 = .ok () ↔ KnownTopics.Admits s k) :=
  save_inMemory .saveKnownTopic k.topic.isEmpty _ (insertKnownTopic · k) hm .knownTopics _

theorem saveDevice_inMemory {s : Store} (hm : s.persistent = false) (d : Device) :
    let run := (saveDevice d).run.run s
    run.2 = (if s.AdmitsDevice d then s.insertDevice d else s) ∧
      (run.1 = .ok () ↔ s.AdmitsDevice d) :=
  save_inMemory .saveDevice d.macAddress.isEmpty _ (insertDevice · d) hm .devices _

end Store

namespace Router

theorem run_saveUnlessKnown (k : KnownTopic) (r : Router) : (saveUnlessKnown k).run.run r =
    if .findKnownTopic ∈ r.store.outages then
      (.error (.store (.invalid StoreAccess.findKnownTopic.name "unavailable")), r)
    else if (r.store.knownTopic? k.project k.topic).isSome then (.ok (), r)
    else (stored (Store.saveKnownTopic k)).run.run r := by
  unfold saveUnlessKnown
  rw [run_sequence, run_stored, KnownTopics.run_getKnownTopic]
  by_cases hf : .findKnownTopic ∈ r.store.outages
  · simp only [hf, if_true]
    rfl
  · simp only [hf, if_false]
    cases r.store.knownTopic? k.project k.topic <;> rfl

theorem of_saveUnlessKnown_ok {k : KnownTopic} {r u : Router}
    (h : (saveUnlessKnown k).run.run r = (.ok (), u)) :
    ∃ disk, u = { r with store := { r.store.addTopic k with disk } } := by
  rw [run_saveUnlessKnown] at h
  unfold Store.addTopic
  split at h
  · cases h
  · split at h
    · rename_i hk
      cases h
      exact ⟨r.store.disk, by rw [if_pos hk]⟩
    · rename_i hk
      obtain ⟨s, hs, rfl⟩ := of_stored_ok h
      obtain ⟨disk, rfl⟩ := Store.of_saveKnownTopic_ok hs
      exact ⟨disk, by rw [if_neg hk]⟩

theorem stored_ok_iff {x : StoreM Unit} {r : Router} :
    ((stored x).run.run r).1 = .ok () ↔ (x.run.run r.store).1 = .ok () := by
  rw [run_stored]
  cases (x.run.run r.store).1 <;> simp [Except.mapError]

theorem saveUnlessKnown_inMemory {r : Router} (hm : r.store.persistent = false) (k : KnownTopic) :
    let run := (saveUnlessKnown k).run.run r
    run.2 = (if r.store.TakesUp k then { r with store := r.store.addTopic k } else r) ∧
      (run.1 = .ok () ↔ r.store.TakesUp k) := by
  intro run
  have hr : run = _ := run_saveUnlessKnown k r
  by_cases hf : .findKnownTopic ∈ r.store.outages
  · have ht : ¬ r.store.TakesUp k := fun h => h.1 hf
    simp [hr, hf, ht]
  · by_cases hk : (r.store.knownTopic? k.project k.topic).isSome = true
    · have ht : r.store.TakesUp k := ⟨hf, .inl hk⟩
      simp [hr, hf, hk, ht, Store.addTopic]
    · have ht : r.store.TakesUp k ↔ KnownTopics.Admits r.store k := by
        simp [Store.TakesUp, hf, hk]
      obtain ⟨hs, hok⟩ := Store.saveKnownTopic_inMemory hm k
      rw [if_neg hf, if_neg hk] at hr
      rw [hr, stored_ok_iff, hok, run_stored, hs]
      refine ⟨?_, ht.symm⟩
      simp only [ht, Store.addTopic, if_neg hk]
      split <;> rfl

theorem of_announcements_ok {ks : List KnownTopic} {r u : Router}
    (h : (ks.forM saveUnlessKnown).run.run r = (.ok (), u)) :
    ∃ disk, u = { r with store := { ks.foldl Store.addTopic r.store with disk } } := by
  induction ks generalizing r with
  | nil =>
    cases h
    exact ⟨_, rfl⟩
  | cons k ks ih =>
    obtain ⟨_, t, hk, hks⟩ := of_sequence_ok h
    obtain ⟨_, rfl⟩ := of_saveUnlessKnown_ok hk
    obtain ⟨disk, hu⟩ := ih hks
    refine ⟨disk, ?_⟩
    rw [hu]
    dsimp only
    rw [Store.addTopics_disk, List.foldl_cons]

/-- Without files, the topics in front of the first one that is not taken up are left behind. -/
theorem announcements_inMemory {project : String} {ks : List KnownTopic}
    (hp : ∀ k ∈ ks, k.project = project) {r : Router} (hm : r.store.persistent = false) :
    let run := (ks.forM saveUnlessKnown).run.run r
    run.2 = { r with store := (r.store.takenUp ks).foldl Store.addTopic r.store } ∧
      (run.1 = .ok () ↔ ∀ k ∈ ks, r.store.TakesUp k) := by
  induction ks generalizing r with
  | nil => exact ⟨rfl, iff_of_true rfl (List.forall_mem_nil _)⟩
  | cons k ks ih =>
    intro run
    obtain ⟨hk, hks⟩ := List.forall_mem_cons.mp hp
    obtain ⟨hafter, hok⟩ := saveUnlessKnown_inMemory hm k
    have hr : run = _ := run_sequence (saveUnlessKnown k) (fun _ => ks.forM saveUnlessKnown) r
    rw [hr, Store.takenUp_cons, List.forall_mem_cons]
    by_cases ht : r.store.TakesUp k
    · have hproject : ∀ other ∈ ks, other.project = k.project :=
        fun other ho => (hks other ho).trans hk.symm
      have hrun : (saveUnlessKnown k).run.run r =
          (.ok (), { r with store := r.store.addTopic k }) :=
        Prod.ext (hok.mpr ht) (hafter.trans (if_pos ht))
      obtain ⟨hrest, hresult⟩ := ih hks (r := { r with store := r.store.addTopic k })
        ((Store.persistent_addTopic ..).trans hm)
      rw [hrun, if_pos ht]
      refine ⟨?_, ?_⟩
      · refine hrest.trans ?_
        dsimp only
        rw [Store.takenUp_addTopic ht hproject, List.foldl_cons]
      · refine hresult.trans ?_
        simp only [ht, true_and]
        exact forall₂_congr fun other ho => Store.takesUp_addTopic ht (hproject other ho)
    · rw [if_neg ht] at hafter
      rw [if_neg ht]
      rcases hrun : (saveUnlessKnown k).run.run r with ⟨e | a, u⟩
      · rw [hrun] at hafter
        exact ⟨hafter, by simp [ht]⟩
      · rw [hrun] at hok
        exact absurd (hok.mp rfl) ht

/-- The device that registers itself, its topics left out. -/
def announcedDevice (r : Router) (e : Entry) (a : DeviceAnnouncement) : Device :=
  { a.toDevice with
    namespaceName := firstNonempty a.namespaceName e.namespaceName
    project := firstNonempty a.project e.project
    bootTime := some r.now }

def announcedTopics (r : Router) (e : Entry) (a : DeviceAnnouncement) : List KnownTopic :=
  a.toTopics.map (deviceTopic (announcedDevice r e a))

def registeredDevice (r : Router) (e : Entry) (a : DeviceAnnouncement) : Device :=
  { announcedDevice r e a with knownTopics := announcedTopics r e a }

theorem project_announcedTopics {r : Router} {e : Entry} {a : DeviceAnnouncement} :
    ∀ k ∈ announcedTopics r e a, k.project = (announcedDevice r e a).project := by
  intro k hk
  obtain ⟨_, -, rfl⟩ := List.mem_map.mp hk
  rfl

theorem handleReserved_of_device {e : Entry} (hr : isReserved e.topic registerDeviceName = true) :
    handleReserved e = if e.payload.isEmpty then pure () else registerDevice e := by
  have hn : e.topic.isEmpty = false := by
    rw [Bool.eq_false_iff]
    intro he
    rw [String.isEmpty_iff.mp he] at hr
    exact absurd hr (by decide)
  obtain ⟨c, hc⟩ := exists_endsWith hn
  have hlast : c = 'r' := by
    by_contra hne
    rw [isReserved_of_endsWith hc endsWith_registerDeviceName hne] at hr
    cases hr
  rw [hlast] at hc
  have hh := isHeartbeat_of_endsWith hc (by decide) (by decide) (by decide)
  have ht := isReserved_of_endsWith hc endsWith_registerTopicName (by decide)
  simp [handleReserved, hh, ht, hr]

theorem run_registerDevice {e : Entry} {a : DeviceAnnouncement}
    (ha : DeviceAnnouncement.read? e.payload = some a) (r : Router) :
    (registerDevice e).run.run r = ((announcedTopics r e a).forM saveUnlessKnown >>= fun _ =>
      stored (Store.saveDevice (registeredDevice r e a))).run.run r := by
  have hget : (get : HandlerM Router).run.run r = (.ok r, r) := rfl
  unfold registerDevice
  rw [ha]
  exact run_sequence_ok hget

theorem saveDevice_failed {t u : Router} {d : Device} {err : HandlerError}
    (hm : t.store.persistent = false)
    (h : (stored (Store.saveDevice d)).run.run t = (.error err, u)) : u = t := by
  obtain ⟨hafter, hok⟩ := Store.saveDevice_inMemory hm d
  have hne : ¬ t.store.AdmitsDevice d := by
    rw [← hok, ← stored_ok_iff, h]
    exact nofun
  rw [if_neg hne] at hafter
  rw [run_stored, hafter] at h
  exact (Prod.mk.inj h).2.symm

theorem registerDevice_failed {r u : Router} {e : Entry} {a : DeviceAnnouncement} {err : HandlerError}
    (hm : r.store.persistent = false) (ha : DeviceAnnouncement.read? e.payload = some a)
    (h : (registerDevice e).run.run r = (.error err, u)) :
    u = { r with store := (r.store.takenUp (announcedTopics r e a)).foldl Store.addTopic r.store } := by
  obtain ⟨hafter, -⟩ := announcements_inMemory project_announcedTopics hm
  rw [run_registerDevice ha, run_sequence] at h
  rcases hrun : ((announcedTopics r e a).forM saveUnlessKnown).run.run r with ⟨e' | _, t⟩
  · rw [hrun] at h hafter
    cases h
    exact hafter
  · rw [hrun] at h hafter
    dsimp only at h hafter
    have ht : t.store.persistent = false := by
      rw [hafter]
      exact (Store.persistent_addTopics ..).trans hm
    exact (saveDevice_failed ht h).trans hafter

/-- A failed registration leaves the devices as they were. An announcement that cannot be read leaves
everything as it was; otherwise the topics in front of the first one that cannot be saved have been
added, if they were not known, and no others. -/
theorem failed_registration_adds_front {r : Router} {e : Entry} {err : HandlerError}
    (hm : r.store.persistent = false) (hr : isReserved e.topic registerDeviceName = true)
    (h : ((handleReserved e).run.run r).1 = .error err) :
    let u := ((handleReserved e).run.run r).2
    u.store.devices = r.store.devices ∧
      (DeviceAnnouncement.read? e.payload = none → u = r) ∧
      ∀ a, DeviceAnnouncement.read? e.payload = some a → a.macAddress.isEmpty = false →
        ∀ key, u.store.knownTopics.get? key = (r.store.knownTopics.get? key).or
          ((r.store.takenUp (announcedTopics r e a)).find? (knownTopicKey · = key)) := by
  intro u
  have hrun : (registerDevice e).run.run r = (.error err, u) := by
    unfold u
    rw [handleReserved_of_device hr] at h ⊢
    split at h
    · cases h
    · rename_i hp
      rw [if_neg hp]
      exact Prod.ext h rfl
  cases hread : DeviceAnnouncement.read? e.payload with
  | none =>
    have hu : u = r := by
      unfold registerDevice at hrun
      rw [hread] at hrun
      exact (Prod.mk.inj hrun).2.symm
    exact ⟨by rw [hu], fun _ => hu, nofun⟩
  | some a =>
    have hu := registerDevice_failed hm hread hrun
    refine ⟨?_, nofun, ?_⟩
    · rw [hu]
      exact Store.devices_addTopics ..
    · intro b hb _ key
      cases hb
      rw [hu]
      exact Store.get?_addTopics ..

def registration (payload : String) : Entry :=
  .ofMessage ⟨"hub", "garden", registerDeviceName⟩
    ⟨"hub/garden/register_microcontroller", payload, 0, false⟩ (.ofMillis 7)

def namelessBetween : Entry := registration
  "\x7b\"MacAddress\":\"a4\",\"KnownTopics\":[\x7b\"Topic\":\"lamp\"\x7d,\x7b\x7d,\x7b\"Topic\":\"bell\"\x7d]\x7d"

theorem run_namelessBetween : ((handleReserved namelessBetween).run.run (seen ⟨"hub", none, 7⟩)).1 =
    .error (.store (.invalid "known topic" "topic cannot be empty")) := by decide +kernel

theorem lamp_in_front_added :
    (seen ⟨"hub", none, 7⟩).store.persistent = false ∧
      isReserved namelessBetween.topic registerDeviceName = true ∧
      ((handleReserved namelessBetween).run.run (seen ⟨"hub", none, 7⟩)).1 =
        .error (.store (.invalid "known topic" "topic cannot be empty")) ∧
      ((handleReserved namelessBetween).run.run (seen ⟨"hub", none, 7⟩)).2.store.devices =
        (seen ⟨"hub", none, 7⟩).store.devices ∧
      ∀ key, ((((handleReserved namelessBetween).run.run (seen ⟨"hub", none, 7⟩)).2.store.knownTopics.get?
        key).isSome = true ↔ key = "garden/lamp") := by
  have hm : (seen ⟨"hub", none, 7⟩).store.persistent = false := rfl
  have hr : isReserved namelessBetween.topic registerDeviceName = true := by decide +kernel
  have hread : (DeviceAnnouncement.read? namelessBetween.payload).map (fun a =>
      (a.macAddress.isEmpty, ((seen ⟨"hub", none, 7⟩).store.takenUp
        (announcedTopics (seen ⟨"hub", none, 7⟩) namelessBetween a)).map knownTopicKey)) =
      some (false, ["garden/lamp"]) := by decide +kernel
  obtain ⟨a, ha, hfacts⟩ := Option.map_eq_some_iff.mp hread
  obtain ⟨hmac, hkeys⟩ := Prod.mk.inj hfacts
  obtain ⟨k, hk, hkey⟩ := List.map_eq_singleton_iff.mp hkeys
  obtain ⟨hdevices, -, hadded⟩ := failed_registration_adds_front hm hr run_namelessBetween
  refine ⟨hm, hr, run_namelessBetween, hdevices, fun key => ?_⟩
  have hnone : (seen ⟨"hub", none, 7⟩).store.knownTopics.get? key = none := rfl
  rw [hadded a ha hmac key, hnone, Option.none_or, hk, List.find?_isSome]
  simp [hkey, eq_comm]

/-- The device is refused, and its first topic stays. -/
theorem lamp_without_device :
    isReserved namelessBetween.topic registerDeviceName = true ∧
      (seen ⟨"hub", none, 7⟩).store.persistent = false ∧
      ((handleReserved namelessBetween).run.run (seen ⟨"hub", none, 7⟩)).1 =
        .error (.store (.invalid "known topic" "topic cannot be empty")) ∧
      (seen ⟨"hub", none, 7⟩).store.knownTopic? "garden" "lamp" = none ∧
      (((handleReserved namelessBetween).run.run
        (seen ⟨"hub", none, 7⟩)).2.store.knownTopic? "garden" "lamp").isSome = true := by
  decide +kernel

/-- What the device calls a topic that it announces. -/
def nameFor (d : Device) (t : TopicAnnouncement) : String :=
  withoutAddress t.topic d.namespaceName d.project

/-- The known topic says what was announced, and belongs to the device. -/
structure Represents (d : Device) (t : TopicAnnouncement) (k : KnownTopic) : Prop where
  direction : k.direction = Direction.ofWire t.direction
  description : k.description = t.description
  keepHistory : k.keepHistory = t.keepHistory
  sender : k.sender = some d.macAddress
  allowEdit : k.allowEdit = some false
  allowDelete : k.allowDelete = some false

theorem represents_deviceTopic (d : Device) (t : TopicAnnouncement) :
    Represents d t (deviceTopic d t.toKnownTopic) := ⟨rfl, rfl, rfl, rfl, rfl, rfl⟩

theorem announcedTopics_eq (r : Router) (e : Entry) (a : DeviceAnnouncement) :
    announcedTopics r e a = (a.topics.getD []).map fun t =>
      deviceTopic (announcedDevice r e a) t.toKnownTopic := List.map_map

def Retains (s : Store) (r : Router) : Prop :=
  ∀ key k, s.knownTopics.get? key = some k → r.store.knownTopics.get? key = some k

theorem retains_saveUnlessKnown (s : Store) (k : KnownTopic) :
    Carries (Retains s) (saveUnlessKnown k) fun _ => True := by
  intro r h
  refine ⟨?_, fun _ _ => trivial⟩
  rw [run_saveUnlessKnown]
  split
  · exact h
  · split
    · exact h
    · rename_i hn
      obtain ⟨disk, hd⟩ := KnownTopics.after_saveKnownTopic r.store k
      rw [run_stored, hd]
      intro key found hf
      have hkey : key ≠ knownTopicKey k := by
        rintro rfl
        have hsome : r.store.knownTopic? k.project k.topic = some found := h _ _ hf
        rw [hsome] at hn
        exact hn rfl
      dsimp only
      split
      · exact (Table.get?_insert ..).trans ((if_neg hkey).trans (h key found hf))
      · exact h key found hf

theorem retains_saveDevice (s : Store) (d : Device) :
    Carries (Retains s) (stored (Store.saveDevice d)) fun _ => True := by
  apply Carries.storing
  intro r h
  obtain ⟨disk, hd⟩ := Store.after_saveDevice r.store d
  rw [hd]
  exact ⟨h, fun _ _ => trivial⟩

theorem retains_registerDevice (r : Router) (e : Entry) :
    Retains r.store ((registerDevice e).run.run r).2 := by
  have hstart : Retains r.store r := fun _ _ h => h
  cases ha : DeviceAnnouncement.read? e.payload with
  | none =>
    unfold registerDevice
    rw [ha]
    exact hstart
  | some a =>
    rw [run_registerDevice ha]
    have hall : Carries (Retains r.store) ((announcedTopics r e a).forM saveUnlessKnown)
        fun _ => True := Carries.all fun k _ => retains_saveUnlessKnown r.store k
    exact (hall.sequence (fun _ _ => retains_saveDevice r.store _) r hstart).1

structure PlainProjects (s : Store) : Prop where
  keyed : KnownTopics.Keyed s
  plain : ∀ k ∈ s.knownTopics.values, '/' ∉ k.project.toList

/-- Without slashes in projects, a known topic that is found has the name that was looked up. -/
theorem PlainProjects.name_eq {s : Store} (h : PlainProjects s) {project topic : String}
    (hp : '/' ∉ project.toList) {k : KnownTopic} (hk : s.knownTopic? project topic = some k) :
    k.project = project ∧ k.topic = topic := by
  let n : KnownTopics.Name := ⟨project, topic⟩
  have hm := Table.get?_eq_some.mp hk
  have hkey : n.key = (KnownTopics.nameOf k).key := (h.keyed _ hm).1
  rcases KnownTopics.Name.key_eq_iff.mp hkey with hn | ho | ho
  · obtain ⟨hproject, htopic⟩ := KnownTopics.Name.mk.inj hn
    exact ⟨hproject.symm, htopic.symm⟩
  · exact absurd (KnownTopics.Name.slash_of_continuesIn ho).1
      (h.plain k (Table.mem_values.mpr ⟨_, hm⟩))
  · exact absurd (KnownTopics.Name.slash_of_continuesIn ho).1 hp

theorem of_registerDevice_ok {r u : Router} {e : Entry} {a : DeviceAnnouncement}
    (ha : DeviceAnnouncement.read? e.payload = some a)
    (h : (registerDevice e).run.run r = (.ok (), u)) :
    let d := announcedDevice r e a
    u.store.device? a.macAddress = some (registeredDevice r e a) ∧
      ∀ name, u.store.knownTopic? d.project name = (r.store.knownTopic? d.project name).or
        (((a.topics.getD []).find? (nameFor d · = name)).map fun t =>
          deviceTopic d t.toKnownTopic) := by
  intro d
  rw [run_registerDevice ha] at h
  obtain ⟨_, t, ht, hd⟩ := of_sequence_ok h
  obtain ⟨disk, rfl⟩ := of_announcements_ok ht
  obtain ⟨s, hs, rfl⟩ := of_stored_ok hd
  obtain ⟨-, disk', rfl⟩ := Store.of_saveDevice_ok hs
  refine ⟨(Table.get?_insert ..).trans (if_pos rfl), fun name => ?_⟩
  have hkey (t : TopicAnnouncement) : decide (nameFor d t = name) =
      decide (knownTopicKey (deviceTopic d t.toKnownTopic) = Store.topicKey d.project name) :=
    decide_eq_decide.mpr Store.topicKey_inj.symm
  simp only [hkey]
  refine (Store.get?_addTopics ..).trans ?_
  rw [announcedTopics_eq, List.find?_map]
  rfl

/-- A topic that is announced is known afterwards: it was known, or it is what was announced first. -/
theorem known_of_announced {s u : Store} {d : Device} {announced : List TopicAnnouncement}
    (hs : PlainProjects s) (hd : '/' ∉ d.project.toList) {t : TopicAnnouncement} (ht : t ∈ announced)
    (hu : u.knownTopic? d.project (nameFor d t) = (s.knownTopic? d.project (nameFor d t)).or
      ((announced.find? (nameFor d · = nameFor d t)).map fun t => deviceTopic d t.toKnownTopic)) :
    ∃ k, u.knownTopic? d.project (nameFor d t) = some k ∧
      k.project = d.project ∧ k.topic = nameFor d t ∧
      (s.knownTopic? d.project (nameFor d t) = none →
        ∃ first, announced.find? (nameFor d · = nameFor d t) = some first ∧
          Represents d first k) := by
  have hsome : (announced.find? (nameFor d · = nameFor d t)).isSome = true :=
    List.find?_isSome.mpr ⟨t, ht, decide_eq_true rfl⟩
  obtain ⟨first, hfirst⟩ := Option.isSome_iff_exists.mp hsome
  rw [hfirst] at hu
  cases hb : s.knownTopic? d.project (nameFor d t) with
  | some k =>
    rw [hb] at hu
    obtain ⟨hproject, htopic⟩ := hs.name_eq hd hb
    exact ⟨k, hu, hproject, htopic, nofun⟩
  | none =>
    rw [hb] at hu
    have hname : nameFor d first = nameFor d t := by
      simpa using List.find?_some hfirst
    exact ⟨_, hu, rfl, hname, fun _ => ⟨first, hfirst, represents_deviceTopic d first⟩⟩

/-- A registration, whether it succeeds or fails, leaves every known topic as it was. One that succeeds
has every announced topic among the known topics of its project; what was not known is what was
announced first, and the device lists all that was announced. -/
theorem registration_only_adds {r : Router} {e : Entry}
    (hr : isReserved e.topic registerDeviceName = true) :
    let run := (handleReserved e).run.run r
    (∀ key k, r.store.knownTopics.get? key = some k →
        run.2.store.knownTopics.get? key = some k) ∧
      ∀ a, DeviceAnnouncement.read? e.payload = some a → run.1 = .ok () →
        let d := announcedDevice r e a
        let announced := a.topics.getD []
        PlainProjects r.store → '/' ∉ d.project.toList →
          (∀ t ∈ announced, ∃ k, run.2.store.knownTopic? d.project (nameFor d t) = some k ∧
            k.project = d.project ∧ k.topic = nameFor d t ∧
            (r.store.knownTopic? d.project (nameFor d t) = none →
              ∃ first, announced.find? (nameFor d · = nameFor d t) = some first ∧
                Represents d first k)) ∧
          ∃ device, run.2.store.device? a.macAddress = some device ∧
            device.knownTopics.map KnownTopic.topic = announced.map (nameFor d) := by
  intro run
  have hrun : run = _ := congrArg (fun x : HandlerM Unit => x.run.run r) (handleReserved_of_device hr)
  refine ⟨?_, ?_⟩
  · rw [hrun]
    split
    · exact fun _ _ h => h
    · exact retains_registerDevice r e
  · intro a ha hok d announced hs hd
    have hp : ¬ e.payload.isEmpty = true := by
      intro hp
      rw [String.isEmpty_iff.mp hp] at ha
      cases ha
    rw [if_neg hp] at hrun
    have hsucceeds : (registerDevice e).run.run r = (.ok (), run.2) := by
      rw [← hrun]
      exact Prod.ext hok rfl
    obtain ⟨hdevice, hknown⟩ := of_registerDevice_ok ha hsucceeds
    refine ⟨fun t ht => known_of_announced hs hd ht (hknown _), _, hdevice, ?_⟩
    change (announcedTopics r e a).map KnownTopic.topic = _
    rw [announcedTopics_eq, List.map_map]
    rfl

def besideBell : Router :=
  { seen ⟨"hub", none, 7⟩ with
    store := (Store.inMemory .empty).insertKnownTopic (.bare "garden" "bell") }

def lampTwice : Entry := registration
  "\x7b\"MacAddress\":\"a4\",\"KnownTopics\":[\x7b\"Topic\":\"hub/garden/lamp\",\"MessageDirection\":1\x7d,\x7b\"Topic\":\"lamp\"\x7d,\x7b\"Topic\":\"bell\",\"KeepHistory\":true\x7d]\x7d"

theorem plainProjects_besideBell : PlainProjects besideBell.store where
  keyed := KnownTopics.keyed_insert (s := .inMemory .empty) Table.keyedBy_empty _
  plain := by decide

theorem read_lampTwice : (DeviceAnnouncement.read? lampTwice.payload).map (fun a =>
    let d := announcedDevice besideBell lampTwice a
    let announced := a.topics.getD []
    (a.macAddress, d.macAddress, d.project, announced.map (nameFor d),
      (announced.find? (nameFor d · = "lamp")).map fun t => Direction.ofWire t.direction)) =
    some ("a4", "a4", "garden", ["lamp", "lamp", "bell"], some .outbound) := by
  decide +kernel

theorem lamp_added_beside_bell :
    isReserved lampTwice.topic registerDeviceName = true ∧
      ((handleReserved lampTwice).run.run besideBell).1 = .ok () ∧
      ((handleReserved lampTwice).run.run besideBell).2.store.knownTopic? "garden" "bell" =
        some (.bare "garden" "bell") ∧
      (∃ k, ((handleReserved lampTwice).run.run besideBell).2.store.knownTopic? "garden" "lamp" =
        some k ∧ k.direction = .outbound ∧ k.sender = some "a4") ∧
      ∃ device, ((handleReserved lampTwice).run.run besideBell).2.store.device? "a4" = some device ∧
        device.knownTopics.map KnownTopic.topic = ["lamp", "lamp", "bell"] := by
  have hr : isReserved lampTwice.topic registerDeviceName = true := by decide +kernel
  have hok : ((handleReserved lampTwice).run.run besideBell).1 = .ok () := by decide +kernel
  have hbell : besideBell.store.knownTopic? "garden" "bell" = some (.bare "garden" "bell") := by
    decide
  have hdark : besideBell.store.knownTopic? "garden" "lamp" = none := by decide
  obtain ⟨a, ha, hfacts⟩ := Option.map_eq_some_iff.mp read_lampTwice
  dsimp only at hfacts
  simp only [Prod.mk.injEq] at hfacts
  obtain ⟨hmac, hsender, hproject, hnames, hdirection⟩ := hfacts
  obtain ⟨hretained, hadded⟩ := registration_only_adds (r := besideBell) hr
  obtain ⟨hknown, device, hdevice, hlisted⟩ := hadded a ha hok plainProjects_besideBell
    (by rw [hproject]; decide)
  obtain ⟨t, ht, hname⟩ : ∃ t ∈ a.topics.getD [],
      nameFor (announcedDevice besideBell lampTwice a) t = "lamp" :=
    List.mem_map.mp (by rw [hnames]; decide)
  obtain ⟨k, hk, -, -, hnew⟩ := hknown t ht
  rw [hproject, hname] at hk hnew
  obtain ⟨first, hfirst, hrepresents⟩ := hnew hdark
  rw [hfirst] at hdirection
  refine ⟨hr, hok, hretained _ _ hbell, ⟨k, hk, ?_, ?_⟩, device, ?_, hlisted.trans hnames⟩
  · exact hrepresents.direction.trans (Option.some.inj hdirection)
  · rw [hrepresents.sender, hsender]
  · rw [← hmac]
    exact hdevice

end Router

end TopicHub
