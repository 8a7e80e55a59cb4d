import TopicHub.Proofs.Router.Tracking

/-!
Handlers step by step: what comes of a sequence, which steps leave which records alone, and how a
property of the router is carried through a handler together with what is known of its results.
-/

namespace TopicHub

open Persistence

namespace Store

def AdmitsDevice (s : Store) (d : Device) : Prop :=
  .saveDevice ∉ s.outages ∧ d.macAddress.isEmpty = false

instance (s : Store) (d : Device) : Decidable (s.AdmitsDevice d) :=
  inferInstanceAs (Decidable (_ ∧ _))

theorem run_getDevice (macAddress : String) (s : Store) : (getDevice macAddress).run.run s =
    (if .findDevice ∈ s.outages then .error (.invalid StoreAccess.findDevice.name "unavailable")
      else .ok (s.device? macAddress), s) := by
  unfold getDevice
  rw [run_bind, run_ensure]
  by_cases h : .findDevice ∈ s.outages
  · simp only [h, if_true]
  · simp only [h, if_false]
    rfl

theorem run_saveDevice (s : Store) (d : Device) : (saveDevice d).run.run s =
    if .saveDevice ∈ s.outages then
      (.error (.invalid StoreAccess.saveDevice.name "unavailable"), s)
    else if d.macAddress.isEmpty then
      (.error (.invalid "microcontroller" "MAC address cannot be empty"), s)
    else writeDevices.run.run (s.insertDevice d) := by
  by_cases ho : .saveDevice ∈ s.outages
  · unfold saveDevice
    rw [run_bind, run_ensure, if_pos ho, if_pos ho]
  · rw [if_neg ho]
    exact run_save ho d.macAddress.isEmpty
      (.invalid "microcontroller" "MAC address cannot be empty") (insertDevice · d) writeDevices

theorem after_writeDevices (s : Store) :
    ∃ disk, (writeDevices.run.run s).2 = { s with disk } := by
  unfold writeDevices
  rw [run_bind, run_get]
  exact after_write .devices s.devices.values s

theorem after_saveDevice (s : Store) (d : Device) : ∃ disk, ((saveDevice d).run.run s).2 =
    { s with
      devices := if s.AdmitsDevice d then s.devices.insert d.macAddress d else s.devices
      disk } := by
  rw [run_saveDevice]
  by_cases ho : .saveDevice ∈ s.outages
  · refine ⟨s.disk, ?_⟩
    rw [if_pos ho, if_neg fun ha : s.AdmitsDevice d => ha.1 ho]
  · rw [if_neg ho]
    by_cases hi : d.macAddress.isEmpty = true
    · refine ⟨s.disk, ?_⟩
      rw [if_pos hi, if_neg fun ha : s.AdmitsDevice d => Bool.false_ne_true (ha.2.symm.trans hi)]
    · obtain ⟨disk, hd⟩ := after_writeDevices (s.insertDevice d)
      have ha : s.AdmitsDevice d := ⟨ho, Bool.eq_false_iff.mpr hi⟩
      refine ⟨disk, ?_⟩
      rw [if_neg hi, if_pos ha]
      exact hd

theorem of_saveDevice_ok {s u : Store} {d : Device} (h : (saveDevice d).run.run s = (.ok (), u)) :
    s.AdmitsDevice d ∧ ∃ disk, u = { s.insertDevice d with disk } := by
  rw [run_saveDevice] at h
  split at h
  · cases h
  · rename_i ho
    split at h
    · cases h
    · rename_i hi
      obtain ⟨disk, hd⟩ := after_writeDevices (s.insertDevice d)
      rw [h] at hd
      exact ⟨⟨ho, Bool.eq_false_iff.mpr hi⟩, disk, hd⟩

end Store

namespace Router

theorem run_sequence {α β : Type} (x : HandlerM α) (f : α → HandlerM β) (r : Router) :
    (x >>= f).run.run r = match x.run.run r with
      | (.ok a, u) => (f a).run.run u
      | (.error e, u) => (.error e, u) := by
  rw [ExceptT.run_bind, StateT.run_bind]
  rcases x.run.run r with ⟨e | a, u⟩ <;> rfl

theorem run_sequence_ok {α β : Type} {x : HandlerM α} {f : α → HandlerM β} {r u : Router} {a : α}
    (h : x.run.run r = (.ok a, u)) : (x >>= f).run.run r = (f a).run.run u := by
  rw [run_sequence, h]

theorem run_stored {α : Type} (x : StoreM α) (r : Router) : (stored x).run.run r =
    ((x.run.run r.store).1.mapError .store, { r with store := (x.run.run r.store).2 }) := by
  have hl : (liftM (onStore x) : HandlerM (Except StoreError α)).run.run r =
      (.ok (x.run.run r.store).1, { r with store := (x.run.run r.store).2 }) := rfl
  unfold stored
  rw [run_sequence, hl]
  dsimp only
  rcases x.run.run r.store with ⟨e | a, s⟩ <;> rfl

theorem of_sequence_ok {α β : Type} {x : HandlerM α} {f : α → HandlerM β} {r u : Router} {b : β}
    (h : (x >>= f).run.run r = (.ok b, u)) :
    ∃ a t, x.run.run r = (.ok a, t) ∧ (f a).run.run t = (.ok b, u) := by
  rw [run_sequence] at h
  rcases hx : x.run.run r with ⟨e | a, t⟩
  · rw [hx] at h
    cases h
  · rw [hx] at h
    exact ⟨a, t, rfl, h⟩

theorem of_stored_ok {α : Type} {x : StoreM α} {r u : Router} {a : α}
    (h : (stored x).run.run r = (.ok a, u)) :
    ∃ s, x.run.run r.store = (.ok a, s) ∧ u = { r with store := s } := by
  rw [run_stored] at h
  rcases hx : x.run.run r.store with ⟨e | b, s⟩
  · rw [hx] at h
    cases h
  · rw [hx] at h
    cases h
    exact ⟨s, rfl, rfl⟩

theorem of_publish_ok {m : OutboundMessage} {r u : Router} (h : (publish m).run.run r = (.ok (), u)) :
    u = { r with outbound :=
      { r.outbound with sent := r.outbound.sent ++ [⟨r.outbound.clock, m⟩] } } := by
  rw [run_publish] at h
  cases hp : r.outbound.publish m with
  | error e =>
    rw [hp] at h
    cases h
  | ok o =>
    rw [hp] at h
    cases h
    rw [Outbound.publish_ok hp]

/-- A property of the router is kept, whatever comes of it, and results have another property. -/
def Carries (P : Router → Prop) {α : Type} (x : HandlerM α) (Q : α → Prop) : Prop :=
  ∀ r, P r → P (x.run.run r).2 ∧ ∀ a, (x.run.run r).1 = .ok a → Q a

namespace Carries

variable {P : Router → Prop} {α β : Type}

theorem value {Q : α → Prop} {a : α} (h : Q a) : Carries P (pure a) Q := by
  intro r hr
  refine ⟨hr, fun b hb => ?_⟩
  cases hb
  exact h

theorem failure (e : HandlerError) (Q : α → Prop) : Carries P (throw e : HandlerM α) Q :=
  fun _ hr => ⟨hr, fun _ hb => by cases hb⟩

theorem sequence {x : HandlerM α} {f : α → HandlerM β} {Q : α → Prop} {R : β → Prop}
    (hx : Carries P x Q) (hf : ∀ a, Q a → Carries P (f a) R) : Carries P (x >>= f) R := by
  intro r hr
  have h := hx r hr
  rw [run_sequence]
  rcases hrun : x.run.run r with ⟨e | a, u⟩
  · rw [hrun] at h
    exact ⟨h.1, fun _ hb => by cases hb⟩
  · rw [hrun] at h
    exact hf a (h.2 a rfl) u h.1

theorem reading {k : Router → HandlerM β} {R : β → Prop} (h : ∀ r, P r → Carries P (k r) R) :
    Carries P (get >>= k) R := by
  intro r hr
  rw [run_sequence]
  exact h r hr r hr

theorem storing {x : StoreM α} {Q : α → Prop} (h : ∀ r : Router, P r →
    P { r with store := (x.run.run r.store).2 } ∧ ∀ a, (x.run.run r.store).1 = .ok a → Q a) :
    Carries P (stored x) Q := by
  intro r hr
  rw [run_stored]
  refine ⟨(h r hr).1, fun a ha => (h r hr).2 a ?_⟩
  rcases hx : (x.run.run r.store).1 with e | b
  · rw [hx] at ha
    cases ha
  · rw [hx] at ha
    cases ha
    rfl

theorem all {f : α → HandlerM Unit} {as : List α} (h : ∀ a ∈ as, Carries P (f a) fun _ => True) :
    Carries P (as.forM f) fun _ => True := by
  induction as with
  | nil => exact value trivial
  | cons a as ih =>
    apply sequence (h a (List.mem_cons_self ..))
    intro _ _
    exact ih fun b hb => h b (List.mem_cons_of_mem _ hb)

end Carries

theorem Carries.of_store {S : Store → Prop} {α : Type} {x : HandlerM α}
    (hx : Preserves Router.store x.run) : Carries (fun r => S r.store) x fun _ => True := by
  intro r h
  exact ⟨Eq.mpr (congrArg S (hx r)) h, fun _ _ => trivial⟩

theorem Carries.and {P R : Router → Prop} {α : Type} {x : HandlerM α} {Q : α → Prop}
    (hp : Carries P x Q) (hr : Carries R x fun _ => True) : Carries (fun r => P r ∧ R r) x Q :=
  fun r h => ⟨⟨(hp r h.1).1, (hr r h.2).1⟩, (hp r h.1).2⟩

theorem firstNonempty_isEmpty {fallback : String} (h : fallback.isEmpty = false) (s : String) :
    (firstNonempty s fallback).isEmpty = false := by
  unfold firstNonempty
  split
  · exact h
  · rename_i hs
    exact Bool.eq_false_iff.mpr hs

/-- It is kept when a known topic is saved, and when a device that has a project is. -/
structure Steady (P : Router → Prop) : Prop where
  saveKnownTopic : ∀ k, Carries P (stored (Store.saveKnownTopic k)) fun _ => True
  saveDevice : ∀ d : Device, d.project.isEmpty = false →
    Carries P (stored (Store.saveDevice d)) fun _ => True

namespace Steady

variable {P : Router → Prop}

theorem and {R : Router → Prop} (hp : Steady P) (hr : Steady R) : Steady fun r => P r ∧ R r :=
  ⟨fun k => (hp.saveKnownTopic k).and (hr.saveKnownTopic k),
    fun d hd => (hp.saveDevice d hd).and (hr.saveDevice d hd)⟩

theorem registerTopic (h : Steady P) (e : Entry) :
    Carries P (Router.registerTopic e) fun _ => True := by
  unfold Router.registerTopic
  split
  · exact Carries.failure _ _
  · exact h.saveKnownTopic _

theorem saveUnlessKnown (h : Steady P) (k : KnownTopic) :
    Carries P (Router.saveUnlessKnown k) fun _ => True := by
  have hfind : Carries P (stored (Store.getKnownTopic k.project k.topic)) fun _ => True := by
    apply Carries.storing
    intro r hr
    rw [KnownTopics.run_getKnownTopic]
    exact ⟨hr, fun _ _ => trivial⟩
  apply Carries.sequence hfind
  intro known _
  split
  · exact h.saveKnownTopic k
  · exact Carries.value trivial

theorem registerDevice (h : Steady P) {e : Entry} (he : e.project.isEmpty = false) :
    Carries P (Router.registerDevice e) fun _ => True := by
  unfold Router.registerDevice
  split
  · exact Carries.failure _ _
  · rename_i a _
    apply Carries.reading
    intro r _
    apply Carries.sequence (Carries.all fun k _ => h.saveUnlessKnown k)
    intro _ _
    exact h.saveDevice _ (firstNonempty_isEmpty he a.project)

theorem handleReserved (h : Steady P) {e : Entry} (he : e.project.isEmpty = false)
    (ha : Carries P (acknowledge e) fun _ => True) :
    Carries P (Router.handleReserved e) fun _ => True := by
  unfold Router.handleReserved
  split
  · exact Carries.value trivial
  · split
    · exact ha
    · split
      · exact h.registerTopic e
      · split
        · exact h.registerDevice he
        · exact Carries.value trivial

end Steady

theorem track_cases (r : Router) (e : Entry) : (track e).run r = (e, r) ∨
    ∃ k, r.store.knownTopic? e.project e.topic = some k ∧
      (track e).run r = (described e k, { r with store := noting r.store k e }) := by
  by_cases hf : .findKnownTopic ∈ r.store.outages
  · left
    unfold track
    rw [StateT.run_bind, run_onStore, KnownTopics.run_getKnownTopic, if_pos hf]
    rfl
  · rw [run_track hf]
    cases r.store.knownTopic? e.project e.topic with
    | none => exact Or.inl rfl
    | some k => exact Or.inr ⟨k, rfl, rfl⟩

/-- A message for a known topic changes the known topic and its history, and what is on the disk. -/
theorem noting_eq (s : Store) (k : KnownTopic) (e : Entry) : ∃ histories historyChanged disk,
    noting s k e = { s with
      knownTopics := if KnownTopics.Admits s (refreshed k e) then
        (s.insertKnownTopic (refreshed k e)).knownTopics else s.knownTopics
      histories, historyChanged, disk } := by
  have hs (t : Store) : ∃ disk, ((Store.saveKnownTopic (refreshed k e)).run.run t).2 = _ :=
    KnownTopics.after_saveKnownTopic t (refreshed k e)
  unfold noting
  split
  · rw [KnownTopics.after_appendHistory]
    split
    · obtain ⟨disk, hd⟩ := hs s
      exact ⟨_, _, disk, hd⟩
    · obtain ⟨disk, hd⟩ := hs { s.pushHistory (historyOf e) with historyChanged := true }
      exact ⟨_, _, disk, hd⟩
  · obtain ⟨disk, hd⟩ := hs s
    exact ⟨_, _, disk, hd⟩

end Router

end TopicHub
