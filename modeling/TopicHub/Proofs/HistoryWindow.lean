import Mathlib.Data.List.Sort
import TopicHub.Proofs.Ends
import TopicHub.Proofs.Files
import TopicHub.Proofs.Rules
import TopicHub.Proofs.Splitting

/-!
The history of a topic is a window over what was ever appended for it. What is appended, over all
restarts, is kept beside the store; the histories in the store are determined by it, and so are those
on the disk once they have been flushed.
-/

namespace TopicHub

namespace Table

theorem ext_get? {α : Type} {t u : Table α} (h : ∀ key, t.get? key = u.get? key) : t = u := by
  have hm : ∀ e, e ∈ t.entries ↔ e ∈ u.entries := by
    rintro ⟨key, value⟩
    rw [← get?_eq_some, ← get?_eq_some, h key]
  have hi : Std.Irrefl fun a b : String × α => a.1 < b.1 := ⟨fun a => String.lt_irrefl a.1⟩
  have ha : Std.Antisymm fun a b : String × α => a.1 < b.1 :=
    ⟨fun a _ hab hba => absurd (String.lt_trans hab hba) (String.lt_irrefl a.1)⟩
  have he : t.entries = u.entries := List.Pairwise.eq_of_mem_iff t.ordered u.ordered hm
  cases t
  cases u
  cases he
  rfl

theorem filter_flatten {α : Type} {key : α → String} {entries : List (String × List α)}
    (ho : entries.Pairwise fun a b => a.1 < b.1) (hk : ∀ e ∈ entries, ∀ a ∈ e.2, key a = e.1)
    (k : String) : (entries.map Prod.snd).flatten.filter (key · = k) =
      (Json.lookup? k entries).getD [] := by
  induction entries with
  | nil => rfl
  | cons e entries ih =>
    obtain ⟨hf, hr⟩ := List.pairwise_cons.mp ho
    have hi := ih hr fun d hd => hk d (List.mem_cons_of_mem _ hd)
    have he := hk e (List.mem_cons_self ..)
    rw [List.map_cons, List.flatten_cons, List.filter_append, hi, Json.lookup?]
    by_cases h : e.1 = k
    · have hall : e.2.filter (key · = k) = e.2 :=
        List.filter_eq_self.mpr fun a ha => decide_eq_true ((he a ha).trans h)
      -- The keys ascend, so none of the later lists has that key again.
      have hnone : Json.lookup? k entries = none := by
        by_contra hs
        obtain ⟨v, hv⟩ := Option.ne_none_iff_exists'.mp hs
        have hlt : e.1 < k := hf (k, v) (mem_of_lookup? hv)
        exact String.lt_irrefl k (h ▸ hlt)
      rw [if_pos h, hall, hnone]
      exact List.append_nil _
    · have hno : e.2.filter (key · = k) = [] :=
        List.filter_eq_nil_iff.mpr fun a ha => by
          rw [he a ha]
          exact fun hd => h (of_decide_eq_true hd)
      rw [if_neg h, hno]
      rfl

end Table

namespace Instant

theorem le_trans (a b c : Instant) (hab : a.le b = true) (hbc : b.le c = true) : a.le c = true := by
  unfold le at *
  simp only [Bool.or_eq_true, Bool.and_eq_true, decide_eq_true_eq] at *
  omega

theorem le_total (a b : Instant) : (a.le b || b.le a) = true := by
  unfold le
  simp only [Bool.or_eq_true, Bool.and_eq_true, decide_eq_true_eq]
  omega

end Instant

namespace HistoryWindow

open Store

theorem filter_mergeSort {α : Type} {le : α → α → Bool}
    (ht : ∀ a b c, le a b = true → le b c = true → le a c = true)
    (hl : ∀ a b, (le a b || le b a) = true) {p : α → Bool} {as : List α}
    (h : (as.filter p).Pairwise fun a b => le a b = true) :
    (as.mergeSort le).filter p = as.filter p := by
  have hs : ((as.filter p).filter p).Sublist ((as.mergeSort le).filter p) :=
    (List.sublist_mergeSort ht hl h List.filter_sublist).filter p
  rw [List.filter_filter] at hs
  simp only [Bool.and_self] at hs
  exact (hs.eq_of_length ((List.mergeSort_perm as le).filter p).length_eq.symm).symm

theorem recent_append (limit : Nat) (as bs : List HistoryEntry) :
    recent limit (recent limit as ++ bs) = recent limit (as ++ bs) :=
  Ends.rtake_append limit as bs

theorem recent_recent (limit : Nat) (as : List HistoryEntry) :
    recent limit (recent limit as) = recent limit as := by
  have h := recent_append limit as []
  rw [List.append_nil, List.append_nil] at h
  exact h

theorem recent_ne_nil {limit : Nat} (hl : 0 < limit) {as : List HistoryEntry} (h : as ≠ []) :
    recent limit as ≠ [] := by
  have := List.length_pos_iff.mpr h
  unfold recent
  rw [ne_eq, List.drop_eq_nil_iff]
  omega

def keyOf (e : HistoryEntry) : String := topicKey e.project e.topic

/-- What is kept of the entries with that key. -/
def window (limit : Nat) (entries : List HistoryEntry) (key : String) : List HistoryEntry :=
  recent limit (entries.filter (keyOf · = key))

theorem window_sublist (limit : Nat) (entries : List HistoryEntry) (key : String) :
    (window limit entries key).Sublist (entries.filter (keyOf · = key)) := List.drop_sublist ..

theorem mem_window {limit : Nat} {entries : List HistoryEntry} {key : String} {e : HistoryEntry}
    (h : e ∈ window limit entries key) : e ∈ entries ∧ keyOf e = key := by
  obtain ⟨he, hk⟩ := List.mem_filter.mp ((window_sublist limit entries key).subset h)
  exact ⟨he, of_decide_eq_true hk⟩

/-- The histories are the windows over these entries. -/
def Holds (limit : Nat) (entries : List HistoryEntry) (t : Table (List HistoryEntry)) : Prop :=
  ∀ key, t.get? key =
    if window limit entries key = [] then none else some (window limit entries key)

variable {limit : Nat} {entries : List HistoryEntry}

theorem holds_empty (limit : Nat) : Holds limit [] .empty := by
  intro key
  have hw : window limit [] key = [] := List.drop_nil
  rw [if_pos hw]
  rfl

theorem Holds.getD {t : Table (List HistoryEntry)} (h : Holds limit entries t) (key : String) :
    (t.get? key).getD [] = window limit entries key := by
  rw [h key]
  split
  · rename_i hw
    exact hw.symm
  · rfl

theorem Holds.of_mem {t : Table (List HistoryEntry)} (h : Holds limit entries t)
    {e : String × List HistoryEntry} (he : e ∈ t.entries) : e.2 = window limit entries e.1 := by
  have hg := h.getD e.1
  rw [Table.get?_eq_some.mpr he] at hg
  exact hg

theorem holds_push {s : Store} (hl : 0 < s.historyLimit)
    (h : Holds s.historyLimit entries s.histories) (e : HistoryEntry) :
    Holds s.historyLimit (entries ++ [e]) (s.pushHistory e).histories := by
  intro key
  have hg : (s.pushHistory e).histories.get? key = if key = keyOf e
      then some (recent s.historyLimit (s.history e.project e.topic ++ [e]))
      else s.histories.get? key := Table.get?_insert ..
  rw [hg]
  by_cases hk : key = keyOf e
  · have hw : window s.historyLimit (entries ++ [e]) key =
        recent s.historyLimit (s.history e.project e.topic ++ [e]) := by
      have hh : s.history e.project e.topic = window s.historyLimit entries key := by
        rw [hk]
        exact h.getD (keyOf e)
      have he : [e].filter (keyOf · = key) = [e] :=
        List.filter_eq_self.mpr fun a ha => by
          rw [List.mem_singleton.mp ha]
          exact decide_eq_true hk.symm
      rw [hh]
      unfold window
      rw [recent_append, List.filter_append, he]
    rw [if_pos hk, hw, if_neg (recent_ne_nil hl (by simp))]
  · have hw : window s.historyLimit (entries ++ [e]) key = window s.historyLimit entries key := by
      have he : [e].filter (keyOf · = key) = [] :=
        List.filter_eq_nil_iff.mpr fun a ha => by
          rw [List.mem_singleton.mp ha]
          exact fun hd => hk (of_decide_eq_true hd).symm
      unfold window
      rw [List.filter_append, he, List.append_nil]
    rw [if_neg hk, hw, h key]

theorem holds_pushAll {s : Store} (hl : 0 < s.historyLimit)
    (h : Holds s.historyLimit entries s.histories) (more : List HistoryEntry) :
    Holds s.historyLimit (entries ++ more) (more.foldl pushHistory s).histories := by
  induction more generalizing s entries with
  | nil =>
    rw [List.append_nil]
    exact h
  | cons e more ih =>
    have hi := ih (s := s.pushHistory e) hl (holds_push hl h e)
    rw [List.append_assoc] at hi
    exact hi

theorem Holds.unique {others : List HistoryEntry} {t u : Table (List HistoryEntry)}
    (h : Holds limit entries t) (hu : Holds limit others u)
    (hw : ∀ key, window limit others key = window limit entries key) : u = t := by
  apply Table.ext_get?
  intro key
  rw [hu key, hw key, h key]

/-- All histories in one list are, for each key, its window. -/
theorem Holds.filter_allHistory {s : Store} (h : Holds limit entries s.histories)
    (ho : entries.Pairwise fun d e => d.received.le e.received = true) (key : String) :
    s.allHistory.filter (keyOf · = key) = window limit entries key := by
  have hf : s.histories.values.flatten.filter (keyOf · = key) = window limit entries key := by
    rw [← h.getD key]
    apply Table.filter_flatten s.histories.ordered
    intro e he d hd
    rw [h.of_mem he] at hd
    exact (mem_window hd).2
  unfold allHistory
  rw [← hf]
  apply filter_mergeSort
  · exact fun a b c => Instant.le_trans a.received b.received c.received
  · exact fun a b => Instant.le_total a.received b.received
  rw [hf]
  exact ho.sublist ((window_sublist ..).trans List.filter_sublist)

theorem Holds.mem_of_allHistory {s : Store} (h : Holds limit entries s.histories)
    {e : HistoryEntry} (he : e ∈ s.allHistory) : e ∈ entries := by
  obtain ⟨entry, hm, he⟩ := mem_allHistory.mp he
  rw [h.of_mem hm] at he
  exact (mem_window he).1

/-- A store over all restarts, with what was ever appended. -/
structure Course where
  store : Store
  appended : List HistoryEntry
  /-- Whether nothing was appended since histories were last flushed, and that did not fail. -/
  flushed : Bool

inductive Event where
  | append (e : HistoryEntry)
  | flush
  | disturb (w : Disturbance)
  | restart

/-- Payloads are appended as they are received, and a restart follows a successful flush. -/
def Allowed (c : Course) : Event → Prop
  | .append e => e.Fits ∧ '/' ∉ e.project.toList ∧
      ∀ d ∈ c.appended, d.received.le e.received = true
  | .restart => c.flushed = true
  | _ => True

def next (limit : Nat) (c : Course) : Event → Course
  | .append e => ⟨((appendHistory e).run.run c.store).2, c.appended ++ [e], false⟩
  | .flush =>
    { c with
      store := (flushHistory.run.run c.store).2
      flushed := (flushHistory.run.run c.store).1.isOk }
  | .disturb w => { c with store := ((Store.disturb w).run.run c.store).2 }
  | .restart => { c with store := (loadAll.run.run (onDisk c.store.disk limit)).2 }

inductive Reached (disk : Disk) (limit : Nat) : Course → Prop where
  | start : Reached disk limit ⟨onDisk disk limit, [], true⟩
  | step {c : Course} {e : Event} (h : Reached disk limit c) (ha : Allowed c e) :
    Reached disk limit (next limit c e)

structure Readable (disk : Disk) : Prop where
  rules : ∃ rules, disk.stored .rules = .ok rules
  knownTopics : ∃ known, disk.stored .knownTopics = .ok known
  devices : ∃ devices, disk.stored .devices = .ok devices

structure Invariant (limit : Nat) (c : Course) : Prop where
  persistent : c.store.persistent = true
  accepting : c.store.outages = []
  capacity : c.store.historyLimit = max limit 1
  readable : Readable c.store.disk
  fits : ∀ e ∈ c.appended, e.Fits
  plain : ∀ e ∈ c.appended, '/' ∉ e.project.toList
  timely : c.appended.Pairwise fun d e => d.received.le e.received = true
  holds : Holds (max limit 1) c.appended c.store.histories
  written : c.store.historyChanged = false →
    c.store.disk.stored .histories = .ok c.store.allHistory
  flushed : c.flushed = true → c.store.historyChanged = false

variable {c : Course}

theorem Readable.congr {d e : Disk} (h : Readable d)
    (hs : ∀ name ∈ Disk.recordNames, name ≠ RecordFile.histories.name → e.read? name = d.read? name) :
    Readable e := by
  have hf {α : Type} (f : RecordFile α) (hn : f.name ∈ Disk.recordNames)
      (hne : f.name ≠ RecordFile.histories.name) : e.stored f = d.stored f :=
    Disk.stored_congr f (hs f.name hn hne)
  refine ⟨?_, ?_, ?_⟩
  · rw [hf .rules (by decide) (by decide)]
    exact h.rules
  · rw [hf .knownTopics (by decide) (by decide)]
    exact h.knownTopics
  · rw [hf .devices (by decide) (by decide)]
    exact h.devices

theorem invariant_append (h : Invariant limit c) {e : HistoryEntry} (ha : Allowed c (.append e)) :
    Invariant limit (next limit c (.append e)) := by
  obtain ⟨hf, hp, ht⟩ := ha
  have hr := run_appendHistory (s := c.store) (by rw [h.accepting]; exact List.not_mem_nil) e
  rw [next, hr]
  have hl : 0 < c.store.historyLimit := by
    rw [h.capacity]
    omega
  have hh := holds_push hl (h.capacity ▸ h.holds) e
  rw [h.capacity] at hh
  have hall {P : HistoryEntry → Prop} (hs : ∀ d ∈ c.appended, P d) (he : P e) :
      ∀ d ∈ c.appended ++ [e], P d :=
    List.forall_mem_append.mpr ⟨hs, List.forall_mem_singleton.mpr he⟩
  refine ⟨h.persistent, h.accepting, h.capacity, h.readable, hall h.fits hf, hall h.plain hp, ?_, hh,
    (fun hc => by cases hc), (fun hc => by cases hc)⟩
  exact List.pairwise_append.mpr ⟨h.timely, List.pairwise_singleton .., fun d hd b hb => by
    rw [List.mem_singleton.mp hb]
    exact ht d hd⟩

/-- A flush that fails changes nothing. One that does not leaves the histories on the disk. -/
theorem flush_cases (h : Invariant limit c) :
    (∃ e, flushHistory.run.run c.store = (.error e, c.store)) ∨
      ∃ u, flushHistory.run.run c.store = (.ok (), u) ∧
        Invariant limit { c with store := u, flushed := true } ∧
        u.histories = c.store.histories ∧ u.historyChanged = false := by
  have hr := run_flushHistory h.persistent
  cases hc : c.store.historyChanged with
  | false =>
    rw [hc, if_neg Bool.false_ne_true] at hr
    exact .inr ⟨c.store, hr, ⟨h.persistent, h.accepting, h.capacity, h.readable, h.fits, h.plain,
      h.timely, h.holds, h.written, fun _ => hc⟩, rfl, hc⟩
  | true =>
    rw [hc, if_pos rfl] at hr
    cases hd : c.store.disk.replace? RecordFile.histories.name
        (RecordFile.histories.text c.store.allHistory) with
    | none =>
      rw [hd] at hr
      exact .inl ⟨_, hr⟩
    | some disk =>
      rw [hd] at hr
      have hreadable : Readable disk := h.readable.congr fun name hn hne =>
        Disk.read?_replace_record hd (by decide) hn hne
      have hw : disk.stored .histories = .ok c.store.allHistory :=
        Disk.stored_replaced hd fun e he =>
          HistoryEntry.readsBack (h.fits e (h.holds.mem_of_allHistory he))
      exact .inr ⟨_, hr, ⟨h.persistent, h.accepting, h.capacity, hreadable, h.fits, h.plain,
        h.timely, h.holds, fun _ => hw, fun _ => rfl⟩, rfl, rfl⟩

theorem invariant_flush (h : Invariant limit c) : Invariant limit (next limit c .flush) := by
  rw [next]
  rcases flush_cases h with ⟨e, hr⟩ | ⟨u, hr, hi, -⟩
  · rw [hr]
    exact ⟨h.persistent, h.accepting, h.capacity, h.readable, h.fits, h.plain, h.timely, h.holds,
      h.written, fun hf => by cases hf⟩
  · rw [hr]
    exact hi

theorem invariant_disturb (h : Invariant limit c) (w : Disturbance) :
    Invariant limit (next limit c (.disturb w)) := by
  have hreadable : Readable (w.act c.store.disk) :=
    h.readable.congr fun name hn _ => w.keeps c.store.disk name hn
  refine ⟨h.persistent, h.accepting, h.capacity, hreadable, h.fits, h.plain, h.timely, h.holds, ?_,
    h.flushed⟩
  intro hc
  exact (stored_disturbed (by decide) w c.store.disk).trans (h.written hc)

/-- What loading does not touch. -/
def settings (s : Store) : Bool × List StoreAccess × Nat × Bool × Disk :=
  (s.persistent, s.outages, s.historyLimit, s.historyChanged, s.disk)

theorem settings_withLoaded (s : Store) (rules : List Rule) (known : List KnownTopic)
    (entries : List HistoryEntry) (devices : List Device) :
    settings (s.withLoaded rules known entries devices) = settings s := by
  unfold withLoaded
  rw [foldl_same settings insertDevice fun _ _ => rfl, foldl_same settings pushHistory fun _ _ => rfl,
    foldl_same settings insertKnownTopic fun _ _ => rfl, foldl_same settings insertRule fun _ _ => rfl]

theorem holds_withLoaded (disk : Disk) (limit : Nat) (rules : List Rule) (known : List KnownTopic)
    (entries : List HistoryEntry) (devices : List Device) :
    Holds (max limit 1) entries
      ((onDisk disk limit).withLoaded rules known entries devices).histories := by
  -- Rules and known topics come first, and neither they nor the devices have a part in histories.
  let view : Store → Table (List HistoryEntry) × Nat := fun s => (s.histories, s.historyLimit)
  have hview := (foldl_same view insertKnownTopic (fun _ _ => rfl) known
    (rules.foldl insertRule (onDisk disk limit))).trans
      (foldl_same view insertRule (fun _ _ => rfl) rules (onDisk disk limit))
  unfold withLoaded
  rw [foldl_same Store.histories insertDevice fun _ _ => rfl]
  generalize known.foldl insertKnownTopic (rules.foldl insertRule (onDisk disk limit)) = s at hview
  obtain ⟨hh, hl⟩ : s.histories = .empty ∧ s.historyLimit = max limit 1 := Prod.mk.inj hview
  have hpos : 0 < s.historyLimit := by omega
  have hp := holds_pushAll hpos (hh ▸ holds_empty s.historyLimit) entries
  rw [hl] at hp
  exact hp

theorem restart_cases (h : Invariant limit c) (hc : c.store.historyChanged = false) :
    ∃ u, loadAll.run.run (onDisk c.store.disk limit) = (.ok (), u) ∧
      Invariant limit { c with store := u } ∧ u.histories = c.store.histories := by
  obtain ⟨rules, hr⟩ := h.readable.rules
  obtain ⟨known, hk⟩ := h.readable.knownTopics
  obtain ⟨devices, hd⟩ := h.readable.devices
  have hw := h.written hc
  have hrun := run_loadAll (s := onDisk c.store.disk limit) rfl hr hk hw hd
  have hs := settings_withLoaded (onDisk c.store.disk limit) rules known c.store.allHistory devices
  have hl := holds_withLoaded c.store.disk limit rules known c.store.allHistory devices
  generalize (onDisk c.store.disk limit).withLoaded rules known c.store.allHistory devices = u
    at hrun hs hl
  simp only [settings, Prod.mk.injEq] at hs
  obtain ⟨hp, ho, hlim, hch, hdisk⟩ := hs
  replace hdisk : u.disk = c.store.disk := hdisk
  -- What is loaded is in the order of receipt over all topics, with every topic in its own order.
  have hsame : u.histories = c.store.histories := by
    apply h.holds.unique hl
    intro key
    unfold window
    rw [h.holds.filter_allHistory h.timely]
    exact recent_recent ..
  have hall : u.allHistory = c.store.allHistory := by
    unfold allHistory
    rw [hsame]
  refine ⟨u, hrun, ⟨hp, ho, hlim, hdisk ▸ h.readable, h.fits, h.plain, h.timely, hsame ▸ h.holds, ?_,
    fun _ => hch⟩, hsame⟩
  intro _
  change u.disk.stored .histories = _
  rw [hdisk, hw]
  exact congrArg _ hall.symm

theorem invariant_restart (h : Invariant limit c) (ha : Allowed c .restart) :
    Invariant limit (next limit c .restart) := by
  obtain ⟨u, hr, hi, -⟩ := restart_cases h (h.flushed ha)
  rw [next, hr]
  exact hi

theorem invariant_start {disk : Disk} (hr : Readable disk)
    (hh : disk.stored .histories = .ok []) (limit : Nat) :
    Invariant limit ⟨onDisk disk limit, [], true⟩ :=
  ⟨rfl, rfl, rfl, hr, List.forall_mem_nil _, List.forall_mem_nil _, .nil, holds_empty _,
    fun _ => hh.trans (congrArg _ List.mergeSort_nil.symm), fun _ => rfl⟩

theorem invariant_reached {disk : Disk} (hr : Readable disk) (hh : disk.stored .histories = .ok [])
    (h : Reached disk limit c) : Invariant limit c := by
  induction h with
  | start => exact invariant_start hr hh limit
  | @step c e _ ha ih =>
    cases e with
    | append e => exact invariant_append ih ha
    | flush => exact invariant_flush ih
    | disturb w => exact invariant_disturb ih w
    | restart => exact invariant_restart ih ha

theorem topicKey_inj {p q t u : String} (hp : '/' ∉ p.toList) (hq : '/' ∉ q.toList) :
    topicKey p t = topicKey q u ↔ p = q ∧ t = u :=
  Text.joined_inj hp hq

def isAbout (project topic : String) (e : HistoryEntry) : Bool :=
  e.project = project && e.topic = topic

theorem filter_key {es : List HistoryEntry} (he : ∀ e ∈ es, '/' ∉ e.project.toList)
    {project topic : String} (hp : '/' ∉ project.toList) :
    es.filter (keyOf · = topicKey project topic) = es.filter (isAbout project topic) := by
  apply List.filter_congr
  intro e hm
  rw [keyOf, isAbout, decide_eq_decide.mpr (topicKey_inj (he e hm) hp), Bool.decide_and]

/-- The history of a topic is what was last appended for it, however often the store was restarted
and whatever flushes failed. Whenever a flush succeeds, the disk holds all histories, and a restart
would load them. -/
theorem history_is_sliding_window {disk : Disk} {limit : Nat} (hr : Readable disk)
    (hh : disk.stored .histories = .ok []) {c : Course} (h : Reached disk limit c)
    {project topic : String} (hp : '/' ∉ project.toList) :
    let last := (c.appended.filter (isAbout project topic)).rtake (max limit 1)
    c.store.history project topic = last ∧
      ∀ u, flushHistory.run.run c.store = (.ok (), u) →
        u.history project topic = last ∧
          u.disk.stored .histories = .ok u.allHistory ∧
          u.allHistory.filter (isAbout project topic) = last ∧
          ∃ v, loadAll.run.run (onDisk u.disk limit) = (.ok (), v) ∧
            v.history project topic = last := by
  have hi := invariant_reached hr hh h
  have hw : window (max limit 1) c.appended (topicKey project topic) =
      (c.appended.filter (isAbout project topic)).rtake (max limit 1) := by
    rw [← filter_key hi.plain hp]
    rfl
  have hhistory : c.store.history project topic =
      (c.appended.filter (isAbout project topic)).rtake (max limit 1) :=
    (hi.holds.getD _).trans hw
  refine ⟨hhistory, ?_⟩
  intro u hu
  rcases flush_cases hi with ⟨e, he⟩ | ⟨t, ht, hti, hsame, hc⟩
  · rw [he] at hu
    cases hu
  · rw [ht] at hu
    cases hu
    have hplain : ∀ e ∈ u.allHistory, '/' ∉ e.project.toList :=
      fun e he => hi.plain e (hti.holds.mem_of_allHistory he)
    obtain ⟨v, hv, -, hvs⟩ := restart_cases hti hc
    have hhist {w : Store} (hs : w.histories = c.store.histories) :
        w.history project topic = c.store.history project topic := by
      unfold history
      rw [hs]
    refine ⟨(hhist hsame).trans hhistory, hti.written hc, ?_, v, hv,
      (hhist (hvs.trans hsame)).trans hhistory⟩
    rw [← filter_key hplain hp, ← hw]
    exact hti.holds.filter_allHistory hti.timely _

/-- A flush fails, the next one does not, and after the restart the last two payloads are there. -/
theorem two_payloads_after_restart :
    let entry (topic payload : String) (seconds : Int) : HistoryEntry :=
      ⟨"p", topic, some payload, ⟨seconds, 0⟩⟩
    ∃ c : Course, Reached .empty 2 c ∧
      c.appended = [entry "t" "1" 10, entry "u" "x" 10, entry "t" "2" 10, entry "t" "3" 11] ∧
      c.store.history "p" "t" = [entry "t" "2" 10, entry "t" "3" 11] ∧
      c.store.history "p" "u" = [entry "u" "x" 10] := by
  intro entry
  have hproper : (⟨10, 0⟩ : Instant).Proper ∧ (⟨11, 0⟩ : Instant).Proper := ⟨by decide, by decide⟩
  have h₁ := @Reached.start .empty 2
    |>.step (e := .append (entry "t" "1" 10)) ⟨hproper.1, by decide, by decide⟩
    |>.step (e := .append (entry "u" "x" 10)) ⟨hproper.1, by decide, by decide⟩
    |>.step (e := .disturb .refuse) trivial
    |>.step (e := .flush) trivial
  have h₂ := h₁.step (e := .append (entry "t" "2" 10)) ⟨hproper.1, by decide, by decide⟩
    |>.step (e := .append (entry "t" "3" 11)) ⟨hproper.2, by decide, by decide⟩
    |>.step (e := .disturb .accept) trivial
    |>.step (e := .flush) trivial
    |>.step (e := .restart) rfl
  have hr : Readable .empty := ⟨⟨[], rfl⟩, ⟨[], rfl⟩, ⟨[], rfl⟩⟩
  refine ⟨_, h₂, rfl, ?_, ?_⟩
  · exact (history_is_sliding_window hr rfl h₂ (by decide)).1
  · exact (history_is_sliding_window hr rfl h₂ (by decide)).1

end HistoryWindow

end TopicHub
