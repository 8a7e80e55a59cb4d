import TopicHub.Proofs.Files
import TopicHub.Proofs.Rules

/-!
Records survive on the disk. Whatever writings fail, the rules, known topics and devices in memory are
those that were asked for, and once all of them have been written, a new store that loads the disk
holds the same ones. A writing that fails makes no difference to what is loaded.
-/

namespace TopicHub

namespace Table

variable {α : Type} {key : α → String} {P : α → Prop}

def KeyedBy (key : α → String) (P : α → Prop) (t : Table α) : Prop :=
  ∀ e ∈ t.entries, e.1 = key e.2 ∧ P e.2

theorem keyedBy_empty : (empty : Table α).KeyedBy key P := by
  intro e he
  cases he

theorem keyedBy_insert {t : Table α} (h : t.KeyedBy key P) {v : α} (hv : P v) :
    (t.insert (key v) v).KeyedBy key P := by
  intro e he
  rcases eq_or_mem_of_mem_insertInto he with rfl | hm
  · exact ⟨rfl, hv⟩
  · exact h e hm

theorem keyedBy_erase {t : Table α} (h : t.KeyedBy key P) (k : String) :
    (t.erase k).KeyedBy key P := by
  intro e he
  exact h e (List.mem_filter.mp he).1

theorem of_mem_values {t : Table α} (h : t.KeyedBy key P) {v : α} (hv : v ∈ t.values) : P v := by
  obtain ⟨k, hk⟩ := mem_values.mp hv
  exact (h (k, v) hk).2

theorem insertInto_last {k : String} {v : α} {entries : List (String × α)}
    (h : ∀ e ∈ entries, e.1 < k) : insertInto k v entries = entries ++ [(k, v)] := by
  induction entries with
  | nil => rfl
  | cons e entries ih =>
    have he := h e (List.mem_cons_self ..)
    have hn : ¬ k < e.1 := fun hk => String.lt_irrefl k (String.lt_trans hk he)
    have hne : k ≠ e.1 := (String.ne_of_lt he).symm
    rw [insertInto, if_neg hn, if_neg hne, ih fun d hd => h d (List.mem_cons_of_mem _ hd)]
    rfl

theorem entries_insertAll {t : Table α} {entries : List (String × α)}
    (ho : (t.entries ++ entries).Pairwise fun a b => a.1 < b.1)
    (hk : ∀ e ∈ entries, e.1 = key e.2) :
    (t.insertAll key (entries.map Prod.snd)).entries = t.entries ++ entries := by
  -- The table holds what came before, and everything that is still to come is behind it.
  induction entries generalizing t with
  | nil => exact (List.append_nil _).symm
  | cons e entries ih =>
    have hl : ∀ d ∈ t.entries, d.1 < key e.2 := by
      intro d hd
      rw [← hk e (List.mem_cons_self ..)]
      exact (List.pairwise_append.mp ho).2.2 d hd e (List.mem_cons_self ..)
    have hi : (t.insert (key e.2) e.2).entries = t.entries ++ [e] := by
      have he : (key e.2, e.2) = e := Prod.ext (hk e (List.mem_cons_self ..)).symm rfl
      exact (insertInto_last hl).trans (by rw [he])
    have hr := ih (t := t.insert (key e.2) e.2) (by rw [hi, List.append_assoc]; exact ho)
      fun d hd => hk d (List.mem_cons_of_mem _ hd)
    rw [hi, List.append_assoc] at hr
    exact hr

theorem eq_of_entries {t u : Table α} (h : t.entries = u.entries) : t = u := by
  cases t
  cases u
  cases h
  rfl

theorem insertAll_values {t : Table α} (h : t.KeyedBy key P) :
    (empty : Table α).insertAll key t.values = t :=
  eq_of_entries (entries_insertAll (t := empty) t.ordered fun e he => (h e he).1)

end Table

namespace Persistence

open Store

/-- One thing that is done to the records or to the disk that they are kept on. Writing everything
takes four writings, and the disk may be disturbed before each of them. -/
inductive Change where
  | insertRule (r : Rule)
  | saveRule (r : Rule)
  | removeRule (id : String)
  | writeRules
  | insertKnownTopic (k : KnownTopic)
  | saveKnownTopic (k : KnownTopic)
  | removeKnownTopic (project topic : String)
  | writeKnownTopics
  | saveDevice (d : Device)
  | writeDevices
  | appendHistory (e : HistoryEntry)
  | flushHistory
  | persist (w x y z : Disturbance)
  | disturb (w : Disturbance)

/-- Writing everything, on a disk that is disturbed before each writing. -/
def persistAmid (w x y z : Disturbance) : StoreM Unit := do
  Store.disturb w
  Store.writeRules
  Store.disturb x
  Store.writeKnownTopics
  Store.disturb y
  Store.flushHistory
  Store.disturb z
  Store.writeDevices

theorem persistAmid_calm : persistAmid .calm .calm .calm .calm = Store.persist := by
  have hc : Store.disturb .calm = pure () := rfl
  unfold persistAmid Store.persist
  simp only [hc, pure_bind]

namespace Change

def run : Change → StoreM Unit
  | insertRule r => modify (Store.insertRule · r)
  | saveRule r => Store.saveRule r
  | removeRule id => modify (Store.removeRule · id)
  | writeRules => Store.writeRules
  | insertKnownTopic k => modify (Store.insertKnownTopic · k)
  | saveKnownTopic k => Store.saveKnownTopic k
  | removeKnownTopic project topic => modify (Store.removeKnownTopic · project topic)
  | writeKnownTopics => Store.writeKnownTopics
  | saveDevice d => Store.saveDevice d
  | writeDevices => Store.writeDevices
  | appendHistory e => Store.appendHistory e
  | flushHistory => Store.flushHistory
  | persist w x y z => persistAmid w x y z
  | disturb w => Store.disturb w

def Fits : Change → Prop
  | insertRule r => r.Fits
  | saveRule r => r.Fits
  | insertKnownTopic k => k.Fits
  | saveKnownTopic k => k.Fits
  | saveDevice d => d.Fits
  | appendHistory e => e.Fits
  | _ => True

def apply (s : Store) (c : Change) : Store := (c.run.run.run s).2

end Change

/-- The records that are asked for. -/
structure Holdings where
  rules : Table Rule
  knownTopics : Table KnownTopic
  devices : Table Device

def holdings (s : Store) : Holdings := ⟨s.rules, s.knownTopics, s.devices⟩

def knownTopicKey (k : KnownTopic) : String := topicKey k.project k.topic

/-- What a change asks for. Records without a name are refused. -/
def Holdings.after (h : Holdings) : Change → Holdings
  | .insertRule r => { h with rules := h.rules.insert r.id r }
  | .saveRule r => if r.id.isEmpty then h else { h with rules := h.rules.insert r.id r }
  | .removeRule id => { h with rules := h.rules.erase id }
  | .insertKnownTopic k => { h with knownTopics := h.knownTopics.insert (knownTopicKey k) k }
  | .saveKnownTopic k =>
    if k.topic.isEmpty then h else { h with knownTopics := h.knownTopics.insert (knownTopicKey k) k }
  | .removeKnownTopic project topic =>
    { h with knownTopics := h.knownTopics.erase (topicKey project topic) }
  | .saveDevice d =>
    if d.macAddress.isEmpty then h else { h with devices := h.devices.insert d.macAddress d }
  | _ => h

def HistoriesReadable (disk : Disk) : Prop := ∃ entries, disk.stored .histories = .ok entries

/-- The records stand under their keys and can be written, and the histories on the disk can be read
if those on the first disk could. -/
structure Intact (start : Disk) (s : Store) : Prop where
  persistent : s.persistent = true
  accepting : s.outages = []
  rules : s.rules.KeyedBy Rule.id Rule.Fits
  knownTopics : s.knownTopics.KeyedBy knownTopicKey KnownTopic.Fits
  devices : s.devices.KeyedBy Device.macAddress Device.Fits
  histories : ∀ entry ∈ s.histories.entries, ∀ e ∈ entry.2, e.Fits
  readable : HistoriesReadable start → HistoriesReadable s.disk

variable {start : Disk}

def Keeps {α : Type} (x : StoreM α) : Prop :=
  ∀ start s, Intact start s → Intact start (x.run.run s).2 ∧ holdings (x.run.run s).2 = holdings s

theorem keeps_bind {α β : Type} {x : StoreM α} {f : α → StoreM β} (hx : Keeps x)
    (hf : ∀ a, Keeps (f a)) : Keeps (x >>= f) := by
  intro start s h
  obtain ⟨hi, hh⟩ := hx start s h
  rw [run_bind]
  rcases hr : x.run.run s with ⟨e | a, u⟩
  · rw [hr] at hi hh
    exact ⟨hi, hh⟩
  · rw [hr] at hi hh
    obtain ⟨hj, hk⟩ := hf a start u hi
    exact ⟨hj, hk.trans hh⟩

theorem Intact.onDisk {s : Store} (h : Intact start s) {disk : Disk}
    (hr : HistoriesReadable start → HistoriesReadable disk) : Intact start { s with disk } :=
  ⟨h.persistent, h.accepting, h.rules, h.knownTopics, h.devices, h.histories, hr⟩

theorem keeps_disturb (w : Disturbance) : Keeps (Store.disturb w) := by
  intro start s h
  rw [run_disturb]
  refine ⟨h.onDisk ?_, rfl⟩
  unfold HistoriesReadable
  rw [Disk.stored_congr _ (w.keeps s.disk RecordFile.histories.name (by decide))]
  exact h.readable

theorem keeps_write {α : Type} {f : RecordFile α} (hf : f.name ∈ Disk.recordNames)
    (hn : RecordFile.histories.name ≠ f.name) (records : List α) : Keeps (write f records) := by
  intro start s h
  rw [run_write_persistent f records h.persistent]
  cases hd : s.disk.replace? f.name (f.text records) with
  | none => exact ⟨h, rfl⟩
  | some disk =>
    refine ⟨h.onDisk ?_, rfl⟩
    unfold HistoriesReadable
    rw [Disk.stored_congr _ (Disk.read?_replace_record hd hf (by decide) hn)]
    exact h.readable

theorem keeps_get {α : Type} {x : Store → StoreM α} (h : ∀ s, Keeps (x s)) :
    Keeps (do x (← get)) := fun start s hs => h s start s hs

theorem keeps_writeRules : Keeps Store.writeRules :=
  keeps_get fun s => keeps_write (by decide) (by decide) s.rules.values

theorem keeps_writeKnownTopics : Keeps Store.writeKnownTopics :=
  keeps_get fun s => keeps_write (by decide) (by decide) s.knownTopics.values

theorem keeps_writeDevices : Keeps Store.writeDevices :=
  keeps_get fun s => keeps_write (by decide) (by decide) s.devices.values

theorem fits_of_mem_allHistory {s : Store} (h : Intact start s) : ∀ e ∈ s.allHistory, e.Fits := by
  intro e he
  obtain ⟨entry, hm, he⟩ := mem_allHistory.mp he
  exact h.histories entry hm e he

theorem keeps_flushHistory : Keeps Store.flushHistory := by
  intro start s h
  rw [run_flushHistory h.persistent]
  split
  · cases hd : s.disk.replace? RecordFile.histories.name
        (RecordFile.histories.text s.allHistory) with
    | none => exact ⟨h, rfl⟩
    | some disk =>
      have hr : disk.stored .histories = .ok s.allHistory := Disk.stored_replaced hd fun e he =>
        HistoryEntry.readsBack (fits_of_mem_allHistory h e he)
      have hi := h.onDisk fun _ => ⟨_, hr⟩
      exact ⟨⟨hi.persistent, hi.accepting, hi.rules, hi.knownTopics, hi.devices, hi.histories,
        hi.readable⟩, rfl⟩
  · exact ⟨h, rfl⟩

theorem keeps_persistAmid (w x y z : Disturbance) : Keeps (persistAmid w x y z) := by
  apply keeps_bind (keeps_disturb w)
  intro _
  apply keeps_bind keeps_writeRules
  intro _
  apply keeps_bind (keeps_disturb x)
  intro _
  apply keeps_bind keeps_writeKnownTopics
  intro _
  apply keeps_bind (keeps_disturb y)
  intro _
  apply keeps_bind keeps_flushHistory
  intro _
  exact keeps_bind (keeps_disturb z) fun _ => keeps_writeDevices

theorem Intact.insertRule {s : Store} (h : Intact start s) {r : Rule} (hr : r.Fits) :
    Intact start (s.insertRule r) :=
  ⟨h.persistent, h.accepting, Table.keyedBy_insert h.rules hr, h.knownTopics, h.devices, h.histories,
    h.readable⟩

theorem Intact.insertKnownTopic {s : Store} (h : Intact start s) {k : KnownTopic} (hk : k.Fits) :
    Intact start (s.insertKnownTopic k) :=
  ⟨h.persistent, h.accepting, h.rules, Table.keyedBy_insert h.knownTopics hk, h.devices, h.histories,
    h.readable⟩

theorem Intact.insertDevice {s : Store} (h : Intact start s) {d : Device} (hd : d.Fits) :
    Intact start (s.insertDevice d) :=
  ⟨h.persistent, h.accepting, h.rules, h.knownTopics, Table.keyedBy_insert h.devices hd, h.histories,
    h.readable⟩

theorem mem_history {s : Store} {project topic : String} {e : HistoryEntry}
    (he : e ∈ s.history project topic) :
    ∃ entries, (topicKey project topic, entries) ∈ s.histories.entries ∧ e ∈ entries := by
  unfold history at he
  cases hg : s.histories.get? (topicKey project topic) with
  | none =>
    rw [hg] at he
    cases he
  | some entries =>
    rw [hg] at he
    exact ⟨entries, Table.get?_eq_some.mp hg, he⟩

theorem Intact.pushHistory {s : Store} (h : Intact start s) {e : HistoryEntry} (he : e.Fits) :
    Intact start (s.pushHistory e) := by
  refine ⟨h.persistent, h.accepting, h.rules, h.knownTopics, h.devices, ?_, h.readable⟩
  intro entry hm d hd
  rcases Table.eq_or_mem_of_mem_insertInto hm with rfl | hm
  · have hd := List.mem_of_mem_drop hd
    rcases List.mem_append.mp hd with hd | hd
    · obtain ⟨entries, hs, hd⟩ := mem_history hd
      exact h.histories _ hs d hd
    · rw [List.mem_singleton.mp hd]
      exact he
  · exact h.histories entry hm d hd

/-- What a save leaves: the record is refused, or it is in the store whether it was written or not. -/
theorem intact_save {a : StoreAccess} {s : Store} (h : Intact start s) (refused : Bool) (e : StoreError)
    (g : Store → Store) (hg : Intact start (g s)) {next : StoreM Unit} (hn : Keeps next) :
    let u := ((do
      ensure a
      if refused then throw e
      modify g
      next : StoreM Unit).run.run s).2
    Intact start u ∧ holdings u = if refused then holdings s else holdings (g s) := by
  have ha : a ∉ s.outages := by
    rw [h.accepting]
    exact List.not_mem_nil
  dsimp only
  rw [run_save ha]
  cases refused with
  | true => exact ⟨h, rfl⟩
  | false => exact hn start (g s) hg

/-- A change leaves the store intact and does to the records what it asks for. -/
theorem apply_intact {s : Store} (h : Intact start s) {c : Change} (hc : c.Fits) :
    Intact start (c.apply s) ∧ holdings (c.apply s) = (holdings s).after c := by
  cases c with
  | insertRule r => exact ⟨h.insertRule hc, rfl⟩
  | saveRule r =>
    exact intact_save h r.id.isEmpty (.invalid "rule" "rule id cannot be empty")
      (Store.insertRule · r) (h.insertRule hc) keeps_writeRules
  | removeRule id =>
    exact ⟨⟨h.persistent, h.accepting, Table.keyedBy_erase h.rules id, h.knownTopics, h.devices,
      h.histories, h.readable⟩, rfl⟩
  | writeRules => exact keeps_writeRules start s h
  | insertKnownTopic k => exact ⟨h.insertKnownTopic hc, rfl⟩
  | saveKnownTopic k =>
    exact intact_save h k.topic.isEmpty (.invalid "known topic" "topic cannot be empty")
      (Store.insertKnownTopic · k) (h.insertKnownTopic hc) keeps_writeKnownTopics
  | removeKnownTopic project topic =>
    exact ⟨⟨h.persistent, h.accepting, h.rules, Table.keyedBy_erase h.knownTopics _, h.devices,
      h.histories, h.readable⟩, rfl⟩
  | writeKnownTopics => exact keeps_writeKnownTopics start s h
  | saveDevice d =>
    exact intact_save h d.macAddress.isEmpty
      (.invalid "microcontroller" "MAC address cannot be empty") (Store.insertDevice · d)
      (h.insertDevice hc) keeps_writeDevices
  | writeDevices => exact keeps_writeDevices start s h
  | appendHistory e =>
    have hi := h.pushHistory hc
    have hr := run_appendHistory (by rw [h.accepting]; exact List.not_mem_nil) e
    change Intact start ((Store.appendHistory e).run.run s).2 ∧
      holdings ((Store.appendHistory e).run.run s).2 = holdings s
    rw [hr]
    exact ⟨⟨hi.persistent, hi.accepting, hi.rules, hi.knownTopics, hi.devices, hi.histories,
      hi.readable⟩, rfl⟩
  | flushHistory => exact keeps_flushHistory start s h
  | persist w x y z => exact keeps_persistAmid w x y z start s h
  | disturb w => exact keeps_disturb w start s h

theorem run_intact {s : Store} (h : Intact start s) {changes : List Change} (hc : ∀ c ∈ changes, c.Fits) :
    Intact start (changes.foldl Change.apply s) ∧
      holdings (changes.foldl Change.apply s) =
        changes.foldl Holdings.after (holdings s) := by
  induction changes generalizing s with
  | nil => exact ⟨h, rfl⟩
  | cons c changes ih =>
    obtain ⟨hi, hh⟩ := apply_intact h (hc c (List.mem_cons_self ..))
    obtain ⟨hj, hk⟩ := ih hi fun d hd => hc d (List.mem_cons_of_mem _ hd)
    refine ⟨hj, ?_⟩
    rw [List.foldl_cons, List.foldl_cons, ← hh]
    exact hk

/-- It leaves the records of that file on the disk as they are. -/
def Spares {α β : Type} (f : RecordFile α) (x : StoreM β) : Prop :=
  ∀ start s, Intact start s → (x.run.run s).2.disk.stored f = s.disk.stored f

theorem spares_bind {α β γ : Type} {f : RecordFile α} {x : StoreM β} {g : β → StoreM γ}
    (hk : Keeps x) (hx : Spares f x) (hg : ∀ a, Spares f (g a)) : Spares f (x >>= g) := by
  intro start s h
  have hi := (hk start s h).1
  have hs := hx start s h
  rw [run_bind]
  rcases hr : x.run.run s with ⟨e | a, u⟩
  · rw [hr] at hs
    exact hs
  · rw [hr] at hi hs
    exact (hg a start u hi).trans hs

theorem spares_disturb {α : Type} {f : RecordFile α} (hf : f.name ∈ Disk.recordNames)
    (w : Disturbance) : Spares f (Store.disturb w) := fun _ s _ => stored_disturbed hf w s.disk

theorem spares_flushHistory {α : Type} {f : RecordFile α} (hf : f.name ∈ Disk.recordNames)
    (hn : f.name ≠ RecordFile.histories.name) : Spares f Store.flushHistory :=
  fun _ _ h => stored_flushed hf hn h.persistent

theorem spares_write {α β : Type} {f : RecordFile α} {g : RecordFile β}
    (hf : f.name ∈ Disk.recordNames) (hg : g.name ∈ Disk.recordNames) (hn : f.name ≠ g.name)
    (records : Store → List β) : Spares f (do write g (records (← get))) := by
  intro start s h
  rw [run_bind, run_get]
  dsimp only
  rw [run_write_persistent _ _ h.persistent]
  cases hd : s.disk.replace? g.name (g.text (records s)) with
  | none => rfl
  | some disk => exact Disk.stored_congr f (Disk.read?_replace_record hd hg hf hn)

def Writes {α : Type} (f : RecordFile α) (records : Holdings → List α) (x : StoreM Unit) : Prop :=
  ∀ start s u, Intact start s → x.run.run s = (.ok (), u) →
    u.disk.stored f = .ok (records (holdings s))

theorem writes_write {α : Type} {f : RecordFile α} (records : Holdings → List α)
    (hr : ∀ start s, Intact start s → ∀ a ∈ records (holdings s),
      Json.ReadsBack f.toJson f.ofRaw? a) :
    Writes f records (do write f (records (holdings (← get)))) := by
  intro start s u h hu
  rw [run_bind, run_get] at hu
  exact stored_of_write h.persistent (hr start s h) hu

theorem writes_rules : Writes .rules (·.rules.values) Store.writeRules :=
  writes_write (·.rules.values) fun _ _ h _ hr => Rule.readsBack (Table.of_mem_values h.rules hr)

theorem writes_knownTopics : Writes .knownTopics (·.knownTopics.values) Store.writeKnownTopics :=
  writes_write (·.knownTopics.values) fun _ _ h _ hk =>
    KnownTopic.readsBack (Table.of_mem_values h.knownTopics hk)

theorem writes_devices : Writes .devices (·.devices.values) Store.writeDevices :=
  writes_write (·.devices.values) fun _ _ h _ hd =>
    Device.readsBack (Table.of_mem_values h.devices hd)

theorem Keeps.of_run {α : Type} {x : StoreM α} (hx : Keeps x) {s u : Store} (h : Intact start s)
    {r : Except StoreError α} (hr : x.run.run s = (r, u)) : Intact start u ∧ holdings u = holdings s := by
  have hk := hx start s h
  rw [hr] at hk
  exact hk

theorem Spares.of_run {α β : Type} {f : RecordFile α} {x : StoreM β} (hx : Spares f x) {s u : Store}
    (h : Intact start s) {r : Except StoreError β} (hr : x.run.run s = (r, u)) :
    u.disk.stored f = s.disk.stored f := by
  have hs := hx start s h
  rw [hr] at hs
  exact hs

/-- What is written in the midst of a sequence is on the disk in the end if the rest spares it. -/
theorem Writes.then {α : Type} {f : RecordFile α} {records : Holdings → List α}
    {x rest : StoreM Unit} (hx : Writes f records x) (hk : Keeps x) (hs : Spares f rest)
    {w : Disturbance} {s u : Store} (h : Intact start s)
    (hu : (do
      Store.disturb w
      x
      rest : StoreM Unit).run.run s = (.ok (), u)) :
    u.disk.stored f = .ok (records (holdings s)) ∧
      ∃ t, Intact start t ∧ holdings t = holdings s ∧ rest.run.run t = (.ok (), u) := by
  obtain ⟨_, s₁, h₁, hu⟩ := of_bind_ok hu
  obtain ⟨i₁, e₁⟩ := (keeps_disturb w).of_run h h₁
  obtain ⟨_, s₂, h₂, hu⟩ := of_bind_ok hu
  obtain ⟨i₂, e₂⟩ := hk.of_run i₁ h₂
  refine ⟨?_, s₂, i₂, e₂.trans e₁, hu⟩
  rw [hs.of_run i₂ hu, ← e₁]
  exact hx start s₁ s₂ i₁ h₂

theorem stored_of_persisted {w x y z : Disturbance} {s u : Store} (h : Intact start s)
    (hu : (persistAmid w x y z).run.run s = (.ok (), u)) :
    u.disk.stored .rules = .ok s.rules.values ∧
      u.disk.stored .knownTopics = .ok s.knownTopics.values ∧
      u.disk.stored .devices = .ok s.devices.values := by
  have hlater {α : Type} {f : RecordFile α} (hf : f.name ∈ Disk.recordNames)
      (hn : f.name ≠ RecordFile.histories.name) (hd : f.name ≠ RecordFile.devices.name) :
      Spares f (do
        Store.disturb y
        Store.flushHistory
        Store.disturb z
        Store.writeDevices) :=
    spares_bind (keeps_disturb y) (spares_disturb hf y) fun _ =>
      spares_bind keeps_flushHistory (spares_flushHistory hf hn) fun _ =>
        spares_bind (keeps_disturb z) (spares_disturb hf z) fun _ =>
          spares_write hf (by decide) hd (·.devices.values)
  have hrules : Spares .rules (do
      Store.disturb x
      Store.writeKnownTopics
      Store.disturb y
      Store.flushHistory
      Store.disturb z
      Store.writeDevices) :=
    spares_bind (keeps_disturb x) (spares_disturb (by decide) x) fun _ =>
      spares_bind keeps_writeKnownTopics
        (spares_write (by decide) (by decide) (by decide) (·.knownTopics.values)) fun _ =>
        hlater (by decide) (by decide) (by decide)
  obtain ⟨hr, s₁, i₁, e₁, hu⟩ := writes_rules.then keeps_writeRules hrules h hu
  obtain ⟨hk, s₂, i₂, e₂, hu⟩ := writes_knownTopics.then keeps_writeKnownTopics
    (hlater (by decide) (by decide) (by decide)) i₁ hu
  obtain ⟨_, s₃, h₃, hu⟩ := of_bind_ok hu
  obtain ⟨i₃, e₃⟩ := (keeps_disturb y).of_run i₂ h₃
  obtain ⟨_, s₄, h₄, hu⟩ := of_bind_ok hu
  obtain ⟨i₄, e₄⟩ := keeps_flushHistory.of_run i₃ h₄
  obtain ⟨_, s₅, h₅, hu⟩ := of_bind_ok hu
  obtain ⟨i₅, e₅⟩ := (keeps_disturb z).of_run i₄ h₅
  have hd := writes_devices start s₅ u i₅ hu
  -- No step has touched the records in memory, so the last file says what the first store holds.
  have he : holdings s₅ = holdings s := e₅.trans (e₄.trans (e₃.trans (e₂.trans e₁)))
  rw [e₁] at hk
  rw [he] at hd
  exact ⟨hr, hk, hd⟩

theorem holdings_insertRules (rules : List Rule) (s : Store) : holdings (rules.foldl insertRule s) =
    ⟨(holdings s).rules.insertAll Rule.id rules, (holdings s).knownTopics, (holdings s).devices⟩ := by
  induction rules generalizing s with
  | nil => rfl
  | cons r rules ih => exact ih (s.insertRule r)

theorem holdings_insertKnownTopics (known : List KnownTopic) (s : Store) :
    holdings (known.foldl insertKnownTopic s) =
      ⟨(holdings s).rules, (holdings s).knownTopics.insertAll knownTopicKey known,
        (holdings s).devices⟩ := by
  induction known generalizing s with
  | nil => rfl
  | cons k known ih => exact ih (s.insertKnownTopic k)

theorem holdings_pushHistories (entries : List HistoryEntry) (s : Store) :
    holdings (entries.foldl pushHistory s) = holdings s := by
  induction entries generalizing s with
  | nil => rfl
  | cons e entries ih => exact ih (s.pushHistory e)

theorem holdings_insertDevices (devices : List Device) (s : Store) :
    holdings (devices.foldl insertDevice s) =
      ⟨(holdings s).rules, (holdings s).knownTopics,
        (holdings s).devices.insertAll Device.macAddress devices⟩ := by
  induction devices generalizing s with
  | nil => rfl
  | cons d devices ih => exact ih (s.insertDevice d)

theorem holdings_withLoaded (disk : Disk) (limit : Nat) (rules : List Rule)
    (known : List KnownTopic) (entries : List HistoryEntry) (devices : List Device) :
    holdings ((onDisk disk limit).withLoaded rules known entries devices) =
      ⟨Table.empty.insertAll Rule.id rules, Table.empty.insertAll knownTopicKey known,
        Table.empty.insertAll Device.macAddress devices⟩ := by
  unfold withLoaded
  rw [holdings_insertDevices, holdings_pushHistories, holdings_insertKnownTopics,
    holdings_insertRules]
  rfl

theorem loaded_of_persisted {w x y z : Disturbance} {s u : Store} (h : Intact start s)
    (hu : (persistAmid w x y z).run.run s = (.ok (), u)) (limit : Nat) :
    (HistoriesReadable start → ∃ v, loadAll.run.run (Store.onDisk u.disk limit) = (.ok (), v)) ∧
      ∀ v, loadAll.run.run (Store.onDisk u.disk limit) = (.ok (), v) → holdings v = holdings s := by
  obtain ⟨hr, hk, hd⟩ := stored_of_persisted h hu
  -- Histories are not written if they have not changed, and then what was there is what is loaded.
  have hload {entries : List HistoryEntry} (he : u.disk.stored .histories = .ok entries) :=
    run_loadAll (s := Store.onDisk u.disk limit) rfl hr hk he hd
  refine ⟨?_, ?_⟩
  · intro hs
    obtain ⟨entries, he⟩ := ((keeps_persistAmid w x y z).of_run h hu).1.readable hs
    exact ⟨_, hload he⟩
  · intro v hv
    cases he : u.disk.stored .histories with
    | error e =>
      rw [run_loadAll_unreadable (s := Store.onDisk u.disk limit) rfl hr hk he] at hv
      cases hv
    | ok entries =>
      rw [hload he] at hv
      cases hv
      rw [holdings_withLoaded, Table.insertAll_values h.rules, Table.insertAll_values h.knownTopics,
        Table.insertAll_values h.devices]
      rfl

theorem intact_load {α : Type} {f : RecordFile α} {P : α → Prop}
    (hf : ∀ d a, f.ofRaw? d = some a → P a) {s : Store} (h : Intact start s)
    {rest : List α → StoreM Unit}
    (hn : ∀ as, (∀ a ∈ as, P a) → Intact start ((rest as).run.run s).2) :
    Intact start ((load f >>= rest).run.run s).2 := by
  have hl := run_load_persistent f h.persistent
  cases hs : s.disk.stored f with
  | error e =>
    rw [run_bind_error (hl.trans (by rw [hs]))]
    exact h
  | ok as =>
    rw [run_bind_ok (hl.trans (by rw [hs]))]
    apply hn
    unfold Disk.stored at hs
    split at hs
    · cases hs
      exact fun a ha => absurd ha List.not_mem_nil
    · exact f.of_read hs hf

theorem intact_foldl {α : Type} {P : α → Prop} {g : Store → α → Store}
    (hg : ∀ s a, Intact start s → P a → Intact start (g s a)) {as : List α} (hp : ∀ a ∈ as, P a)
    {s : Store} (h : Intact start s) : Intact start (as.foldl g s) := by
  induction as generalizing s with
  | nil => exact h
  | cons a as ih =>
    exact ih (fun b hb => hp b (List.mem_cons_of_mem _ hb)) (hg s a h (hp a (List.mem_cons_self ..)))

inductive Opened (disk : Disk) (limit : Nat) : Store → Prop where
  | fresh : Opened disk limit (Store.onDisk disk limit)
  | loaded : Opened disk limit (loadAll.run.run (Store.onDisk disk limit)).2

theorem intact_fresh (disk : Disk) (limit : Nat) : Intact disk (Store.onDisk disk limit) :=
  ⟨rfl, rfl, Table.keyedBy_empty, Table.keyedBy_empty, Table.keyedBy_empty,
    fun _ he => absurd he List.not_mem_nil, id⟩

theorem intact_opened {disk : Disk} {limit : Nat} {s : Store} (h : Opened disk limit s) :
    Intact disk s := by
  cases h with
  | fresh => exact intact_fresh disk limit
  | loaded =>
    apply intact_load (f := .rules) Rule.fits_of_read (intact_fresh disk limit)
    intro rules hr
    have h₁ := intact_foldl (P := Rule.Fits) (fun _ _ h hr => h.insertRule hr) hr (intact_fresh disk limit)
    rw [run_bind_ok (run_modify _ _)]
    apply intact_load (f := .knownTopics) KnownTopic.fits_of_read h₁
    intro known hk
    have h₂ := intact_foldl (P := KnownTopic.Fits) (fun _ _ h hk => h.insertKnownTopic hk) hk h₁
    rw [run_bind_ok (run_modify _ _)]
    apply intact_load (f := .histories) HistoryEntry.fits_of_read h₂
    intro entries he
    have h₃ := intact_foldl (P := HistoryEntry.Fits) (fun _ _ h he => h.pushHistory he) he h₂
    rw [run_bind_ok (run_modify _ _)]
    apply intact_load (f := .devices) Device.fits_of_read h₃
    intro devices hd
    exact intact_foldl (P := Device.Fits) (fun _ _ h hd => h.insertDevice hd) hd h₃

/-- It succeeds on a disk that accepts writings, and the disk goes on to do so. -/
def Succeeds (x : StoreM Unit) : Prop := ∀ s, s.persistent = true → s.disk.writable = true →
  ∃ u, x.run.run s = (.ok (), u) ∧ u.persistent = true ∧ u.disk.writable = true

theorem succeeds_bind {x : StoreM Unit} {f : Unit → StoreM Unit} (hx : Succeeds x)
    (hf : ∀ a, Succeeds (f a)) : Succeeds (x >>= f) := by
  intro s hp hw
  obtain ⟨t, ht, hp, hw⟩ := hx s hp hw
  rw [run_bind_ok ht]
  exact hf () t hp hw

theorem succeeds_get {x : Store → StoreM Unit} (h : ∀ s, Succeeds (x s)) :
    Succeeds (do x (← get)) := fun s => h s s

theorem succeeds_write {α : Type} (f : RecordFile α) (records : List α) :
    Succeeds (write f records) := by
  intro s hp hw
  obtain ⟨disk, hd, hw⟩ := Disk.replace?_writable hw f.name (f.text records)
  rw [run_write_persistent f records hp, hd]
  exact ⟨_, rfl, hp, hw⟩

theorem succeeds_flushHistory : Succeeds Store.flushHistory := by
  intro s hp hw
  rw [run_flushHistory hp]
  split
  · obtain ⟨disk, hd, hw⟩ := Disk.replace?_writable hw RecordFile.histories.name
      (RecordFile.histories.text s.allHistory)
    rw [hd]
    exact ⟨_, rfl, hp, hw⟩
  · exact ⟨s, rfl, hp, hw⟩

theorem succeeds_persist : Succeeds Store.persist := by
  apply succeeds_bind (succeeds_get fun s => succeeds_write .rules s.rules.values)
  intro _
  apply succeeds_bind (succeeds_get fun s => succeeds_write .knownTopics s.knownTopics.values)
  intro _
  apply succeeds_bind succeeds_flushHistory
  intro _
  exact succeeds_get fun s => succeeds_write .devices s.devices.values

/-- Where it fails, the disk is as it was before. -/
def Harmless (x : StoreM Unit) : Prop := ∀ s e u, x.run.run s = (.error e, u) → u.disk = s.disk

theorem harmless_write {α : Type} (f : RecordFile α) (records : List α) :
    Harmless (write f records) := by
  intro s e u h
  rw [of_write_error h]

theorem harmless_get {x : Store → StoreM Unit} (h : ∀ s, Harmless (x s)) :
    Harmless (do x (← get)) := fun s => h s s

theorem harmless_after {α : Type} {x : StoreM α} {f : α → StoreM Unit}
    (hx : ∀ s, (x.run.run s).2.disk = s.disk) (hf : ∀ a, Harmless (f a)) :
    Harmless (x >>= f) := by
  intro s e u h
  have hd := hx s
  rw [run_bind] at h
  rcases hr : x.run.run s with ⟨e | a, t⟩
  · rw [hr] at h hd
    cases h
    exact hd
  · rw [hr] at h hd
    exact (hf a t e u h).trans hd

theorem harmless_save (a : StoreAccess) (refused : Bool) (e : StoreError) (g : Store → Store)
    (hg : ∀ s, (g s).disk = s.disk) {next : StoreM Unit} (hn : Harmless next) :
    Harmless (do
      ensure a
      if refused then throw e
      modify g
      next) := by
  apply harmless_after
  · intro s
    rw [run_ensure]
  · intro _
    cases refused with
    | true =>
      intro s _ u h
      cases h
      rfl
    | false =>
      apply harmless_after
      · exact hg
      · exact fun _ => hn

theorem harmless_flushHistory : Harmless Store.flushHistory := by
  apply harmless_get
  intro s
  split
  · intro t e u h
    rw [run_bind] at h
    rcases hr : (write .histories s.allHistory).run.run t with ⟨e | _, v⟩
    · rw [hr] at h
      cases h
      exact harmless_write _ _ t e u hr
    · rw [hr] at h
      cases h
  · intro t e u h
    cases h

theorem harmless_change {c : Change} (hc : ∀ w x y z, c ≠ .persist w x y z) : Harmless c.run := by
  have hm (g : Store → Store) : Harmless (modify g) := by
    intro s e u h
    rw [run_modify] at h
    cases h
  cases c with
  | insertRule r => exact hm _
  | saveRule r =>
    exact harmless_save .saveRule r.id.isEmpty (.invalid "rule" "rule id cannot be empty")
      (Store.insertRule · r) (fun _ => rfl) (harmless_get fun s => harmless_write .rules s.rules.values)
  | removeRule id => exact hm _
  | writeRules => exact harmless_get fun s => harmless_write _ s.rules.values
  | insertKnownTopic k => exact hm _
  | saveKnownTopic k =>
    exact harmless_save .saveKnownTopic k.topic.isEmpty
      (.invalid "known topic" "topic cannot be empty") (Store.insertKnownTopic · k) (fun _ => rfl)
      (harmless_get fun s => harmless_write .knownTopics s.knownTopics.values)
  | removeKnownTopic project topic => exact hm _
  | writeKnownTopics => exact harmless_get fun s => harmless_write _ s.knownTopics.values
  | saveDevice d =>
    exact harmless_save .saveDevice d.macAddress.isEmpty
      (.invalid "microcontroller" "MAC address cannot be empty") (Store.insertDevice · d) (fun _ => rfl)
      (harmless_get fun s => harmless_write .devices s.devices.values)
  | writeDevices => exact harmless_get fun s => harmless_write _ s.devices.values
  | appendHistory e =>
    apply harmless_after
    · intro s
      rw [run_ensure]
    · exact fun _ => hm _
  | flushHistory => exact harmless_flushHistory
  | persist w x y z => exact absurd rfl (hc w x y z)
  | disturb w => exact hm _

/-- What is loaded is not changed by what fails, nor by what happens to the disk around it. -/
theorem loadedFrom_failed {x : StoreM Unit} (hx : Harmless x) {w : Disturbance} {s u : Store}
    {e : StoreError}
    (h : (do
      Store.disturb w
      x : StoreM Unit).run.run s = (.error e, u))
    (z : Disturbance) (limit : Nat) : loadedFrom (z.act u.disk) limit = loadedFrom s.disk limit := by
  rw [run_bind_ok (run_disturb w s)] at h
  apply loadedFrom_congr
  have hu : u.disk = w.act s.disk := hx _ e u h
  rw [hu]
  exact (z.keeps _).trans (w.keeps _)

/-- Whatever happens to the disk in between and whatever writings fail, the store holds the records
that were asked for, and once everything could be written they are loaded again. A writing that fails
makes no difference to what is loaded. -/
theorem persistence_loses_nothing {disk : Disk} {limit : Nat} {s : Store} (hs : Opened disk limit s)
    {changes : List Change} (hc : ∀ c ∈ changes, c.Fits) :
    let t := changes.foldl Change.apply s
    let asked := changes.foldl Holdings.after (holdings s)
    holdings t = asked ∧
      (∀ w x y z u, (persistAmid w x y z).run.run t = (.ok (), u) → ∀ fresh,
        (HistoriesReadable disk → ∃ v, loadAll.run.run (Store.onDisk u.disk fresh) = (.ok (), v)) ∧
          ∀ v, loadAll.run.run (Store.onDisk u.disk fresh) = (.ok (), v) → holdings v = asked) ∧
      (∀ u, Store.persist.run.run t = (.ok (), u) → ∀ fresh,
        (HistoriesReadable disk → ∃ v, loadAll.run.run (Store.onDisk u.disk fresh) = (.ok (), v)) ∧
          ∀ v, loadAll.run.run (Store.onDisk u.disk fresh) = (.ok (), v) → holdings v = asked) ∧
      (∀ c : Change, (∀ w x y z, c ≠ .persist w x y z) → ∀ w e u,
        (do
          Store.disturb w
          c.run : StoreM Unit).run.run t = (.error e, u) →
        ∀ (z : Disturbance) fresh, loadedFrom (z.act u.disk) fresh = loadedFrom t.disk fresh) ∧
      ∀ {α : Type} (f : RecordFile α) records w e u,
        (do
          Store.disturb w
          write f records : StoreM Unit).run.run t = (.error e, u) →
        ∀ (z : Disturbance) fresh, loadedFrom (z.act u.disk) fresh = loadedFrom t.disk fresh := by
  obtain ⟨hi, hh⟩ := run_intact (intact_opened hs) hc
  refine ⟨hh, ?_, ?_, ?_, ?_⟩
  · intro w x y z u hu fresh
    rw [← hh]
    exact loaded_of_persisted hi hu fresh
  · intro u hu fresh
    rw [← hh]
    rw [← persistAmid_calm] at hu
    exact loaded_of_persisted hi hu fresh
  · intro c hc w e u hu z fresh
    exact loadedFrom_failed (harmless_change hc) hu z fresh
  · intro α f records w e u hu z fresh
    exact loadedFrom_failed (harmless_write f records) hu z fresh

/-- A rule whose writing failed is loaded after everything could be written. -/
theorem unwritten_rule_is_loaded :
    let a : Rule := { (default : Rule) with id := "a", targetPayload := some "1" }
    let b : Rule := { (default : Rule) with id := "b", targetPayload := some "2" }
    let changes : List Change := [.saveRule a, .disturb .refuse, .saveRule b,
      .insertKnownTopic (KnownTopic.bare "p" "t"), .disturb .accept]
    let t := changes.foldl Change.apply (Store.onDisk .empty 5)
    (∀ c ∈ changes, c.Fits) ∧
      ((Change.saveRule b).run.run.run ([Change.saveRule a, .disturb .refuse].foldl
        Change.apply (Store.onDisk .empty 5))).1 = .error .notWritten ∧
      ∃ u v, Store.persist.run.run t = (.ok (), u) ∧
        loadAll.run.run (Store.onDisk u.disk 5) = (.ok (), v) ∧
        (holdings v).rules.get? "a" = some a ∧ (holdings v).rules.get? "b" = some b ∧
        (holdings v).knownTopics.get? "p/t" = some (KnownTopic.bare "p" "t") := by
  intro a b changes t
  have ha : a.Fits := ⟨by decide, by decide, by decide, fun _ ht => by cases ht⟩
  have hb : b.Fits := ⟨by decide, by decide, by decide, fun _ ht => by cases ht⟩
  have hk : (KnownTopic.bare "p" "t").Fits := fun _ ht => by cases ht
  have hc : ∀ c ∈ changes, c.Fits := by
    simp only [changes, List.forall_mem_cons, List.not_mem_nil, false_imp_iff, implies_true, and_true]
    exact ⟨ha, trivial, hb, hk, trivial⟩
  obtain ⟨-, -, hp, -⟩ := persistence_loses_nothing (@Opened.fresh .empty 5) hc
  have ht := (run_intact (intact_fresh .empty 5) hc).1
  obtain ⟨u, hu, -⟩ := succeeds_persist t ht.persistent rfl
  obtain ⟨hl, hv⟩ := hp u hu 5
  obtain ⟨v, hload⟩ := hl ⟨[], rfl⟩
  refine ⟨hc, rfl, u, v, hu, hload, ?_⟩
  rw [hv v hload]
  have hrules : (changes.foldl Holdings.after (holdings (Store.onDisk .empty 5))).rules =
      (Table.empty.insert "a" a).insert "b" b := rfl
  rw [hrules, Table.get?_insert, Table.get?_insert, Table.get?_insert, if_neg (by decide),
    if_pos rfl, if_pos rfl]
  exact ⟨rfl, rfl, rfl⟩

end Persistence

end TopicHub
