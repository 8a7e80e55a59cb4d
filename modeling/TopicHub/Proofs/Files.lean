import TopicHub.Proofs.Store
import TopicHub.Proofs.RecordForm

/-!
The files of records. A file is replaced as a whole or stays as it was, and the other files of records
stay as they were in either case. What is loaded depends on these files alone.
-/

namespace TopicHub

namespace Disk

def recordNames : List String :=
  [RecordFile.rules.name, RecordFile.knownTopics.name, RecordFile.histories.name,
    RecordFile.devices.name]

/-- The files of records are the same, whatever else there is. -/
def SameRecords (d e : Disk) : Prop := ∀ name ∈ recordNames, d.read? name = e.read? name

theorem SameRecords.trans {c d e : Disk} (h : SameRecords c d) (k : SameRecords d e) :
    SameRecords c e := fun name hn => (h name hn).trans (k name hn)

theorem interim_apart : ∀ name ∈ recordNames, ∀ other ∈ recordNames, other ≠ interimName name := by
  decide

theorem read?_replace {d e : Disk} {name content : String} (h : d.replace? name content = some e) :
    e.read? name = some content ∧
      ∀ other, other ≠ name → other ≠ interimName name → e.read? other = d.read? other := by
  unfold replace? write? at h
  by_cases hw : d.writable = true
  · simp only [hw, if_true, Option.bind_some, Option.some.injEq] at h
    subst h
    unfold read?
    refine ⟨?_, ?_⟩
    · rw [Table.get?_insert, if_pos rfl]
    · intro other hn hi
      rw [Table.get?_insert, if_neg hn, Table.get?_erase, if_neg hi, Table.get?_insert, if_neg hi]
  · simp only [hw, Bool.false_eq_true, if_false] at h
    cases h

theorem replace?_writable {d : Disk} (h : d.writable = true) (name content : String) :
    ∃ e, d.replace? name content = some e ∧ e.writable = true := by
  unfold replace? write?
  rw [if_pos h, Option.bind_some, if_pos h]
  exact ⟨_, rfl, h⟩

theorem read?_replace_record {d e : Disk} {name content : String} (h : d.replace? name content = some e)
    (hn : name ∈ recordNames) {other : String} (ho : other ∈ recordNames) (hne : other ≠ name) :
    e.read? other = d.read? other :=
  (read?_replace h).2 other hne (interim_apart name hn other ho)

/-- The records of a file; a file that is not there has none. -/
def stored {α : Type} (d : Disk) (f : RecordFile α) : Except StoreError (List α) :=
  match d.read? f.name with
  | none => .ok []
  | some text => f.read text

theorem stored_congr {α : Type} {d e : Disk} (f : RecordFile α) (h : d.read? f.name = e.read? f.name) :
    d.stored f = e.stored f := by
  unfold stored
  rw [h]

theorem stored_replaced {α : Type} {f : RecordFile α} {records : List α} {d e : Disk}
    (h : d.replace? f.name (f.text records) = some e)
    (hr : ∀ a ∈ records, Json.ReadsBack f.toJson f.ofRaw? a) : e.stored f = .ok records := by
  unfold stored
  rw [(read?_replace h).1]
  exact f.read_text hr

end Disk

/-- What may happen to the disk between two writings. It can come to refuse writings or to accept them
again, and interim files of writings that broke off may be left behind. -/
structure Disturbance where
  act : Disk → Disk
  keeps : ∀ d, (act d).SameRecords d

namespace Disturbance

def calm : Disturbance := ⟨id, fun _ _ _ => rfl⟩

def refuse : Disturbance := ⟨fun d => { d with writable := false }, fun _ _ _ => rfl⟩

def accept : Disturbance := ⟨fun d => { d with writable := true }, fun _ _ _ => rfl⟩

end Disturbance

namespace Store

def disturb (w : Disturbance) : StoreM Unit := modify fun s => { s with disk := w.act s.disk }

theorem run_disturb (w : Disturbance) (s : Store) :
    (disturb w).run.run s = (.ok (), { s with disk := w.act s.disk }) := rfl

theorem run_modify (g : Store → Store) (s : Store) :
    (modify g : StoreM Unit).run.run s = (.ok (), g s) := rfl

theorem run_bind_ok {α β : Type} {x : StoreM α} {f : α → StoreM β} {s u : Store} {a : α}
    (h : x.run.run s = (.ok a, u)) : (x >>= f).run.run s = (f a).run.run u := by
  rw [run_bind, h]

theorem run_bind_error {α β : Type} {x : StoreM α} {f : α → StoreM β} {s u : Store}
    {e : StoreError} (h : x.run.run s = (.error e, u)) : (x >>= f).run.run s = (.error e, u) := by
  rw [run_bind, h]

theorem run_load {α : Type} (f : RecordFile α) (s : Store) :
    (load f).run.run s = (if s.persistent then s.disk.stored f else .ok [], s) := by
  unfold load Disk.stored
  rw [run_bind, run_get]
  dsimp only
  cases s.persistent with
  | false => rfl
  | true =>
    cases s.disk.read? f.name with
    | none => rfl
    | some text =>
      simp only [Bool.not_true, Bool.false_eq_true, if_false, if_true]
      cases f.read text <;> rfl

theorem run_load_persistent {α : Type} (f : RecordFile α) {s : Store} (hp : s.persistent = true) :
    (load f).run.run s = (s.disk.stored f, s) := by
  rw [run_load, if_pos hp]

theorem run_write_persistent {α : Type} (f : RecordFile α) (records : List α) {s : Store}
    (hp : s.persistent = true) : (write f records).run.run s =
      match s.disk.replace? f.name (f.text records) with
      | some disk => (.ok (), { s with disk })
      | none => (.error .notWritten, s) := by
  rw [run_write, if_pos hp]
  rfl

theorem of_write_error {α : Type} {f : RecordFile α} {records : List α} {s u : Store}
    {e : StoreError} (h : (write f records).run.run s = (.error e, u)) : u = s := by
  rw [run_write] at h
  split at h
  · cases hd : s.disk.replace? f.name (f.text records) with
    | none =>
      rw [hd] at h
      cases h
      rfl
    | some disk =>
      rw [hd] at h
      cases h
  · cases h

theorem of_bind_ok {α β : Type} {x : StoreM α} {f : α → StoreM β} {s u : Store} {b : β}
    (h : (x >>= f).run.run s = (.ok b, u)) :
    ∃ a t, x.run.run s = (.ok a, t) ∧ (f a).run.run t = (.ok b, u) := by
  rw [run_bind] at h
  rcases hx : x.run.run s with ⟨e | a, t⟩
  · rw [hx] at h
    cases h
  · rw [hx] at h
    exact ⟨a, t, rfl, h⟩

theorem stored_of_write {α : Type} {f : RecordFile α} {records : List α} {s u : Store}
    (hp : s.persistent = true) (hr : ∀ a ∈ records, Json.ReadsBack f.toJson f.ofRaw? a)
    (h : (write f records).run.run s = (.ok (), u)) : u.disk.stored f = .ok records := by
  rw [run_write_persistent f records hp] at h
  cases hd : s.disk.replace? f.name (f.text records) with
  | none =>
    rw [hd] at h
    cases h
  | some disk =>
    rw [hd] at h
    cases h
    exact Disk.stored_replaced hd hr

theorem run_flushHistory {s : Store} (hp : s.persistent = true) : flushHistory.run.run s =
    if s.historyChanged then
      match s.disk.replace? RecordFile.histories.name (RecordFile.histories.text s.allHistory) with
      | some disk => (.ok (), { s with disk, historyChanged := false })
      | none => (.error .notWritten, s)
    else (.ok (), s) := by
  unfold flushHistory
  rw [run_bind, run_get]
  dsimp only
  cases hc : s.historyChanged with
  | false =>
    simp only [Bool.and_false, Bool.false_eq_true, if_false]
    rfl
  | true =>
    rw [if_pos (by rw [hp]; rfl), if_pos rfl, run_bind, run_write_persistent _ _ hp]
    cases s.disk.replace? RecordFile.histories.name (RecordFile.histories.text s.allHistory) <;> rfl

theorem run_appendHistory {s : Store} (h : .appendHistory ∉ s.outages) (e : HistoryEntry) :
    (appendHistory e).run.run s = (.ok (), { s.pushHistory e with historyChanged := true }) := by
  unfold appendHistory
  rw [run_bind, run_ensure, if_neg h]
  rfl

theorem run_save {a : StoreAccess} {s : Store} (ha : a ∉ s.outages) (refused : Bool)
    (e : StoreError) (g : Store → Store) (next : StoreM Unit) :
    (do
      ensure a
      if refused then throw e
      modify g
      next).run.run s = if refused then (.error e, s) else next.run.run (g s) := by
  rw [run_bind, run_ensure, if_neg ha]
  cases refused <;> rfl

theorem stored_disturbed {α : Type} {f : RecordFile α} (hf : f.name ∈ Disk.recordNames)
    (w : Disturbance) (d : Disk) : (w.act d).stored f = d.stored f :=
  Disk.stored_congr f (w.keeps d f.name hf)

theorem stored_flushed {α : Type} {f : RecordFile α} (hf : f.name ∈ Disk.recordNames)
    (hn : f.name ≠ RecordFile.histories.name) {s : Store} (hp : s.persistent = true) :
    (flushHistory.run.run s).2.disk.stored f = s.disk.stored f := by
  rw [run_flushHistory hp]
  split
  · cases hd : s.disk.replace? RecordFile.histories.name
        (RecordFile.histories.text s.allHistory) with
    | none => rfl
    | some disk =>
      exact Disk.stored_congr f (Disk.read?_replace_record hd (by decide) hf hn)
  · rfl

theorem mem_allHistory {s : Store} {e : HistoryEntry} :
    e ∈ s.allHistory ↔ ∃ entry ∈ s.histories.entries, e ∈ entry.2 := by
  unfold allHistory Table.values
  rw [(List.mergeSort_perm _ _).mem_iff, List.mem_flatten]
  constructor
  · rintro ⟨entries, hm, he⟩
    obtain ⟨entry, hentry, rfl⟩ := List.mem_map.mp hm
    exact ⟨entry, hentry, he⟩
  · rintro ⟨entry, hm, he⟩
    exact ⟨entry.2, List.mem_map_of_mem hm, he⟩

def keptOn (s : Store) : Bool × Disk := (s.persistent, s.disk)

theorem foldl_same {α β : Type} (view : Store → β) (f : Store → α → Store)
    (hf : ∀ s a, view (f s a) = view s) (as : List α) (s : Store) :
    view (as.foldl f s) = view s := by
  induction as generalizing s with
  | nil => rfl
  | cons a as ih => exact (ih (f s a)).trans (hf s a)

def withLoaded (s : Store) (rules : List Rule) (known : List KnownTopic)
    (entries : List HistoryEntry) (devices : List Device) : Store :=
  devices.foldl insertDevice
    (entries.foldl pushHistory (known.foldl insertKnownTopic (rules.foldl insertRule s)))

theorem run_loaded {α : Type} {f : RecordFile α} {s : Store} (hp : s.persistent = true)
    {as : List α} (h : s.disk.stored f = .ok as) (g : List α → Store → Store)
    (next : StoreM Unit) :
    (do
      let as ← load f
      modify (g as)
      next).run.run s = next.run.run (g as s) := by
  rw [run_bind_ok ((run_load_persistent f hp).trans (by rw [h])), run_bind_ok (run_modify (g as) s)]

theorem run_loadAll {s : Store} (hp : s.persistent = true) {rules : List Rule}
    {known : List KnownTopic} {entries : List HistoryEntry} {devices : List Device}
    (hr : s.disk.stored .rules = .ok rules) (hk : s.disk.stored .knownTopics = .ok known)
    (hh : s.disk.stored .histories = .ok entries) (hd : s.disk.stored .devices = .ok devices) :
    loadAll.run.run s = (.ok (), s.withLoaded rules known entries devices) := by
  -- Each file is read from the disk of the store that the ones before it were loaded into.
  have p1 := foldl_same keptOn insertRule (fun _ _ => rfl) rules s
  have p2 := (foldl_same keptOn insertKnownTopic (fun _ _ => rfl) known _).trans p1
  have p3 := (foldl_same keptOn pushHistory (fun _ _ => rfl) entries _).trans p2
  obtain ⟨p1, d1⟩ := Prod.mk.inj p1
  obtain ⟨p2, d2⟩ := Prod.mk.inj p2
  obtain ⟨p3, d3⟩ := Prod.mk.inj p3
  unfold loadAll withLoaded
  rw [run_loaded hp hr (fun as s => as.foldl insertRule s),
    run_loaded (p1.trans hp) (d1 ▸ hk) (fun as s => as.foldl insertKnownTopic s),
    run_loaded (p2.trans hp) (d2 ▸ hh) (fun as s => as.foldl pushHistory s),
    run_bind_ok ((run_load_persistent _ (p3.trans hp)).trans (by rw [d3, hd]))]
  rfl

theorem run_loadAll_unreadable {s : Store} (hp : s.persistent = true) {rules : List Rule}
    {known : List KnownTopic} {e : StoreError} (hr : s.disk.stored .rules = .ok rules)
    (hk : s.disk.stored .knownTopics = .ok known) (hh : s.disk.stored .histories = .error e) :
    loadAll.run.run s = (.error e, s.withLoaded rules known [] []) := by
  have p1 := foldl_same keptOn insertRule (fun _ _ => rfl) rules s
  have p2 := (foldl_same keptOn insertKnownTopic (fun _ _ => rfl) known _).trans p1
  obtain ⟨p1, d1⟩ := Prod.mk.inj p1
  obtain ⟨p2, d2⟩ := Prod.mk.inj p2
  unfold loadAll withLoaded
  rw [run_loaded hp hr (fun as s => as.foldl insertRule s),
    run_loaded (p1.trans hp) (d1 ▸ hk) (fun as s => as.foldl insertKnownTopic s),
    run_bind_error ((run_load_persistent _ (p2.trans hp)).trans (by rw [d2, hh]))]
  rfl

/-- On another disk with the same files of records it does the same, and it leaves the disk alone. -/
def OnRecords {α : Type} (x : StoreM α) : Prop := ∀ (s : Store) (d : Disk), d.SameRecords s.disk →
  x.run.run { s with disk := d } = ((x.run.run s).1, { (x.run.run s).2 with disk := d }) ∧
    (x.run.run s).2.disk = s.disk

theorem onRecords_bind {α β : Type} {x : StoreM α} {f : α → StoreM β} (hx : OnRecords x)
    (hf : ∀ a, OnRecords (f a)) : OnRecords (x >>= f) := by
  intro s d h
  obtain ⟨he, hd⟩ := hx s d h
  rw [run_bind, run_bind, he]
  rcases hr : x.run.run s with ⟨e | a, u⟩
  · rw [hr] at hd
    exact ⟨rfl, hd⟩
  · rw [hr] at hd
    dsimp only at hd ⊢
    obtain ⟨he, hu⟩ := hf a u d (hd ▸ h)
    exact ⟨he, hu.trans hd⟩

theorem onRecords_load {α : Type} {f : RecordFile α} (hf : f.name ∈ Disk.recordNames) :
    OnRecords (load f) := by
  intro s d h
  have hd : d.stored f = s.disk.stored f := Disk.stored_congr f (h f.name hf)
  rw [run_load, run_load]
  dsimp only
  rw [hd]
  exact ⟨rfl, rfl⟩

theorem onRecords_foldl {α : Type} (f : Store → α → Store)
    (hf : ∀ s a d, f { s with disk := d } a = { f s a with disk := d } ∧ (f s a).disk = s.disk)
    (as : List α) : OnRecords (modify fun s => as.foldl f s) := by
  rintro s d -
  rw [run_modify, run_modify]
  have h : as.foldl f { s with disk := d } = { as.foldl f s with disk := d } ∧
      (as.foldl f s).disk = s.disk := by
    induction as generalizing s with
    | nil => exact ⟨rfl, rfl⟩
    | cons a as ih =>
      obtain ⟨he, hd⟩ := ih (f s a)
      rw [List.foldl_cons, List.foldl_cons, (hf s a d).1]
      exact ⟨he, hd.trans (hf s a d).2⟩
  exact ⟨congrArg (Prod.mk _) h.1, h.2⟩

theorem onRecords_loadAll : OnRecords loadAll := by
  apply onRecords_bind (onRecords_load (by decide))
  intro rules
  apply onRecords_bind (onRecords_foldl insertRule (fun _ _ _ => ⟨rfl, rfl⟩) rules)
  intro _
  apply onRecords_bind (onRecords_load (by decide))
  intro known
  apply onRecords_bind (onRecords_foldl insertKnownTopic (fun _ _ _ => ⟨rfl, rfl⟩) known)
  intro _
  apply onRecords_bind (onRecords_load (by decide))
  intro entries
  apply onRecords_bind (onRecords_foldl pushHistory (fun _ _ _ => ⟨rfl, rfl⟩) entries)
  intro _
  apply onRecords_bind (onRecords_load (by decide))
  intro devices
  exact onRecords_foldl insertDevice (fun _ _ _ => ⟨rfl, rfl⟩) devices

/-- What a new store holds once it has loaded what is on the disk, and whether it could. -/
def loadedFrom (disk : Disk) (limit : Nat) : Except StoreError Unit × Store :=
  let (result, s) := loadAll.run.run (onDisk disk limit)
  (result, { s with disk := .empty })

theorem loadedFrom_congr {d e : Disk} (h : d.SameRecords e) (limit : Nat) :
    loadedFrom d limit = loadedFrom e limit := by
  obtain ⟨he, -⟩ := onRecords_loadAll (onDisk e limit) d h
  unfold loadedFrom
  rw [show onDisk d limit = { onDisk e limit with disk := d } from rfl, he]
  rfl

end Store

end TopicHub
