import TopicHub.Store.Persistence

/-!
What single steps of the store do. Of an attempt to save a rule, the rule itself is left, if it
was accepted, and a disk that may or may not have been written. What is done with other records
leaves the rules and the outages as they are.
-/

namespace TopicHub.Store

theorem run_bind {α β : Type} (x : StoreM α) (f : α → StoreM β) (s : Store) :
    (x >>= f).run.run s = match x.run.run s with
      | (.ok a, u) => (f a).run.run u
      | (.error e, u) => (.error e, u) := by
  rw [ExceptT.run_bind, StateT.run_bind]
  rcases x.run.run s with ⟨a | a, u⟩ <;> rfl

theorem run_get (s : Store) : (get : StoreM Store).run.run s = (.ok s, s) := rfl

theorem run_ensure (a : StoreAccess) (s : Store) : (ensure a).run.run s =
    (if a ∈ s.outages then .error (.invalid a.name "unavailable") else .ok (), s) := by
  change (if a ∈ s.outages then throw (.invalid a.name "unavailable") else pure () :
    StoreM Unit).run.run s = _
  split <;> rfl

theorem run_write {α : Type} (f : RecordFile α) (records : List α) (s : Store) :
    (write f records).run.run s =
      if s.persistent then match s.disk.replace? f.name (f.text records) with
        | some disk => (.ok (), { s with disk })
        | none => (.error .notWritten, s)
      else (.ok (), s) := by
  change (if s.persistent then match s.disk.replace? f.name (f.text records) with
      | some disk => set { s with disk }
      | none => throw .notWritten
    else pure () : StoreM Unit).run.run s = _
  split
  · cases s.disk.replace? f.name (f.text records) <;> rfl
  · rfl

theorem after_write {α : Type} (f : RecordFile α) (records : List α) (s : Store) :
    ∃ disk, ((write f records).run.run s).2 = { s with disk } := by
  rw [run_write]
  split
  · cases s.disk.replace? f.name (f.text records) with
    | some disk => exact ⟨disk, rfl⟩
    | none => exact ⟨s.disk, rfl⟩
  · exact ⟨s.disk, rfl⟩

theorem run_loadRules (project topic : String) (s : Store) : (loadRules project topic).run.run s =
    (if .loadRules ∈ s.outages then .error (.invalid StoreAccess.loadRules.name "unavailable")
      else .ok (s.rulesFor project topic true), s) := by
  unfold loadRules
  rw [run_bind, run_ensure]
  by_cases h : .loadRules ∈ s.outages
  · simp only [h, if_true]
  · simp only [h, if_false]
    rfl

def keeping (s : Store) (rule : Rule) : Store := ((saveRule rule).run.run s).2

def Accepts (s : Store) (rule : Rule) : Prop :=
  .saveRule ∉ s.outages ∧ rule.id.isEmpty = false

instance (s : Store) (rule : Rule) : Decidable (s.Accepts rule) :=
  inferInstanceAs (Decidable (_ ∧ _))

/-- Whether a rule is accepted depends on its id alone. -/
theorem accepts_congr {s u : Store} {a b : Rule} (hs : s.outages = u.outages) (hi : a.id = b.id) :
    s.Accepts a ↔ u.Accepts b := by
  unfold Accepts
  rw [hs, hi]

theorem keeping_eq (s : Store) (rule : Rule) : ∃ disk, s.keeping rule =
    { s with rules := if s.Accepts rule then s.rules.insert rule.id rule else s.rules, disk } := by
  unfold keeping saveRule Accepts
  rw [run_bind, run_ensure]
  by_cases ho : .saveRule ∈ s.outages
  · exact ⟨s.disk, by simp [ho]⟩
  · by_cases hi : rule.id.isEmpty = true
    · refine ⟨s.disk, ?_⟩
      simp only [ho, hi, if_true, if_false, reduceCtorEq, and_false]
      rfl
    · obtain ⟨disk, hd⟩ := after_write .rules (s.insertRule rule).rules.values (s.insertRule rule)
      refine ⟨disk, ?_⟩
      simp only [ho, hi, not_false_eq_true, if_false, and_self, if_true, reduceCtorEq]
      exact hd

def addTopic (s : Store) (k : KnownTopic) : Store :=
  if (s.knownTopic? k.project k.topic).isSome then s else s.insertKnownTopic k

/-- A property of what is done with known topics, histories and devices. It is one of the single
steps, and sequences inherit it. -/
structure Inherited (P : {α : Type} → StoreM α → Prop) : Prop where
  bind_ok : ∀ {α β : Type} {x : StoreM α} {f : α → StoreM β}, P x → (∀ a, P (f a)) → P (x >>= f)
  throw_ok : ∀ {α : Type} (e : StoreError), P (throw e : StoreM α)
  ensure_ok : ∀ a, P (ensure a)
  insertKnownTopic_ok : ∀ k, P (modify (insertKnownTopic · k))
  insertDevice_ok : ∀ d, P (modify (insertDevice · d))
  pushHistory_ok : ∀ e, P (modify fun s => { s.pushHistory e with historyChanged := true })
  writeKnownTopics_ok : P writeKnownTopics
  writeDevices_ok : P writeDevices
  knownTopic_ok : ∀ project topic, P (do return (← get).knownTopic? project topic)
  device_ok : ∀ macAddress, P (do return (← get).device? macAddress)

namespace Inherited

variable {P : {α : Type} → StoreM α → Prop}

theorem unless_ok (h : Inherited P) {b : Bool} {e : StoreError} {x : StoreM Unit} (hx : P x) :
    P (do
      if b then throw e
      x) := by
  cases b with
  | false => exact hx
  | true => exact h.bind_ok (h.throw_ok e) fun _ => hx

theorem saveKnownTopic (h : Inherited P) (k : KnownTopic) : P (Store.saveKnownTopic k) := by
  apply h.bind_ok (h.ensure_ok _)
  intro _
  apply h.unless_ok
  exact h.bind_ok (h.insertKnownTopic_ok k) fun _ => h.writeKnownTopics_ok

theorem saveDevice (h : Inherited P) (d : Device) : P (Store.saveDevice d) := by
  apply h.bind_ok (h.ensure_ok _)
  intro _
  apply h.unless_ok
  exact h.bind_ok (h.insertDevice_ok d) fun _ => h.writeDevices_ok

theorem appendHistory (h : Inherited P) (e : HistoryEntry) : P (Store.appendHistory e) :=
  h.bind_ok (h.ensure_ok _) fun _ => h.pushHistory_ok e

theorem getKnownTopic (h : Inherited P) (project topic : String) :
    P (Store.getKnownTopic project topic) :=
  h.bind_ok (h.ensure_ok _) fun _ => h.knownTopic_ok project topic

theorem getDevice (h : Inherited P) (macAddress : String) : P (Store.getDevice macAddress) :=
  h.bind_ok (h.ensure_ok _) fun _ => h.device_ok macAddress

end Inherited

def registry (s : Store) : Table Rule × List StoreAccess := (s.rules, s.outages)

def Aside {α : Type} (x : StoreM α) : Prop := ∀ s, (x.run.run s).2.registry = s.registry

theorem aside_write {α : Type} (f : RecordFile α) (records : Store → List α) :
    Aside (do write f (records (← get))) := by
  intro s
  rw [run_bind, run_get]
  obtain ⟨disk, hd⟩ := after_write f (records s) s
  dsimp only
  rw [hd]
  rfl

theorem inherited_aside : Inherited Aside where
  bind_ok {α β x f} hx hf s := by
    have hs := hx s
    rw [run_bind]
    rcases hr : x.run.run s with ⟨a | a, u⟩
    · rw [hr] at hs
      exact hs
    · rw [hr] at hs
      exact (hf a u).trans hs
  throw_ok _ _ := rfl
  ensure_ok a s := by rw [run_ensure]
  insertKnownTopic_ok _ _ := rfl
  insertDevice_ok _ _ := rfl
  pushHistory_ok _ _ := rfl
  writeKnownTopics_ok := aside_write _ _
  writeDevices_ok := aside_write _ _
  knownTopic_ok _ _ _ := rfl
  device_ok _ _ := rfl

theorem aside_load {α : Type} (f : RecordFile α) : Aside (load f) := by
  intro s
  unfold load
  rw [run_bind, run_get]
  by_cases hp : (!s.persistent) = true
  · simp only [hp, if_true]
    rfl
  · simp only [hp]
    cases s.disk.read? f.name with
    | none => rfl
    | some text =>
      dsimp only
      cases f.read text <;> rfl

theorem aside_foldl {α : Type} (f : Store → α → Store) (hf : ∀ s a, (f s a).registry = s.registry)
    (as : List α) : Aside (modify fun s => as.foldl f s) := by
  intro s
  change (as.foldl f s).registry = s.registry
  induction as generalizing s with
  | nil => rfl
  | cons a as ih => exact (ih (f s a)).trans (hf s a)

end TopicHub.Store
