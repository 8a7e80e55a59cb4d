import TopicHub.Proofs.Router.Frame

/-!
Handlers neither read nor write the rules: with other rules in the store they give the same
answers, make the same changes, and leave those rules as they are.
-/

namespace TopicHub

def Store.withRules (s : Store) (rules : Table Rule) : Store := { s with rules }

def Router.withRules (r : Router) (rules : Table Rule) : Router :=
  { r with store := r.store.withRules rules }

def Store.Blind {α : Type} (x : StoreM α) : Prop :=
  ∀ s rules, x.run.run (s.withRules rules) = ((x.run.run s).1, (x.run.run s).2.withRules rules)

def Router.Blind {α : Type} (x : RouterM α) : Prop :=
  ∀ r rules, x.run (r.withRules rules) = ((x.run r).1, (x.run r).2.withRules rules)

namespace Store

theorem blind_write {α : Type} (f : RecordFile α) (records : Store → List α)
    (hr : ∀ s rules, records (s.withRules rules) = records s) :
    Blind (do write f (records (← get))) := by
  intro s rules
  have hp : (s.withRules rules).persistent = s.persistent := rfl
  have hd : (s.withRules rules).disk = s.disk := rfl
  rw [run_bind, run_bind, run_get, run_get]
  dsimp only
  rw [hr, run_write, run_write, hp, hd]
  split
  · cases s.disk.replace? f.name (f.text (records s)) <;> rfl
  · rfl

theorem inherited_blind : Inherited Blind where
  bind_ok {α β x f} hx hf s rules := by
    rw [run_bind, run_bind, hx s rules]
    rcases x.run.run s with ⟨a | a, u⟩
    · rfl
    · exact hf a u rules
  throw_ok _ _ _ := rfl
  ensure_ok a s rules := by
    rw [run_ensure, run_ensure]
    rfl
  insertKnownTopic_ok _ _ _ := rfl
  insertDevice_ok _ _ _ := rfl
  pushHistory_ok _ _ _ := rfl
  writeKnownTopics_ok := blind_write _ _ fun _ _ => rfl
  writeDevices_ok := blind_write _ _ fun _ _ => rfl
  knownTopic_ok _ _ _ _ := rfl
  device_ok _ _ _ := rfl

end Store

namespace Router

theorem blind_onStore {α : Type} {x : StoreM α} (hx : Store.Blind x) : Blind (onStore x) := by
  intro r rules
  have hs : x.run.run (r.withRules rules).store =
      ((x.run.run r.store).1, (x.run.run r.store).2.withRules rules) := hx r.store rules
  rw [run_onStore, run_onStore, hs]
  rfl

theorem inherited_blind : Inherited Blind where
  pure_ok a _ _ := rfl
  bind_ok hx hf r rules := by
    rw [StateT.run_bind, StateT.run_bind, hx r rules]
    exact hf _ _ rules
  view_ok _ _ := rfl
  publish_ok m r rules := by
    rw [run_publish, run_publish]
    have ho : (r.withRules rules).outbound = r.outbound := rfl
    rw [ho]
    cases r.outbound.publish m <;> rfl
  findKnownTopic_ok project topic :=
    blind_onStore (Store.inherited_blind.getKnownTopic project topic)
  saveKnownTopic_ok k := blind_onStore (Store.inherited_blind.saveKnownTopic k)
  appendHistory_ok e := blind_onStore (Store.inherited_blind.appendHistory e)
  findDevice_ok macAddress := blind_onStore (Store.inherited_blind.getDevice macAddress)
  saveDevice_ok d := blind_onStore (Store.inherited_blind.saveDevice d)

end Router

end TopicHub
