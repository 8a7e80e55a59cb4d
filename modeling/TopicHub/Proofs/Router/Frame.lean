import TopicHub.Proofs.Outbound
import TopicHub.Proofs.Store
import TopicHub.Router.Route

/-!
What the handlers can touch. All of them are put together from the same few steps: reading the
view, publishing, and five operations of the store. A property of computations that these steps
have, and that sequences inherit, is a property of every handler. Two such properties follow here:
timers, connection and clock stay as they are, and so do the rules and the outages.
-/

namespace TopicHub.Router

/-- What handlers read of the router beside the store. -/
structure View where
  namespaceName : String
  brokerHost : Option String
  clock : Nat

def view (r : Router) : View := ⟨r.namespaceName, r.brokerHost, r.outbound.clock⟩

def seen (v : View) : Router :=
  { namespaceName := v.namespaceName
    brokerHost := v.brokerHost
    cache := .new 1
    store := .inMemory .empty
    engine := ⟨fun _ _ => .ok "", fun _ => .ok .null⟩
    outbound := { Outbound.empty with clock := v.clock } }

theorem now_of_view {r s : Router} (h : r.view = s.view) : r.now = s.now := by
  unfold now
  rw [show r.outbound.clock = s.outbound.clock from congrArg View.clock h]

theorem adopted_of_view {r s : Router} (h : r.view = s.view) (a : DeviceAnnouncement)
    (project : String) : r.adopted a project = s.adopted a project := by
  unfold adopted
  rw [show r.namespaceName = s.namespaceName from congrArg View.namespaceName h,
    show r.brokerHost = s.brokerHost from congrArg View.brokerHost h]

structure Inherited (P : {α : Type} → RouterM α → Prop) : Prop where
  pure_ok : ∀ {α : Type} (a : α), P (pure a)
  bind_ok : ∀ {α β : Type} {x : RouterM α} {f : α → RouterM β},
    P x → (∀ a, P (f a)) → P (x >>= f)
  view_ok : P (do return (← get).view)
  publish_ok : ∀ m, P (publish m).run
  findKnownTopic_ok : ∀ project topic, P (onStore (Store.getKnownTopic project topic))
  saveKnownTopic_ok : ∀ k, P (onStore (Store.saveKnownTopic k))
  appendHistory_ok : ∀ e, P (onStore (Store.appendHistory e))
  findDevice_ok : ∀ macAddress, P (onStore (Store.getDevice macAddress))
  saveDevice_ok : ∀ d, P (onStore (Store.saveDevice d))

namespace Inherited

variable {P : {α : Type} → RouterM α → Prop}

theorem value (h : Inherited P) {α : Type} (a : α) : P (pure a : HandlerM α).run := h.pure_ok _

theorem failure (h : Inherited P) {α : Type} (e : HandlerError) :
    P (throw e : HandlerM α).run := h.pure_ok _

theorem sequence (h : Inherited P) {α β : Type} {x : HandlerM α} {f : α → HandlerM β}
    (hx : P x.run) (hf : ∀ a, P (f a).run) : P (x >>= f).run := by
  rw [ExceptT.run_bind]
  apply h.bind_ok hx
  intro a
  cases a with
  | error e => exact h.pure_ok _
  | ok a => exact hf a

theorem reading (h : Inherited P) {β : Type} {k : Router → HandlerM β}
    (hv : ∀ r s : Router, r.view = s.view → k r = k s) (hk : ∀ r, P (k r).run) :
    P (get >>= k : HandlerM β).run := by
  have he : (get >>= k : HandlerM β).run =
      (do return (← get).view : RouterM View) >>= fun v => (k (seen v)).run := by
    funext r
    change (k r).run r = (k (seen r.view)).run r
    rw [hv r (seen r.view) rfl]
  rw [he]
  exact h.bind_ok h.view_ok fun v => hk (seen v)

theorem storing (h : Inherited P) {α : Type} {x : StoreM α} (hx : P (onStore x)) :
    P (stored x).run := by
  apply h.sequence
  · change P (Except.ok <$> onStore x)
    rw [map_eq_pure_bind]
    exact h.bind_ok hx fun _ => h.pure_ok _
  · intro a
    cases a with
    | error e => exact h.failure _
    | ok a => exact h.value a

theorem all (h : Inherited P) {α : Type} {f : α → HandlerM Unit} (hf : ∀ a, P (f a).run)
    (as : List α) : P (as.forM f).run := by
  induction as with
  | nil => exact h.value ()
  | cons a as ih => exact h.sequence (hf a) fun _ => ih

theorem acknowledge (h : Inherited P) (e : Entry) : P (Router.acknowledge e).run := by
  apply h.reading
  · intro r s hv
    rw [now_of_view hv]
  · intro r
    apply h.sequence (h.publish_ok _)
    intro _
    split
    · exact h.value ()
    · exact h.publish_ok _

theorem registerTopic (h : Inherited P) (e : Entry) : P (Router.registerTopic e).run := by
  unfold Router.registerTopic
  split
  · exact h.failure _
  · exact h.storing (h.saveKnownTopic_ok _)

theorem saveUnlessKnown (h : Inherited P) (k : KnownTopic) : P (Router.saveUnlessKnown k).run := by
  apply h.sequence (h.storing (h.findKnownTopic_ok _ _))
  intro known
  split
  · exact h.storing (h.saveKnownTopic_ok _)
  · exact h.value ()

theorem registerDevice (h : Inherited P) (e : Entry) : P (Router.registerDevice e).run := by
  unfold Router.registerDevice
  split
  · exact h.failure _
  · apply h.reading
    · intro r s hv
      rw [now_of_view hv]
    · intro r
      apply h.sequence (h.all h.saveUnlessKnown _)
      intro _
      exact h.storing (h.saveDevice_ok _)

theorem recordOf (h : Inherited P) (a : DeviceAnnouncement) (project : String) :
    P (Router.recordOf a project).run := by
  apply h.sequence (h.storing (h.findDevice_ok _))
  intro found
  split
  · exact h.value _
  · apply h.reading
    · intro r s hv
      rw [adopted_of_view hv]
    · intro r
      exact h.sequence (h.storing (h.saveDevice_ok _)) fun _ => h.value _

theorem handleLost (h : Inherited P) (payload : String) : P (Router.handleLost payload).run := by
  unfold Router.handleLost
  split
  · exact h.failure _
  · rename_i a _
    have rest : P (do
        let project := firstNonempty a.project defaultProject
        let d ← Router.recordOf a project
        let space := (← get).namespaceName
        if d.project = project && a.namespaceName = space then pure false
        else
          let d := { d with namespaceName := space }
          stored (Store.saveDevice d)
          publish (.plain (d.macAddress ++ "/" ++ saveConfigName)
            (DeviceAnnouncement.ofDevice d).toJson.compact)
          pure true : HandlerM Bool).run := by
      apply h.sequence (h.recordOf _ _)
      intro d
      apply h.reading
      · intro r s hv
        rw [show r.namespaceName = s.namespaceName from congrArg View.namespaceName hv]
      · intro r
        dsimp only
        split
        · exact h.value _
        · apply h.sequence (h.storing (h.saveDevice_ok _))
          intro _
          exact h.sequence (h.publish_ok _) fun _ => h.value _
    by_cases hm : a.macAddress.isEmpty
    · simp only [hm, if_true]
      exact h.sequence (h.failure _) fun _ => rest
    · simp only [hm]
      exact rest

theorem handleReserved (h : Inherited P) (e : Entry) : P (Router.handleReserved e).run := by
  unfold Router.handleReserved
  split
  · exact h.value ()
  · split
    · exact h.acknowledge e
    · split
      · exact h.registerTopic e
      · split
        · exact h.registerDevice e
        · exact h.value ()

theorem track (h : Inherited P) (e : Entry) : P (Router.track e) := by
  apply h.bind_ok (h.findKnownTopic_ok _ _)
  intro found
  split
  · exact h.pure_ok _
  · exact h.pure_ok _
  · rename_i k
    have rest : P (do
        let _ ← onStore (Store.saveKnownTopic (refreshed k e))
        pure (described e k)) :=
      h.bind_ok (h.saveKnownTopic_ok _) fun _ => h.pure_ok _
    by_cases hk : k.keepHistory
    · simp only [hk, if_true]
      exact h.bind_ok (h.appendHistory_ok _) fun _ => rest
    · simp only [hk]
      exact rest

end Inherited

/-- What a computation does not change. -/
def Preserves {γ : Type} (π : Router → γ) {α : Type} (x : RouterM α) : Prop :=
  ∀ r, π (x.run r).2 = π r

def outlook (r : Router) : Timers × Connection × Nat :=
  (r.outbound.timers, r.outbound.connection, r.outbound.clock)

theorem of_outlook {r u : Router} (h : u.outlook = r.outlook) :
    u.outbound.timers = r.outbound.timers ∧ u.outbound.connection = r.outbound.connection ∧
      u.outbound.clock = r.outbound.clock := by
  simpa [outlook] using h

theorem run_onStore {α : Type} (x : StoreM α) (r : Router) :
    (onStore x).run r = ((x.run.run r.store).1, { r with store := (x.run.run r.store).2 }) := rfl

theorem run_publish (m : OutboundMessage) (r : Router) :
    (publish m).run.run r = match r.outbound.publish m with
      | .ok outbound => (.ok (), { r with outbound })
      | .error e => (.error (.publish e), r) := by
  unfold publish
  change (match r.outbound.publish m with
    | .ok outbound => set { r with outbound }
    | .error e => throw (.publish e) : HandlerM Unit).run r = _
  cases r.outbound.publish m <;> rfl

theorem inherited_outlook : Inherited (Preserves outlook) where
  pure_ok a r := rfl
  bind_ok hx hf r := (hf _ _).trans (hx r)
  view_ok r := rfl
  publish_ok m r := by
    rw [run_publish]
    cases hp : r.outbound.publish m with
    | error e => rfl
    | ok o => rw [Outbound.publish_ok hp]; rfl
  findKnownTopic_ok _ _ _ := rfl
  saveKnownTopic_ok _ _ := rfl
  appendHistory_ok _ _ := rfl
  findDevice_ok _ _ := rfl
  saveDevice_ok _ _ := rfl

/-- A message on its way can reach the records and what goes out, and nothing else. -/
theorem inherited_apart {γ : Type} {π : Router → γ}
    (h : ∀ (r : Router) store outbound, π { r with store, outbound } = π r) :
    Inherited (Preserves π) where
  pure_ok _ _ := rfl
  bind_ok hx hf r := (hf _ _).trans (hx r)
  view_ok _ := rfl
  publish_ok m r := by
    rw [run_publish]
    cases r.outbound.publish m with
    | error e => rfl
    | ok o => exact h r r.store o
  findKnownTopic_ok _ _ r := h r _ r.outbound
  saveKnownTopic_ok _ r := h r _ r.outbound
  appendHistory_ok _ r := h r _ r.outbound
  findDevice_ok _ r := h r _ r.outbound
  saveDevice_ok _ r := h r _ r.outbound

theorem preserves_onStore {α : Type} {x : StoreM α} (hx : Store.Aside x) :
    Preserves (·.store.registry) (onStore x) := fun r => hx r.store

theorem inherited_registry : Inherited (Preserves (·.store.registry)) where
  pure_ok a r := rfl
  bind_ok hx hf r := (hf _ _).trans (hx r)
  view_ok r := rfl
  publish_ok m r := by
    rw [run_publish]
    cases r.outbound.publish m <;> rfl
  findKnownTopic_ok project topic :=
    preserves_onStore (Store.inherited_aside.getKnownTopic project topic)
  saveKnownTopic_ok k := preserves_onStore (Store.inherited_aside.saveKnownTopic k)
  appendHistory_ok e := preserves_onStore (Store.inherited_aside.appendHistory e)
  findDevice_ok macAddress := preserves_onStore (Store.inherited_aside.getDevice macAddress)
  saveDevice_ok d := preserves_onStore (Store.inherited_aside.saveDevice d)

end TopicHub.Router
