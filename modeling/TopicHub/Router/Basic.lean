import TopicHub.Expression.Sources
import TopicHub.Outbound

/-!
The router's state, and what its parts need of it. Every message changes the state as a whole; failures
are results like any other and take nothing back.
-/

namespace TopicHub

structure Router where
  namespaceName : String
  brokerHost : Option String
  cache : RecentCache
  store : Store
  engine : Engine
  outbound : Outbound

abbrev RouterM := StateM Router

inductive HandlerError where
  | store (e : StoreError)
  | publish (e : PublishError)
  | invalidPayload (topic reason : String)
  deriving DecidableEq, Repr

def HandlerError.message : HandlerError → String
  | .store e => e.message
  | .publish e => e.message
  | .invalidPayload topic reason => "invalid payload on " ++ topic ++ ": " ++ reason

abbrev HandlerM := ExceptT HandlerError RouterM

namespace Router

def now (r : Router) : Instant := Instant.ofMillis r.outbound.clock

def collaborators (r : Router) : Collaborators := .ofSources r.cache r.store r.engine

/-- An operation of the store as one of the router. -/
def onStore {α : Type} (x : StoreM α) : RouterM (Except StoreError α) := do
  let r ← get
  let (result, store) := x.run.run r.store
  set { r with store }
  pure result

def stored {α : Type} (x : StoreM α) : HandlerM α := do
  match ← liftM (onStore x) with
  | .ok a => pure a
  | .error e => throw (.store e)

def publish (m : OutboundMessage) : HandlerM Unit := do
  let r ← get
  match r.outbound.publish m with
  | .ok outbound => set { r with outbound }
  | .error e => throw (.publish e)

end Router

end TopicHub
