import TopicHub.Message

/-!
The bus between the transport and the hub. Each subscriber has a queue of its own, in the order of sending.
A queue that is full loses its oldest message to a new one, and its subscriber learns how many were lost
before it receives the rest.
-/

namespace TopicHub

inductive Interest where
  | topic (address : String)
  | arriving
  | leaving
  deriving DecidableEq, Repr

inductive Signal where
  | arriving (m : InboundMessage)
  | leaving (m : OutboundMessage)
  deriving DecidableEq, Repr

def Interest.wants : Interest → Signal → Bool
  | .topic address, .arriving m => m.topic = address
  | .arriving, .arriving _ => true
  | .leaving, .leaving _ => true
  | _, _ => false

structure Subscription where
  interest : Interest
  waiting : List Signal
  /-- How many were lost since the last time the subscriber was told. -/
  missed : Nat
  active : Bool
  deriving DecidableEq, Repr

namespace Subscription

def new (interest : Interest) : Subscription := ⟨interest, [], 0, true⟩

def enqueue (capacity : Nat) (s : Subscription) (signal : Signal) : Subscription :=
  let waiting := s.waiting ++ [signal]
  let excess := waiting.length - capacity
  { s with waiting := waiting.drop excess, missed := s.missed + excess }

end Subscription

inductive Reception where
  | message (signal : Signal)
  | nothing
  | lagged (missed : Nat)
  | gone
  deriving DecidableEq, Repr

structure Bus where
  capacity : Nat
  subscriptions : List Subscription
  deriving DecidableEq, Repr

namespace Bus

def defaultCapacity : Nat := 1024

def queueLength (capacity : Nat) : Nat := Nat.pow 2 (2 * capacity - 1).log2

/-- Queues have a length that is a power of two. -/
def new (capacity : Nat) : Bus := ⟨queueLength capacity, []⟩

def subscribe (b : Bus) (interest : Interest) : Bus × Nat :=
  ({ b with subscriptions := b.subscriptions ++ [.new interest] }, b.subscriptions.length)

def send (b : Bus) (signal : Signal) : Bus :=
  { b with
    subscriptions := b.subscriptions.map fun s =>
      if s.active && s.interest.wants signal then s.enqueue b.capacity signal else s }

def receive (b : Bus) (number : Nat) : Bus × Reception :=
  match b.subscriptions[number]? with
  | none => (b, .gone)
  | some s =>
    if !s.active then (b, .gone)
    else if s.missed ≠ 0 then
      ({ b with subscriptions := b.subscriptions.set number { s with missed := 0 } },
        .lagged s.missed)
    else match s.waiting with
      | [] => (b, .nothing)
      | signal :: rest =>
        ({ b with subscriptions := b.subscriptions.set number { s with waiting := rest } },
          .message signal)

def drop (b : Bus) (number : Nat) : Bus :=
  { b with
    subscriptions := b.subscriptions.modify number fun s =>
      { s with waiting := [], missed := 0, active := false } }

/-- The addresses that had a subscriber of their own at any time. -/
def addresses (b : Bus) : List String :=
  (b.subscriptions.filterMap fun s => match s.interest with
    | .topic address => some address
    | _ => none).eraseDups

end Bus

end TopicHub
