import TopicHub.Message

/-!
Timers for messages that are published later. At most one timer is pending for a topic and payload: to arm
that pair once more cancels the timer instead. A timer that wakes up counts only if it is itself still
pending; its number tells it from a later timer of the same pair.
-/

namespace TopicHub

structure Timer where
  id : Nat
  message : OutboundMessage
  due : Nat
  deriving DecidableEq, Repr

def OutboundMessage.key (m : OutboundMessage) : String × String := (m.topic, m.payload)

structure Timers where
  pending : List Timer
  /-- Numbers grow without bound. A counter of 64 bits starts again only after 2 ^ 64 timers. -/
  nextId : Nat
  deriving DecidableEq, Repr

namespace Timers

def empty : Timers := ⟨[], 0⟩

def pendingFor? (t : Timers) (m : OutboundMessage) : Option Timer :=
  t.pending.find? fun p => p.message.key = m.key

def cancel (t : Timers) (m : OutboundMessage) : Timers :=
  { t with pending := t.pending.filter fun p => p.message.key ≠ m.key }

def arm (t : Timers) (m : OutboundMessage) (due : Nat) : Timers :=
  ⟨t.pending ++ [⟨t.nextId, m, due⟩], t.nextId + 1⟩

/-- A timer wakes up. The result says whether it was still pending under its own number. -/
def wake (t : Timers) (timer : Timer) : Timers × Bool :=
  match t.pendingFor? timer.message with
  | some p => if p.id = timer.id then (t.cancel timer.message, true) else (t, false)
  | none => (t, false)

def cancelAll (t : Timers) : Timers := { t with pending := [] }

def dueBy (t : Timers) (time : Nat) : List Timer :=
  (t.pending.filter fun p => p.due ≤ time).mergeSort fun a b => a.due ≤ b.due

end Timers

end TopicHub
