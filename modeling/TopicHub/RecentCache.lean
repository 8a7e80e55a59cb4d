import TopicHub.Message

/-!
The memory of the rules: the last message of each topic, for a bounded number of topics. A topic that is
there is updated in its place; a new one goes to the end and may push out the one at the front. Topics are
told apart by their names alone, whatever their namespace and project.
-/

namespace TopicHub

/-- The message of a topic that was there, brought up to date by the next one. Namespace, project and
description stay those of the first. -/
def Entry.renew (old new : Entry) : Entry :=
  { old with
    previousPayload := some old.payload
    payload := new.payload
    timeDiffMs := some (new.received.millisSince old.received)
    received := new.received
    direction := new.direction
    retain := new.retain
    qos := new.qos
    isKnown := new.isKnown
    sender := new.sender }

structure RecentCache where
  capacity : Nat
  /-- From the oldest to the newest insertion. -/
  entries : List Entry
  deriving DecidableEq, Repr

namespace RecentCache

def defaultCapacity : Nat := 200

def new (capacity : Nat) : RecentCache := ⟨max capacity 1, []⟩

inductive Update where
  | inserted (evicted : Option String)
  | updated (previous : String) (timeDiffMs : Int)
  deriving DecidableEq, Repr

def entry? (c : RecentCache) (topic : String) : Option Entry :=
  c.entries.find? fun e => e.topic = topic

def get? (c : RecentCache) (topic : String) : Option String := (c.entry? topic).map Entry.payload

def byAddress? (c : RecentCache) (address : String) : Option Entry :=
  c.entries.find? fun e => e.address = address

/-- By topic, or else by address. -/
def lookup? (c : RecentCache) (name : String) : Option String :=
  match c.entry? name with
  | some e => some e.payload
  | none => (c.byAddress? name).map Entry.payload

def renewIn (new : Entry) (entries : List Entry) : List Entry :=
  entries.map fun e => if e.topic = new.topic then e.renew new else e

def keepNewest (capacity : Nat) (entries : List Entry) : List Entry :=
  entries.drop (entries.length - capacity)

def put (c : RecentCache) (e : Entry) : RecentCache × Update :=
  match c.entry? e.topic with
  | some old =>
    ({ c with entries := renewIn e c.entries },
      .updated old.payload (e.received.millisSince old.received))
  | none =>
    let entries := c.entries ++ [{ e with previousPayload := none, timeDiffMs := none }]
    let evicted := entries.take (entries.length - c.capacity)
    ({ c with entries := keepNewest c.capacity entries },
      .inserted (evicted.getLast?.map Entry.topic))

def putAll (c : RecentCache) (entries : List Entry) : RecentCache :=
  entries.foldl (fun c e => (c.put e).1) c

def topics (c : RecentCache) : List String := c.entries.map Entry.topic

def size (c : RecentCache) : Nat := c.entries.length

def clear (c : RecentCache) : RecentCache := { c with entries := [] }

end RecentCache

end TopicHub
