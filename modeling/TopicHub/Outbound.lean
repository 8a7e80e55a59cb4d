import TopicHub.Timer

/-!
The way out: messages are published at once or after a delay, over a connection that may refuse them. A
delayed message that is refused is lost. The clock moves only when it is told to.
-/

namespace TopicHub

inductive PublishError where
  | notConnected
  | refused (topic reason : String)
  deriving DecidableEq, Repr

def PublishError.message : PublishError → String
  | .notConnected => "transport is not connected"
  | .refused topic reason => "transport rejected publish to " ++ topic ++ ": " ++ reason

inductive Connection where
  | accepting
  | absent
  | refusing (reason : String)
  deriving DecidableEq, Repr

structure Sent where
  time : Nat
  message : OutboundMessage
  deriving DecidableEq, Repr

structure Outbound where
  clock : Nat
  connection : Connection
  sent : List Sent
  timers : Timers
  deriving DecidableEq, Repr

/-- What became of a message that is to be published after a delay, if only of none. -/
inductive Scheduling where
  | published
  | armed
  | cancelled
  deriving DecidableEq, Repr

namespace Outbound

def empty : Outbound := ⟨0, .accepting, [], .empty⟩

def publish (o : Outbound) (m : OutboundMessage) : Except PublishError Outbound :=
  match o.connection with
  | .accepting => .ok { o with sent := o.sent ++ [⟨o.clock, m⟩] }
  | .absent => .error .notConnected
  | .refusing reason => .error (.refused m.topic reason)

def schedule (o : Outbound) (m : OutboundMessage) (delayMs : Nat) :
    Except PublishError (Outbound × Scheduling) :=
  if delayMs = 0 then (o.publish m).map (·, .published)
  else match o.timers.pendingFor? m with
    | some _ => .ok ({ o with timers := o.timers.cancel m }, .cancelled)
    | none => .ok ({ o with timers := o.timers.arm m (o.clock + delayMs) }, .armed)

def wake (o : Outbound) (timer : Timer) : Outbound :=
  let (timers, stillPending) := o.timers.wake timer
  let o := { o with timers }
  if stillPending then
    match o.publish timer.message with
    | .ok o => o
    | .error _ => o
  else o

def cancelAll (o : Outbound) : Outbound := { o with timers := o.timers.cancelAll }

def advance (o : Outbound) (ms : Nat) : Outbound :=
  let woken := (o.timers.dueBy (o.clock + ms)).foldl
    (fun o timer => { o with clock := timer.due }.wake timer) o
  { woken with clock := o.clock + ms }

end Outbound

end TopicHub
