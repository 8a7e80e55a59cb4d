import TopicHub.Bus
import TopicHub.Router.Route

/-!
The service that takes messages from the bus and routes them one at a time. Starting, stopping and firing
return at once; tasks do the routing afterwards, one step at a time, in whatever order the events come. A
task that finds both a message and the signal to stop may take either first.
-/

namespace TopicHub

structure RoutingTask where
  subscription : Nat
  told : Bool
  deriving DecidableEq, Repr

structure Service where
  bus : Bus
  router : Router
  /-- Set from the start of a task to its very end. -/
  running : Bool
  tasks : List RoutingTask

namespace Service

inductive Event where
  | start
  | stop
  | fire (m : InboundMessage)
  | receive (task : RoutingTask)
  | leave (task : RoutingTask)

def ofRouter (router : Router) (capacity : Nat) : Service := ⟨.new capacity, router, false, []⟩

/-- The subscription is made before the start is over. A service that is running stays as it is. -/
def start (s : Service) : Service :=
  if s.running then s
  else
    let (bus, number) := s.bus.subscribe .arriving
    { s with bus, running := true, tasks := s.tasks ++ [⟨number, false⟩] }

def stop (s : Service) : Service :=
  if s.running then { s with tasks := s.tasks.map fun t => { t with told := true } } else s

def fire (s : Service) (m : InboundMessage) : Service := { s with bus := s.bus.send (.arriving m) }

def receive (s : Service) (task : RoutingTask) : Service :=
  let (bus, reception) := s.bus.receive task.subscription
  let s := { s with bus }
  match reception with
  | .message (.arriving m) => { s with router := ((Router.handle m).run s.router).2 }
  | _ => s

/-- Messages that wait for their time are dropped, and so are those not yet received. -/
def leave (s : Service) (task : RoutingTask) : Service :=
  { bus := s.bus.drop task.subscription
    router := { s.router with outbound := s.router.outbound.cancelAll }
    running := false
    tasks := s.tasks.erase task }

/-- Tasks act only while they are there, and leave only if they are told to. -/
def next (s : Service) : Event → Service
  | .start => s.start
  | .stop => s.stop
  | .fire m => s.fire m
  | .receive task => if task ∈ s.tasks then s.receive task else s
  | .leave task => if task ∈ s.tasks && task.told then s.leave task else s

/-- How often a task can receive before it finds nothing. -/
def backlog (s : Service) (task : RoutingTask) : Nat :=
  match s.bus.subscriptions[task.subscription]? with
  | some subscription => subscription.waiting.length + 1
  | none => 0

def settle (s : Service) : Service :=
  s.tasks.foldl (fun s task =>
    let s := (List.replicate (s.backlog task) (Event.receive task)).foldl next s
    s.next (.leave task)) s

end Service

end TopicHub
