import TopicHub.Proofs.BusAccounting
import TopicHub.Service

/-!
Starting and stopping the service. A service is idle, or one task routes what waits in its queue.
What was routed and what waits is part of what was fired, in the same order, so nothing is routed
twice. A start that finds a task which is told to stop changes nothing; when the task leaves, nobody
routes. So what is fired after the last start is routed for sure exactly if that start leaves no
task behind that is told to stop.
-/

namespace TopicHub

def Signal.arriving? : Signal → Option InboundMessage
  | .arriving m => some m
  | .leaving _ => none

def Reception.arrivals : Reception → List InboundMessage
  | .message (.arriving m) => [m]
  | _ => []

namespace Service

def run (s : Service) (events : List Event) : Service := events.foldl next s

def Event.fired : Event → List InboundMessage
  | .fire m => [m]
  | _ => []

def fired (events : List Event) : List InboundMessage := events.flatMap Event.fired

def handled (s : Service) : Event → List InboundMessage
  | .receive task =>
    if task ∈ s.tasks then (s.bus.receive task.subscription).2.arrivals else []
  | _ => []

/-- What is handed to the router along a run. -/
def routed (s : Service) (events : List Event) : List InboundMessage :=
  outputs next handled s events

def waiting (s : Service) : List InboundMessage :=
  s.tasks.flatMap fun task =>
    match s.bus.subscriptions[task.subscription]? with
    | some q => q.waiting.filterMap Signal.arriving?
    | none => []

theorem run_append (s : Service) (events rest : List Event) :
    run s (events ++ rest) = run (run s events) rest := List.foldl_append

theorem routed_cons (s : Service) (e : Event) (rest : List Event) :
    routed s (e :: rest) = s.handled e ++ routed (s.next e) rest := rfl

theorem routed_append (s : Service) (events rest : List Event) :
    routed s (events ++ rest) = routed s events ++ routed (run s events) rest :=
  outputs_append next handled events rest s

theorem run_concat (s : Service) (events : List Event) (e : Event) :
    run s (events ++ [e]) = (run s events).next e := run_append s events [e]

theorem routed_concat (s : Service) (events : List Event) (e : Event) :
    routed s (events ++ [e]) = routed s events ++ (run s events).handled e :=
  outputs_concat next handled s events e

theorem fired_concat (events : List Event) (e : Event) :
    fired (events ++ [e]) = fired events ++ e.fired := by
  simp [fired]

/-- The messages of a step are those that the router handles in it. -/
theorem router_next (s : Service) {e : Event} (he : ∀ task, e ≠ .leave task) :
    (s.next e).router = (s.handled e).foldl (fun r m => ((Router.handle m).run r).2) s.router := by
  cases e with
  | start =>
    simp only [next, start]
    split <;> rfl
  | stop =>
    simp only [next, stop]
    split <;> rfl
  | fire m => rfl
  | receive task =>
    by_cases ht : task ∈ s.tasks
    · rcases hr : s.bus.receive task.subscription with ⟨bus, (m | m) | _ | _ | _⟩
      all_goals simp [next, ht, receive, handled, hr, Reception.arrivals]
    · simp [next, handled, ht]
  | leave task => exact absurd rfl (he task)

/-- Until a task leaves, the router is the one that has handled the messages of the run. -/
theorem router_run (s : Service) (events : List Event) (he : ∀ task, .leave task ∉ events) :
    (run s events).router =
      (routed s events).foldl (fun r m => ((Router.handle m).run r).2) s.router := by
  induction events generalizing s with
  | nil => rfl
  | cons e events ih =>
    have hleave : ∀ task, e ≠ .leave task := fun task h => he task (h ▸ List.mem_cons_self ..)
    have hrest : ∀ task, .leave task ∉ events := fun task h => he task (List.mem_cons_of_mem _ h)
    rw [routed_cons, List.foldl_append, ← router_next s hleave]
    exact ih (s.next e) hrest

structure Idle (s : Service) : Prop where
  tasks : s.tasks = []
  running : s.running = false

/-- One task routes. These messages wait for it, and so many were lost since it was last told. -/
structure Routing (s : Service) (task : RoutingTask) (waiting : List InboundMessage) (missed : ℕ) :
    Prop where
  tasks : s.tasks = [task]
  running : s.running = true
  queue : s.bus.subscriptions[task.subscription]? =
    some ⟨.arriving, waiting.map Signal.arriving, missed, true⟩
  bounded : waiting.length ≤ s.bus.capacity

variable {s : Service} {task : RoutingTask} {ms : List InboundMessage} {missed : ℕ}

@[simp] theorem capacity_next (s : Service) (e : Event) :
    (s.next e).bus.capacity = s.bus.capacity := by
  cases e with
  | start =>
    simp only [next, start]
    split <;> rfl
  | stop =>
    simp only [next, stop]
    split <;> rfl
  | fire m => rfl
  | receive task =>
    simp only [next, receive]
    repeat' split
    all_goals first | rfl | exact Bus.capacity_next s.bus (.receive task.subscription)
  | leave task =>
    simp only [next]
    split <;> rfl

@[simp] theorem capacity_run (s : Service) (events : List Event) :
    (run s events).bus.capacity = s.bus.capacity := by
  induction events generalizing s with
  | nil => rfl
  | cons e events ih => exact (ih (s.next e)).trans (capacity_next s e)

theorem idle_ofRouter (router : Router) (capacity : ℕ) : Idle (ofRouter router capacity) :=
  ⟨rfl, rfl⟩

namespace Idle

theorem waiting (h : Idle s) : s.waiting = [] := by
  simp [Service.waiting, h.tasks]

theorem handled (h : Idle s) (e : Event) : s.handled e = [] := by
  cases e with
  | receive task => simp [Service.handled, h.tasks]
  | _ => rfl

theorem start (h : Idle s) :
    Routing (s.next .start) ⟨s.bus.subscriptions.length, false⟩ [] 0 := by
  have hs : s.next .start = { s with
      bus := (s.bus.subscribe .arriving).1
      running := true
      tasks := [⟨s.bus.subscriptions.length, false⟩] } := by
    simp [next, Service.start, h.running, h.tasks, Bus.subscribe]
  rw [hs]
  constructor
  · rfl
  · rfl
  · simp [Bus.subscribe, Subscription.new]
  · exact Nat.zero_le _

theorem next (h : Idle s) {e : Event} (he : e ≠ .start) : Idle (s.next e) := by
  cases e with
  | start => exact absurd rfl he
  | stop => simpa [Service.next, Service.stop, h.running] using h
  | fire m => exact ⟨h.tasks, h.running⟩
  | receive task => simpa [Service.next, h.tasks] using h
  | leave task => simpa [Service.next, h.tasks] using h

end Idle

namespace Routing

theorem waiting (h : Routing s task ms missed) : s.waiting = ms := by
  have hms : (ms.map Signal.arriving).filterMap Signal.arriving? = ms := by
    rw [List.filterMap_map]
    exact List.filterMap_some
  simp [Service.waiting, h.tasks, h.queue, hms]

theorem start (h : Routing s task ms missed) : s.next .start = s := by
  simp [next, Service.start, h.running]

theorem stop (h : Routing s task ms missed) :
    Routing (s.next .stop) ⟨task.subscription, true⟩ ms missed := by
  have hs : s.next .stop = { s with tasks := [⟨task.subscription, true⟩] } := by
    simp [next, Service.stop, h.running, h.tasks]
  rw [hs]
  exact ⟨rfl, h.running, h.queue, h.bounded⟩

theorem fire (h : Routing s task ms missed) (m : InboundMessage) :
    let excess := ms.length + 1 - s.bus.capacity
    Routing (s.next (.fire m)) task ((ms ++ [m]).drop excess) (missed + excess) where
  tasks := h.tasks
  running := h.running
  queue := by
    rw [next, Service.fire, Bus.get?_send h.queue rfl]
    simp [Interest.wants, Subscription.enqueue, List.map_drop]
  bounded := by
    rw [List.length_drop, List.length_append, List.length_singleton]
    change _ ≤ s.bus.capacity
    omega

theorem receive_of_take (h : Routing s task ms missed) {left : List InboundMessage} {r : Reception}
    (hq : Subscription.take ⟨.arriving, ms.map Signal.arriving, missed, true⟩ =
      (⟨.arriving, left.map Signal.arriving, 0, true⟩, r))
    (hl : left.length ≤ ms.length) :
    Routing (s.next (.receive task)) task left 0 ∧ s.handled (.receive task) = r.arrivals := by
  have hin : task ∈ s.tasks := by simp [h.tasks]
  have hr := Bus.receive_eq h.queue rfl
  rw [hq] at hr
  have hbus : (s.next (.receive task)).tasks = s.tasks ∧
      (s.next (.receive task)).running = s.running ∧
      (s.next (.receive task)).bus = (s.bus.receive task.subscription).1 := by
    simp only [Service.next, hin, if_true, Service.receive]
    split <;> exact ⟨rfl, rfl, rfl⟩
  obtain ⟨htasks, hrunning, hbus⟩ := hbus
  rw [hr] at hbus
  refine ⟨⟨htasks.trans h.tasks, hrunning.trans h.running, ?_, ?_⟩, ?_⟩
  · rw [hbus]
    exact List.getElem?_set_self (List.getElem?_eq_some_iff.mp h.queue).1
  · rw [hbus]
    exact hl.trans h.bounded
  · rw [Service.handled, if_pos hin, hr]

theorem receive (h : Routing s task ms missed) :
    ∃ left, Routing (s.next (.receive task)) task left 0 ∧
      s.handled (.receive task) ++ left = ms ∧ (missed = 0 → left = ms.tail) := by
  by_cases hm : missed = 0
  · subst hm
    cases ms with
    | nil =>
      obtain ⟨hn, hh⟩ := h.receive_of_take (Subscription.take_nothing rfl rfl) le_rfl
      exact ⟨[], hn, by rw [hh]; rfl, fun _ => rfl⟩
    | cons m ms =>
      obtain ⟨hn, hh⟩ := h.receive_of_take (Subscription.take_message rfl rfl) (by simp)
      exact ⟨ms, hn, by rw [hh]; rfl, fun _ => rfl⟩
  · obtain ⟨hn, hh⟩ := h.receive_of_take (Subscription.take_missed hm) le_rfl
    exact ⟨ms, hn, by rw [hh]; rfl, fun hz => absurd hz hm⟩

theorem leave (h : Routing s task ms missed) (ht : task.told = true) :
    Idle (s.next (.leave task)) := by
  constructor <;> simp [Service.next, h.tasks, ht, Service.leave]

/-- Starts, other tasks and a task that leaves without being told have no effect. -/
theorem next_cases (h : Routing s task ms missed) (e : Event) :
    (s.next e = s ∧ s.handled e = [] ∧ e.fired = []) ∨ e = .stop ∨ (∃ m, e = .fire m) ∨
      e = .receive task ∨ (e = .leave task ∧ task.told = true) := by
  cases e with
  | start => exact .inl ⟨h.start, rfl, rfl⟩
  | stop => exact .inr (.inl rfl)
  | fire m => exact .inr (.inr (.inl ⟨m, rfl⟩))
  | receive other =>
    by_cases ho : other = task
    · exact .inr (.inr (.inr (.inl (congrArg Event.receive ho))))
    · left
      simp [Service.next, Service.handled, Event.fired, h.tasks, ho]
  | leave other =>
    by_cases ho : other = task ∧ other.told = true
    · obtain ⟨rfl, ht⟩ := ho
      exact .inr (.inr (.inr (.inr ⟨rfl, ht⟩)))
    · left
      rw [not_and, Bool.not_eq_true] at ho
      simpa [Service.next, Service.handled, Event.fired, h.tasks] using fun hi ht =>
        absurd ht (by simp [ho hi])

end Routing

theorem Idle.routed {s : Service} (events : List Event) : Idle s → .start ∉ events →
    routed s events = [] := by
  induction events generalizing s with
  | nil => exact fun _ _ => rfl
  | cons e events ih =>
    intro h hstart
    rw [List.mem_cons, not_or] at hstart
    rw [routed_cons, h.handled, ih (h.next (Ne.symm hstart.1)) hstart.2]
    rfl

/-- What was routed and what waits is part of what was fired, in the same order. -/
structure Orderly (s : Service) (routed fired : List InboundMessage) : Prop where
  phase : Idle s ∨ ∃ task ms missed, Routing s task ms missed
  part : (routed ++ s.waiting).Sublist fired

theorem Orderly.next {routed fired : List InboundMessage} (h : Orderly s routed fired) (e : Event) :
    Orderly (s.next e) (routed ++ s.handled e) (fired ++ e.fired) := by
  have hpart := h.part
  have hkept : routed.Sublist (fired ++ e.fired) :=
    ((List.sublist_append_left _ _).trans hpart).trans (List.sublist_append_left _ _)
  rcases h.phase with hidle | ⟨task, ms, missed, hrouting⟩
  · rw [hidle.handled, List.append_nil]
    by_cases he : e = .start
    · subst he
      refine ⟨.inr ⟨_, _, _, hidle.start⟩, ?_⟩
      rwa [hidle.start.waiting, List.append_nil]
    · refine ⟨.inl (hidle.next he), ?_⟩
      rwa [(hidle.next he).waiting, List.append_nil]
  rw [hrouting.waiting] at hpart
  rcases hrouting.next_cases e with ⟨hs, hh, hf⟩ | rfl | ⟨m, rfl⟩ | rfl | ⟨rfl, ht⟩
  · rw [hs, hh, hf, List.append_nil, List.append_nil]
    exact h
  · refine ⟨.inr ⟨_, _, _, hrouting.stop⟩, ?_⟩
    rw [hrouting.stop.waiting]
    simpa [Service.handled, Event.fired] using hpart
  · refine ⟨.inr ⟨_, _, _, hrouting.fire m⟩, ?_⟩
    rw [(hrouting.fire m).waiting]
    calc (routed ++ []) ++ (ms ++ [m]).drop _
      _ = routed ++ (ms ++ [m]).drop _ := by rw [List.append_nil]
      List.Sublist _ (routed ++ (ms ++ [m])) := (List.drop_sublist _ _).append_left routed
      _ = routed ++ ms ++ [m] := (List.append_assoc _ _ _).symm
      List.Sublist _ (fired ++ [m]) := hpart.append_right [m]
  · obtain ⟨left, hleft, hms, -⟩ := hrouting.receive
    refine ⟨.inr ⟨_, _, _, hleft⟩, ?_⟩
    rw [hleft.waiting, List.append_assoc, hms]
    simpa [Event.fired] using hpart
  · have hleft := hrouting.leave ht
    refine ⟨.inl hleft, ?_⟩
    rw [hleft.waiting]
    simpa [Service.handled] using hkept

theorem orderly_run (router : Router) (capacity : ℕ) (events : List Event) :
    Orderly (run (ofRouter router capacity) events) (routed (ofRouter router capacity) events)
      (fired events) := by
  induction events using List.reverseRecOn with
  | nil =>
    have hidle := idle_ofRouter router capacity
    refine ⟨.inl hidle, ?_⟩
    rw [show run (ofRouter router capacity) [] = ofRouter router capacity from rfl, hidle.waiting]
    exact List.Sublist.slnil
  | append_singleton events e ih =>
    rw [run_concat, routed_concat, fired_concat]
    exact ih.next e

/-- At no moment of a run more is waiting than a queue holds, if nothing gets lost. -/
def Fits (s : Service) (events : List Event) : Prop :=
  ∀ past, past <+: events →
    s.waiting.length + (fired past).length ≤ (routed s past).length + s.bus.capacity

/-- As long as the service is neither started nor stopped and no more is waiting than a queue holds,
what was routed and what waits is what was waiting before and what was fired since, each message
once and in order; and a task has only to go on for all of it to be routed. -/
def RoutesAll (s : Service) : Prop :=
  ∀ events, .start ∉ events → .stop ∉ events → s.Fits events →
    routed s events ++ (run s events).waiting = s.waiting ++ fired events ∧
    ∃ task n, routed s (events ++ List.replicate n (.receive task)) = s.waiting ++ fired events

theorem Routing.drain_lossless {s : Service} (ms : List InboundMessage) : Routing s task ms 0 →
    routed s (List.replicate ms.length (.receive task)) = ms ∧
      Routing (run s (List.replicate ms.length (.receive task))) task [] 0 := by
  induction ms generalizing s with
  | nil => exact fun h => ⟨rfl, h⟩
  | cons m ms ih =>
    intro h
    obtain ⟨left, hleft, hms, htail⟩ := h.receive
    have htail := htail rfl
    rw [List.tail_cons] at htail
    subst htail
    obtain ⟨hrouted, hrest⟩ := ih hleft
    rw [List.length_cons, List.replicate_succ]
    refine ⟨?_, hrest⟩
    rw [routed_cons, hrouted, hms]

theorem Routing.drain (h : Routing s task ms missed) :
    ∃ n, routed s (List.replicate n (.receive task)) = ms ∧
      Routing (run s (List.replicate n (.receive task))) task [] 0 := by
  obtain ⟨left, hleft, hms, -⟩ := h.receive
  obtain ⟨hrouted, hrest⟩ := hleft.drain_lossless
  refine ⟨left.length + 1, ?_, hrest⟩
  rw [List.replicate_succ, routed_cons, hrouted, hms]

/-- A task that is not told to stop goes on until a stop, and loses nothing that fits. -/
theorem Routing.next (h : Routing s task ms missed) (ht : task.told = false) {e : Event}
    (hstop : e ≠ .stop)
    (hfits : ms.length + e.fired.length ≤ s.bus.capacity) :
    ∃ left missed', Routing (s.next e) task left missed' ∧ s.handled e ++ left = ms ++ e.fired := by
  rcases h.next_cases e with ⟨hs, hh, hf⟩ | rfl | ⟨m, rfl⟩ | rfl | ⟨rfl, htold⟩
  · exact ⟨ms, missed, by rwa [hs], by rw [hh, hf, List.append_nil, List.nil_append]⟩
  · exact absurd rfl hstop
  · have hfire := h.fire m
    have hexcess : ms.length + 1 - s.bus.capacity = 0 := Nat.sub_eq_zero_of_le hfits
    rw [hexcess] at hfire
    exact ⟨_, _, hfire, rfl⟩
  · obtain ⟨left, hleft, hms, -⟩ := h.receive
    exact ⟨left, 0, hleft, hms.trans (List.append_nil ms).symm⟩
  · rw [ht] at htold
    cases htold

theorem Routing.run (h : Routing s task ms missed) (ht : task.told = false) (events : List Event)
    (hstop : .stop ∉ events) (hfits : s.Fits events) :
    ∃ left missed', Routing (run s events) task left missed' ∧
      routed s events ++ left = ms ++ fired events := by
  induction events using List.reverseRecOn with
  | nil => exact ⟨ms, missed, h, (List.append_nil ms).symm⟩
  | append_singleton events e ih =>
    simp only [List.mem_append, List.mem_singleton, not_or] at hstop
    have hbefore : s.Fits events := fun past hp => hfits past (hp.trans (List.prefix_append _ _))
    obtain ⟨left, missed', hleft, hsplit⟩ := ih hstop.1 hbefore
    have hroom : left.length + e.fired.length ≤ (Service.run s events).bus.capacity := by
      have hnow := hfits (events ++ [e]) (List.prefix_refl _)
      have hlen := congrArg List.length hsplit
      rw [h.waiting, fired_concat, routed_concat] at hnow
      simp only [List.length_append] at hnow hlen
      cases e with
      | fire m =>
        rw [capacity_run]
        simp only [handled, List.length_nil] at hnow
        omega
      | _ => exact hleft.bounded
    obtain ⟨rest, missed'', hrest, hstep⟩ := hleft.next ht (Ne.symm hstop.2) hroom
    refine ⟨rest, missed'', by rwa [run_concat], ?_⟩
    rw [routed_concat, fired_concat, List.append_assoc, hstep, ← List.append_assoc, hsplit,
      List.append_assoc]

/-- A task that is told to stop can empty its queue and leave. What is fired then is not routed. -/
theorem Routing.not_routesAll (h : Routing s task ms missed) (ht : task.told = true)
    (hpos : 0 < s.bus.capacity) : ¬ s.RoutesAll := by
  intro hall
  obtain ⟨n, hrouted, hempty⟩ := h.drain
  let m : InboundMessage := default
  let quiet : List Event := List.replicate n (.receive task) ++ [.leave task]
  have hquiet : ∀ past, past <+: quiet → fired past = [] := by
    intro past hp
    refine List.flatMap_eq_nil_iff.mpr fun e he => ?_
    have hmem := hp.subset he
    simp only [quiet, List.mem_append, List.mem_replicate, List.mem_singleton] at hmem
    rcases hmem with ⟨-, rfl⟩ | rfl <;> rfl
  have hleft : Idle (Service.run s quiet) := by
    rw [run_concat]
    exact hempty.leave ht
  have hnone : routed s (quiet ++ [.fire m]) = ms := by
    rw [routed_concat, routed_concat, hrouted]
    simp [handled]
  have hfits : s.Fits (quiet ++ [.fire m]) := by
    intro past hp
    rw [h.waiting]
    rcases List.prefix_concat_iff.mp hp with rfl | hp
    · rw [hnone, fired_concat, hquiet quiet (List.prefix_refl _)]
      exact Nat.add_le_add_left hpos _
    · rw [hquiet past hp]
      exact h.bounded.trans (Nat.le_add_left _ _)
  have hend : (Service.run s (quiet ++ [.fire m])).waiting = [] := by
    rw [run_concat]
    exact (hleft.next Event.noConfusion).waiting
  obtain ⟨hsplit, -⟩ := hall (quiet ++ [.fire m]) (by simp [quiet]) (by simp [quiet]) hfits
  rw [hnone, hend, h.waiting, fired_concat, hquiet quiet (List.prefix_refl _)] at hsplit
  simp [Event.fired] at hsplit

theorem Routing.routesAll (h : Routing s task ms missed) (ht : task.told = false) :
    s.RoutesAll := by
  intro events _ hstop hfits
  obtain ⟨left, missed', hleft, hsplit⟩ := h.run ht events hstop hfits
  obtain ⟨n, hrouted, -⟩ := hleft.drain
  rw [hleft.waiting, h.waiting]
  refine ⟨hsplit, task, n, ?_⟩
  rw [routed_append, hrouted, hsplit]

/-- No message is routed twice, nor out of order, in any run of calls and tasks, and what is routed is
what the router handles until a task leaves. What is waiting or fired from the last start on is routed,
each message once, exactly if that start left no task behind that is told to stop. -/
theorem routed_once_after_last_start (router : Router) (capacity : ℕ) (before : List Event) :
    let first := ofRouter router capacity
    let s := run first (before ++ [.start])
    (routed first before).Sublist (fired before) ∧ capacity ≤ s.bus.capacity ∧
      (∀ events, (∀ task, .leave task ∉ events) → (run first (before ++ events)).router =
        (routed (run first before) events).foldl (fun r m => ((Router.handle m).run r).2)
          (run first before).router) ∧
      (s.RoutesAll ↔ ∀ task ∈ s.tasks, task.told = false) := by
  intro first s
  have horderly := orderly_run router capacity before
  have hcapacity : s.bus.capacity = Bus.queueLength capacity := capacity_run first _
  refine ⟨(List.sublist_append_left _ _).trans horderly.part, ?_, ?_, ?_⟩
  · rw [hcapacity]
    exact Bus.le_queueLength capacity
  · intro events hleave
    rw [run_append]
    exact router_run (run first before) events hleave
  · have hrouting : ∃ task ms missed, Routing s task ms missed := by
      rw [show s = (run first before).next .start from run_concat first before .start]
      rcases horderly.phase with hidle | ⟨task, ms, missed, hrouting⟩
      · exact ⟨_, _, _, hidle.start⟩
      · exact ⟨task, ms, missed, by rwa [hrouting.start]⟩
    obtain ⟨task, ms, missed, hrouting⟩ := hrouting
    rw [hrouting.tasks, List.forall_mem_singleton]
    cases ht : task.told with
    | true =>
      have hpos : 0 < s.bus.capacity := by
        rw [hcapacity]
        exact Nat.two_pow_pos _
      exact iff_of_false (hrouting.not_routesAll ht hpos) (by decide)
    | false => exact iff_of_true (hrouting.routesAll ht) rfl

def quietHub : Router where
  namespaceName := "home"
  brokerHost := none
  cache := .new 1
  store := .inMemory .empty
  engine := ⟨fun _ _ => .ok "", fun _ => .ok .null⟩
  outbound := .empty

/-- The second start finds the task that is still to leave, and returns as if the service ran. What
is fired after the task has left is not routed, whatever the tasks do. -/
theorem restart_before_leaving_unheard :
    let s := run (ofRouter quietHub 4) ([.start, .stop] ++ [.start])
    let m : InboundMessage := ⟨"home/p/door", "open", 0, false⟩
    s.running = true ∧ s.Fits [.leave ⟨0, true⟩, .fire m] ∧
      (∀ later, .start ∉ later → routed s (.leave ⟨0, true⟩ :: .fire m :: later) = []) ∧
      ¬ s.RoutesAll := by
  intro s m
  have hidle := idle_ofRouter quietHub 4
  have hs : Routing s ⟨0, true⟩ [] 0 := by
    have hstopped := hidle.start.stop
    have hagain : s = ((ofRouter quietHub 4).next .start).next .stop := hstopped.start
    rwa [hagain]
  have hleft : Idle ((s.next (.leave ⟨0, true⟩)).next (.fire m)) :=
    (hs.leave rfl).next Event.noConfusion
  refine ⟨hs.running, ?_, ?_, hs.not_routesAll rfl (by decide)⟩
  · intro past hp
    rw [hs.waiting]
    have hlen : (fired past).length ≤ 1 := (hp.sublist.flatMap Event.fired).length_le
    have hroom : 1 ≤ s.bus.capacity := by decide
    rw [List.length_nil]
    omega
  · intro later hstart
    rw [routed_cons, routed_cons, hleft.routed later hstart, (hs.leave rfl).handled]
    rfl

end Service

end TopicHub
