import TopicHub.Proofs.BusAccounting
import TopicHub.Table

/-!
Queues as views of channels. Subscribers with the same interest share a channel, which keeps the
last signals sent on it. Each of them remembers the number of the signal that it takes next, and is
told how many it missed if that one is not kept any more. The channel of an address is made when the
first subscriber asks for it, and nothing is sent on it before. What subscribers find is the same as
with a queue of its own for each.
-/

namespace TopicHub

structure Channel where
  first : ℕ
  kept : List Signal

namespace Channel

def empty : Channel := ⟨0, []⟩

def tail (c : Channel) : ℕ := c.first + c.kept.length

def send (capacity : ℕ) (c : Channel) (signal : Signal) : Channel :=
  let kept := c.kept ++ [signal]
  let excess := kept.length - capacity
  ⟨c.first + excess, kept.drop excess⟩

def receive (c : Channel) (position : ℕ) : ℕ × Reception :=
  if position < c.first then (c.first, .lagged (c.first - position))
  else match c.kept[position - c.first]? with
    | some signal => (position + 1, .message signal)
    | none => (position, .nothing)

/-- What a subscriber has before it when it takes the signal of this number next. -/
def queue (c : Channel) (interest : Interest) (position : ℕ) : Subscription :=
  ⟨interest, c.kept.drop (position - c.first), c.first - position, true⟩

variable {c : Channel} {capacity position : ℕ} {interest : Interest}

theorem queue_tail (c : Channel) (interest : Interest) :
    c.queue interest c.tail = .new interest := by
  simp [queue, tail, Subscription.new]

theorem length_send (c : Channel) (capacity : ℕ) (signal : Signal) :
    (c.send capacity signal).kept.length ≤ capacity := by
  simp only [send, List.length_drop]
  omega

theorem tail_send (c : Channel) (capacity : ℕ) (signal : Signal) :
    (c.send capacity signal).tail = c.tail + 1 := by
  simp only [tail, send, List.length_drop, List.length_append, List.length_singleton]
  omega

/-- The oldest signal is dropped for all at once; only those that did not take it yet miss it. -/
theorem queue_send (hkept : c.kept.length ≤ capacity) (hp : position ≤ c.tail) (signal : Signal) :
    (c.send capacity signal).queue interest position =
      (c.queue interest position).enqueue capacity signal := by
  rw [tail] at hp
  have hdrop : (c.kept ++ [signal]).drop (position - c.first) =
      c.kept.drop (position - c.first) ++ [signal] := List.drop_append_of_le_length (by omega)
  simp only [queue, send, Subscription.enqueue, List.length_append, List.length_drop,
    List.length_singleton, List.drop_drop, Subscription.mk.injEq, and_true, true_and, ← hdrop]
  constructor
  · congr 1
    omega
  · omega

theorem take_queue (c : Channel) (interest : Interest) (position : ℕ) :
    (c.queue interest position).take =
      (c.queue interest (c.receive position).1, (c.receive position).2) := by
  by_cases hp : position < c.first
  · have hm : (c.queue interest position).missed ≠ 0 := by
      simp only [queue]
      omega
    rw [Subscription.take_missed hm]
    simp [queue, receive, hp, Nat.sub_eq_zero_of_le hp.le]
  · have hm : (c.queue interest position).missed = 0 := by
      simp only [queue]
      omega
    rcases hk : c.kept[position - c.first]? with _ | signal
    · have hw : (c.queue interest position).waiting = [] :=
        List.drop_eq_nil_of_le (List.getElem?_eq_none_iff.mp hk)
      rw [Subscription.take_nothing hm hw]
      simp [receive, hp, hk]
    · obtain ⟨hl, hs⟩ := List.getElem?_eq_some_iff.mp hk
      have hw : (c.queue interest position).waiting =
          signal :: c.kept.drop (position - c.first + 1) := by
        rw [← hs]
        exact List.drop_eq_getElem_cons hl
      rw [Subscription.take_message hm hw]
      have hnext : position + 1 - c.first = position - c.first + 1 := by omega
      have hnone : c.first - position = c.first - (position + 1) := by omega
      simp [queue, receive, hp, hk, hnext, hnone]

theorem position_le_tail (hp : position ≤ c.tail) : (c.receive position).1 ≤ c.tail := by
  rw [receive]
  split
  · exact Nat.le_add_right _ _
  · split
    · rename_i signal hk
      have hl := (List.getElem?_eq_some_iff.mp hk).1
      rw [tail]
      omega
    · exact hp

end Channel

structure Receiver where
  interest : Interest
  position : ℕ
  active : Bool

/-- A bus whose subscribers share channels. -/
structure ChannelBus where
  capacity : ℕ
  topics : Table Channel
  arriving : Channel
  leaving : Channel
  receivers : List Receiver

namespace ChannelBus

open Reception

def new (capacity : ℕ) : ChannelBus := ⟨Bus.queueLength capacity, .empty, .empty, .empty, []⟩

def channel (b : ChannelBus) : Interest → Channel
  | .topic address => (b.topics.get? address).getD .empty
  | .arriving => b.arriving
  | .leaving => b.leaving

def subscribe (b : ChannelBus) (interest : Interest) : ChannelBus :=
  { b with
    topics := match interest with
      | .topic address => b.topics.insert address (b.channel interest)
      | _ => b.topics
    receivers := b.receivers ++ [⟨interest, (b.channel interest).tail, true⟩] }

def fire (b : ChannelBus) (m : InboundMessage) : ChannelBus :=
  { b with
    topics := match b.topics.get? m.topic with
      | some c => b.topics.insert m.topic (c.send b.capacity (.arriving m))
      | none => b.topics
    arriving := b.arriving.send b.capacity (.arriving m) }

def publish (b : ChannelBus) (m : OutboundMessage) : ChannelBus :=
  { b with leaving := b.leaving.send b.capacity (.leaving m) }

def receive (b : ChannelBus) (number : ℕ) : ChannelBus × Reception :=
  match b.receivers[number]? with
  | none => (b, .gone)
  | some r =>
    if r.active then
      let (position, reception) := (b.channel r.interest).receive r.position
      ({ b with receivers := b.receivers.set number { r with position } }, reception)
    else (b, .gone)

def drop (b : ChannelBus) (number : ℕ) : ChannelBus :=
  { b with receivers := b.receivers.modify number fun r => { r with active := false } }

def next (b : ChannelBus) : Bus.Event → ChannelBus
  | .subscribe interest => b.subscribe interest
  | .fire m => b.fire m
  | .publish m => b.publish m
  | .receive number => (b.receive number).1
  | .drop number => b.drop number

def reception (number : ℕ) (b : ChannelBus) : Bus.Event → List Reception
  | .receive n => if n = number then [(b.receive number).2] else []
  | _ => []

def receptions (number : ℕ) (b : ChannelBus) (events : List Bus.Event) : List Reception :=
  outputs next (reception number) b events

def run (b : ChannelBus) (events : List Bus.Event) : ChannelBus := events.foldl next b

def queue (b : ChannelBus) (r : Receiver) : Subscription :=
  if r.active then (b.channel r.interest).queue r.interest r.position
  else ⟨r.interest, [], 0, false⟩

def toBus (b : ChannelBus) : Bus := ⟨b.capacity, b.receivers.map b.queue⟩

def Opened (b : ChannelBus) (interest : Interest) : Prop :=
  ∀ address, interest = .topic address → (b.topics.get? address).isSome = true

structure Sound (b : ChannelBus) : Prop where
  bounded : ∀ interest, (b.channel interest).kept.length ≤ b.capacity
  opened : ∀ r ∈ b.receivers, b.Opened r.interest
  behind : ∀ r ∈ b.receivers, r.position ≤ (b.channel r.interest).tail

variable {b : ChannelBus} {number : ℕ}

theorem sound_new (capacity : ℕ) : Sound (new capacity) where
  bounded := by
    intro interest
    cases interest <;> exact Nat.zero_le _
  opened := by simp [new]
  behind := by simp [new]

theorem channel_subscribe (b : ChannelBus) (interest i : Interest) :
    (b.subscribe interest).channel i = b.channel i := by
  cases interest with
  | topic address =>
    cases i with
    | topic other =>
      by_cases ho : other = address
      · simp [subscribe, channel, Table.get?_insert, ho]
      · simp [subscribe, channel, Table.get?_insert, ho]
    | _ => rfl
  | _ => cases i <;> rfl

theorem channel_fire (b : ChannelBus) (m : InboundMessage) {i : Interest} (h : b.Opened i) :
    (b.fire m).channel i = if i.wants (.arriving m) then
      (b.channel i).send b.capacity (.arriving m) else b.channel i := by
  cases i with
  | topic address =>
    obtain ⟨c, hc⟩ := Option.isSome_iff_exists.mp (h address rfl)
    by_cases ha : m.topic = address
    · subst ha
      simp [fire, channel, Interest.wants, hc, Table.get?_insert]
    · cases hm : b.topics.get? m.topic with
      | none => simp [fire, channel, Interest.wants, hm, ha]
      | some d => simp [fire, channel, Interest.wants, hm, ha, Table.get?_insert, Ne.symm ha]
  | arriving => rfl
  | leaving => rfl

theorem channel_publish (b : ChannelBus) (m : OutboundMessage) (i : Interest) :
    (b.publish m).channel i = if i.wants (.leaving m) then
      (b.channel i).send b.capacity (.leaving m) else b.channel i := by
  cases i <;> rfl

theorem opened_subscribe (b : ChannelBus) (interest : Interest) {i : Interest}
    (h : i = interest ∨ b.Opened i) : (b.subscribe interest).Opened i := by
  intro address ha
  subst ha
  cases interest with
  | topic other =>
    by_cases ho : address = other
    · simp [subscribe, Table.get?_insert, ho]
    · have hb := h.resolve_left (by simp [ho])
      simpa [subscribe, Table.get?_insert, ho] using hb address rfl
  | _ => exact (h.resolve_left (by simp)) address rfl

theorem opened_fire {i : Interest} (h : b.Opened i) (m : InboundMessage) : (b.fire m).Opened i := by
  intro address ha
  have hs := h address ha
  cases hm : b.topics.get? m.topic with
  | none => simpa [fire, hm] using hs
  | some c =>
    by_cases ho : address = m.topic
    · simp [fire, hm, Table.get?_insert, ho]
    · simpa [fire, hm, Table.get?_insert, ho] using hs

theorem channel_fire_unopened {i : Interest} (h : ¬ b.Opened i) (m : InboundMessage) :
    (b.fire m).channel i = b.channel i := by
  cases i with
  | topic address =>
    have hn : b.topics.get? address = none := by
      by_contra hne
      refine h fun other ho => ?_
      cases ho
      exact Option.isSome_iff_ne_none.mpr hne
    cases hm : b.topics.get? m.topic with
    | none => simp [fire, channel, hm]
    | some c =>
      have ho : address ≠ m.topic := by
        rintro rfl
        rw [hn] at hm
        cases hm
      simp [fire, channel, hm, Table.get?_insert, ho]
  | _ => exact absurd (fun _ ha => nomatch ha) h

theorem tail_fire (b : ChannelBus) (m : InboundMessage) (i : Interest) :
    (b.channel i).tail ≤ ((b.fire m).channel i).tail := by
  by_cases h : b.Opened i
  · rw [channel_fire b m h]
    split
    · rw [Channel.tail_send]
      exact Nat.le_succ _
    · exact le_rfl
  · rw [channel_fire_unopened h]

theorem tail_publish (b : ChannelBus) (m : OutboundMessage) (i : Interest) :
    (b.channel i).tail ≤ ((b.publish m).channel i).tail := by
  rw [channel_publish]
  split
  · rw [Channel.tail_send]
    exact Nat.le_succ _
  · exact le_rfl

theorem Sound.subscribe (h : Sound b) (interest : Interest) : Sound (b.subscribe interest) where
  bounded i := by
    rw [channel_subscribe]
    exact h.bounded i
  opened r hr := by
    rcases List.mem_append.mp hr with hr | hr
    · exact opened_subscribe b interest (.inr (h.opened r hr))
    · rw [List.mem_singleton.mp hr]
      exact opened_subscribe b interest (.inl rfl)
  behind r hr := by
    rw [channel_subscribe]
    rcases List.mem_append.mp hr with hr | hr
    · exact h.behind r hr
    · rw [List.mem_singleton.mp hr]

theorem Sound.fire (h : Sound b) (m : InboundMessage) : Sound (b.fire m) where
  bounded i := by
    by_cases ho : b.Opened i
    · rw [channel_fire b m ho]
      split
      · exact Channel.length_send _ _ _
      · exact h.bounded i
    · rw [channel_fire_unopened ho]
      exact h.bounded i
  opened r hr := opened_fire (h.opened r hr) m
  behind r hr := (h.behind r hr).trans (tail_fire b m r.interest)

theorem Sound.publish (h : Sound b) (m : OutboundMessage) : Sound (b.publish m) where
  bounded i := by
    rw [channel_publish]
    split
    · exact Channel.length_send _ _ _
    · exact h.bounded i
  opened r hr := h.opened r hr
  behind r hr := (h.behind r hr).trans (tail_publish b m r.interest)

theorem receive_none (hr : b.receivers[number]? = none) : b.receive number = (b, .gone) := by
  simp [receive, hr]

theorem receive_inactive {r : Receiver} (hr : b.receivers[number]? = some r)
    (ha : r.active = false) : b.receive number = (b, .gone) := by
  simp [receive, hr, ha]

theorem receive_active {r : Receiver} (hr : b.receivers[number]? = some r) (ha : r.active = true) :
    let found := (b.channel r.interest).receive r.position
    b.receive number =
      ({ b with receivers := b.receivers.set number { r with position := found.1 } }, found.2) := by
  simp [receive, hr, ha]

theorem Sound.receive (h : Sound b) (number : ℕ) : Sound (b.receive number).1 := by
  cases hr : b.receivers[number]? with
  | none => rwa [receive_none hr]
  | some r =>
    cases ha : r.active with
    | false => rwa [receive_inactive hr ha]
    | true =>
      have hin : r ∈ b.receivers := List.mem_of_getElem? hr
      rw [receive_active hr ha]
      refine ⟨h.bounded, fun q hq => ?_, fun q hq => ?_⟩
      · rcases List.mem_or_eq_of_mem_set hq with hq | rfl
        · exact h.opened q hq
        · exact h.opened r hin
      · rcases List.mem_or_eq_of_mem_set hq with hq | rfl
        · exact h.behind q hq
        · exact Channel.position_le_tail (h.behind r hin)

theorem Sound.drop (h : Sound b) (number : ℕ) : Sound (b.drop number) := by
  have hfrom : ∀ q ∈ (b.drop number).receivers, ∃ r ∈ b.receivers,
      q.interest = r.interest ∧ q.position = r.position := by
    intro q hq
    obtain ⟨i, hi⟩ := List.mem_iff_getElem?.mp hq
    rw [ChannelBus.drop, List.getElem?_modify] at hi
    obtain ⟨r, hr, rfl⟩ := Option.map_eq_some_iff.mp hi
    refine ⟨r, List.mem_of_getElem? hr, ?_⟩
    split <;> exact ⟨rfl, rfl⟩
  refine ⟨h.bounded, fun q hq => ?_, fun q hq => ?_⟩
  · obtain ⟨r, hr, hi, -⟩ := hfrom q hq
    rw [hi]
    exact h.opened r hr
  · obtain ⟨r, hr, hi, hp⟩ := hfrom q hq
    rw [hi, hp]
    exact h.behind r hr

theorem Sound.next (h : Sound b) (e : Bus.Event) : Sound (b.next e) := by
  cases e with
  | subscribe interest => exact h.subscribe interest
  | fire m => exact h.fire m
  | publish m => exact h.publish m
  | receive number => exact h.receive number
  | drop number => exact h.drop number

theorem queue_active {r : Receiver} (ha : r.active = true) :
    b.queue r = (b.channel r.interest).queue r.interest r.position := by
  simp [queue, ha]

theorem queue_inactive {r : Receiver} (ha : r.active = false) :
    b.queue r = ⟨r.interest, [], 0, false⟩ := by
  simp [queue, ha]

theorem toBus_subscribe (b : ChannelBus) (interest : Interest) :
    (b.subscribe interest).toBus = (b.toBus.subscribe interest).1 := by
  have hqueue : (b.subscribe interest).queue = b.queue := by
    funext r
    rw [queue, queue, channel_subscribe]
  let joined : Receiver := ⟨interest, (b.channel interest).tail, true⟩
  have hnew : b.queue joined = .new interest := Channel.queue_tail _ interest
  calc (b.subscribe interest).toBus
    _ = ⟨b.capacity, (b.receivers ++ [joined]).map b.queue⟩ := by
      rw [← hqueue]
      rfl
    _ = (b.toBus.subscribe interest).1 := by
      rw [List.map_append, List.map_singleton, hnew]
      rfl

/-- A signal goes to all channels that are for it. -/
theorem toBus_sent (h : Sound b) {b' : ChannelBus} {signal : Signal}
    (hcapacity : b'.capacity = b.capacity) (hreceivers : b'.receivers = b.receivers)
    (hchannel : ∀ r ∈ b.receivers, b'.channel r.interest =
      if r.interest.wants signal then (b.channel r.interest).send b.capacity signal
      else b.channel r.interest) : b'.toBus = b.toBus.send signal := by
  simp only [toBus, Bus.send, hcapacity, hreceivers, List.map_map, Bus.mk.injEq, true_and]
  refine List.map_congr_left fun r hr => ?_
  cases ha : r.active with
  | false => simp [queue_inactive ha]
  | true =>
    simp only [Function.comp_apply, queue_active ha, hchannel r hr]
    by_cases hw : r.interest.wants signal = true
    · simp only [hw, if_true]
      rw [Channel.queue_send (h.bounded _) (h.behind r hr)]
      simp [Channel.queue, hw]
    · simp [Channel.queue, hw]

theorem toBus_receive (b : ChannelBus) (number : ℕ) :
    (b.receive number).1.toBus = (b.toBus.receive number).1 ∧
      (b.receive number).2 = (b.toBus.receive number).2 := by
  cases hr : b.receivers[number]? with
  | none =>
    have hs : b.toBus.subscriptions[number]? = none := by simp [toBus, hr]
    rw [receive_none hr]
    simp [Bus.receive, hs]
  | some r =>
    have hs : b.toBus.subscriptions[number]? = some (b.queue r) := by simp [toBus, hr]
    cases ha : r.active with
    | false =>
      rw [queue_inactive ha] at hs
      rw [receive_inactive hr ha]
      simp [Bus.receive, hs]
    | true =>
      rw [queue_active ha] at hs
      rw [receive_active hr ha, Bus.receive_eq hs rfl, Channel.take_queue]
      refine ⟨?_, rfl⟩
      simp only [toBus, List.map_set, Bus.mk.injEq, true_and]
      congr 1
      exact queue_active ha

theorem toBus_drop (b : ChannelBus) (number : ℕ) : (b.drop number).toBus = b.toBus.drop number := by
  simp only [toBus, drop, Bus.drop, Bus.mk.injEq, true_and]
  apply List.ext_getElem?
  intro i
  simp only [List.getElem?_map, List.getElem?_modify]
  cases b.receivers[i]? with
  | none => rfl
  | some r =>
    by_cases hi : number = i
    · cases ha : r.active with
      | true => simp [hi, queue, ha, Channel.queue]
      | false => simp [hi, queue, ha]
    · simp [hi]
      rfl

theorem toBus_next (h : Sound b) (e : Bus.Event) : (b.next e).toBus = b.toBus.next e := by
  cases e with
  | subscribe interest => exact toBus_subscribe b interest
  | fire m => exact toBus_sent h rfl rfl fun r hr => channel_fire b m (h.opened r hr)
  | publish m => exact toBus_sent h rfl rfl fun r _ => channel_publish b m r.interest
  | receive number => exact (toBus_receive b number).1
  | drop number => exact toBus_drop b number

theorem reception_eq (b : ChannelBus) (number : ℕ) (e : Bus.Event) :
    b.reception number e = b.toBus.reception number e := by
  cases e with
  | receive n => rw [reception, Bus.reception, (toBus_receive b number).2]
  | _ => rfl

/-- In any run, every subscriber finds in its channel what it would find in a queue of its own. -/
theorem channels_serve_as_queues (events : List Bus.Event) : ∀ {b : ChannelBus}, Sound b →
    Sound (run b events) ∧ (run b events).toBus = Bus.run b.toBus events ∧
      ∀ number, receptions number b events = Bus.receptions number b.toBus events := by
  induction events with
  | nil => exact fun h => ⟨h, rfl, fun _ => rfl⟩
  | cons e events ih =>
    intro b h
    obtain ⟨hsound, hrun, hreceptions⟩ := ih (h.next e)
    refine ⟨hsound, ?_, fun number => ?_⟩
    · rw [toBus_next h] at hrun
      exact hrun
    · rw [receptions, Bus.receptions, outputs, outputs, reception_eq, ← toBus_next h]
      exact congrArg _ (hreceptions number)

/-- A subscriber joins after some steps and is not dropped in those that follow. What it received,
the losses that it was told of, those that it will be told of next and what waits for it are what
was meant for it, in order. Nothing is lost exactly if at no moment more is waiting than its queue
holds, and that is the capacity at least. The subscribers share channels, and it makes no difference
to what they find. -/
theorem subscriber_hears_what_is_meant (capacity : ℕ) (before after : List Bus.Event)
    (interest : Interest)
    (there : .drop (Bus.run (Bus.new capacity) before).subscriptions.length ∉ after) :
    let number := (Bus.run (Bus.new capacity) before).subscriptions.length
    let joined := (Bus.run (Bus.new capacity) before).next (.subscribe interest)
    let channels := (run (new capacity) before).next (.subscribe interest)
    let heard := fun events => receptions number channels events
    (∀ events, heard events = Bus.receptions number joined events ∧
      (run channels events).toBus = Bus.run joined events) ∧
    ∃ s told lost, (Bus.run joined after).subscriptions[number]? = some s ∧
      Bus.meant interest after = told ++ lost ++ s.waiting ∧
      Covers (heard after) told ∧ lost.length = s.missed ∧
      (Bus.meant interest after = messages (heard after) ++ s.waiting ↔
        ∀ past, past <+: after → (Bus.meant interest past).length ≤
          (messages (heard past)).length + Bus.queueLength capacity) ∧
      s.waiting.length ≤ Bus.queueLength capacity ∧ capacity ≤ Bus.queueLength capacity := by
  intro number joined channels heard
  obtain ⟨hsound, hbefore, -⟩ := channels_serve_as_queues before (sound_new capacity)
  have hjoined : channels.toBus = joined := by
    rw [toBus_next hsound, hbefore]
    rfl
  have hserve (events : List Bus.Event) : heard events = Bus.receptions number joined events ∧
      (run channels events).toBus = Bus.run joined events := by
    obtain ⟨-, hrun, hreceptions⟩ := channels_serve_as_queues events (hsound.next (.subscribe interest))
    rw [← hjoined]
    exact ⟨hreceptions number, hrun⟩
  refine ⟨hserve, ?_⟩
  simp only [fun events => (hserve events).1]
  exact Bus.accounted_after_joining capacity before after interest there

/-- Three messages are too many for a queue of two: the first one is lost, and the subscriber is
told before it receives the second. -/
theorem overrun_told_first :
    let door (payload : String) : InboundMessage := ⟨"home/p/door", payload, 0, false⟩
    let before : List Bus.Event := [.subscribe .arriving]
    let after : List Bus.Event := [.fire (door "1"), .fire ⟨"home/p/lamp", "on", 0, false⟩,
      .fire (door "2"), .fire (door "3"), .receive 1, .receive 1]
    let channels := (run (new 2) before).next (.subscribe (.topic "home/p/door"))
    .drop (Bus.run (Bus.new 2) before).subscriptions.length ∉ after ∧
      receptions 1 channels after = [.lagged 1, .message (.arriving (door "2"))] ∧
      ∃ s told, (run channels after).toBus.subscriptions[1]? = some s ∧
        s.waiting = [.arriving (door "3")] ∧
        [.arriving (door "1"), .arriving (door "2"), .arriving (door "3")] = told ++ s.waiting ∧
        Covers (receptions 1 channels after) told := by
  intro door before after channels
  have there : Bus.Event.drop (Bus.run (Bus.new 2) before).subscriptions.length ∉ after := by
    simp [after]
  obtain ⟨hserve, s, told, lost, hs, hmeant, hcovers, hlost, -⟩ :=
    subscriber_hears_what_is_meant 2 before after (.topic "home/p/door") there
  let joined := (Bus.run (Bus.new 2) before).next (.subscribe (.topic "home/p/door"))
  have hqueue : (Bus.run joined after).subscriptions[1]? =
      some ⟨.topic "home/p/door", [.arriving (door "3")], 0, true⟩ := by decide
  have hkept : s = ⟨.topic "home/p/door", [.arriving (door "3")], 0, true⟩ :=
    Option.some_injective _ (hs.symm.trans hqueue)
  have hnil : lost = [] := List.eq_nil_of_length_eq_zero (by rw [hlost, hkept])
  refine ⟨there, ?_, s, told, ?_, by rw [hkept], ?_, hcovers⟩
  · exact (hserve after).1.trans (by decide)
  · rw [(hserve after).2]
    exact hs

  rw [hnil, List.append_nil] at hmeant
  rw [← hmeant]
  decide

end ChannelBus

end TopicHub
