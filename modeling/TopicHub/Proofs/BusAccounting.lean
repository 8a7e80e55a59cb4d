import Mathlib
import TopicHub.Bus

/-!
What subscribers hear. Every signal that is meant for a subscriber and was sent after it joined was
received, was lost or is waiting, in the order of sending; at each place where some were lost the
subscriber is told how many. None is lost before more are waiting than a queue holds. The accounting
is one of single queues: a step of the bus adds to a queue, takes from it or leaves it alone.
-/

namespace TopicHub

section

variable {σ ε α : Type} (next : σ → ε → σ) (output : σ → ε → List α)

/-- What the steps of a run put out. -/
def outputs : σ → List ε → List α
  | _, [] => []
  | s, e :: rest => output s e ++ outputs (next s e) rest

theorem outputs_append (events rest : List ε) : ∀ s : σ,
    outputs next output s (events ++ rest) =
      outputs next output s events ++ outputs next output (events.foldl next s) rest := by
  induction events with
  | nil => exact fun s => rfl
  | cons e events ih =>
    intro s
    rw [List.cons_append, outputs, outputs, ih, List.append_assoc]
    rfl

theorem outputs_concat (s : σ) (events : List ε) (e : ε) :
    outputs next output s (events ++ [e]) =
      outputs next output s events ++ output (events.foldl next s) e := by
  rw [outputs_append, outputs, outputs, List.append_nil]

end

/-- The receptions stand for these signals: each message for itself, and a report of a loss for as
many as were lost. -/
inductive Covers : List Reception → List Signal → Prop where
  | start : Covers [] []
  | message {heard told} (signal : Signal) : Covers heard told →
      Covers (heard ++ [.message signal]) (told ++ [signal])
  | nothing {heard told} : Covers heard told → Covers (heard ++ [.nothing]) told
  | lagged {heard told} {lost : List Signal} : Covers heard told → lost ≠ [] →
      Covers (heard ++ [.lagged lost.length]) (told ++ lost)

namespace Reception

def signal? : Reception → Option Signal
  | .message signal => some signal
  | _ => none

def loss : Reception → ℕ
  | .lagged missed => missed
  | _ => 0

def messages (heard : List Reception) : List Signal := heard.filterMap signal?

def lostSum (heard : List Reception) : ℕ := (heard.map loss).sum

theorem messages_concat (heard : List Reception) (r : Reception) :
    messages (heard ++ [r]) = messages heard ++ r.signal?.toList := by
  cases r <;> simp [messages, signal?]

theorem lostSum_concat (heard : List Reception) (r : Reception) :
    lostSum (heard ++ [r]) = lostSum heard + r.loss := by
  simp [lostSum]

end Reception

open Reception

variable {capacity number : ℕ} {heard : List Reception} {told signals : List Signal}
  {s : Subscription} {signal : Signal}

theorem Covers.length (h : Covers heard told) :
    told.length = (messages heard).length + lostSum heard := by
  induction h with
  | start => rfl
  | message signal _ ih =>
    simp only [messages_concat, lostSum_concat, List.length_append, ih]
    exact Nat.add_right_comm _ _ _
  | nothing _ ih =>
    simp only [messages_concat, lostSum_concat, List.length_append, ih]
    rfl
  | lagged _ _ ih =>
    simp only [messages_concat, lostSum_concat, List.length_append, ih]
    exact Nat.add_assoc _ _ _

theorem Covers.eq_messages (h : Covers heard told) (hl : lostSum heard = 0) :
    told = messages heard := by
  induction h with
  | start => rfl
  | message signal _ ih =>
    rw [lostSum_concat, Nat.add_eq_zero_iff] at hl
    rw [messages_concat, ih hl.1]
    rfl
  | nothing _ ih =>
    rw [lostSum_concat, Nat.add_eq_zero_iff] at hl
    rw [messages_concat, ih hl.1]
    exact (List.append_nil _).symm
  | lagged _ hne _ =>
    rw [lostSum_concat, Nat.add_eq_zero_iff] at hl
    exact absurd (List.eq_nil_of_length_eq_zero hl.2) hne

namespace Subscription

/-- What the subscriber finds, and what is left for it. -/
def take (s : Subscription) : Subscription × Reception :=
  if s.missed ≠ 0 then ({ s with missed := 0 }, .lagged s.missed)
  else match s.waiting with
    | [] => (s, .nothing)
    | signal :: rest => ({ s with waiting := rest }, .message signal)

/-- How a queue accounts for the signals meant for it: they are those that its subscriber was told
of, those that it missed and was not told of yet, and those that wait. -/
structure Accounts (capacity : ℕ) (heard : List Reception) (signals : List Signal)
    (s : Subscription) : Prop where
  split : ∃ told lost, signals = told ++ lost ++ s.waiting ∧ Covers heard told ∧
    lost.length = s.missed
  bounded : s.waiting.length ≤ capacity

def losses (heard : List Reception) (s : Subscription) : ℕ := lostSum heard + s.missed

theorem accounts_new (capacity : ℕ) (interest : Interest) :
    Accounts capacity [] [] (new interest) where
  split := ⟨[], [], rfl, .start, rfl⟩
  bounded := Nat.zero_le _

/-- The oldest ones that do not fit are missed. -/
theorem Accounts.enqueue (h : Accounts capacity heard signals s) (signal : Signal) :
    Accounts capacity heard (signals ++ [signal]) (s.enqueue capacity signal) := by
  obtain ⟨told, lost, hmeant, hcovers, hlost⟩ := h.split
  let all := s.waiting ++ [signal]
  let excess := all.length - capacity
  constructor
  · refine ⟨told, lost ++ all.take excess, ?_, hcovers, ?_⟩
    · calc signals ++ [signal]
        _ = told ++ lost ++ all := by rw [hmeant, List.append_assoc]
        _ = told ++ lost ++ (all.take excess ++ all.drop excess) := by rw [List.take_append_drop]
        _ = told ++ (lost ++ all.take excess) ++ all.drop excess := by simp only [List.append_assoc]
    · rw [List.length_append, List.length_take, hlost, Nat.min_eq_left (Nat.sub_le _ _)]
      rfl
  · change (all.drop excess).length ≤ capacity
    rw [List.length_drop]
    omega

theorem losses_enqueue (heard : List Reception) (s : Subscription) (capacity : ℕ)
    (signal : Signal) :
    losses heard (s.enqueue capacity signal) =
      losses heard s + (s.waiting.length + 1 - capacity) := by
  simp [losses, Subscription.enqueue, Nat.add_assoc]

theorem take_missed (h : s.missed ≠ 0) : s.take = ({ s with missed := 0 }, .lagged s.missed) :=
  if_pos h

theorem take_nothing (h : s.missed = 0) (hw : s.waiting = []) : s.take = (s, .nothing) := by
  simp [take, h, hw]

theorem take_message (h : s.missed = 0) {rest : List Signal} (hw : s.waiting = signal :: rest) :
    s.take = ({ s with waiting := rest }, .message signal) := by
  simp [take, h, hw]

@[simp] theorem interest_take (s : Subscription) : s.take.1.interest = s.interest := by
  rw [take]
  repeat' split
  all_goals rfl

@[simp] theorem active_take (s : Subscription) : s.take.1.active = s.active := by
  rw [take]
  repeat' split
  all_goals rfl

theorem Accounts.take (h : Accounts capacity heard signals s) :
    Accounts capacity (heard ++ [s.take.2]) signals s.take.1 := by
  obtain ⟨told, lost, hmeant, hcovers, hlost⟩ := h.split
  by_cases hm : s.missed = 0
  · have hnil : lost = [] := List.eq_nil_of_length_eq_zero (hlost.trans hm)
    subst hnil
    rcases hw : s.waiting with _ | ⟨signal, rest⟩
    · rw [take_nothing hm hw]
      exact ⟨⟨told, [], hmeant, hcovers.nothing, hlost⟩, h.bounded⟩
    · rw [take_message hm hw]
      constructor
      · refine ⟨told ++ [signal], [], ?_, hcovers.message signal, hlost⟩
        simp [hmeant, hw]
      · have hb := h.bounded
        rw [hw, List.length_cons] at hb
        exact Nat.le_of_succ_le hb
  · have hne : lost ≠ [] := by
      rintro rfl
      exact hm hlost.symm
    rw [take_missed hm, ← hlost]
    exact ⟨⟨told ++ lost, [], by simp [hmeant], hcovers.lagged hne, rfl⟩, h.bounded⟩

theorem losses_take (heard : List Reception) (s : Subscription) :
    losses (heard ++ [s.take.2]) s.take.1 = losses heard s := by
  by_cases hm : s.missed = 0
  · rcases hw : s.waiting with _ | ⟨signal, rest⟩
    · rw [take_nothing hm hw, losses, lostSum_concat]
      rfl
    · rw [take_message hm hw, losses, lostSum_concat]
      rfl
  · rw [take_missed hm, losses, lostSum_concat]
    rfl

theorem Accounts.length (h : Accounts capacity heard signals s) :
    signals.length = (messages heard).length + losses heard s + s.waiting.length := by
  obtain ⟨told, lost, hmeant, hcovers, hlost⟩ := h.split
  have htold := hcovers.length
  simp only [hmeant, List.length_append, losses]
  omega

/-- Nothing is lost exactly if all that was meant was received or is waiting. -/
theorem Accounts.lossless_iff (h : Accounts capacity heard signals s) :
    losses heard s = 0 ↔ signals = messages heard ++ s.waiting := by
  constructor
  · intro hl
    obtain ⟨told, lost, hmeant, hcovers, hlost⟩ := h.split
    obtain ⟨hsum, hmissed⟩ := Nat.add_eq_zero_iff.mp hl
    have hnil : lost = [] := List.eq_nil_of_length_eq_zero (hlost.trans hmissed)
    rw [hmeant, hnil, hcovers.eq_messages hsum, List.append_nil]
  · intro hm
    have hlen := h.length
    rw [hm, List.length_append] at hlen
    omega

end Subscription

namespace Bus

open Subscription

/-- What happens on a bus. -/
inductive Event where
  | subscribe (interest : Interest)
  | fire (m : InboundMessage)
  | publish (m : OutboundMessage)
  | receive (number : ℕ)
  | drop (number : ℕ)

def next (b : Bus) : Event → Bus
  | .subscribe interest => (b.subscribe interest).1
  | .fire m => b.send (.arriving m)
  | .publish m => b.send (.leaving m)
  | .receive number => (b.receive number).1
  | .drop number => b.drop number

def run (b : Bus) (events : List Event) : Bus := events.foldl next b

def reception (number : ℕ) (b : Bus) : Event → List Reception
  | .receive n => if n = number then [(b.receive number).2] else []
  | _ => []

def receptions (number : ℕ) (b : Bus) (events : List Event) : List Reception :=
  outputs next (reception number) b events

/-- The signal that a step has for those with an interest: messages fired on exactly their address,
all messages fired, or all published. -/
def Event.signalFor : Interest → Event → Option Signal
  | .topic address, .fire m => if m.topic = address then some (.arriving m) else none
  | .arriving, .fire m => some (.arriving m)
  | .leaving, .publish m => some (.leaving m)
  | _, _ => none

def meant (interest : Interest) (events : List Event) : List Signal :=
  events.filterMap (Event.signalFor interest)

variable {b : Bus} {interest : Interest}

theorem run_append (b : Bus) (events rest : List Event) :
    run b (events ++ rest) = run (run b events) rest := List.foldl_append

theorem receptions_concat (number : ℕ) (b : Bus) (events : List Event) (e : Event) :
    receptions number b (events ++ [e]) =
      receptions number b events ++ (run b events).reception number e :=
  outputs_concat next (reception number) b events e

theorem meant_concat (interest : Interest) (events : List Event) (e : Event) :
    meant interest (events ++ [e]) = meant interest events ++ (e.signalFor interest).toList := by
  cases h : e.signalFor interest with
  | none => simp [meant, h]
  | some signal => simp [meant, h]

@[simp] theorem capacity_next (b : Bus) (e : Event) : (b.next e).capacity = b.capacity := by
  cases e with
  | receive number =>
    simp only [next, receive]
    repeat' split
    all_goals rfl
  | _ => rfl

@[simp] theorem capacity_run (b : Bus) (events : List Event) :
    (run b events).capacity = b.capacity := by
  induction events generalizing b with
  | nil => rfl
  | cons e events ih => exact (ih (b.next e)).trans (capacity_next b e)

theorem get?_subscribe (hs : b.subscriptions[number]? = some s) (interest : Interest) :
    (b.subscribe interest).1.subscriptions[number]? = some s := by
  rw [subscribe, List.getElem?_append_left (List.getElem?_eq_some_iff.mp hs).1, hs]

theorem get?_send (hs : b.subscriptions[number]? = some s) (ha : s.active = true)
    (signal : Signal) :
    (b.send signal).subscriptions[number]? =
      some (if s.interest.wants signal then s.enqueue b.capacity signal else s) := by
  simp [send, hs, ha]

theorem receive_eq (hs : b.subscriptions[number]? = some s) (ha : s.active = true) :
    b.receive number =
      ({ b with subscriptions := b.subscriptions.set number s.take.1 }, s.take.2) := by
  have hself : b.subscriptions.set number s = b.subscriptions := by
    obtain ⟨hl, rfl⟩ := List.getElem?_eq_some_iff.mp hs
    exact List.set_getElem_self hl
  by_cases hm : s.missed = 0
  · rcases hw : s.waiting with _ | ⟨signal, rest⟩
    · simp [receive, hs, ha, hm, hw, take_nothing hm hw, hself]
    · simp [receive, hs, ha, hm, hw, take_message hm hw]
  · simp [receive, hs, ha, hm, take_missed hm]

theorem get?_receive (hs : b.subscriptions[number]? = some s) (ha : s.active = true) :
    (b.receive number).1.subscriptions[number]? = some s.take.1 := by
  rw [receive_eq hs ha]
  exact List.getElem?_set_self (List.getElem?_eq_some_iff.mp hs).1

theorem get?_receive_of_ne {other : ℕ} (h : other ≠ number) :
    (b.receive other).1.subscriptions[number]? = b.subscriptions[number]? := by
  rw [receive]
  repeat' split
  all_goals first | rfl | exact List.getElem?_set_ne h

theorem get?_drop_of_ne {other : ℕ} (h : other ≠ number) :
    (b.drop other).subscriptions[number]? = b.subscriptions[number]? := by
  simp [drop, h]

def Event.signal? : Event → Option Signal
  | .fire m => some (.arriving m)
  | .publish m => some (.leaving m)
  | _ => none

theorem signalFor_eq (interest : Interest) (e : Event) :
    e.signalFor interest = e.signal?.filter interest.wants := by
  cases e with
  | fire m =>
    cases interest <;> simp [Event.signalFor, Event.signal?, Interest.wants, Option.filter]
  | publish m => cases interest <;> rfl
  | _ => cases interest <;> rfl

theorem next_of_signal (b : Bus) (number : ℕ) {e : Event} {signal : Signal}
    (h : e.signal? = some signal) : b.next e = b.send signal ∧ b.reception number e = [] := by
  cases e with
  | fire m =>
    cases h
    exact ⟨rfl, rfl⟩
  | publish m =>
    cases h
    exact ⟨rfl, rfl⟩
  | _ => cases h

theorem next_cases (hs : b.subscriptions[number]? = some s) (ha : s.active = true) {e : Event}
    (he : e ≠ .drop number) :
    ∃ s', (b.next e).subscriptions[number]? = some s' ∧
      (s' = s ∧ e.signalFor s.interest = none ∧ b.reception number e = [] ∨
      (∃ signal, s' = s.enqueue b.capacity signal ∧ e.signalFor s.interest = some signal ∧
        b.reception number e = []) ∨
      s' = s.take.1 ∧ e.signalFor s.interest = none ∧ b.reception number e = [s.take.2]) := by
  rw [signalFor_eq]
  cases hsig : e.signal? with
  | some signal =>
    obtain ⟨hnext, hnone⟩ := next_of_signal b number hsig
    rw [hnext, hnone]
    refine ⟨_, get?_send hs ha signal, ?_⟩
    by_cases hw : s.interest.wants signal = true
    · exact .inr (.inl ⟨signal, by simp [hw], by simp [Option.filter, hw], rfl⟩)
    · exact .inl ⟨by simp [hw], by simp [Option.filter, hw], rfl⟩
  | none =>
    rw [Option.filter_none]
    cases e with
    | subscribe interest => exact ⟨s, get?_subscribe hs interest, .inl ⟨rfl, rfl, rfl⟩⟩
    | fire m => cases hsig
    | publish m => cases hsig
    | receive other =>
      by_cases ho : other = number
      · subst ho
        refine ⟨_, get?_receive hs ha, .inr (.inr ⟨rfl, rfl, ?_⟩)⟩
        simp [reception, receive_eq hs ha]
      · refine ⟨s, (get?_receive_of_ne ho).trans hs, .inl ⟨rfl, rfl, ?_⟩⟩
        simp [reception, ho]
    | drop other =>
      have ho : other ≠ number := fun h => he (congrArg Event.drop h)
      exact ⟨s, (get?_drop_of_ne ho).trans hs, .inl ⟨rfl, rfl, rfl⟩⟩

structure Subscribed (number : ℕ) (interest : Interest) (heard : List Reception)
    (signals : List Signal) (b : Bus) (s : Subscription) : Prop where
  found : b.subscriptions[number]? = some s
  active : s.active = true
  interested : s.interest = interest
  accounts : s.Accounts b.capacity heard signals

theorem subscribed_first (b : Bus) (interest : Interest) :
    Subscribed b.subscriptions.length interest [] [] (b.next (.subscribe interest))
      (.new interest) where
  found := by simp [next, subscribe]
  active := rfl
  interested := rfl
  accounts := accounts_new _ interest

/-- Nothing is lost behind a step exactly if nothing was lost before it and the queue has room for
all that is outstanding. -/
theorem Subscribed.next (h : Subscribed number interest heard signals b s) {e : Event}
    (he : e ≠ .drop number) :
    let heard' := heard ++ b.reception number e
    let signals' := signals ++ (e.signalFor interest).toList
    ∃ s', Subscribed number interest heard' signals' (b.next e) s' ∧
      (losses heard' s' = 0 ↔
        losses heard s = 0 ∧ signals'.length ≤ (messages heard').length + b.capacity) := by
  obtain ⟨s', hfound, hcases⟩ := next_cases h.found h.active he
  have hlength := h.accounts.length
  have hbounded := h.accounts.bounded
  rw [h.interested] at hcases
  rcases hcases with ⟨rfl, hm, hr⟩ | ⟨signal, rfl, hm, hr⟩ | ⟨rfl, hm, hr⟩
  · rw [hm, hr, Option.toList_none, List.append_nil, List.append_nil]
    refine ⟨s', ⟨hfound, h.active, h.interested, by simpa using h.accounts⟩, ?_⟩
    omega
  · rw [hm, hr, Option.toList_some, List.append_nil]
    refine ⟨_, ⟨hfound, h.active, h.interested, by simpa using h.accounts.enqueue signal⟩, ?_⟩
    rw [losses_enqueue, List.length_append, List.length_singleton]
    omega
  · rw [hm, hr, Option.toList_none, List.append_nil]
    have htake := h.accounts.take
    refine ⟨_, ⟨hfound, ?_, ?_, by simpa using htake⟩, ?_⟩
    · rw [active_take, h.active]
    · rw [interest_take, h.interested]
    · have hlength' := htake.length
      have hbounded' := htake.bounded
      rw [losses_take] at hlength' ⊢
      omega

/-- Along a run nothing is lost exactly if at no moment more signals are outstanding than the queue
holds. -/
theorem Subscribed.run (h : Subscribed number interest [] [] b s) (events : List Event)
    (hd : .drop number ∉ events) :
    ∃ s', Subscribed number interest (receptions number b events) (meant interest events)
        (run b events) s' ∧
      (losses (receptions number b events) s' = 0 ↔ ∀ past, past <+: events →
        (meant interest past).length ≤
          (messages (receptions number b past)).length + b.capacity) := by
  induction events using List.reverseRecOn with
  | nil =>
    have hlength := h.accounts.length
    simp only [List.length_nil] at hlength
    refine ⟨s, h, iff_of_true (by rw [receptions, outputs]; omega) fun past hp => ?_⟩
    rw [List.prefix_nil.mp hp]
    exact Nat.zero_le _
  | append_singleton events e ih =>
    simp only [List.mem_append, List.mem_singleton, not_or] at hd
    obtain ⟨s₁, h₁, hl₁⟩ := ih hd.1
    obtain ⟨s₂, h₂, hl₂⟩ := h₁.next (Ne.symm hd.2)
    rw [← receptions_concat, ← meant_concat, capacity_run] at hl₂
    rw [← receptions_concat, ← meant_concat] at h₂
    refine ⟨s₂, by rwa [run_append], ?_⟩
    rw [hl₂, hl₁]
    simp only [List.prefix_concat_iff]
    constructor
    · rintro ⟨hpast, hnow⟩ past (rfl | hp)
      · exact hnow
      · exact hpast past hp
    · intro hpast
      exact ⟨fun past hp => hpast past (.inr hp), hpast _ (.inl rfl)⟩

theorem le_queueLength (capacity : ℕ) : capacity ≤ queueLength capacity := by
  have hlog := Nat.lt_log2_self (n := 2 * capacity - 1)
  rw [Nat.pow_succ] at hlog
  rw [queueLength, Nat.pow_eq]
  omega

/-- A subscriber joins after some steps and is not dropped in those that follow. What it received,
the losses that it was told of, those that it will be told of next and what waits for it are what
was meant for it, in order. Nothing is lost exactly if at no moment more is waiting than its queue
holds, and that is the capacity at least. -/
theorem accounted_after_joining (capacity : ℕ) (before after : List Event)
    (interest : Interest) (there : .drop (run (new capacity) before).subscriptions.length ∉ after) :
    let number := (run (new capacity) before).subscriptions.length
    let joined := (run (new capacity) before).next (.subscribe interest)
    ∃ s told lost, (run joined after).subscriptions[number]? = some s ∧
      meant interest after = told ++ lost ++ s.waiting ∧
      Covers (receptions number joined after) told ∧ lost.length = s.missed ∧
      (meant interest after = messages (receptions number joined after) ++ s.waiting ↔
        ∀ past, past <+: after → (meant interest past).length ≤
          (messages (receptions number joined past)).length + queueLength capacity) ∧
      s.waiting.length ≤ queueLength capacity ∧ capacity ≤ queueLength capacity := by
  intro number joined
  have hjoined : Subscribed number interest [] [] joined (.new interest) :=
    subscribed_first _ interest
  have hcapacity : joined.capacity = queueLength capacity := by
    rw [capacity_next, capacity_run]
    rfl
  obtain ⟨s, hs, hlosses⟩ := hjoined.run after there
  obtain ⟨told, lost, hmeant, hcovers, hlost⟩ := hs.accounts.split
  have hbounded := hs.accounts.bounded
  rw [capacity_run, hcapacity] at hbounded
  rw [hcapacity, hs.accounts.lossless_iff] at hlosses
  exact ⟨s, told, lost, hs.found, hmeant, hcovers, hlost, hlosses, hbounded,
    le_queueLength capacity⟩

end Bus

end TopicHub
