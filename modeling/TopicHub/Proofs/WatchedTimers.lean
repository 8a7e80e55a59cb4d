import TopicHub.Proofs.Outbound

/-!
Timers of some topics only. Two ways out may differ in what they have sent and in the timers of other
topics; as long as their clocks and connections are the same, and the same messages of the watched topics
are due at the same times, they stay so.
-/

namespace TopicHub

namespace Timers

variable {t : Timers} {m a : OutboundMessage} {due time : Nat}

/-- A timer for that message and that time is pending, under whatever number. -/
def Awaits (t : Timers) (m : OutboundMessage) (due : Nat) : Prop :=
  ∃ p ∈ t.pending, p.message = m ∧ p.due = due

theorem pending_iff_awaits {pair : String × String} :
    t.Pending pair ↔ ∃ m due, t.Awaits m due ∧ m.key = pair :=
  ⟨fun ⟨p, hp, hk⟩ => ⟨p.message, p.due, ⟨p, hp, rfl, rfl⟩, hk⟩,
    fun ⟨_, _, ⟨p, hp, hm, _⟩, hk⟩ => ⟨p, hp, hm ▸ hk⟩⟩

theorem awaits_arm : (t.arm m due).Awaits a time ↔ t.Awaits a time ∨ m = a ∧ due = time := by
  simp [Awaits, arm, or_and_right, exists_or]

theorem awaits_cancel : (t.cancel m).Awaits a time ↔ t.Awaits a time ∧ a.key ≠ m.key := by
  simp only [Awaits, cancel, List.mem_filter, decide_eq_true_eq]
  constructor
  · rintro ⟨p, ⟨hp, hk⟩, rfl, rfl⟩
    exact ⟨⟨p, hp, rfl, rfl⟩, hk⟩
  · rintro ⟨⟨p, hp, rfl, rfl⟩, hk⟩
    exact ⟨p, ⟨hp, hk⟩, rfl, rfl⟩

end Timers

namespace Outbound

variable {watched : String → Prop} {o p : Outbound} {m : OutboundMessage}

theorem awaits_advance (h : o.timers.OnePerPair) (ms : Nat) {due : Nat} :
    (o.advance ms).timers.Awaits m due ↔ o.timers.Awaits m due ∧ o.clock + ms < due := by
  simp only [Timers.Awaits, (advance_pending h ms).2, List.mem_filter, decide_eq_true_eq]
  constructor
  · rintro ⟨q, ⟨hq, hd⟩, rfl, rfl⟩
    exact ⟨⟨q, hq, rfl, rfl⟩, hd⟩
  · rintro ⟨⟨q, hq, rfl, rfl⟩, hd⟩
    exact ⟨q, ⟨hq, hd⟩, rfl, rfl⟩

theorem connection_wake (o : Outbound) (timer : Timer) : (o.wake timer).connection = o.connection := by
  unfold wake publish
  dsimp only
  split
  · cases o.connection <;> rfl
  · rfl

theorem connection_advance (o : Outbound) (ms : Nat) : (o.advance ms).connection = o.connection := by
  have h (timers : List Timer) : ∀ o : Outbound, (timers.foldl ring o).connection = o.connection := by
    induction timers with
    | nil => exact fun _ => rfl
    | cons timer timers ih => exact fun o => (ih _).trans (connection_wake ..)
  rw [advance_eq]
  exact h _ o

theorem schedule_delayed (o : Outbound) (m : OutboundMessage) {delayMs : Nat} (hd : delayMs ≠ 0) :
    o.schedule m delayMs = .ok (if o.timers.Pending m.key
      then ({ o with timers := o.timers.cancel m }, .cancelled)
      else ({ o with timers := o.timers.arm m (o.clock + delayMs) }, .armed)) := by
  obtain ⟨u, hu⟩ := schedule_answer o m hd
  by_cases hm : o.timers.Pending m.key
  · rw [if_pos hm] at hu ⊢
    rcases schedule_cases hu with ⟨hz, -⟩ | ⟨-, hn, -⟩ | ⟨-, -, -, rfl⟩
    · exact absurd hz hd
    · exact absurd hm hn
    · exact hu
  · rw [if_neg hm] at hu ⊢
    rcases schedule_cases hu with ⟨hz, -⟩ | ⟨-, -, -, rfl⟩ | ⟨-, hn, -⟩
    · exact absurd hz hd
    · exact hu
    · exact absurd hn hm

/-- The same messages of the watched topics are due at the same times. -/
structure Alongside (watched : String → Prop) (o p : Outbound) : Prop where
  clock : o.clock = p.clock
  connection : o.connection = p.connection
  left : o.timers.OnePerPair
  right : p.timers.OnePerPair
  agenda : ∀ m due, watched m.topic → (o.timers.Awaits m due ↔ p.timers.Awaits m due)

namespace Alongside

theorem refl (h : o.timers.OnePerPair) : Alongside watched o o :=
  ⟨rfl, rfl, h, h, fun _ _ _ => Iff.rfl⟩

theorem symm (h : Alongside watched o p) : Alongside watched p o :=
  ⟨h.clock.symm, h.connection.symm, h.right, h.left, fun m due hm => (h.agenda m due hm).symm⟩

theorem pending_iff (h : Alongside watched o p) (hm : watched m.topic) :
    o.timers.Pending m.key ↔ p.timers.Pending m.key := by
  rw [Timers.pending_iff_awaits, Timers.pending_iff_awaits]
  apply exists_congr
  intro a
  apply exists_congr
  intro due
  apply and_congr_left
  intro hk
  have ht : a.topic = m.topic := congrArg Prod.fst hk
  exact h.agenda a due (ht ▸ hm)

theorem arm_left (h : Alongside watched o p) (hm : ¬ watched m.topic) (hp : ¬ o.timers.Pending m.key)
    (due : Nat) : Alongside watched { o with timers := o.timers.arm m due } p where
  clock := h.clock
  connection := h.connection
  left := Timers.onePerPair_arm h.left hp due
  right := h.right
  agenda a time ha := by
    have hne : m ≠ a := fun he => hm (he ▸ ha)
    rw [← h.agenda a time ha, Timers.awaits_arm]
    simp [hne]

theorem cancel_left (h : Alongside watched o p) (hm : ¬ watched m.topic) :
    Alongside watched { o with timers := o.timers.cancel m } p where
  clock := h.clock
  connection := h.connection
  left := Timers.onePerPair_cancel h.left m
  right := h.right
  agenda a time ha := by
    have hne : a.key ≠ m.key := by
      intro hk
      have ht : a.topic = m.topic := congrArg Prod.fst hk
      exact hm (ht ▸ ha)
    rw [← h.agenda a time ha, Timers.awaits_cancel]
    simp [hne]

theorem arm (h : Alongside watched o p) (ho : ¬ o.timers.Pending m.key) (hp : ¬ p.timers.Pending m.key)
    (delayMs : Nat) : Alongside watched { o with timers := o.timers.arm m (o.clock + delayMs) }
      { p with timers := p.timers.arm m (p.clock + delayMs) } where
  clock := h.clock
  connection := h.connection
  left := Timers.onePerPair_arm h.left ho _
  right := Timers.onePerPair_arm h.right hp _
  agenda a time ha := by
    rw [Timers.awaits_arm, Timers.awaits_arm, h.agenda a time ha, h.clock]

theorem cancel (h : Alongside watched o p) (m : OutboundMessage) :
    Alongside watched { o with timers := o.timers.cancel m } { p with timers := p.timers.cancel m } where
  clock := h.clock
  connection := h.connection
  left := Timers.onePerPair_cancel h.left m
  right := Timers.onePerPair_cancel h.right m
  agenda a time ha := by
    rw [Timers.awaits_cancel, Timers.awaits_cancel, h.agenda a time ha]

theorem advance (h : Alongside watched o p) (ms : Nat) :
    Alongside watched (o.advance ms) (p.advance ms) where
  clock := congrArg (· + ms) h.clock
  connection := by
    rw [connection_advance, connection_advance, h.connection]
  left := (advance_pending h.left ms).1
  right := (advance_pending h.right ms).1
  agenda a time ha := by
    rw [awaits_advance h.left, awaits_advance h.right, h.agenda a time ha, h.clock]

theorem cancelAll (h : Alongside watched o p) : Alongside watched o.cancelAll p.cancelAll :=
  ⟨h.clock, h.connection, List.nodup_nil, List.nodup_nil, fun _ _ _ => Iff.rfl⟩

theorem connect (h : Alongside watched o p) (connection : Connection) :
    Alongside watched { o with connection } { p with connection } :=
  ⟨h.clock, rfl, h.left, h.right, h.agenda⟩

end Alongside

end Outbound

end TopicHub
