import TopicHub.Outbound
import TopicHub.Proofs.Timers

/-!
What scheduling, waking up and the passing of time do to the timers and to the messages that were
sent. Callers cite these statements and need not open the operations.
-/

namespace TopicHub.Outbound

def attempt (o : Outbound) (m : OutboundMessage) : Outbound :=
  match o.publish m with
  | .ok o => o
  | .error _ => o

theorem attempt_timers (o : Outbound) (m : OutboundMessage) : (o.attempt m).timers = o.timers := by
  unfold attempt publish
  cases o.connection <;> rfl

theorem publish_ok {o u : Outbound} {m : OutboundMessage} (h : o.publish m = .ok u) :
    u = { o with sent := o.sent ++ [⟨o.clock, m⟩] } := by
  unfold publish at h
  cases hc : o.connection <;> rw [hc] at h <;> simp at h
  exact h.symm

theorem attempt_of_accepting {o : Outbound} (h : o.connection = .accepting)
    (m : OutboundMessage) : o.attempt m = { o with sent := o.sent ++ [⟨o.clock, m⟩] } := by
  simp [attempt, publish, h]

/-- Scheduling sends at once, arms a new timer, or takes the pending one away. -/
theorem schedule_cases {o u : Outbound} {m : OutboundMessage} {delayMs : Nat} {a : Scheduling}
    (h : o.schedule m delayMs = .ok (u, a)) :
    (delayMs = 0 ∧ a = .published ∧ u = { o with sent := o.sent ++ [⟨o.clock, m⟩] }) ∨
    (delayMs ≠ 0 ∧ ¬ o.timers.Pending m.key ∧ a = .armed ∧
      u = { o with timers := o.timers.arm m (o.clock + delayMs) }) ∨
    (delayMs ≠ 0 ∧ o.timers.Pending m.key ∧ a = .cancelled ∧
      u = { o with timers := o.timers.cancel m }) := by
  unfold schedule at h
  by_cases hd : delayMs = 0
  · rw [if_pos hd] at h
    left
    cases hp : o.publish m with
    | error e => rw [hp] at h; cases h
    | ok v =>
      rw [hp] at h
      obtain ⟨rfl, rfl⟩ := Prod.mk.inj (Except.ok.inj h)
      exact ⟨hd, rfl, publish_ok hp⟩
  · rw [if_neg hd] at h
    right
    cases hp : o.timers.pendingFor? m with
    | none =>
      rw [hp] at h
      obtain ⟨rfl, rfl⟩ := Prod.mk.inj (Except.ok.inj h)
      exact Or.inl ⟨hd, Timers.pendingFor?_eq_none.mp hp, rfl, rfl⟩
    | some p =>
      rw [hp] at h
      obtain ⟨rfl, rfl⟩ := Prod.mk.inj (Except.ok.inj h)
      obtain ⟨hm, hk⟩ := Timers.pendingFor?_mem hp
      exact Or.inr ⟨hd, ⟨p, hm, hk⟩, rfl, rfl⟩

theorem schedule_answer (o : Outbound) (m : OutboundMessage) {delayMs : Nat} (hd : delayMs ≠ 0) :
    ∃ u, o.schedule m delayMs =
      .ok (u, if o.timers.Pending m.key then .cancelled else .armed) := by
  unfold schedule
  rw [if_neg hd]
  cases hp : o.timers.pendingFor? m with
  | none =>
    rw [if_neg (Timers.pendingFor?_eq_none.mp hp)]
    exact ⟨_, rfl⟩
  | some p =>
    obtain ⟨hm, hk⟩ := Timers.pendingFor?_mem hp
    rw [if_pos ⟨p, hm, hk⟩]
    exact ⟨_, rfl⟩

theorem wake_of_mem {o : Outbound} (h : o.timers.OnePerPair) {p : Timer}
    (hp : p ∈ o.timers.pending) :
    o.wake p = attempt { o with timers := o.timers.cancel p.message } p.message := by
  unfold wake
  rw [Timers.wake_of_mem h hp]
  rfl

def ring (o : Outbound) (p : Timer) : Outbound := wake { o with clock := p.due } p

theorem ring_of_mem {o : Outbound} (h : o.timers.OnePerPair) {p : Timer}
    (hp : p ∈ o.timers.pending) :
    o.ring p =
      attempt { o with clock := p.due, timers := o.timers.cancel p.message } p.message :=
  wake_of_mem (o := { o with clock := p.due }) h hp

theorem ring_pending {o : Outbound} (h : o.timers.OnePerPair) {p : Timer}
    (hp : p ∈ o.timers.pending) :
    (o.ring p).timers.OnePerPair ∧ (o.ring p).timers.pending = o.timers.pending.filter (· ≠ p) := by
  rw [ring_of_mem h hp, attempt_timers]
  exact ⟨Timers.onePerPair_cancel h p.message, Timers.cancel_of_mem h hp⟩

theorem advance_eq (o : Outbound) (ms : Nat) :
    o.advance ms =
      { (o.timers.dueBy (o.clock + ms)).foldl ring o with clock := o.clock + ms } := rfl

theorem mem_dueBy {t : Timers} {time : Nat} {p : Timer} :
    p ∈ t.dueBy time ↔ p ∈ t.pending ∧ p.due ≤ time := by
  simp [Timers.dueBy]

theorem nodup_dueBy {t : Timers} (h : t.OnePerPair) (time : Nat) : (t.dueBy time).Nodup :=
  (List.mergeSort_perm _ _).nodup_iff.mpr ((Timers.nodup_pending h).filter _)

theorem pending_sub_cons {o u : Outbound} {p : Timer} {ps : List Timer} (hp : p ∉ ps)
    (hu : u.timers.pending = o.timers.pending.filter (· ≠ p)) (hs : p :: ps ⊆ o.timers.pending) :
    ps ⊆ u.timers.pending := by
  intro q hq
  rw [hu]
  have hne : q ≠ p := fun e => hp (e ▸ hq)
  exact List.mem_filter.mpr ⟨hs (List.mem_cons_of_mem _ hq), by simpa using hne⟩

/-- Pending timers ring one after the other: none of them is missed, and no other is touched. -/
theorem foldl_ring_pending {ps : List Timer} (hn : ps.Nodup) : ∀ {o : Outbound},
    o.timers.OnePerPair → ps ⊆ o.timers.pending →
    (ps.foldl ring o).timers.OnePerPair ∧
      (ps.foldl ring o).timers.pending = o.timers.pending.filter (· ∉ ps) := by
  induction ps with
  | nil => intro o h _; simpa using h
  | cons p ps ih =>
    intro o h hs
    obtain ⟨hp, hn⟩ := List.nodup_cons.mp hn
    obtain ⟨hu, he⟩ := ring_pending h (hs (List.mem_cons_self ..))
    obtain ⟨hf, hg⟩ := ih hn hu (pending_sub_cons hp he hs)
    refine ⟨hf, ?_⟩
    rw [List.foldl_cons, hg, he, List.filter_filter]
    apply List.filter_congr
    intro q _
    simp [Bool.and_comm]

theorem ring_of_accepting {o : Outbound} (h : o.timers.OnePerPair)
    (ha : o.connection = .accepting) {p : Timer} (hp : p ∈ o.timers.pending) :
    (o.ring p).connection = .accepting ∧ (o.ring p).sent = o.sent ++ [⟨p.due, p.message⟩] := by
  rw [ring_of_mem h hp]
  let u : Outbound := { o with clock := p.due, timers := o.timers.cancel p.message }
  have hu := attempt_of_accepting (o := u) ha p.message
  exact hu ▸ ⟨ha, rfl⟩

theorem foldl_ring_sent {ps : List Timer} (hn : ps.Nodup) : ∀ {o : Outbound},
    o.timers.OnePerPair → o.connection = .accepting → ps ⊆ o.timers.pending →
    (ps.foldl ring o).connection = .accepting ∧
      (ps.foldl ring o).sent = o.sent ++ ps.map fun p => ⟨p.due, p.message⟩ := by
  induction ps with
  | nil => intro o _ ha _; simpa using ha
  | cons p ps ih =>
    intro o h ha hs
    obtain ⟨hp, hn⟩ := List.nodup_cons.mp hn
    have hm := hs (List.mem_cons_self ..)
    obtain ⟨hu, he⟩ := ring_pending h hm
    obtain ⟨hb, ht⟩ := ring_of_accepting h ha hm
    obtain ⟨hc, hg⟩ := ih hn hu hb (pending_sub_cons hp he hs)
    refine ⟨hc, ?_⟩
    rw [List.foldl_cons, hg, ht, List.append_assoc]
    rfl

theorem advance_pending {o : Outbound} (h : o.timers.OnePerPair) (ms : Nat) :
    (o.advance ms).timers.OnePerPair ∧
      (o.advance ms).timers.pending = o.timers.pending.filter (o.clock + ms < ·.due) := by
  have hs : o.timers.dueBy (o.clock + ms) ⊆ o.timers.pending := fun p hp => (mem_dueBy.mp hp).1
  obtain ⟨hu, he⟩ := foldl_ring_pending (nodup_dueBy h _) h hs
  refine ⟨hu, ?_⟩
  change ((o.timers.dueBy (o.clock + ms)).foldl ring o).timers.pending = _
  rw [he]
  apply List.filter_congr
  intro p hp
  rw [decide_eq_decide, mem_dueBy]
  simp only [hp, true_and]
  omega

theorem advance_load {o : Outbound} (h : o.timers.OnePerPair) (ms : Nat) (pair : String × String) :
    (o.advance ms).timers.load pair +
        (o.timers.dueBy (o.clock + ms)).countP (fun p => p.message.key = pair) =
      o.timers.load pair := by
  have hd : (o.timers.dueBy (o.clock + ms)).countP (fun p => p.message.key = pair) =
      (o.timers.pending.filter fun p => p.due ≤ o.clock + ms).countP
        fun p => p.message.key = pair :=
    (List.mergeSort_perm _ _).countP_eq _
  have hq : (o.timers.pending.filter fun p => p.due ≤ o.clock + ms) =
      o.timers.pending.filter fun p => !decide (o.clock + ms < p.due) := by
    apply List.filter_congr
    intro p _
    simp only [← decide_not, Nat.not_lt]
  unfold Timers.load
  rw [hd, hq, (advance_pending h ms).2]
  exact (List.countP_eq_countP_filter_add ..).symm

theorem advance_sent {o : Outbound} (h : o.timers.OnePerPair) (ha : o.connection = .accepting)
    (ms : Nat) :
    (o.advance ms).connection = .accepting ∧
      (o.advance ms).sent =
        o.sent ++ (o.timers.dueBy (o.clock + ms)).map fun p => ⟨p.due, p.message⟩ :=
  foldl_ring_sent (nodup_dueBy h _) h ha fun _ hp => (mem_dueBy.mp hp).1

end TopicHub.Outbound
