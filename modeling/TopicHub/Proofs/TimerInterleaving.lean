import TopicHub.Proofs.Outbound

/-!
Delayed publishing with a task for each timer, the steps of all tasks in any order. A task whose
time has come takes the lock, and publishes later if it found its own timer. A cancelled task may
be stopped in time, or wake up late all the same; no step is ever forced. The histories are ghost
observations: they are read off the pending timers before and after a step, and no guard or
operation depends on them.
-/

namespace TopicHub.TimerInterleaving

/-- A task took the lock. -/
structure Wakeup where
  timer : Timer
  inTime : Bool
  deriving DecidableEq, Repr

structure State where
  outbound : Outbound
  armed : List Timer
  woken : List Wakeup
  cancelled : List Timer
  drained : List Timer
  /-- Found by their own tasks, which have released the lock and have yet to publish. -/
  departing : List Timer
  published : List Timer
  deriving DecidableEq, Repr

abbrev State.pending (s : State) : List Timer := s.outbound.timers.pending

def initial (o : Outbound) : State := ⟨{ o with timers := .empty }, [], [], [], [], [], []⟩

def added (old new : Outbound) : List Timer :=
  new.timers.pending.filter (· ∉ old.timers.pending)

def removed (old new : Outbound) : List Timer :=
  old.timers.pending.filter (· ∉ new.timers.pending)

inductive Event where
  | schedule (m : OutboundMessage) (delayMs : Nat)
  | wake (timer : Timer)
  | publish (timer : Timer)
  | cancelAll
  | elapse (ms : Nat)
  | connect (connection : Connection)
  deriving DecidableEq, Repr

def Enabled (s : State) : Event → Prop
  | .wake t => t ∈ s.armed ∧ t.due ≤ s.outbound.clock ∧ ∀ w ∈ s.woken, w.timer ≠ t
  | .publish t => t ∈ s.departing
  | _ => True

instance (s : State) (e : Event) : Decidable (Enabled s e) := by
  cases e <;> simp only [Enabled] <;> infer_instance

def next (s : State) : Event → State
  | .schedule m delayMs =>
    match s.outbound.schedule m delayMs with
    | .ok (o, _) =>
      { s with
        outbound := o
        armed := s.armed ++ added s.outbound o
        cancelled := s.cancelled ++ removed s.outbound o }
    | .error _ => s
  | .wake t =>
    let (timers, found) := s.outbound.timers.wake t
    { s with
      outbound := { s.outbound with timers }
      woken := s.woken ++ [⟨t, t ∈ s.pending⟩]
      departing := s.departing ++ if found then [t] else [] }
  | .publish t =>
    { s with
      outbound := s.outbound.attempt t.message
      departing := s.departing.erase t
      published := s.published ++ [t] }
  | .cancelAll =>
    { s with
      outbound := s.outbound.cancelAll
      drained := s.drained ++ removed s.outbound s.outbound.cancelAll }
  | .elapse ms => { s with outbound := { s.outbound with clock := s.outbound.clock + ms } }
  | .connect connection => { s with outbound := { s.outbound with connection } }

def Event.published : Event → List Timer
  | .publish t => [t]
  | _ => []

def Step (s : State) (e : Event) (u : State) : Prop := Enabled s e ∧ u = next s e

inductive Execution : State → State → Prop where
  | refl (s) : Execution s s
  | tail {s u v e} : Execution s u → Step u e v → Execution s v

def Reachable (s : State) : Prop := ∃ o, Execution (initial o) s

/-- Neither woken nor taken away. -/
def Untouched (s : State) (t : Timer) : Prop :=
  (∀ w ∈ s.woken, w.timer ≠ t) ∧ t ∉ s.cancelled ∧ t ∉ s.drained

instance (s : State) (t : Timer) : Decidable (Untouched s t) :=
  inferInstanceAs (Decidable (_ ∧ _))

/-- The timers that a task found for itself. -/
def State.found (s : State) : List Timer := (s.woken.filter (·.inTime)).map Wakeup.timer

structure Invariant (s : State) : Prop where
  one_per_pair : s.outbound.timers.OnePerPair
  ids_below : ∀ t ∈ s.armed, t.id < s.outbound.timers.nextId
  ids_distinct : (s.armed.map Timer.id).Nodup
  pending_eq : s.pending = s.armed.filter (Untouched s)
  woken_once : (s.woken.map Wakeup.timer).Nodup
  woken_armed : ∀ w ∈ s.woken, w.timer ∈ s.armed
  cancelled_armed : ∀ t ∈ s.cancelled, t ∈ s.armed
  drained_armed : ∀ t ∈ s.drained, t ∈ s.armed
  departures : (s.published ++ s.departing).Perm s.found
  found_kept : ∀ t ∈ s.found, t ∉ s.cancelled ∧ t ∉ s.drained

theorem added_of_sublist {old new : Outbound}
    (h : new.timers.pending.Sublist old.timers.pending) : added old new = [] := by
  apply List.filter_eq_nil_iff.mpr
  intro t ht
  simpa using h.subset ht

theorem removed_of_subset {old new : Outbound}
    (h : old.timers.pending ⊆ new.timers.pending) : removed old new = [] := by
  apply List.filter_eq_nil_iff.mpr
  intro t ht
  simpa using h ht

theorem removed_subset (old new : Outbound) : removed old new ⊆ old.timers.pending := by
  intro t ht
  exact (List.mem_filter.mp ht).1

theorem pending_sub_removed {old new : Outbound} {p : Timer → Bool}
    (h : new.timers.pending = old.timers.pending.filter p) :
    new.timers.pending = old.timers.pending.filter (· ∉ removed old new) := by
  rw [h]
  apply List.filter_congr
  intro t ht
  simp [removed, h, ht]

theorem initial_invariant (o : Outbound) : Invariant (initial o) := by
  constructor <;> simp [initial, State.pending, State.found, Timers.OnePerPair, Timers.empty]

theorem untouched_append {s : State} {t u : Timer} {b : Bool} {o : Outbound} {ds : List Timer} :
    Untouched { s with outbound := o, woken := s.woken ++ [⟨t, b⟩], departing := ds } u ↔
      Untouched s u ∧ u ≠ t := by
  simp only [Untouched, List.mem_append, List.mem_singleton]
  constructor
  · rintro ⟨hw, hr⟩
    exact ⟨⟨fun w hm => hw w (Or.inl hm), hr⟩, fun he => hw _ (Or.inr rfl) he.symm⟩
  · rintro ⟨⟨hw, hr⟩, hne⟩
    refine ⟨?_, hr⟩
    rintro w (hm | rfl)
    · exact hw w hm
    · exact fun he => hne he.symm

theorem found_append {s : State} {t : Timer} {o : Outbound} {ds : List Timer} :
    State.found { s with outbound := o, woken := s.woken ++ [⟨t, true⟩], departing := ds } =
      s.found ++ [t] := by
  simp [State.found]

namespace Invariant

variable {s : State}

theorem mem_pending (h : Invariant s) {t : Timer} :
    t ∈ s.pending ↔ t ∈ s.armed ∧ Untouched s t := by
  rw [h.pending_eq, List.mem_filter, decide_eq_true_eq]

theorem eq_of_id (h : Invariant s) {p q : Timer} (hp : p ∈ s.armed) (hq : q ∈ s.armed)
    (he : p.id = q.id) : p = q :=
  List.inj_on_of_nodup_map h.ids_distinct hp hq he

theorem found_not_pending (h : Invariant s) {t : Timer} (ht : t ∈ s.found) : t ∉ s.pending := by
  intro hp
  obtain ⟨w, hw, he⟩ := List.mem_map.mp ht
  exact (h.mem_pending.mp hp).2.1 w (List.mem_of_mem_filter hw) he

theorem take_away (h : Invariant s) {o : Outbound} {cs ds : List Timer}
    (hc : cs ⊆ s.pending) (hd : ds ⊆ s.pending)
    (ho : o.timers.pending = s.pending.filter fun t => t ∉ cs ∧ t ∉ ds)
    (hn : o.timers.nextId = s.outbound.timers.nextId) :
    Invariant { s with
      outbound := o, cancelled := s.cancelled ++ cs, drained := s.drained ++ ds } where
  one_per_pair := by
    unfold Timers.OnePerPair
    rw [ho]
    exact List.Nodup.sublist (List.filter_sublist.map _) h.one_per_pair
  ids_below := by rw [hn]; exact h.ids_below
  ids_distinct := h.ids_distinct
  pending_eq := by
    change o.timers.pending = _
    rw [ho, h.pending_eq, List.filter_filter]
    apply List.filter_congr
    intro t _
    rw [Bool.eq_iff_iff, Bool.and_eq_true, decide_eq_true_eq, decide_eq_true_eq, decide_eq_true_eq]
    simp only [Untouched, List.mem_append, not_or]
    tauto
  woken_once := h.woken_once
  woken_armed := h.woken_armed
  cancelled_armed := by
    intro t ht
    rcases List.mem_append.mp ht with ht | ht
    · exact h.cancelled_armed t ht
    · exact (h.mem_pending.mp (hc ht)).1
  drained_armed := by
    intro t ht
    rcases List.mem_append.mp ht with ht | ht
    · exact h.drained_armed t ht
    · exact (h.mem_pending.mp (hd ht)).1
  departures := h.departures
  found_kept := by
    intro t ht
    have hp := h.found_not_pending ht
    obtain ⟨hk, hl⟩ := h.found_kept t ht
    constructor
    · intro hm
      rcases List.mem_append.mp hm with hm | hm
      · exact hk hm
      · exact hp (hc hm)
    · intro hm
      rcases List.mem_append.mp hm with hm | hm
      · exact hl hm
      · exact hp (hd hm)

theorem fresh (h : Invariant s) (m : OutboundMessage) (due : Nat) :
    (⟨s.outbound.timers.nextId, m, due⟩ : Timer) ∉ s.armed := by
  intro ht
  exact Nat.lt_irrefl _ (h.ids_below _ ht)

theorem added_of_arm (h : Invariant s) (m : OutboundMessage) (due : Nat) :
    added s.outbound { s.outbound with timers := s.outbound.timers.arm m due } =
      [⟨s.outbound.timers.nextId, m, due⟩] := by
  have hn : (⟨s.outbound.timers.nextId, m, due⟩ : Timer) ∉ s.outbound.timers.pending :=
    fun hp => h.fresh m due (h.mem_pending.mp hp).1
  simp [added, Timers.arm, List.filter_append, hn]

theorem arm (h : Invariant s) {m : OutboundMessage} (hm : ¬ s.outbound.timers.Pending m.key)
    (due : Nat) :
    Invariant { s with
      outbound := { s.outbound with timers := s.outbound.timers.arm m due }
      armed := s.armed ++ [⟨s.outbound.timers.nextId, m, due⟩] } := by
  have hf := h.fresh m due
  constructor
  · exact Timers.onePerPair_arm h.one_per_pair hm due
  · intro t ht
    rcases List.mem_append.mp ht with ht | ht
    · exact Nat.lt_succ_of_lt (h.ids_below t ht)
    · rw [List.mem_singleton.mp ht]
      exact Nat.lt_succ_self _
  · rw [List.map_append]
    apply List.Nodup.append h.ids_distinct (by simp)
    intro i hi hn
    obtain ⟨t, ht, rfl⟩ := List.mem_map.mp hi
    have hlt := h.ids_below t ht
    rw [List.mem_singleton.mp hn] at hlt
    exact Nat.lt_irrefl _ hlt
  · have hu : Untouched s ⟨s.outbound.timers.nextId, m, due⟩ :=
      ⟨fun w hw he => hf (he ▸ h.woken_armed w hw), fun hc => hf (h.cancelled_armed _ hc),
        fun hd => hf (h.drained_armed _ hd)⟩
    change s.pending ++ [_] = List.filter (Untouched s) (s.armed ++ [_])
    rw [List.filter_append, ← h.pending_eq, List.filter_cons_of_pos (by simpa using hu)]
    rfl
  · exact h.woken_once
  · intro w hw
    exact List.mem_append_left _ (h.woken_armed w hw)
  · intro t ht
    exact List.mem_append_left _ (h.cancelled_armed t ht)
  · intro t ht
    exact List.mem_append_left _ (h.drained_armed t ht)
  · exact h.departures
  · exact h.found_kept

/-- A task that wakes up in time removes its own timer and no other. -/
theorem next_wake_of_mem (h : Invariant s) {t : Timer} (hp : t ∈ s.pending) :
    next s (.wake t) = { s with
      outbound := { s.outbound with timers := s.outbound.timers.cancel t.message }
      woken := s.woken ++ [⟨t, true⟩]
      departing := s.departing ++ [t] } := by
  simp [next, Timers.wake_of_mem h.one_per_pair hp, hp]

/-- A task that wakes up late changes nothing but the history, even if its pair is armed again. -/
theorem next_wake_of_not_mem (h : Invariant s) {t : Timer} (ha : t ∈ s.armed)
    (hp : t ∉ s.pending) :
    next s (.wake t) = { s with woken := s.woken ++ [⟨t, false⟩] } := by
  have hk : s.outbound.timers.wake t = (s.outbound.timers, false) := by
    apply Timers.wake_of_ne
    intro q hq he
    exact hp (h.eq_of_id (h.mem_pending.mp hq).1 ha he ▸ hq)
  simp [next, hk, hp]

theorem woken_once_append (h : Invariant s) {t : Timer} (hw : ∀ w ∈ s.woken, w.timer ≠ t)
    (b : Bool) : ((s.woken ++ [(⟨t, b⟩ : Wakeup)]).map Wakeup.timer).Nodup := by
  rw [List.map_append]
  apply List.Nodup.append h.woken_once (by simp)
  intro u hu hn
  obtain ⟨w, hm, rfl⟩ := List.mem_map.mp hu
  exact hw w hm (List.mem_singleton.mp hn)

theorem woken_armed_append (h : Invariant s) {t : Timer} (ha : t ∈ s.armed) (b : Bool) :
    ∀ w ∈ s.woken ++ [(⟨t, b⟩ : Wakeup)], w.timer ∈ s.armed := by
  intro w hm
  rcases List.mem_append.mp hm with hm | hm
  · exact h.woken_armed w hm
  · rw [List.mem_singleton.mp hm]
    exact ha

theorem wake_in_time (h : Invariant s) {t : Timer} (hp : t ∈ s.pending) :
    Invariant { s with
      outbound := { s.outbound with timers := s.outbound.timers.cancel t.message }
      woken := s.woken ++ [⟨t, true⟩]
      departing := s.departing ++ [t] } := by
  obtain ⟨ha, hw, hr⟩ := h.mem_pending.mp hp
  constructor
  · exact Timers.onePerPair_cancel h.one_per_pair t.message
  · exact h.ids_below
  · exact h.ids_distinct
  · change (s.outbound.timers.cancel t.message).pending = _
    rw [Timers.cancel_of_mem h.one_per_pair hp]
    change s.pending.filter _ = _
    rw [h.pending_eq, List.filter_filter]
    apply List.filter_congr
    intro u _
    rw [Bool.eq_iff_iff, Bool.and_eq_true, decide_eq_true_eq, decide_eq_true_eq, decide_eq_true_eq,
      untouched_append]
    tauto
  · exact h.woken_once_append hw true
  · exact h.woken_armed_append ha true
  · exact h.cancelled_armed
  · exact h.drained_armed
  · rw [found_append]
    simpa using h.departures.append_right [t]
  · intro u hu
    rw [found_append] at hu
    rcases List.mem_append.mp hu with hu | hu
    · exact h.found_kept u hu
    · rw [List.mem_singleton.mp hu]
      exact hr

theorem wake_late (h : Invariant s) {t : Timer} (he : Enabled s (.wake t)) (hp : t ∉ s.pending) :
    Invariant { s with woken := s.woken ++ [⟨t, false⟩] } := by
  obtain ⟨ha, -, hw⟩ := he
  constructor
  · exact h.one_per_pair
  · exact h.ids_below
  · exact h.ids_distinct
  · change s.pending = _
    rw [h.pending_eq]
    apply List.filter_congr
    intro u hu
    rw [decide_eq_decide, untouched_append]
    constructor
    · intro hn
      refine ⟨hn, ?_⟩
      rintro rfl
      exact hp (h.mem_pending.mpr ⟨ha, hn⟩)
    · exact fun hn => hn.1
  · exact h.woken_once_append hw false
  · exact h.woken_armed_append ha false
  · exact h.cancelled_armed
  · exact h.drained_armed
  · simpa [State.found] using h.departures
  · intro u hu
    exact h.found_kept u (by simpa [State.found] using hu)

/-- A message leaves once its task has found its timer, whatever happened in between. -/
theorem publish (h : Invariant s) {t : Timer} (ht : t ∈ s.departing) :
    Invariant (next s (.publish t)) := by
  have same : (s.outbound.attempt t.message).timers = s.outbound.timers :=
    Outbound.attempt_timers _ _
  constructor
  · simp only [next, same]
    exact h.one_per_pair
  · simp only [next, same]
    exact h.ids_below
  · exact h.ids_distinct
  · simp only [next, State.pending, same]
    exact h.pending_eq
  · exact h.woken_once
  · exact h.woken_armed
  · exact h.cancelled_armed
  · exact h.drained_armed
  · have moved : (s.published ++ [t] ++ s.departing.erase t).Perm (s.published ++ s.departing) := by
      rw [List.append_assoc]
      exact (List.perm_cons_erase ht).symm.append_left _
    exact moved.trans h.departures
  · exact h.found_kept

end Invariant

theorem Invariant.same_timers {s : State} (h : Invariant s) {o : Outbound}
    (ho : o.timers = s.outbound.timers) : Invariant { s with outbound := o } := by
  constructor
  · rw [ho]; exact h.one_per_pair
  · rw [ho]; exact h.ids_below
  · exact h.ids_distinct
  · change o.timers.pending = _; rw [ho]; exact h.pending_eq
  · exact h.woken_once
  · exact h.woken_armed
  · exact h.cancelled_armed
  · exact h.drained_armed
  · exact h.departures
  · exact h.found_kept

theorem next_schedule {s : State} {m : OutboundMessage} {delayMs : Nat} {o : Outbound}
    {a : Scheduling} (h : s.outbound.schedule m delayMs = .ok (o, a)) :
    next s (.schedule m delayMs) = { s with
      outbound := o
      armed := s.armed ++ added s.outbound o
      cancelled := s.cancelled ++ removed s.outbound o } := by
  simp [next, h]

theorem Invariant.schedule {s : State} (h : Invariant s) (m : OutboundMessage) (delayMs : Nat) :
    Invariant (next s (.schedule m delayMs)) := by
  cases ha : s.outbound.schedule m delayMs with
  | error x => simpa [next, ha] using h
  | ok r =>
    obtain ⟨o, a⟩ := r
    rw [next_schedule ha]
    rcases Outbound.schedule_cases ha with ⟨-, -, hu⟩ | ⟨-, hp, -, rfl⟩ | ⟨-, -, -, rfl⟩
    · have ht : o.timers = s.outbound.timers := by rw [hu]
      rw [added_of_sublist (by rw [ht]), removed_of_subset (by rw [ht]; exact List.Subset.refl _)]
      simpa using h.same_timers ht
    · rw [h.added_of_arm, removed_of_subset (List.subset_append_left _ _)]
      simpa using h.arm hp _
    · rw [added_of_sublist List.filter_sublist]
      let u : Outbound := { s.outbound with timers := s.outbound.timers.cancel m }
      have hp : u.timers.pending = s.pending.filter fun p => p.message.key ≠ m.key := rfl
      have ht := h.take_away (o := u) (removed_subset s.outbound u) (List.nil_subset _)
        (by simpa using pending_sub_removed hp) rfl
      simpa using ht

theorem Invariant.cancelAll {s : State} (h : Invariant s) : Invariant (next s .cancelAll) := by
  have hp : s.outbound.cancelAll.timers.pending = s.pending.filter fun _ => false := by
    simp [Outbound.cancelAll, Timers.cancelAll]
  have ht := h.take_away (o := s.outbound.cancelAll) (List.nil_subset _)
    (removed_subset s.outbound _)
    (by simpa using pending_sub_removed hp) rfl
  simpa [next] using ht

theorem step_preserves_invariant {s : State} (h : Invariant s) {e : Event}
    (he : Enabled s e) : Invariant (next s e) := by
  cases e with
  | schedule m delayMs => exact h.schedule m delayMs
  | wake t =>
    by_cases hp : t ∈ s.pending
    · rw [h.next_wake_of_mem hp]
      exact h.wake_in_time hp
    · rw [h.next_wake_of_not_mem he.1 hp]
      exact h.wake_late he hp
  | publish t => exact h.publish he
  | cancelAll => exact h.cancelAll
  | elapse ms => exact h.same_timers rfl
  | connect connection => exact h.same_timers rfl

def run (s : State) (es : List Event) : State := es.foldl next s

def Valid (s : State) : List Event → Prop
  | [] => True
  | e :: es => Enabled s e ∧ Valid (next s e) es

instance decidableValid (s : State) : (es : List Event) → Decidable (Valid s es)
  | [] => isTrue trivial
  | e :: es =>
    have := decidableValid (next s e) es
    inferInstanceAs (Decidable (_ ∧ _))

theorem Execution.trans {s u v : State} (h : Execution s u) (k : Execution u v) :
    Execution s v := by
  induction k with
  | refl => exact h
  | tail _ st ih => exact .tail ih st

def lamp (payload : String) : OutboundMessage := .plain "home/hall/lamp" payload

end TopicHub.TimerInterleaving
