import TopicHub.Timer
import Mathlib.Data.List.Nodup

/-!
Which timers are pending after each operation. Everything rests on one fact, that no two pending
timers have the same topic and payload: the timer found for a pair is then the only one, and to
cancel the pair removes that timer and no other.
-/

namespace TopicHub.Timers

def OnePerPair (t : Timers) : Prop := (t.pending.map fun p => p.message.key).Nodup

/-- Whether a timer of that topic and payload is pending. -/
def Pending (t : Timers) (pair : String × String) : Prop :=
  ∃ p ∈ t.pending, p.message.key = pair

instance (t : Timers) (pair : String × String) : Decidable (t.Pending pair) :=
  inferInstanceAs (Decidable (∃ p ∈ t.pending, _))

theorem eq_of_key {t : Timers} (h : t.OnePerPair) {p q : Timer} (hp : p ∈ t.pending)
    (hq : q ∈ t.pending) (he : p.message.key = q.message.key) : p = q :=
  List.inj_on_of_nodup_map h hp hq he

theorem nodup_pending {t : Timers} (h : t.OnePerPair) : t.pending.Nodup :=
  List.Nodup.of_map _ h

theorem pendingFor?_mem {t : Timers} {m : OutboundMessage} {p : Timer}
    (h : t.pendingFor? m = some p) : p ∈ t.pending ∧ p.message.key = m.key := by
  refine ⟨List.mem_of_find?_eq_some h, ?_⟩
  simpa using List.find?_some h

theorem pendingFor?_eq_none {t : Timers} {m : OutboundMessage} :
    t.pendingFor? m = none ↔ ¬ t.Pending m.key := by
  simp [pendingFor?, Pending]

theorem pendingFor?_of_mem {t : Timers} (h : t.OnePerPair) {p : Timer} (hp : p ∈ t.pending) :
    t.pendingFor? p.message = some p := by
  cases hq : t.pendingFor? p.message with
  | none => exact absurd ⟨p, hp, rfl⟩ (pendingFor?_eq_none.mp hq)
  | some q =>
    obtain ⟨hm, hk⟩ := pendingFor?_mem hq
    rw [eq_of_key h hm hp hk]

theorem onePerPair_cancel {t : Timers} (h : t.OnePerPair) (m : OutboundMessage) :
    (t.cancel m).OnePerPair :=
  List.Nodup.sublist (List.filter_sublist.map _) h

theorem not_pending_cancel (t : Timers) (m : OutboundMessage) : ¬ (t.cancel m).Pending m.key := by
  rintro ⟨p, hp, hk⟩
  simp [cancel, hk] at hp

theorem cancel_of_mem {t : Timers} (h : t.OnePerPair) {p : Timer} (hp : p ∈ t.pending) :
    (t.cancel p.message).pending = t.pending.filter (· ≠ p) := by
  apply List.filter_congr
  intro q hq
  have hk : q.message.key = p.message.key ↔ q = p :=
    ⟨eq_of_key h hq hp, fun he => by rw [he]⟩
  simp [hk]

theorem onePerPair_arm {t : Timers} (h : t.OnePerPair) {m : OutboundMessage}
    (hm : ¬ t.Pending m.key) (due : Nat) : (t.arm m due).OnePerPair := by
  unfold OnePerPair arm at *
  simp only [List.map_append, List.map_cons, List.map_nil]
  apply List.Nodup.append h (by simp)
  intro k hk hkm
  obtain ⟨p, hp, rfl⟩ := List.mem_map.mp hk
  exact hm ⟨p, hp, List.mem_singleton.mp hkm⟩

/-- How many timers of that topic and payload are pending. -/
def load (t : Timers) (pair : String × String) : Nat :=
  t.pending.countP fun p => p.message.key = pair

theorem load_eq {t : Timers} (h : t.OnePerPair) (pair : String × String) :
    t.load pair = if t.Pending pair then 1 else 0 := by
  have hc : t.load pair = (t.pending.map fun p => p.message.key).count pair := by
    rw [List.count, List.countP_map]
    apply List.countP_congr
    intro p _
    simp
  have hm : pair ∈ (t.pending.map fun p => p.message.key) ↔ t.Pending pair := List.mem_map
  rw [hc, h.count]
  simp only [hm]

theorem load_arm (t : Timers) (m : OutboundMessage) (due : Nat) (pair : String × String) :
    (t.arm m due).load pair = t.load pair + if m.key = pair then 1 else 0 := by
  simp [load, arm, List.countP_append, List.countP_singleton]

theorem load_cancel {t : Timers} (h : t.OnePerPair) {m : OutboundMessage} (hm : t.Pending m.key)
    (pair : String × String) :
    (t.cancel m).load pair + (if m.key = pair then 1 else 0) = t.load pair := by
  by_cases hk : m.key = pair
  · rw [load_eq (onePerPair_cancel h m), load_eq h, ← hk, if_pos rfl, if_pos hm,
      if_neg (not_pending_cancel t m)]
  · rw [if_neg hk]
    unfold load cancel
    rw [List.countP_filter]
    apply List.countP_congr
    intro p _
    simp only [Bool.and_eq_true, decide_eq_true_eq]
    exact ⟨fun hp => hp.1, fun hp => ⟨hp, fun he => hk (he.symm.trans hp)⟩⟩

theorem wake_of_mem {t : Timers} (h : t.OnePerPair) {p : Timer} (hp : p ∈ t.pending) :
    t.wake p = (t.cancel p.message, true) := by
  simp [wake, pendingFor?_of_mem h hp]

/-- A timer that is not pending any more finds another timer of its pair at most, and leaves it
alone. -/
theorem wake_of_ne {t : Timers} {p : Timer} (hp : ∀ q ∈ t.pending, q.id ≠ p.id) :
    t.wake p = (t, false) := by
  unfold wake
  cases hq : t.pendingFor? p.message with
  | none => rfl
  | some q => simp [hp q (pendingFor?_mem hq).1]

end TopicHub.Timers
