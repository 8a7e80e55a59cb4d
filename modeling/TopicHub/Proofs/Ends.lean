import Mathlib.Data.List.DropRight

/-!
Ends of lists: the last elements of a list, as many as there is room for, and the last element with a
property. What is at the end does not change when elements in front of it are given up.
-/

namespace TopicHub.Ends

variable {α : Type}

theorem rtake_append (n : Nat) (as bs : List α) :
    (as.rtake n ++ bs).rtake n = (as ++ bs).rtake n := by
  unfold List.rtake
  rw [List.length_append, List.length_append, List.length_drop,
    ← List.drop_append_of_le_length (Nat.sub_le ..), List.drop_drop]
  congr 1
  omega

theorem rtake_of_length_le {n : Nat} {as : List α} (h : as.length ≤ n) : as.rtake n = as := by
  unfold List.rtake
  rw [Nat.sub_eq_zero_of_le h, List.drop_zero]

theorem rtake_sublist (n : Nat) (as : List α) : (as.rtake n).Sublist as := List.drop_sublist ..

theorem mem_rtake_concat {n : Nat} (hn : 0 < n) (as : List α) (a : α) :
    a ∈ (as ++ [a]).rtake n := by
  obtain ⟨m, rfl⟩ : ∃ m, n = m + 1 := ⟨n - 1, by omega⟩
  rw [List.rtake_concat_succ]
  exact List.mem_append_right _ (List.mem_singleton_self a)

theorem length_rtake_le (n : Nat) (as : List α) : (as.rtake n).length ≤ n := by
  unfold List.rtake
  rw [List.length_drop]
  omega

theorem findRev?_concat (p : α → Bool) (as : List α) (a : α) :
    (as ++ [a]).findRev? p = if p a then some a else as.findRev? p := by
  rw [List.findRev?_eq_find?_reverse, List.findRev?_eq_find?_reverse, List.reverse_concat,
    List.find?_cons]
  cases p a <;> rfl

theorem findRev?_eq_none {p : α → Bool} {as : List α} :
    as.findRev? p = none ↔ ∀ a ∈ as, ¬ p a = true := by
  rw [List.findRev?_eq_find?_reverse, List.find?_eq_none]
  simp only [List.mem_reverse]

theorem of_findRev? {p : α → Bool} {as : List α} {a : α} (h : as.findRev? p = some a) :
    a ∈ as ∧ p a = true := by
  rw [List.findRev?_eq_find?_reverse] at h
  exact ⟨List.mem_reverse.mp (List.mem_of_find?_eq_some h), List.find?_some h⟩

theorem findRev?_of_imp {p q : α → Bool} {as : List α} (hq : ∀ a ∈ as, q a = true → p a = true)
    {a : α} (h : as.findRev? p = some a) (ha : q a = true) : as.findRev? q = some a := by
  rw [List.findRev?_eq_find?_reverse, List.find?_eq_some_iff_append] at *
  obtain ⟨-, before, after, he, hb⟩ := h
  refine ⟨ha, before, after, he, fun b hm => ?_⟩
  have hmem : b ∈ as := List.mem_reverse.mp (he ▸ List.mem_append_left _ hm)
  have hp := hb b hm
  rw [Bool.not_eq_true'] at hp ⊢
  exact Bool.eq_false_iff.mpr fun hqb => Bool.eq_false_iff.mp hp (hq b hmem hqb)

end TopicHub.Ends
