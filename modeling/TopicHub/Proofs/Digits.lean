import Mathlib.Algebra.Group.Nat.Defs
import TopicHub.Instant

/-!
Numbers in decimal digits. The digits of a number are read back as that number, with zeros in front
or without, and a run of digits ends where the digits end.
-/

namespace TopicHub

-- The lemmas of the library are about `Option.bind`. Long sequences are kept in the form in which they
-- are written, for simplification is too slow inside of the other one.

variable {α β : Type}

theorem some_bind (a : α) (f : α → Option β) : (some a >>= f) = f a := rfl

theorem bind_eq_some {x : Option α} {f : α → Option β} {b : β} :
    (x >>= f) = some b ↔ ∃ a, x = some a ∧ f a = some b := Option.bind_eq_some_iff

end TopicHub

namespace TopicHub.Number

def Digits (ds : List Char) : Prop := ∀ c ∈ ds, isDigit c = true

theorem digits_append {ds es : List Char} (hd : Digits ds) (he : Digits es) : Digits (ds ++ es) := by
  intro c hc
  rcases List.mem_append.mp hc with h | h
  · exact hd c h
  · exact he c h

theorem digits_toDigits (n : Nat) : Digits (Nat.toDigits 10 n) := by
  intro c hc
  exact Nat.isDigit_of_mem_toDigits (by decide) (by decide) hc

theorem digits_zeros (k : Nat) : Digits (List.replicate k '0') := by
  intro c hc
  rw [List.eq_of_mem_replicate hc]
  rfl

theorem toNat_of_isDigit {c : Char} (h : isDigit c = true) : 48 ≤ c.toNat ∧ c.toNat ≤ 57 := by
  simp only [isDigit, Bool.and_eq_true, decide_eq_true_eq] at h
  exact h

theorem not_blank_of_isDigit {c : Char} (h : isDigit c = true) : Text.isBlank c = false := by
  obtain ⟨hl, hu⟩ := toNat_of_isDigit h
  simp only [Text.isBlank, Text.inRanges, Text.blankRanges, List.any_cons, List.any_nil,
    Bool.or_false, Bool.or_eq_false_iff, Bool.and_eq_false_iff, decide_eq_false_iff_not]
  omega

theorem digitValue_lt {c : Char} (h : isDigit c = true) : digitValue c < 10 := by
  obtain ⟨_, hu⟩ := toNat_of_isDigit h
  have h0 : '0'.toNat = 48 := rfl
  unfold digitValue
  omega

theorem natFrom_nil (n : Nat) : natFrom n [] = n := by rfl

theorem natFrom_cons (n : Nat) (c : Char) (s : List Char) :
    natFrom n (c :: s) = natFrom (10 * n + digitValue c) s := by rfl

theorem natFrom_eq (n : Nat) (ds : List Char) : natFrom n ds = Nat.ofDigitChars 10 ds n := by
  induction ds generalizing n with
  | nil => rfl
  | cons c s ih =>
    rw [natFrom_cons, Nat.ofDigitChars_cons]
    exact ih _

theorem natFrom_toDigits (n : Nat) : natFrom 0 (Nat.toDigits 10 n) = n := by
  rw [natFrom_eq]
  exact Nat.ofDigitChars_toDigits (by decide) (by decide)

theorem natFrom_zeros (k : Nat) (ds : List Char) :
    natFrom 0 (List.replicate k '0' ++ ds) = natFrom 0 ds := by
  induction k with
  | zero => rfl
  | succ k ih =>
    have h0 : 10 * 0 + digitValue '0' = 0 := by decide
    rw [List.replicate_succ, List.cons_append, natFrom_cons, h0]
    exact ih

theorem natFrom_lt {ds : List Char} (h : Digits ds) (n : Nat) :
    natFrom n ds < (n + 1) * 10 ^ ds.length := by
  induction ds generalizing n with
  | nil => simp [natFrom_nil]
  | cons c s ih =>
    have hc := digitValue_lt (h c (List.mem_cons_self ..))
    have hs := ih (fun d hd => h d (List.mem_cons_of_mem _ hd)) (10 * n + digitValue c)
    have hn : (10 * n + digitValue c + 1) * 10 ^ s.length ≤ (n + 1) * 10 * 10 ^ s.length :=
      Nat.mul_le_mul_right _ (by omega)
    rw [natFrom_cons, List.length_cons, Nat.pow_succ', ← Nat.mul_assoc]
    exact Nat.lt_of_lt_of_le hs hn

theorem takeWhile_digits {ds : List Char} (hd : Digits ds) (rest : List Char)
    (hr : rest.head?.all (!isDigit ·)) :
    (ds ++ rest).takeWhile isDigit = ds ∧ (ds ++ rest).dropWhile isDigit = rest := by
  rw [List.takeWhile_append_of_pos hd, List.dropWhile_append_of_pos hd]
  cases rest with
  | nil => exact ⟨List.append_nil _, rfl⟩
  | cons c s =>
    have hc : isDigit c = false := by simpa using hr
    simp [List.takeWhile, List.dropWhile, hc]

end TopicHub.Number

namespace TopicHub.Instant

open Number Text

theorem toList_padded (width n : Nat) : (padded width n).toList =
    List.replicate (width - (Nat.toDigits 10 n).length) '0' ++ Nat.toDigits 10 n := by
  unfold padded
  rw [Nat.toString_eq_ofList_toDigits, String.toList_append, String.toList_ofList,
    String.toList_ofList, String.length_ofList]

theorem digits_padded (width n : Nat) : Digits (padded width n).toList := by
  rw [toList_padded]
  exact digits_append (digits_zeros _) (digits_toDigits n)

theorem natFrom_padded (width n : Nat) : natFrom 0 (padded width n).toList = n := by
  rw [toList_padded, natFrom_zeros, natFrom_toDigits]

theorem length_padded {width n : Nat} (hw : 0 < width) (hn : n < 10 ^ width) :
    (padded width n).toList.length = width := by
  have hl := (Nat.length_toDigits_le_iff (by decide) hw).mpr hn
  rw [toList_padded, List.length_append, List.length_replicate]
  omega

theorem padded_ne_nil (width n : Nat) : (padded width n).toList ≠ [] := by
  rw [toList_padded]
  exact List.append_ne_nil_of_right_ne_nil _ Nat.toDigits_ne_nil

end TopicHub.Instant
