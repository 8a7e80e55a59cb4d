import TopicHub.Json.Writer
import TopicHub.Record
import TopicHub.Proofs.Digits

/-!
Texts and integers in JSON. What is written for a text or for an integer is read back, and the reader
goes on behind it.
-/

open TopicHub.Number

namespace TopicHub.Json

theorem hexQuad?_control : ∀ n < 32,
    hexQuad? '0' '0' (hexDigitChar (n / 16)) (hexDigitChar (n % 16)) = some n := by
  decide

theorem readString_unicode {a b c d : Char} {n : Nat} (h : hexQuad? a b c d = some n)
    (hl : isLeadSurrogate n = false) (ht : isTrailSurrogate n = false) {s : List Char}
    {r : Option (List Char) × List Char} (hs : readString s = some r) :
    readString ('\\' :: 'u' :: a :: b :: c :: d :: s) = consChar (Char.ofNat n) (some r) := by
  by_cases hu : ∃ e f g h t, s = '\\' :: 'u' :: e :: f :: g :: h :: t
  · obtain ⟨e, f, g, k, t, rfl⟩ := hu
    have hq : ∃ m, hexQuad? e f g k = some m := by
      rcases hm : hexQuad? e f g k with _ | m
      · -- Such a text cannot be read, whatever follows.
        by_cases hv : ∃ p q v w x, t = '\\' :: 'u' :: p :: q :: v :: w :: x
        · obtain ⟨p, q, v, w, x, rfl⟩ := hv
          rw [readString, hm] at hs
          cases hs
        · rw [readString, hm] at hs
          · cases hs
          · intro p q v w x he
            exact hv ⟨p, q, v, w, x, he⟩
      · exact ⟨m, rfl⟩
    obtain ⟨m, hm⟩ := hq
    rw [readString, h, hm]
    simp only [hl, ht, hs, Bool.false_and, Bool.false_or, Bool.false_eq_true, if_false]
  · rw [readString, h]
    · simp only [hl, ht, hs, Bool.false_or, Bool.false_eq_true, if_false]
    · intro e f g k t he
      exact hu ⟨e, f, g, k, t, he⟩

theorem readString_short {e c : Char} (he : e ≠ 'u') (h : shortEscape? e = some c) (s : List Char) :
    readString ('\\' :: e :: s) = consChar c (readString s) := by
  rw [readString, h]
  · intro _ _ _ _ _ _ _ _ _ hu
    exact absurd hu he
  · intro _ _ _ _ _ hu
    exact absurd hu he

theorem readString_plain {c : Char} (hq : c ≠ '"') (hb : c ≠ '\\') (hc : ¬ c < ' ') (s : List Char) :
    readString (c :: s) = consChar c (readString s) := by
  rw [readString]
  · simp only [hc, hb, decide_false, Bool.or_self, Bool.false_eq_true, if_false]
  · exact hq
  · intro _ _ _ _ _ _ _ _ _ h
    exact absurd h hb
  · intro _ _ _ _ _ h
    exact absurd h hb
  · intro _ _ h
    exact absurd h hb

/-- A character is written by a letter behind a backslash, by its number, or as it is. -/
theorem escapeChar_cases (c : Char) :
    (∃ e, e ≠ 'u' ∧ shortEscape? e = some c ∧ escapeChar c = ['\\', e]) ∨
    (c < ' ' ∧ escapeChar c =
      ['\\', 'u', '0', '0', hexDigitChar (c.toNat / 16), hexDigitChar (c.toNat % 16)]) ∨
    (c ≠ '"' ∧ c ≠ '\\' ∧ ¬ c < ' ' ∧ escapeChar c = [c]) := by
  have short {e d : Char} (he : e ≠ 'u') (h : shortEscape? e = some d)
      (hd : escapeChar d = ['\\', e]) (hc : c = d) :
      ∃ e, e ≠ 'u' ∧ shortEscape? e = some c ∧ escapeChar c = ['\\', e] := by
    rw [hc]
    exact ⟨e, he, h, hd⟩
  by_cases hq : c = '"'
  · exact Or.inl (short (e := '"') (by decide) rfl rfl hq)
  by_cases hb : c = '\\'
  · exact Or.inl (short (by decide) rfl rfl hb)
  by_cases hn : c = '\n'
  · exact Or.inl (short (by decide) rfl rfl hn)
  by_cases hr : c = '\r'
  · exact Or.inl (short (by decide) rfl rfl hr)
  by_cases ht : c = '\t'
  · exact Or.inl (short (by decide) rfl rfl ht)
  by_cases hk : c = '\x08'
  · exact Or.inl (short (by decide) rfl rfl hk)
  by_cases hf : c = '\x0c'
  · exact Or.inl (short (by decide) rfl rfl hf)
  right
  unfold escapeChar
  simp only [hq, hb, hn, hr, ht, hk, hf, if_false]
  by_cases hc : c < ' '
  · exact Or.inl ⟨hc, if_pos hc⟩
  · exact Or.inr ⟨hq, hb, hc, if_neg hc⟩

theorem readString_escapeChar (c : Char) {s content rest : List Char}
    (hs : readString s = some (some content, rest)) :
    readString (escapeChar c ++ s) = some (some (c :: content), rest) := by
  rcases escapeChar_cases c with ⟨e, he, h, hc⟩ | ⟨hl, hc⟩ | ⟨hq, hb, hl, hc⟩
  · rw [hc, List.cons_append, List.singleton_append, readString_short he h, hs]
    rfl
  · have hn : c.toNat < 32 := hl
    have hd := readString_unicode (hexQuad?_control c.toNat hn)
      (by simp only [isLeadSurrogate, Bool.and_eq_false_iff, decide_eq_false_iff_not]; omega)
      (by simp only [isTrailSurrogate, Bool.and_eq_false_iff, decide_eq_false_iff_not]; omega) hs
    rw [hc]
    refine hd.trans ?_
    rw [Char.ofNat_toNat]
    rfl
  · rw [hc, List.singleton_append, readString_plain hq hb hl, hs]
    rfl

theorem readString_escaped (content rest : List Char) :
    readString (content.flatMap escapeChar ++ '"' :: rest) = some (some content, rest) := by
  induction content with
  | nil => rfl
  | cons c content ih =>
    rw [List.flatMap_cons, List.append_assoc]
    exact readString_escapeChar c ih

def Numeral.ofInt (n : Int) : Numeral := ⟨n < 0, Nat.toDigits 10 n.natAbs, none, none⟩

/-- The text goes on with nothing that a numeral could take up. -/
def EndsNumeral (rest : List Char) : Prop :=
  rest.head?.all fun c => !isDigit c && c ≠ '.' && c ≠ 'e' && c ≠ 'E'

theorem toList_intText (n : Int) :
    (intText n).toList = (if n < 0 then ['-'] else []) ++ Nat.toDigits 10 n.natAbs := by
  unfold intText
  rw [Int.toString_eq_repr]
  cases n with
  | ofNat m =>
    have hn : ¬ Int.ofNat m < 0 := Int.not_lt.mpr (Int.natCast_nonneg m)
    rw [if_neg hn]
    exact String.toList_ofList
  | negSucc m =>
    rw [if_pos (Int.negSucc_lt_zero m)]
    change ("-" ++ Nat.repr (m + 1)).toList = _
    rw [String.toList_append, Nat.repr_eq_ofList_toDigits]
    exact congrArg _ String.toList_ofList

theorem digitChar_ne_zero : ∀ n < 10, n ≠ 0 → n.digitChar ≠ '0' := by decide

theorem toDigits_head {n : Nat} (h : n ≠ 0) : ∃ c s, Nat.toDigits 10 n = c :: s ∧ c ≠ '0' := by
  induction n using Nat.strongRecOn with
  | _ n ih =>
    by_cases hn : n < 10
    · exact ⟨_, _, Nat.toDigits_of_lt_base hn, digitChar_ne_zero n hn h⟩
    · obtain ⟨c, s, hd, hc⟩ := ih (n / 10) (by omega) (by omega)
      refine ⟨c, s ++ [(n % 10).digitChar], ?_, hc⟩
      rw [Nat.toDigits_of_base_le (by decide) (by omega), hd, List.cons_append]

theorem readWhole_toDigits (n : Nat) {rest : List Char} (hr : rest.head?.all (!isDigit ·)) :
    readWhole (Nat.toDigits 10 n ++ rest) = some (Nat.toDigits 10 n, rest) := by
  by_cases hn : n = 0
  · subst hn
    cases rest with
    | nil => rfl
    | cons d s =>
      have hd : isDigit d = false := by simpa using hr
      rw [Nat.toDigits_zero]
      simp [readWhole, hd]
  · obtain ⟨c, s, hc, h0⟩ := toDigits_head hn
    have hd := digits_toDigits n
    obtain ⟨ht, hw⟩ := takeWhile_digits hd rest hr
    rw [hc] at hd ht hw ⊢
    have hi := hd c (List.mem_cons_self ..)
    rw [List.cons_append] at ht hw ⊢
    rw [List.takeWhile_cons_of_pos hi] at ht
    rw [List.dropWhile_cons_of_pos hi] at hw
    unfold readWhole
    dsimp only
    rw [if_neg h0, if_pos hi, ht, hw]

theorem readFraction_ends {rest : List Char} (hr : EndsNumeral rest) :
    readFraction rest = some (none, rest) := by
  unfold readFraction
  split
  · rename_i s
    exact absurd hr (by simp [EndsNumeral])
  · rfl

theorem readExponent_ends {rest : List Char} (hr : EndsNumeral rest) :
    readExponent rest = some (none, rest) := by
  cases rest with
  | nil => rfl
  | cons c s =>
    simp only [EndsNumeral, List.head?_cons, Option.all_some, Bool.and_eq_true, decide_eq_true_eq] at hr
    unfold readExponent
    simp only [hr.1.2, hr.2, decide_false, Bool.or_self, Bool.false_eq_true, if_false]

theorem readNumeral_intText (n : Int) {rest : List Char} (hr : EndsNumeral rest) :
    readNumeral ((intText n).toList ++ rest) = some (Numeral.ofInt n, rest) := by
  have hd : rest.head?.all (!isDigit ·) := by
    unfold EndsNumeral at hr
    cases rest with
    | nil => rfl
    | cons c s => simp_all
  rw [toList_intText]
  by_cases hn : n < 0
  · simp only [hn, if_true, List.cons_append, List.nil_append, readNumeral, Option.bind_eq_bind,
      readWhole_toDigits _ hd, readFraction_ends hr, readExponent_ends hr, Option.bind_some]
    simp only [Numeral.ofInt, hn, decide_true]
    rfl
  · obtain ⟨c, s, hc⟩ : ∃ c s, Nat.toDigits 10 n.natAbs = c :: s :=
      List.exists_cons_of_ne_nil Nat.toDigits_ne_nil
    have hm : c ≠ '-' := by
      rintro rfl
      have := digits_toDigits n.natAbs '-' (hc ▸ List.mem_cons_self ..)
      exact absurd this (by decide)
    have hw := readWhole_toDigits n.natAbs hd
    simp only [hn, if_false, List.nil_append, readNumeral]
    split
    · rename_i t heq
      rw [hc] at heq
      exact absurd (List.cons.inj heq).1 hm
    · simp only [Option.bind_eq_bind, hw, readFraction_ends hr, readExponent_ends hr, Option.bind_some]
      simp only [Numeral.ofInt, hn, decide_false]
      rfl

theorem le_natFrom (ds : List Char) (n : Nat) : n ≤ natFrom n ds := by
  induction ds generalizing n with
  | nil => exact Nat.le_refl n
  | cons c s ih =>
    have := ih (10 * n + digitValue c)
    rw [natFrom_cons]
    omega

theorem takeSignificant_fits (ds : List Char) {n : Nat} (h : natFrom n ds < span64) :
    takeSignificant n ds = (natFrom n ds, []) := by
  induction ds generalizing n with
  | nil => rfl
  | cons c s ih =>
    rw [natFrom_cons] at h ⊢
    have hn : 10 * n + digitValue c < span64 := Nat.lt_of_le_of_lt (le_natFrom s _) h
    unfold takeSignificant
    simp only [hn, if_true]
    exact ih h

theorem integer?_ofInt {n : Int} (hl : -(span63 : Int) ≤ n) (hu : n < span64) :
    (Numeral.ofInt n).integer? = some n := by
  have h63 : span63 < span64 := by decide
  have hs : natFrom 0 (Nat.toDigits 10 n.natAbs) < span64 := by
    rw [natFrom_toDigits]
    omega
  have ht := takeSignificant_fits _ hs
  rw [natFrom_toDigits] at ht
  unfold Numeral.integer? Numeral.value? Numeral.ofInt
  simp only [ht, List.isEmpty_nil, if_true]
  by_cases hn : n < 0
  · have h0 : n.natAbs ≠ 0 := by omega
    have h1 : ¬ span63 < n.natAbs := by omega
    simp only [hn, decide_true, if_true, h0, h1, decide_false, Bool.or_self, Bool.false_eq_true, if_false]
    congr 1
    omega
  · simp only [hn, decide_false, Bool.false_eq_true, if_false]
    congr 1
    omega

end TopicHub.Json
