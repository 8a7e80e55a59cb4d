import TopicHub.Proofs.Marker.ScriptSearch
import TopicHub.Text.Escape

/-!
What a text with escapes stands for. A grammar says it from left to right, and gives every text one
reading. Resolving the escapes of a text gives this reading unless a backslash and a `u` are followed by a
plus sign and three hexadecimal digits: such an escape is taken for a character, and is none of the
grammar. A text whose backslashes are all doubled is read as the text itself.
-/

namespace TopicHub.Text

open Number
open Marker (trailing even_trailing_pair trailing_append_cons)

inductive HexDigit : Char → ℕ → Prop where
  | decimal {i : ℕ} (h : i < 10) : HexDigit (Char.ofNat ('0'.toNat + i)) i
  | lower {i : ℕ} (h : i < 6) : HexDigit (Char.ofNat ('a'.toNat + i)) (i + 10)
  | upper {i : ℕ} (h : i < 6) : HexDigit (Char.ofNat ('A'.toNat + i)) (i + 10)

def Numbers (a b c d ch : Char) : Prop :=
  ∃ i j k l, HexDigit a i ∧ HexDigit b j ∧ HexDigit c k ∧ HexDigit d l ∧
    ch.toNat = 16 * (16 * (16 * i + j) + k) + l

def NumberAhead (s : List Char) : Prop :=
  ∃ a b c d ch rest, s = a :: b :: c :: d :: rest ∧ Numbers a b c d ch

def controls : List (Char × Char) := [('n', '\n'), ('r', '\r'), ('t', '\t'), ('0', '\x00')]

/-- A text and what it stands for. -/
inductive Reads : List Char → List Char → Prop where
  | nil : Reads [] []
  | plain {c : Char} {s t : List Char} (hc : c ≠ '\\') (h : Reads s t) : Reads (c :: s) (c :: t)
  | last : Reads ['\\'] ['\\']
  | control {e c : Char} {s t : List Char} (hc : (e, c) ∈ controls) (h : Reads s t) :
    Reads ('\\' :: e :: s) (c :: t)
  | number {a b c d ch : Char} {s t : List Char} (hn : Numbers a b c d ch) (h : Reads s t) :
    Reads ('\\' :: 'u' :: a :: b :: c :: d :: s) (ch :: t)
  | kept {e : Char} {s t : List Char} (hc : ∀ c, (e, c) ∉ controls)
    (hn : e = 'u' → ¬ NumberAhead s) (h : Reads s t) : Reads ('\\' :: e :: s) (e :: t)

theorem of_between (low high : Char) {c : Char} {P : Char → ℕ → Prop}
    (hP : ∀ i ≤ high.toNat - low.toNat, P (Char.ofNat (low.toNat + i)) i)
    (h : (low ≤ c && c ≤ high) = true) : P c (c.toNat - low.toNat) := by
  obtain ⟨hl, hu⟩ := Bool.and_eq_true_iff.mp h
  have hlow : low.toNat ≤ c.toNat := of_decide_eq_true hl
  have hhigh : c.toNat ≤ high.toNat := of_decide_eq_true hu
  have hc := hP (c.toNat - low.toNat) (Nat.sub_le_sub_right hhigh _)
  rwa [Nat.add_sub_cancel' hlow, Char.ofNat_toNat] at hc

theorem hexDigit?_eq_some_iff {c : Char} {n : ℕ} : hexDigit? c = some n ↔ HexDigit c n := by
  constructor
  · intro h
    unfold hexDigit? at h
    split at h
    · rename_i hc
      obtain rfl := Option.some.inj h
      exact of_between '0' '9' (P := HexDigit) (fun i hi => .decimal (Nat.lt_succ_of_le hi)) hc
    · split at h
      · rename_i hc
        obtain rfl := Option.some.inj h
        exact of_between 'a' 'f' (P := fun c i => HexDigit c (i + 10))
          (fun i hi => .lower (Nat.lt_succ_of_le hi)) hc
      · split at h
        · rename_i hc
          obtain rfl := Option.some.inj h
          exact of_between 'A' 'F' (P := fun c i => HexDigit c (i + 10))
            (fun i hi => .upper (Nat.lt_succ_of_le hi)) hc
        · cases h
  · have hdecimal : ∀ i < 10, hexDigit? (Char.ofNat ('0'.toNat + i)) = some i := by decide
    have hlower : ∀ i < 6, hexDigit? (Char.ofNat ('a'.toNat + i)) = some (i + 10) := by decide
    have hupper : ∀ i < 6, hexDigit? (Char.ofNat ('A'.toNat + i)) = some (i + 10) := by decide
    rintro (h | h | h)
    · exact hdecimal _ h
    · exact hlower _ h
    · exact hupper _ h

theorem not_hexDigit {c : Char} (h : hexDigit? c = none) {n : ℕ} : ¬ HexDigit c n := by
  intro hn
  rw [hexDigit?_eq_some_iff.mpr hn] at h
  cases h

theorem hexFrom?_cons_eq_some_iff {n m : ℕ} {c : Char} {s : List Char} :
    hexFrom? n (c :: s) = some m ↔ ∃ i, HexDigit c i ∧ hexFrom? (16 * n + i) s = some m := by
  rw [hexFrom?, Option.bind_eq_some_iff]
  simp only [hexDigit?_eq_some_iff]

theorem hexFrom?_nil_eq_some_iff {n m : ℕ} : hexFrom? n [] = some m ↔ m = n := by
  rw [hexFrom?, Option.some.injEq, eq_comm]

def Signs (a b c d ch : Char) : Prop :=
  a = '+' ∧ ∃ j k l, HexDigit b j ∧ HexDigit c k ∧ HexDigit d l ∧
    ch.toNat = 16 * (16 * j + k) + l

theorem codePoint?_eq_some_iff {a b c d ch : Char} :
    codePoint? a b c d = some ch.toNat ↔ Numbers a b c d ch ∨ Signs a b c d ch := by
  unfold codePoint? Numbers Signs
  by_cases ha : a = '+'
  · subst ha
    have hplus {i : ℕ} : ¬ HexDigit '+' i := not_hexDigit (by decide)
    rw [if_pos rfl]
    simp [hexFrom?_cons_eq_some_iff, hexFrom?_nil_eq_some_iff, hplus]
  · rw [if_neg ha]
    simp [hexFrom?_cons_eq_some_iff, hexFrom?_nil_eq_some_iff, ha]

/-- The number is that of a character, or there is a plus sign in place of the first digit. -/
theorem codeChar?_eq_some_iff {a b c d ch : Char} :
    codeChar? a b c d = some ch ↔ Numbers a b c d ch ∨ Signs a b c d ch := by
  rw [← codePoint?_eq_some_iff]
  unfold codeChar?
  rw [Option.bind_eq_some_iff]
  constructor
  · rintro ⟨n, hn, hc⟩
    split at hc
    · cases hc
      exact hn
    · cases hc
  · intro h
    exact ⟨ch.toNat, h, dif_pos ch.valid⟩

theorem Numbers.unique {a b c d ch ch' : Char} (h : Numbers a b c d ch) (h' : Numbers a b c d ch') :
    ch = ch' :=
  Option.some.inj ((codeChar?_eq_some_iff.mpr (Or.inl h)).symm.trans
    (codeChar?_eq_some_iff.mpr (Or.inl h')))

theorem NumberAhead.mk {a b c d ch : Char} (h : Numbers a b c d ch) (s : List Char) :
    NumberAhead (a :: b :: c :: d :: s) := ⟨a, b, c, d, ch, s, rfl, h⟩

theorem control_unique {e c c' : Char} (h : (e, c) ∈ controls) (h' : (e, c') ∈ controls) : c = c' :=
  have hall : ∀ p ∈ controls, ∀ q ∈ controls, p.1 = q.1 → p.2 = q.2 := by decide
  hall _ h _ h' rfl

theorem u_not_control (c : Char) : ('u', c) ∉ controls := by
  simp [controls]

theorem Reads.unique {s t t' : List Char} (h : Reads s t) (h' : Reads s t') : t = t' := by
  induction h generalizing t' with
  | nil =>
    cases h'
    rfl
  | plain hc _ ih =>
    cases h' with
    | plain _ h' => rw [ih h']
    | last => exact absurd rfl hc
    | control => exact absurd rfl hc
    | number => exact absurd rfl hc
    | kept => exact absurd rfl hc
  | last =>
    cases h' with
    | plain hc => exact absurd rfl hc
    | last => rfl
  | control hc _ ih =>
    cases h' with
    | plain hb => exact absurd rfl hb
    | control hc' h' => rw [control_unique hc hc', ih h']
    | number => exact absurd hc (u_not_control _)
    | kept hc' => exact absurd hc (hc' _)
  | number hn _ ih =>
    cases h' with
    | plain hb => exact absurd rfl hb
    | control hc => exact absurd hc (u_not_control _)
    | number hn' h' => rw [hn.unique hn', ih h']
    | kept _ hn' => exact absurd (NumberAhead.mk hn _) (hn' rfl)
  | kept hc hn _ ih =>
    cases h' with
    | plain hb => exact absurd rfl hb
    | control hc' => exact absurd hc' (hc _)
    | number hn' => exact absurd (NumberAhead.mk hn' _) (hn rfl)
    | kept _ _ h' => rw [ih h']

/-- An escape with a plus sign in place of the first digit, and the backslashes directly in front of it
are whole pairs. -/
def Signed (s : List Char) : Prop :=
  ∃ u b c d v ch, s = u ++ '\\' :: 'u' :: '+' :: b :: c :: d :: v ∧ Signs '+' b c d ch ∧
    Even (trailing '\\' u)

theorem not_signed_nil : ¬ Signed [] := by
  rintro ⟨u, b, c, d, v, ch, hs, -⟩
  simp at hs

theorem even_trailing_escape (e : Char) (u : List Char) :
    Even (trailing '\\' ('\\' :: e :: u)) ↔ Even (trailing '\\' u) := by
  by_cases he : e = '\\'
  · subst he
    exact even_trailing_pair u
  · have hskip := trailing_append_cons he ['\\'] u
    rw [List.singleton_append] at hskip
    rw [hskip]

theorem signed_cons_iff {c : Char} {s : List Char} (hc : c ≠ '\\') : Signed (c :: s) ↔ Signed s := by
  have hskip (u : List Char) : trailing '\\' (c :: u) = trailing '\\' u :=
    trailing_append_cons hc [] u
  constructor
  · rintro ⟨u, b, c', d, v, ch, hs, hn, heven⟩
    cases u with
    | nil => exact absurd (List.cons.inj hs).1 hc
    | cons x u =>
      cases hs
      exact ⟨u, b, c', d, v, ch, rfl, hn, hskip u ▸ heven⟩
  · rintro ⟨u, b, c', d, v, ch, rfl, hn, heven⟩
    exact ⟨c :: u, b, c', d, v, ch, rfl, hn, hskip u ▸ heven⟩

theorem signed_escape_iff {e : Char} {s : List Char} : Signed ('\\' :: e :: s) ↔
    (e = 'u' ∧ ∃ b c d v ch, s = '+' :: b :: c :: d :: v ∧ Signs '+' b c d ch) ∨ Signed s := by
  constructor
  · rintro ⟨u, b, c, d, v, ch, hs, hn, heven⟩
    cases u with
    | nil =>
      cases hs
      exact Or.inl ⟨rfl, b, c, d, v, ch, rfl, hn⟩
    | cons x u =>
      cases u with
      | nil =>
        obtain rfl : '\\' = x := (List.cons.inj hs).1
        exact absurd heven (by decide)
      | cons y u =>
        cases hs
        exact Or.inr ⟨u, b, c, d, v, ch, rfl, hn, (even_trailing_escape e u).mp heven⟩
  · rintro (⟨rfl, b, c, d, v, ch, rfl, hn⟩ | ⟨u, b, c, d, v, ch, rfl, hn, heven⟩)
    · exact ⟨[], b, c, d, v, ch, rfl, hn, ⟨0, rfl⟩⟩
    · exact ⟨'\\' :: e :: u, b, c, d, v, ch, rfl, hn, (even_trailing_escape e u).mpr heven⟩

theorem not_signed_last : ¬ Signed ['\\'] := by
  rintro ⟨u, b, c, d, v, ch, hs, -⟩
  have hl := congrArg List.length hs
  simp at hl
  omega

theorem escapedChar_of_control {e c : Char} (h : (e, c) ∈ controls) : escapedChar e = c := by
  have hall : ∀ p ∈ controls, escapedChar p.1 = p.2 := by decide
  exact hall _ h

theorem escapedChar_of_not_control {e : Char} (h : ∀ c, (e, c) ∉ controls) : escapedChar e = e := by
  unfold escapedChar
  split
  · exact absurd (by decide) (h '\n')
  · exact absurd (by decide) (h '\r')
  · exact absurd (by decide) (h '\t')
  · exact absurd (by decide) (h '\x00')
  · rfl

theorem plus_not_digit {n : ℕ} : ¬ HexDigit '+' n := not_hexDigit (by decide)

theorem HexDigit.ne_backslash {c : Char} {n : ℕ} (h : HexDigit c n) : c ≠ '\\' := by
  rintro rfl
  exact not_hexDigit (by decide) h

/-- What comes of a text with that reading: the reading, or else something shorter, which takes an escape
with a plus sign. -/
def Resolves (s reading result : List Char) : Prop :=
  ¬ Signed s ∧ result = reading ∨ Signed s ∧ result.length < reading.length

theorem Resolves.cons {s s' t u : List Char} (h : Resolves s t u) (hs : Signed s' ↔ Signed s) (c : Char) :
    Resolves s' (c :: t) (c :: u) := by
  rcases h with ⟨hn, rfl⟩ | ⟨hs', hlt⟩
  · exact Or.inl ⟨mt hs.mp hn, rfl⟩
  · exact Or.inr ⟨hs.mpr hs', Nat.succ_lt_succ hlt⟩

theorem Resolves.length_le {s t u : List Char} (h : Resolves s t u) : u.length ≤ t.length := by
  rcases h with ⟨-, rfl⟩ | ⟨-, hlt⟩
  · exact Nat.le_refl _
  · exact Nat.le_of_lt hlt

theorem signed_number_iff {a b c d ch : Char} (hn : Numbers a b c d ch) (s : List Char) :
    Signed ('\\' :: 'u' :: a :: b :: c :: d :: s) ↔ Signed s := by
  obtain ⟨i, j, k, l, ha, hb, hc, hd, -⟩ := hn
  rw [signed_escape_iff, signed_cons_iff ha.ne_backslash, signed_cons_iff hb.ne_backslash,
    signed_cons_iff hc.ne_backslash, signed_cons_iff hd.ne_backslash]
  refine or_iff_right ?_
  rintro ⟨-, b', c', d', v, ch', hs, -⟩
  cases hs
  exact plus_not_digit ha

theorem reads_signed {b c d ch : Char} (hn : Signs '+' b c d ch) {s t : List Char} (h : Reads s t) :
    Reads ('\\' :: 'u' :: '+' :: b :: c :: d :: s) ('u' :: '+' :: b :: c :: d :: t) := by
  obtain ⟨-, j, k, l, hb, hc, hd, -⟩ := hn
  refine .kept u_not_control ?_ (.plain (by decide) (.plain hb.ne_backslash
    (.plain hc.ne_backslash (.plain hd.ne_backslash h))))
  rintro - ⟨a', b', c', d', ch', rest, hs, i, -, -, -, ha, -⟩
  cases hs
  exact plus_not_digit ha

theorem exists_reads (s : List Char) : ∃ t, Reads s t ∧ Resolves s t (unescape s) := by
  fun_induction unescape s with
  | case1 => exact ⟨[], .nil, Or.inl ⟨not_signed_nil, rfl⟩⟩
  | case2 a b c d s ch hch ih =>
    obtain ⟨t, ht, hr⟩ := ih
    rcases codeChar?_eq_some_iff.mp hch with hn | hn
    · exact ⟨ch :: t, .number hn ht, hr.cons (signed_number_iff hn s) ch⟩
    · obtain rfl := hn.1
      refine ⟨_, reads_signed hn ht, Or.inr ⟨?_, ?_⟩⟩
      · exact signed_escape_iff.mpr (Or.inl ⟨rfl, b, c, d, s, ch, rfl, hn⟩)
      · have hle := hr.length_le
        simp only [List.length_cons]
        omega
  | case3 a b c d s hnone ih =>
    obtain ⟨t, ht, hr⟩ := ih
    have hno (ch : Char) : ¬ (Numbers a b c d ch ∨ Signs a b c d ch) := by
      rw [← codeChar?_eq_some_iff, hnone]
      exact nofun
    refine ⟨'u' :: t, .kept u_not_control ?_ ht, hr.cons ?_ 'u'⟩
    · rintro - ⟨a', b', c', d', ch, rest, hs, hn⟩
      cases hs
      exact hno ch (Or.inl hn)
    · rw [signed_escape_iff]
      refine or_iff_right ?_
      rintro ⟨-, b', c', d', v, ch, hs, hn⟩
      cases hs
      exact hno ch (Or.inr hn)
  | case4 e s hfew ih =>
    obtain ⟨t, ht, hr⟩ := ih
    have hsigned : Signed ('\\' :: e :: s) ↔ Signed s := by
      rw [signed_escape_iff]
      refine or_iff_right ?_
      rintro ⟨he, b, c, d, v, ch, hs, -⟩
      exact hfew _ _ _ _ _ he hs
    refine ⟨escapedChar e :: t, ?_, hr.cons hsigned _⟩
    by_cases hc : ∃ c, (e, c) ∈ controls
    · obtain ⟨c, hc⟩ := hc
      rw [escapedChar_of_control hc]
      exact .control hc ht
    · have hc := not_exists.mp hc
      rw [escapedChar_of_not_control hc]
      refine .kept hc ?_ ht
      rintro he ⟨a, b, c, d, ch, rest, hs, -⟩
      exact hfew _ _ _ _ _ he hs
  | case5 c s hnumber hpair ih =>
    obtain ⟨t, ht, hr⟩ := ih
    by_cases hc : c = '\\'
    · subst hc
      cases s with
      | nil => exact ⟨['\\'], .last, Or.inl ⟨not_signed_last, rfl⟩⟩
      | cons e s => exact (hpair e s rfl rfl).elim
    · exact ⟨c :: t, .plain hc ht, hr.cons (signed_cons_iff hc) c⟩

def doubled (c : Char) : List Char := if c = '\\' then ['\\', '\\'] else [c]

theorem reads_doubled (s : List Char) : Reads (s.flatMap doubled) s := by
  induction s with
  | nil => exact .nil
  | cons c s ih =>
    rw [List.flatMap_cons, doubled]
    split
    · rename_i hc
      subst hc
      exact .kept (by simp [controls]) (fun h => absurd h (by decide)) ih
    · rename_i hc
      exact .plain hc ih

theorem not_signed_doubled (s : List Char) : ¬ Signed (s.flatMap doubled) := by
  induction s with
  | nil => exact not_signed_nil
  | cons c s ih =>
    rw [List.flatMap_cons, doubled]
    split
    · rename_i hc
      subst hc
      rw [List.cons_append, List.singleton_append, signed_escape_iff]
      rintro (⟨hu, -⟩ | h)
      · exact absurd hu (by decide)
      · exact ih h
    · rename_i hc
      rwa [List.singleton_append, signed_cons_iff hc]

theorem unescape_doubled (s : List Char) : unescape (s.flatMap doubled) = s := by
  obtain ⟨t, ht, ⟨-, hr⟩ | ⟨hs, -⟩⟩ := exists_reads (s.flatMap doubled)
  · exact hr.trans (ht.unique (reads_doubled s))
  · exact absurd hs (not_signed_doubled s)

/-- Every text has one reading, and it is what comes of resolving the escapes exactly if none of them has
a plus sign in place of its first digit. -/
theorem unescaped_as_read_iff (text : String) :
    (∃! reading, Reads text.toList reading) ∧
      (Reads text.toList text.unescaped.toList ↔ ¬ Signed text.toList) ∧
      (String.ofList (text.toList.flatMap doubled)).unescaped = text := by
  have hresolved : text.unescaped.toList = unescape text.toList := String.toList_ofList
  obtain ⟨t, ht, hr⟩ := exists_reads text.toList
  refine ⟨⟨t, ht, fun t' ht' => ht'.unique ht⟩, ?_, ?_⟩
  · rw [hresolved]
    rcases hr with ⟨hn, rfl⟩ | ⟨hs, hlt⟩
    · exact iff_of_true ht hn
    · refine iff_of_false (fun h => ?_) (not_not_intro hs)
      rw [h.unique ht] at hlt
      exact Nat.lt_irrefl _ hlt
  · unfold String.unescaped
    rw [String.toList_ofList, unescape_doubled, String.ofList_toList]

/-- The escape is none of the grammar, and is resolved as if the plus sign were a digit. -/
theorem plus_read_as_digit :
    Reads "\\u+041".toList "u+041".toList ∧ "\\u+041".unescaped = "A" ∧
      ¬ Reads "\\u+041".toList "\\u+041".unescaped.toList := by
  have hdigit {c : Char} {n : ℕ} (h : hexDigit? c = some n) := hexDigit?_eq_some_iff.mp h
  have hn : Signs '+' '0' '4' '1' 'A' :=
    ⟨rfl, 0, 4, 1, hdigit (by decide), hdigit (by decide), hdigit (by decide), by decide⟩
  have hreads : Reads "\\u+041".toList "u+041".toList := reads_signed hn .nil
  have hresult : "\\u+041".unescaped = "A" := by decide
  refine ⟨hreads, hresult, fun h => ?_⟩
  rw [hresult] at h
  exact absurd (h.unique hreads) (by decide)

end TopicHub.Text
