import Mathlib.Data.List.TakeWhile
import TopicHub.Proofs.Json.Literal
import TopicHub.Sql.Evaluate

/-!
Sums, differences and products of two integers. Each is read as it is written, with blanks around the
mark or without, by itself or in parentheses, and its value is the integer. The exception is a
difference without blanks whose second integer is negative: the two marks open a comment, so that the
first integer is all that is read.
-/

namespace TopicHub.Sql

open Number

def Reads (s : List Char) (ts : List Token) : Prop :=
  ∀ fuel, s.length ≤ fuel → tokensFrom fuel s = some ts

theorem reads_nil : Reads [] [] := by
  intro fuel _
  cases fuel <;> rfl

theorem reads_token {s rest : List Char} {t : Token} {ts : List Token}
    (h : step s = some (some t, rest)) (ht : t ≠ .symbol .semicolon)
    (hl : rest.length < s.length) (hr : Reads rest ts) : Reads s (t :: ts) := by
  intro fuel hf
  cases s with
  | nil => cases h
  | cons c s =>
    cases fuel with
    | zero => exact absurd hf (Nat.not_succ_le_zero _)
    | succ fuel =>
      have hn : rest.length ≤ fuel := by
        rw [List.length_cons] at hf hl
        omega
      rw [tokensFrom, h]
      split
      · rename_i he
        cases he
      · rename_i he
        cases he
      · rename_i he
        cases he
        exact absurd rfl ht
      · rename_i he
        cases he
        rw [hr fuel hn]
        rfl

theorem reads_skip {s rest : List Char} {ts : List Token} (h : step s = some (none, rest))
    (hl : rest.length < s.length) (hr : Reads rest ts) : Reads s ts := by
  intro fuel hf
  cases s with
  | nil => cases h
  | cons c s =>
    cases fuel with
    | zero => exact absurd hf (Nat.not_succ_le_zero _)
    | succ fuel =>
      rw [tokensFrom, h]
      refine hr fuel ?_
      rw [List.length_cons] at hf hl
      omega

theorem tokens_of_reads {s : List Char} {ts : List Token} (h0 : '\x00' ∉ s) (h : Reads s ts) :
    tokens s = some ts := by
  have hp : ∀ c ∈ s, decide (c ≠ '\x00') = true := by
    intro c hc
    refine decide_eq_true ?_
    rintro rfl
    exact h0 hc
  have hs : s.takeWhile (· ≠ '\x00') = s := List.takeWhile_eq_self_iff.mpr hp
  rw [tokens, hs]
  exact h _ (Nat.le_refl _)

def EndsNumber (rest : List Char) : Prop := rest.head?.all fun c => !isWordPart c && c ≠ '.'

theorem EndsNumber.notWordPart {rest : List Char} (h : EndsNumber rest) :
    rest.head?.any isWordPart = false := by
  cases rest with
  | nil => rfl
  | cons c s =>
    simp only [EndsNumber, List.head?_cons, Option.all_some, Bool.and_eq_true] at h
    simpa using h.1

theorem EndsNumber.head_ne {c : Char} {s : List Char} (h : EndsNumber (c :: s)) :
    c ≠ '.' ∧ ∀ d, isWordPart d = true → c ≠ d := by
  simp only [EndsNumber, List.head?_cons, Option.all_some, Bool.and_eq_true, decide_eq_true_eq,
    Bool.not_eq_true'] at h
  refine ⟨h.2, ?_⟩
  rintro d hd rfl
  rw [h.1] at hd
  cases hd

theorem isWordPart_of_isDigit {c : Char} (h : isDigit c = true) : isWordPart c = true := by
  have ha : c.isAlphanum = true := by
    rw [Char.isAlphanum, show c.isDigit = true from h, Bool.or_true]
  rw [isWordPart, ha]
  rfl

theorem ne_of_isDigit {c d : Char} (h : isDigit c = true) (hd : isDigit d = false) : c ≠ d := by
  rintro rfl
  rw [h] at hd
  cases hd

theorem not_space_of_isDigit {c : Char} (h : isDigit c = true) : isSpace c = false := by
  obtain ⟨hl, hu⟩ := toNat_of_isDigit h
  have hf : ∀ n < 58, 48 ≤ n → isSpace (Char.ofNat n) = false := by decide
  have hc := hf c.toNat (by omega) hl
  rwa [Char.ofNat_toNat] at hc

theorem digitRun_digits {ds rest : List Char} (hd : Digits ds) (hr : EndsNumber rest) :
    digitRun (ds ++ rest) = (ds, rest) := by
  have hp : ∀ c ∈ ds, (isDigit c || c = '_') = true := fun c hc => by rw [hd c hc]; rfl
  rw [digitRun, List.takeWhile_append_of_pos hp, List.dropWhile_append_of_pos hp]
  cases rest with
  | nil => simp
  | cons c s =>
    have hc : (isDigit c || c = '_') = false := by
      rw [Bool.or_eq_false_iff]
      constructor
      · cases h : isDigit c with
        | false => rfl
        | true => exact absurd rfl (hr.head_ne.2 c (isWordPart_of_isDigit h))
      · exact decide_eq_false (hr.head_ne.2 '_' rfl)
    simp [List.takeWhile, List.dropWhile, hc]

theorem withoutUnderscores_digits {ds : List Char} (hd : Digits ds) (previous : Option Char) :
    withoutUnderscores isDigit previous ds = some ds := by
  induction ds generalizing previous with
  | nil => rfl
  | cons c ds ih =>
    have hc := ne_of_isDigit (hd c (List.mem_cons_self ..)) (rfl : isDigit '_' = false)
    rw [withoutUnderscores, if_neg hc, ih fun d h => hd d (List.mem_cons_of_mem _ h)]
    rfl

theorem readExponent_none {rest : List Char} (hr : EndsNumber rest) : readExponent rest = none := by
  cases rest with
  | nil => rfl
  | cons c s =>
    have he : ¬ (c = 'e' || c = 'E') = true := by
      simp [hr.head_ne.2 'e' rfl, hr.head_ne.2 'E' rfl]
    rw [readExponent.eq_def]
    dsimp only
    rw [if_neg he]

theorem decimal_digits {ds rest : List Char} (hd : Digits ds) (hr : EndsNumber rest) :
    readNumber.decimal (ds ++ rest) = some (.integer (natFrom 0 ds), rest) := by
  have hw := withoutUnderscores_digits hd none
  have he := readExponent_none hr
  rw [readNumber.decimal, digitRun_digits hd hr]
  cases rest with
  | nil => simp [he, hw, withoutUnderscores]
  | cons c s =>
    have hc : isWordPart c = false := hr.notWordPart
    simp [hr.head_ne.1, hc, he, hw, withoutUnderscores]

theorem readNumber_digits {ds rest : List Char} (hd : Digits ds) (hr : EndsNumber rest) :
    readNumber (ds ++ rest) = some (.integer (natFrom 0 ds), rest) := by
  rw [readNumber.eq_def]
  dsimp only
  split
  · rename_i x d t hs
    have hx : ¬ ((x = 'x' || x = 'X') && isHexDigit d) = true := by
      have hn : x ≠ 'x' ∧ x ≠ 'X' := by
        cases ds with
        | nil =>
          rw [List.nil_append] at hs
          rw [hs] at hr
          exact absurd rfl (hr.head_ne.2 '0' rfl)
        | cons a ds =>
          rw [List.cons_append, List.cons.injEq] at hs
          cases ds with
          | nil =>
            rw [List.nil_append] at hs
            rw [hs.2] at hr
            exact ⟨hr.head_ne.2 'x' rfl, hr.head_ne.2 'X' rfl⟩
          | cons b ds =>
            have hb := hd b (by simp)
            rw [List.cons_append, List.cons.injEq] at hs
            rw [hs.2.1] at hb
            exact ⟨ne_of_isDigit hb rfl, ne_of_isDigit hb rfl⟩
      simp [hn]
    rw [if_neg hx]
    exact decimal_digits hd hr
  · exact decimal_digits hd hr

/-- An operation on two integers that rules calculate. -/
inductive Operation where
  | sum
  | difference
  | product
  deriving DecidableEq, Repr

namespace Operation

def mark : Operation → Char
  | sum => '+'
  | difference => '-'
  | product => '*'

def symbol : Operation → Symbol
  | sum => .plus
  | difference => .minus
  | product => .star

def arithmetic : Operation → ArithmeticOp
  | sum => .add
  | difference => .subtract
  | product => .multiply

def apply : Operation → Int → Int → Int
  | sum, k, n => k + n
  | difference, k, n => k - n
  | product, k, n => k * n

def gap (spaced : Bool) : List Char := if spaced then [' '] else []

def write (op : Operation) (spaced : Bool) (k : Nat) (right : List Char) : List Char :=
  Nat.toDigits 10 k ++ (gap spaced ++ op.mark :: (gap spaced ++ right))

def Comments (op : Operation) (spaced : Bool) (n : Int) : Prop :=
  op = difference ∧ spaced = false ∧ n < 0

instance (op : Operation) (spaced : Bool) (n : Int) : Decidable (op.Comments spaced n) :=
  inferInstanceAs (Decidable (_ ∧ _))

end Operation

def signed (n : Int) : List Token :=
  if n < 0 then [.symbol .minus, .integer n.natAbs] else [.integer n.natAbs]

variable {rest : List Char} {ts : List Token}

theorem step_digit {c : Char} (hc : isDigit c = true) (s : List Char) :
    step (c :: s) = (readNumber (c :: s)).map fun (t, rest) => (some t, rest) := by
  have hs : isSpaceStart c = false := by
    have hf : c ≠ '\uFEFF' := ne_of_isDigit hc rfl
    simp [isSpaceStart, not_space_of_isDigit hc, hf]
  rw [step, hs, hc, if_neg Bool.false_ne_true, if_pos (by rfl)]
  -- What begins a token of another kind is no digit.
  · exact ne_of_isDigit hc rfl
  · exact ne_of_isDigit hc rfl
  · exact ne_of_isDigit hc rfl
  · exact ne_of_isDigit hc rfl
  · intro _ hx _
    simp [ne_of_isDigit (d := 'x') hc rfl, ne_of_isDigit (d := 'X') hc rfl] at hx
  · intro _ h
    exact absurd h (ne_of_isDigit hc rfl)
  · intro _ _ h
    exact absurd h (ne_of_isDigit hc rfl)

theorem reads_digits (k : Nat) (he : EndsNumber rest) (hr : Reads rest ts) :
    Reads (Nat.toDigits 10 k ++ rest) (.integer k :: ts) := by
  have hd := digits_toDigits k
  have hs := readNumber_digits hd he
  rw [natFrom_toDigits] at hs
  have hl : 0 < (Nat.toDigits 10 k).length := List.length_pos_iff.mpr Nat.toDigits_ne_nil
  cases ht : Nat.toDigits 10 k with
  | nil => exact absurd ht Nat.toDigits_ne_nil
  | cons c ds =>
    rw [ht] at hd hs hl
    refine reads_token ?_ nofun ?_ hr
    · rw [List.cons_append] at hs ⊢
      rw [step_digit (hd c (List.mem_cons_self ..)), hs]
      rfl
    · rw [List.length_append]
      omega

theorem reads_gap (spaced : Bool) {c : Char} {s : List Char} (hc : isSpace c = false)
    (hr : Reads (c :: s) ts) : Reads (Operation.gap spaced ++ c :: s) ts := by
  cases spaced with
  | false => exact hr
  | true =>
    have hl : (c :: s).length < (Operation.gap true ++ c :: s).length := Nat.lt_succ_self _
    refine reads_skip ?_ hl hr
    change some (none, (c :: s).dropWhile isSpace) = _
    rw [List.dropWhile_cons_of_neg]
    rw [hc]
    exact Bool.false_ne_true

theorem step_minus {c : Char} (hm : c ≠ '-') (ha : c ≠ '>') (s : List Char) :
    step ('-' :: c :: s) = some (some (.symbol .minus), c :: s) := by
  have hs : readSymbol ('-' :: c :: s) = some (.minus, c :: s) := by simp [readSymbol, ha]
  have hb : isSpaceStart '-' = false := rfl
  have hd : isDigit '-' = false := rfl
  have hw : isWordStart '-' = false := rfl
  simp [step, hm, hb, hd, hw, hs]

theorem isSpace_mark (op : Operation) : isSpace op.mark = false := by
  cases op <;> rfl

theorem step_mark (op : Operation) {c : Char} (hm : op = .difference → c ≠ '-') (ha : c ≠ '>')
    (s : List Char) : step (op.mark :: c :: s) = some (some (.symbol op.symbol), c :: s) := by
  cases op with
  | sum => rfl
  | difference => exact step_minus (hm rfl) ha s
  | product => rfl

theorem intChars_eq (n : Int) :
    intChars n = (if n < 0 then ['-'] else []) ++ Nat.toDigits 10 n.natAbs := Json.toList_intText n

theorem intChars_head (n : Int) (rest : List Char) : ∃ c s, intChars n ++ rest = c :: s ∧
    isSpace c = false ∧ c ≠ '>' ∧ (c = '-' ↔ n < 0) := by
  rw [intChars_eq]
  by_cases hn : n < 0
  · exact ⟨'-', Nat.toDigits 10 n.natAbs ++ rest, by rw [if_pos hn]; rfl, rfl, by decide,
      iff_of_true rfl hn⟩
  · rw [if_neg hn, List.nil_append]
    cases hd : Nat.toDigits 10 n.natAbs with
    | nil => exact absurd hd Nat.toDigits_ne_nil
    | cons c ds =>
      have hc : isDigit c = true := by
        refine digits_toDigits n.natAbs c ?_
        rw [hd]
        exact List.mem_cons_self ..
      exact ⟨c, ds ++ rest, rfl, not_space_of_isDigit hc, ne_of_isDigit hc rfl,
        iff_of_false (ne_of_isDigit hc rfl) hn⟩

theorem reads_intChars (n : Int) (he : EndsNumber rest) (hr : Reads rest ts) :
    Reads (intChars n ++ rest) (signed n ++ ts) := by
  rw [intChars_eq, signed]
  have hk := reads_digits n.natAbs he hr
  by_cases hn : n < 0
  · rw [if_pos hn, if_pos hn]
    obtain ⟨c, ds, hd⟩ : ∃ c ds, Nat.toDigits 10 n.natAbs = c :: ds :=
      List.exists_cons_of_ne_nil Nat.toDigits_ne_nil
    have hc : isDigit c = true := by
      refine digits_toDigits n.natAbs c ?_
      rw [hd]
      exact List.mem_cons_self ..
    rw [hd] at hk ⊢
    exact reads_token (step_minus (ne_of_isDigit hc rfl) (ne_of_isDigit hc rfl) _) nofun
      (Nat.lt_succ_self _) hk
  · rw [if_neg hn, if_neg hn]
    exact hk

theorem endsNumber_gap (op : Operation) (spaced : Bool) (s : List Char) :
    EndsNumber (Operation.gap spaced ++ op.mark :: s) := by
  cases spaced <;> cases op <;> rfl

theorem reads_operation {op : Operation} {spaced : Bool} {n : Int} (h : ¬ op.Comments spaced n)
    (k : Nat) (he : EndsNumber rest) (hr : Reads rest ts) :
    Reads (op.write spaced k (intChars n) ++ rest)
      (.integer k :: .symbol op.symbol :: (signed n ++ ts)) := by
  obtain ⟨c, s, hs, hb, ha, hm⟩ := intChars_head n rest
  have hn : Reads (c :: s) (signed n ++ ts) := hs ▸ reads_intChars n he hr
  have hright : Reads (Operation.gap spaced ++ c :: s) (signed n ++ ts) := reads_gap spaced hb hn
  have hmark : Reads (op.mark :: (Operation.gap spaced ++ c :: s))
      (.symbol op.symbol :: (signed n ++ ts)) := by
    cases hsp : spaced with
    | true =>
      rw [hsp] at hright
      refine reads_token (step_mark op (fun _ => ?_) ?_ _) ?_ ?_ hright
      · decide
      · decide
      · cases op <;> exact nofun
      · exact Nat.lt_succ_self _
    | false =>
      rw [hsp] at hright
      refine reads_token (step_mark op (fun ho => ?_) ha _) ?_ ?_ hright
      · exact fun hc => h ⟨ho, hsp, hm.mp hc⟩
      · cases op <;> exact nofun
      · exact Nat.lt_succ_self _
  have hall := reads_digits k (endsNumber_gap op spaced _) (reads_gap spaced (isSpace_mark op) hmark)
  rw [← hs] at hall
  simpa only [Operation.write, List.append_assoc, List.cons_append] using hall

/-- The second of two marks that meet starts a comment, which takes the rest of the line. -/
theorem reads_comment {op : Operation} {spaced : Bool} {n : Int} (h : op.Comments spaced n)
    (k : Nat) (hr : '\n' ∉ rest) :
    Reads (op.write spaced k (intChars n) ++ rest) [.integer k] := by
  obtain ⟨rfl, rfl, hn⟩ := h
  have hc : intChars n ++ rest = '-' :: (Nat.toDigits 10 n.natAbs ++ rest) := by
    rw [intChars_eq, if_pos hn]
    rfl
  have hline : ∀ c ∈ Nat.toDigits 10 n.natAbs ++ rest, decide (c ≠ '\n') = true := by
    intro c hm
    refine decide_eq_true ?_
    rcases List.mem_append.mp hm with hd | hd
    · exact ne_of_isDigit (digits_toDigits _ c hd) rfl
    · rintro rfl
      exact hr hd
  have hs : step ('-' :: (intChars n ++ rest)) = some (none, []) := by
    rw [hc]
    change some (none, (Nat.toDigits 10 n.natAbs ++ rest).dropWhile (· ≠ '\n')) = _
    rw [List.dropWhile_eq_nil_iff.mpr hline]
  have hmarks : Reads ('-' :: (intChars n ++ rest)) [] := reads_skip hs (Nat.succ_pos _) reads_nil
  have hall := reads_digits k (endsNumber_gap .difference false _) hmarks
  rw [Operation.write, List.append_assoc]
  exact hall

namespace Operation

def grouped (parentheses : Bool) (text : List Char) : List Char :=
  if parentheses then '(' :: (text ++ [')']) else text

def expr (op : Operation) (k : Nat) (n : Int) : Expr :=
  .arithmetic op.arithmetic (.integer k)
    (if n < 0 then .negate (.integer n.natAbs) else .integer n.natAbs)

end Operation

def Operation.characters : List Char := " *+-0123456789".toList

theorem mem_characters_of_isDigit {c : Char} (h : isDigit c = true) : c ∈ Operation.characters := by
  obtain ⟨hl, hu⟩ := toNat_of_isDigit h
  have hf : ∀ n < 58, 48 ≤ n → Char.ofNat n ∈ Operation.characters := by decide
  have hc := hf c.toNat (by omega) hl
  rwa [Char.ofNat_toNat] at hc

theorem mem_write {op : Operation} {spaced : Bool} {k : Nat} {n : Int} {c : Char}
    (h : c ∈ op.write spaced k (intChars n)) : c ∈ Operation.characters := by
  have hgap : ∀ c ∈ Operation.gap spaced, c ∈ Operation.characters := by
    cases spaced with
    | false => exact List.forall_mem_nil _
    | true => exact List.forall_mem_singleton.mpr (by decide)
  have hmark : op.mark ∈ Operation.characters := by
    cases op <;> decide
  rw [Operation.write, intChars_eq] at h
  simp only [List.mem_append, List.mem_cons (b := op.mark)] at h
  rcases h with h | h | rfl | h | h | h
  · exact mem_characters_of_isDigit (digits_toDigits k c h)
  · exact hgap c h
  · exact hmark
  · exact hgap c h
  · split at h
    · rw [List.mem_singleton.mp h]
      decide
    · cases h
  · exact mem_characters_of_isDigit (digits_toDigits _ c h)

theorem notMem_write (op : Operation) (spaced : Bool) (k : Nat) (n : Int) {c : Char}
    (hc : c ∉ Operation.characters) : c ∉ op.write spaced k (intChars n) :=
  fun h => hc (mem_write h)

theorem tokens_operation {op : Operation} {spaced : Bool} {n : Int} (h : ¬ op.Comments spaced n)
    (k : Nat) :
    tokens (op.write spaced k (intChars n)) =
      some (.integer k :: .symbol op.symbol :: signed n) := by
  have he : EndsNumber [] := rfl
  have hr := reads_operation h k he reads_nil
  rw [List.append_nil, List.append_nil] at hr
  exact tokens_of_reads (notMem_write op spaced k n (by decide)) hr

theorem tokens_comment {op : Operation} {spaced : Bool} {n : Int} (h : op.Comments spaced n)
    (k : Nat) : tokens (op.write spaced k (intChars n)) = some [.integer k] := by
  have hr := reads_comment h k List.not_mem_nil
  rw [List.append_nil] at hr
  exact tokens_of_reads (notMem_write op spaced k n (by decide)) hr

theorem tokens_parentheses {s : List Char} {ts : List Token} (h0 : '\x00' ∉ s)
    (h : Reads (s ++ [')']) ts) :
    tokens ('(' :: (s ++ [')'])) = some (.symbol .lparen :: ts) := by
  refine tokens_of_reads ?_ (reads_token rfl nofun (Nat.lt_succ_self _) h)
  simp [h0]

theorem readQuery?_operation {text : List Char} {op : Operation} {k : Nat} {n : Int}
    (h : tokens text = some (.integer k :: .symbol op.symbol :: signed n)) :
    readQuery? text = some [op.expr k n] := by
  rw [readQuery?, h, signed, Operation.expr]
  by_cases hn : n < 0
  · rw [if_pos hn, if_pos hn]
    cases op <;> rfl
  · rw [if_neg hn, if_neg hn]
    cases op <;> rfl

theorem readQuery?_parentheses {text : List Char} {op : Operation} {k : Nat} {n : Int}
    (h : tokens text = some (.symbol .lparen :: .integer k :: .symbol op.symbol ::
      (signed n ++ [.symbol .rparen]))) :
    readQuery? text = some [op.expr k n] := by
  rw [readQuery?, h, signed, Operation.expr]
  by_cases hn : n < 0
  · rw [if_pos hn, if_pos hn]
    cases op <;> rfl
  · rw [if_neg hn, if_neg hn]
    cases op <;> rfl

/-- Below this size no operation leaves the integers of 64 bits. -/
theorem inInt64_apply (op : Operation) {k : Nat} {n : Int} (hk : k < 2 ^ 31)
    (hn : n.natAbs < 2 ^ 31) : inInt64 (op.apply k n) = true := by
  have hs : (span63 : Int) = 9223372036854775808 := rfl
  simp only [inInt64, minInt, maxInt, hs, Bool.and_eq_true, decide_eq_true_eq]
  cases op with
  | sum =>
    rw [Operation.apply]
    omega
  | difference =>
    rw [Operation.apply]
    omega
  | product =>
    have hp : ((k : Int) * n).natAbs < 2 ^ 31 * 2 ^ 31 := by
      rw [Int.natAbs_mul, Int.natAbs_natCast]
      exact Nat.mul_lt_mul'' hk hn
    rw [Operation.apply]
    omega

theorem value?_expr (op : Operation) {k : Nat} {n : Int} (hk : k < 2 ^ 31)
    (hn : n.natAbs < 2 ^ 31) : (op.expr k n).value? = some (.integer (op.apply k n)) := by
  have hs : span63 = 9223372036854775808 := rfl
  have hwide {m : Nat} (hm : m < 2 ^ 31) : wideInteger m = .integer m := if_pos (by omega)
  have hright : (if n < 0 then Expr.negate (.integer n.natAbs) else .integer n.natAbs).value? =
      some (.integer n) := by
    split
    · rw [Expr.value?, if_pos (by omega), Int.ofNat_natAbs_of_nonpos (by omega), Int.neg_neg]
    · rw [Expr.value?, hwide hn, Int.natAbs_of_nonneg (by omega)]
  have hfit := inInt64_apply op hk hn
  rw [Operation.expr, Expr.value?, Expr.value?, hright, hwide hk]
  cases op with
  | sum => exact congrArg some (if_pos hfit)
  | difference => exact congrArg some (if_pos hfit)
  | product => exact congrArg some (if_pos hfit)

theorem evaluate?_expr {text : List Char} {op : Operation} {k : Nat} {n : Int} (hk : k < 2 ^ 31)
    (hn : n.natAbs < 2 ^ 31) (h : readQuery? text = some [op.expr k n]) :
    evaluate? text = some (.integer (op.apply k n)) := by
  have hm : (op.expr k n).height ≤ heightLimit ∧ (op.expr k n).isMeaningful false = true := by
    rw [Operation.expr]
    split
    · exact ⟨(by decide : 3 ≤ heightLimit), rfl⟩
    · exact ⟨(by decide : 2 ≤ heightLimit), rfl⟩
  have hall : ([op.expr k n].all fun e => e.height ≤ heightLimit && e.isMeaningful false) = true := by
    simp [hm]
  have hv : Expr.values? [op.expr k n] = some [.integer (op.apply k n)] := by
    rw [Expr.values?, value?_expr op hk hn]
    rfl
  rw [evaluate?, h, Option.bind_some, if_pos hall, hv]
  rfl

theorem evaluate?_operation {op : Operation} {spaced : Bool} {k : Nat} {n : Int}
    (h : ¬ op.Comments spaced n) (hk : k < 2 ^ 31) (hn : n.natAbs < 2 ^ 31) (parentheses : Bool) :
    evaluate? (Operation.grouped parentheses (op.write spaced k (intChars n))) =
      some (.integer (op.apply k n)) := by
  refine evaluate?_expr hk hn ?_
  cases parentheses with
  | false => exact readQuery?_operation (tokens_operation h k)
  | true =>
    have hclose : Reads [')'] [.symbol .rparen] :=
      reads_token rfl nofun (Nat.succ_pos _) reads_nil
    have he : EndsNumber [')'] := rfl
    exact readQuery?_parentheses (tokens_parentheses (notMem_write op spaced k n (by decide))
      (reads_operation h k he hclose))

theorem evaluate?_comment {op : Operation} {spaced : Bool} {k : Nat} {n : Int}
    (h : op.Comments spaced n) (hk : k < 2 ^ 31) (parentheses : Bool) :
    evaluate? (Operation.grouped parentheses (op.write spaced k (intChars n))) =
      if parentheses then none else some (.integer k) := by
  cases parentheses with
  | false =>
    have hq : readQuery? (op.write spaced k (intChars n)) = some [.integer k] := by
      rw [readQuery?, tokens_comment h k]
      rfl
    have hs : span63 = 9223372036854775808 := rfl
    have hv : Expr.values? [.integer k] = some [.integer k] := by
      rw [Expr.values?, Expr.value?, wideInteger, if_pos (by omega)]
      rfl
    change evaluate? (op.write spaced k (intChars n)) = some (.integer k)
    rw [evaluate?, hq]
    change (Expr.values? [.integer k]).bind List.head? = _
    rw [hv]
    rfl
  | true =>
    have ht := tokens_parentheses (notMem_write op spaced k n (by decide))
      (reads_comment h k (show '\n' ∉ [')'] by decide))
    change evaluate? ('(' :: (op.write spaced k (intChars n) ++ [')'])) = none
    rw [evaluate?, readQuery?, ht]
    rfl

/-- Operations on integers have the values that they have among the integers. Two minus signs open a
comment: the first integer is left by itself, and a parenthesis before it is never closed. -/
structure CalculatesIntegers (query : List Char → Option Value) : Prop where
  operation {op : Operation} {spaced : Bool} {k : Nat} {n : Int} (h : ¬ op.Comments spaced n)
    (hk : k < 2 ^ 31) (hn : n.natAbs < 2 ^ 31) (parentheses : Bool) :
    query (Operation.grouped parentheses (op.write spaced k (intChars n))) =
      some (.integer (op.apply k n))
  comment {op : Operation} {spaced : Bool} {k : Nat} {n : Int} (h : op.Comments spaced n)
    (hk : k < 2 ^ 31) (parentheses : Bool) :
    query (Operation.grouped parentheses (op.write spaced k (intChars n))) =
      if parentheses then none else some (.integer k)

theorem calculatesIntegers_evaluate? : CalculatesIntegers evaluate? where
  operation := evaluate?_operation
  comment := evaluate?_comment

end TopicHub.Sql
