import Mathlib
import TopicHub.Proofs.Marker.Written
import TopicHub.Proofs.Utf8

/-!
The grammar of calls, over the bytes of a text, and the arguments of calls. What is read as an argument
is balanced text in front of a closing parenthesis, and each such text is read as an argument.
-/

namespace TopicHub.Marker

open Text

def quotes : List Char := ['\'', '"']

def brackets : List Char := quotes ++ ['(', ')']

/-- Texts in which every parenthesis has its other half. Quoted text is passed over, and a quote has its
other half as well. -/
inductive Balanced : List UInt8 → Prop where
  | nil : Balanced []
  | other {b : UInt8} {s : List UInt8} (hb : ∀ c ∈ brackets, b ≠ octet c) (hs : Balanced s) :
      Balanced (b :: s)
  | quoted {q : Char} {m s : List UInt8} (hq : q ∈ quotes) (hm : octet q ∉ m) (hs : Balanced s) :
      Balanced (octet q :: m ++ octet q :: s)
  | nested {s t : List UInt8} (hs : Balanced s) (ht : Balanced t) :
      Balanced (octet '(' :: s ++ octet ')' :: t)

inductive Parenthesized (argument rest : List UInt8) : List UInt8 → Prop where
  | mk {b : List Char} (hb : ∀ c ∈ b, isAsciiBlank c = true) (ha : Balanced argument) :
      Parenthesized argument rest (octets b ++ octet '(' :: argument ++ octet ')' :: rest)

inductive ReadCall (argument rest : List UInt8) : List UInt8 → Prop where
  | mk {keyword : List Char} {s : List UInt8} (hk : keyword ∈ readKeywords)
      (hs : Parenthesized argument rest s) : ReadCall argument rest (octets keyword ++ s)

inductive Named (name : List Char) (argument rest : List UInt8) : List UInt8 → Prop where
  | mk {s : List UInt8} (hf : name.head?.any isNameStart = true)
      (hn : ∀ c ∈ name, isNamePart c = true) (hs : Parenthesized argument rest s) :
      Named name argument rest (octets name ++ s)

/-- A script call, followed by `rest`: by its name alone, with a point in front, or in a second pair of
parentheses. `gap` stands in front of the last parenthesis. -/
inductive ScriptCallOf (gap name : List Char) (argument rest : List UInt8) : List UInt8 → Prop where
  | plain {s : List UInt8} (hs : Named name argument rest s) :
      ScriptCallOf gap name argument rest (octets "::".toList ++ s)
  | dotted {s : List UInt8} (hs : Named name argument rest s) :
      ScriptCallOf gap name argument rest (octets "::.".toList ++ s)
  | wrapped {s : List UInt8} (hs : Named name argument (octets gap ++ octet ')' :: rest) s) :
      ScriptCallOf gap name argument rest (octets "::(".toList ++ s)

theorem isAscii_of_isAlphanum {c : Char} (h : c.isAlphanum = true) : IsAscii c := by
  simp only [Char.isAlphanum, Char.isAlpha, Char.isUpper, Char.isLower, Char.isDigit,
    Bool.or_eq_true, Bool.and_eq_true, decide_eq_true_eq, UInt32.le_iff_toNat_le, ge_iff_le] at h
  have hZ : 'Z'.val.toNat = 90 := rfl
  have hz : 'z'.val.toNat = 122 := rfl
  have h9 : '9'.val.toNat = 57 := rfl
  change c.val.toNat < 128
  omega

theorem isAscii_of_isNamePart {c : Char} (h : isNamePart c = true) : IsAscii c := by
  unfold isNamePart at h
  rcases Bool.or_eq_true .. |>.mp h with h | h
  · exact isAscii_of_isAlphanum h
  · rw [of_decide_eq_true h]
    decide

theorem isNamePart_of_isNameStart {c : Char} (h : isNameStart c = true) : isNamePart c = true := by
  unfold isNameStart at h
  unfold isNamePart Char.isAlphanum
  rw [Bool.or_eq_true] at h ⊢
  exact h.imp_left fun h => by rw [h, Bool.true_or]

theorem isAscii_of_isAsciiBlank {c : Char} (h : isAsciiBlank c = true) : IsAscii c := by
  unfold isAsciiBlank at h
  simp only [Bool.or_eq_true, decide_eq_true_eq] at h
  rcases h with (((rfl | rfl) | rfl) | rfl) | rfl <;> decide

theorem isAscii_of_mem_brackets : ∀ c ∈ brackets, IsAscii c := by simp [brackets, quotes, IsAscii]

theorem mem_brackets_of_mem_quotes {q : Char} (h : q ∈ quotes) : q ∈ brackets :=
  List.mem_append_left _ h

theorem isAscii_of_mem_quotes {q : Char} (h : q ∈ quotes) : IsAscii q :=
  isAscii_of_mem_brackets q (mem_brackets_of_mem_quotes h)

theorem bracket_cases (c : Char) : c ∈ quotes ∨ c = '(' ∨ c = ')' ∨ c ∉ brackets := by
  simp only [brackets, List.mem_append, List.mem_cons, List.not_mem_nil, or_false]
  tauto

theorem isAscii_of_mem_readKeywords : ∀ k ∈ readKeywords, ∀ c ∈ k, IsAscii c := by
  simp [readKeywords, IsAscii]

def prepend (u : List Char) (r : Reading (List Char)) : Reading (List Char) :=
  r.map fun (argument, rest) => (u ++ argument, rest)

@[simp] theorem prepend_prepend (u v : List Char) (r : Reading (List Char)) :
    prepend u (prepend v r) = prepend (u ++ v) r := by
  cases r <;> simp [prepend]

theorem prepend_nil (r : Reading (List Char)) : prepend [] r = r := by
  cases r <;> rfl

theorem of_prepend {u arg rest : List Char} {r : Reading (List Char)}
    (h : prepend u r = some (arg, rest)) : ∃ a, arg = u ++ a ∧ r = some (a, rest) := by
  obtain ⟨⟨a, b⟩, rfl, he⟩ := Option.map_eq_some_iff.mp h
  cases he
  exact ⟨a, rfl, rfl⟩

variable {q c : Char}

theorem argument?_quoted (d : Nat) (hc : c ≠ q) (s : List Char) :
    argument? d (some q) (c :: s) = prepend [c] (argument? d (some q) s) := by
  simp only [argument?, hc, if_false]
  rfl

theorem argument?_unquote (d : Nat) (q : Char) (s : List Char) :
    argument? d (some q) (q :: s) = prepend [q] (argument? d none s) := by
  simp only [argument?, if_true]
  rfl

theorem argument?_quote (d : Nat) (hq : q ∈ quotes) (s : List Char) :
    argument? d none (q :: s) = prepend [q] (argument? d (some q) s) := by
  have hor : (q = '\'' || q = '"') = true := by simpa [quotes] using hq
  simp only [argument?, hor, if_true]
  rfl

theorem argument?_open (d : Nat) (s : List Char) :
    argument? d none ('(' :: s) = prepend ['('] (argument? (d + 1) none s) := rfl

theorem argument?_inner (d : Nat) (s : List Char) :
    argument? (d + 1) none (')' :: s) = prepend [')'] (argument? d none s) := rfl

theorem argument?_close (s : List Char) : argument? 0 none (')' :: s) = some ([], s) := rfl

theorem argument?_other (d : Nat) (hc : c ∉ brackets) (s : List Char) :
    argument? d none (c :: s) = prepend [c] (argument? d none s) := by
  simp only [brackets, quotes, List.mem_append, List.mem_cons, List.not_mem_nil, or_false,
    not_or] at hc
  simp only [argument?, hc.1.1, hc.1.2, hc.2.1, hc.2.2, decide_false, Bool.or_false,
    Bool.false_eq_true, if_false]
  rfl

theorem argument?_quotation (d : Nat) (hq : q ∈ quotes) {m : List Char} (hm : q ∉ m)
    (s : List Char) :
    argument? d none (q :: m ++ q :: s) = prepend (q :: m ++ [q]) (argument? d none s) := by
  have hinside : argument? d (some q) (m ++ q :: s) =
      prepend (m ++ [q]) (argument? d none s) := by
    induction m with
    | nil => exact argument?_unquote d q s
    | cons c m ih =>
      obtain ⟨hc, hm⟩ := not_or.mp (mt List.mem_cons.mpr hm)
      rw [List.cons_append, argument?_quoted d (Ne.symm hc), ih hm, prepend_prepend]
      rfl
  rw [List.cons_append, argument?_quote d hq, hinside, prepend_prepend]
  rfl

theorem eq_nil_of_wide {e v w : List UInt8} (hc : c ∈ brackets) (he : ∀ b ∈ e, 128 ≤ b.toNat)
    (h : octet c :: w = e ++ v) : e = [] := by
  cases e with
  | nil => rfl
  | cons b e =>
    have hb := he b (List.mem_cons_self ..)
    have hc := isAscii_of_mem_brackets c hc
    rw [← (List.cons.inj h).1, toNat_octet hc] at hb
    exact absurd hc (Nat.not_lt.mpr hb)

theorem argument?_of_balanced {a : List UInt8} (h : Balanced a) :
    ∀ {e : List UInt8} {arg : List Char}, (∀ b ∈ e, 128 ≤ b.toNat) → a = e ++ octets arg →
      ∀ (d : Nat) (s : List Char), argument? d none (arg ++ s) = prepend arg (argument? d none s) := by
  -- A byte that is no sign may be one of several of a wide character: `e` is what is left of the bytes
  -- of the character before.
  induction h with
  | nil =>
    intro e arg _ ha d s
    obtain rfl := octets_eq_nil (List.append_eq_nil_iff.mp ha.symm).2
    exact (prepend_nil _).symm
  | @other b a hb _ ih =>
    intro e arg he ha d s
    cases e with
    | cons b' e =>
      obtain ⟨-, rfl⟩ := List.cons.inj ha
      exact ih (fun b hb => he b (List.mem_cons_of_mem _ hb)) rfl d s
    | nil =>
      cases arg with
      | nil => cases ha
      | cons c arg =>
        by_cases hc : IsAscii c
        · rw [List.nil_append, octets_cons_ascii hc] at ha
          obtain ⟨rfl, rfl⟩ := List.cons.inj ha
          rw [List.cons_append, argument?_other d fun h => hb c h rfl,
            ih (List.forall_mem_nil _) rfl d s, prepend_prepend]
          rfl
        · have hwide := utf8EncodeChar_wide hc
          rw [List.nil_append, octets_cons] at ha
          obtain ⟨b', e, hce⟩ := List.exists_cons_of_ne_nil (String.utf8EncodeChar_ne_nil (c := c))
          rw [hce] at ha hwide
          obtain ⟨-, rfl⟩ := List.cons.inj ha
          rw [List.cons_append, argument?_other d fun h => hc (isAscii_of_mem_brackets c h),
            ih (List.forall_mem_cons.mp hwide).2 rfl d s, prepend_prepend]
          rfl
  | @quoted q m a hq hm _ ih =>
    intro e arg he ha d s
    have hqa := isAscii_of_mem_quotes hq
    obtain rfl := eq_nil_of_wide (mem_brackets_of_mem_quotes hq) he ha
    obtain ⟨behind, rfl, hb⟩ := exists_of_octets_eq_cons hqa (v := m ++ octet q :: a) ha.symm
    obtain ⟨m, arg, rfl, rfl, rfl⟩ := exists_of_octets_eq hqa hb
    have hm : q ∉ m := mt (octet_mem_octets hqa).mpr hm
    have hs : q :: (m ++ q :: arg) ++ s = q :: m ++ q :: (arg ++ s) := by simp
    rw [hs, argument?_quotation d hq hm, ih (List.forall_mem_nil _) rfl d s, prepend_prepend]
    simp
  | @nested a b _ _ iha ihb =>
    intro e arg he hab d s
    obtain rfl := eq_nil_of_wide (by decide) he hab
    obtain ⟨behind, rfl, hb⟩ :=
      exists_of_octets_eq_cons (by decide) (v := a ++ octet ')' :: b) hab.symm
    obtain ⟨t, u, rfl, rfl, rfl⟩ := exists_of_octets_eq (c := ')') (by decide) hb
    have hs : '(' :: (t ++ ')' :: u) ++ s = '(' :: (t ++ ')' :: (u ++ s)) := by simp
    rw [hs, argument?_open, iha (List.forall_mem_nil _) rfl, argument?_inner,
      ihb (List.forall_mem_nil _) rfl]
    simp

theorem Balanced.append {a b : List UInt8} (ha : Balanced a) (hb : Balanced b) :
    Balanced (a ++ b) := by
  induction ha with
  | nil => exact hb
  | other h _ ih => exact .other h ih
  | quoted hq hm _ ih =>
    rw [List.append_assoc]
    exact .quoted hq hm ih
  | nested hs _ _ ih =>
    rw [List.append_assoc]
    exact .nested hs ih

theorem Balanced.character (hc : c ∉ brackets) : Balanced (String.utf8EncodeChar c) := by
  have hb : ∀ b ∈ String.utf8EncodeChar c, ∀ d ∈ brackets, b ≠ octet d := by
    rintro b hb d hd rfl
    exact hc (eq_of_octet_mem (isAscii_of_mem_brackets d hd) hb ▸ hd)
  generalize String.utf8EncodeChar c = e at hb
  induction e with
  | nil => exact .nil
  | cons b e ih =>
    obtain ⟨hb, he⟩ := List.forall_mem_cons.mp hb
    exact .other hb (ih he)

/-- What can stand in front of the parenthesis that closes an argument with `d` more of them open. -/
def Closes : Nat → List UInt8 → Prop
  | 0, a => Balanced a
  | d + 1, a => ∃ u v, a = u ++ octet ')' :: v ∧ Balanced u ∧ Closes d v

theorem Closes.append {d : Nat} {a b : List UInt8} (ha : Balanced a) (hb : Closes d b) :
    Closes d (a ++ b) := by
  cases d with
  | zero => exact ha.append hb
  | succ d =>
    obtain ⟨u, v, rfl, hu, hv⟩ := hb
    exact ⟨a ++ u, v, (List.append_assoc ..).symm, ha.append hu, hv⟩

def ClosesFrom (d : Nat) : Option Char → List UInt8 → Prop
  | none, a => Closes d a
  | some q, a => ∃ m v, a = m ++ octet q :: v ∧ octet q ∉ m ∧ Closes d v

theorem closes_of_argument? {d : Nat} {o : Option Char} {s arg rest : List Char}
    (hq : ∀ q ∈ o, IsAscii q) (h : argument? d o s = some (arg, rest)) :
    ClosesFrom d o (octets arg) := by
  induction s generalizing d o arg with
  | nil => cases h
  | cons c s ih =>
    cases o with
    | some q =>
      have hqa := hq q rfl
      by_cases hc : c = q
      · subst hc
        rw [argument?_unquote] at h
        obtain ⟨a, rfl, ha⟩ := of_prepend h
        have hlater : Closes d (octets a) := ih (o := none) nofun ha
        exact ⟨[], octets a, octets_cons_ascii hqa a, List.not_mem_nil, hlater⟩
      · rw [argument?_quoted d hc] at h
        obtain ⟨a, rfl, ha⟩ := of_prepend h
        obtain ⟨m, v, hmv, hm, hv⟩ := ih hq ha
        refine ⟨String.utf8EncodeChar c ++ m, v, ?_, ?_, hv⟩
        · rw [List.singleton_append, octets_cons, hmv, List.append_assoc]
        · exact List.not_mem_append (fun hmem => hc (eq_of_octet_mem hqa hmem).symm) hm
    | none =>
      have hlater {a : List Char} {d : Nat} (h : argument? d none s = some (a, rest)) :
          Closes d (octets a) := ih (o := none) nofun h
      change Closes d (octets arg)
      rcases bracket_cases c with hquote | rfl | rfl | hc
      · have hca := isAscii_of_mem_quotes hquote
        rw [argument?_quote d hquote] at h
        obtain ⟨a, rfl, ha⟩ := of_prepend h
        obtain ⟨m, v, hmv, hm, hv⟩ := ih (o := some c) (by simpa using hca) ha
        have hpart : Balanced (octet c :: m ++ [octet c]) := .quoted hquote hm .nil
        rw [List.singleton_append, octets_cons_ascii hca, hmv]
        simpa using Closes.append hpart hv
      · rw [argument?_open] at h
        obtain ⟨a, rfl, ha⟩ := of_prepend h
        obtain ⟨u, v, huv, hu, hv⟩ := hlater ha
        have hpart : Balanced (octet '(' :: u ++ [octet ')']) := .nested hu .nil
        rw [List.singleton_append, octets_cons_ascii (by decide), huv]
        simpa using Closes.append hpart hv
      · cases d with
        | zero =>
          cases h
          exact Balanced.nil
        | succ d =>
          rw [argument?_inner] at h
          obtain ⟨a, rfl, ha⟩ := of_prepend h
          exact ⟨[], octets a, octets_cons_ascii (by decide) a, .nil, hlater ha⟩
      · rw [argument?_other d hc] at h
        obtain ⟨a, rfl, ha⟩ := of_prepend h
        exact Closes.append (.character hc) (hlater ha)

theorem argument?_eq_some_iff {s arg rest : List Char} : argument? 0 none s = some (arg, rest) ↔
    s = arg ++ ')' :: rest ∧ Balanced (octets arg) := by
  constructor
  · intro h
    exact ⟨argument?_eq h, closes_of_argument? (o := none) nofun h⟩
  · rintro ⟨rfl, h⟩
    rw [argument?_of_balanced h (List.forall_mem_nil _) rfl, argument?_close]
    simp [prepend]

end TopicHub.Marker
