import TopicHub.Expression.Template
import TopicHub.Proofs.BareNames
import TopicHub.Proofs.Sql.Arithmetic
import TopicHub.Proofs.TextComparison

/-!
Templates that calculate with an integer payload. A constant, a mark and the word for the payload give
the sum, the difference or the product, by themselves or in the word that says that there is something
to calculate. A negative payload right behind a minus sign is lost in a comment.
-/

namespace TopicHub

namespace Text

theorem unescape_of_notMem {s : List Char} (h : '\\' ∉ s) : unescape s = s := by
  induction s with
  | nil => rfl
  | cons c s ih =>
    obtain ⟨hc, hs⟩ := not_or.mp (mt List.mem_cons.mpr h)
    rw [unescape, ih hs]
    · intro _ _ _ _ _ he
      exact absurd he.symm hc
    · intro _ _ he
      exact absurd he.symm hc

end Text

open Text

theorem Marker.findRead_of_notMem {s : List Char} (h : 'R' ∉ s) (previous : Option Char) :
    findRead previous s = none := by
  induction s generalizing previous with
  | nil => rfl
  | cons c s ih =>
    obtain ⟨hc, hs⟩ := not_or.mp (mt List.mem_cons.mpr h)
    have hk : ∀ w, readAfter? ('R' :: w) (c :: s) = none := by
      intro w
      rw [readAfter?, after?, if_neg hc]
    have ha : readAt? (c :: s) = none := by
      change [('R' :: _), ('R' :: _)].findSome? _ = none
      simp [hk]
    rw [findRead, ha, ite_self, ih hs]
    rfl

theorem Marker.readMarkers_of_notMem {s : List Char} (h : 'R' ∉ s) : readMarkers s = [] := by
  rw [readMarkers]
  cases s.length with
  | zero => rfl
  | succ n => rw [readMarkersBehind, findRead_of_notMem h]

theorem Marker.scriptMarkerCount_of_notMem {s : List Char} (h : ':' ∉ s) : scriptMarkerCount s = 0 := by
  induction s with
  | nil => rfl
  | cons c s ih =>
    obtain ⟨hc, hs⟩ := not_or.mp (mt List.mem_cons.mpr h)
    rw [scriptMarkerCount, ih hs]
    intro _ he
    exact absurd he.symm hc

theorem Scripts.resolve_of_notMem (c : Collaborators) {s : List Char} (h : ':' ∉ s) :
    Scripts.resolve c s = pure s := by
  rw [Scripts.resolve, Scripts.resolveWith, Marker.scriptMarkerCount_of_notMem h]
  rfl

theorem Expression.substitutePath_of_notMem (write : Json.Value → List Char) {s : List Char}
    (h : '$' ∉ s) (payload : String) : substitutePath write s payload = s := by
  have hc : cut? ['$', '['] s = none := cut?_of_not_isInfix fun hi => h (hi.subset (by decide))
  rw [substitutePath, Json.Inline.find?, hc]
  rfl

namespace Template

open Sql Number

/-- What stands around an operation. -/
inductive Wrapping where
  | bare
  | call (semicolon : Bool)
  deriving DecidableEq, Repr

namespace Wrapping

def isCall : Wrapping → Bool
  | bare => false
  | call _ => true

def opening : Wrapping → List Char
  | bare => []
  | call _ => "Calc(".toList

def closing : Wrapping → List Char
  | bare => []
  | call semicolon => ')' :: if semicolon then [';'] else []

theorem opening_subset (w : Wrapping) : w.opening ⊆ "Calc(".toList := by
  cases w with
  | bare => exact List.nil_subset _
  | call _ => exact List.Subset.refl _

theorem closing_subset (w : Wrapping) : w.closing ⊆ ");".toList := by
  cases w with
  | bare => decide
  | call semicolon => cases semicolon <;> decide

def characters : List Char := "Calc(".toList ++ ");".toList

end Wrapping

/-- A way to write an operation on a constant and the payload. -/
structure Form where
  operation : Operation
  spaced : Bool
  wrapping : Wrapping
  deriving DecidableEq, Repr

namespace Form

/-- The operation, with a text in the place of the payload. -/
def filled (f : Form) (k : Nat) (right : List Char) : List Char :=
  f.wrapping.opening ++ (f.operation.write f.spaced k right ++ f.wrapping.closing)

def template (f : Form) (k : Nat) : String := String.ofList (f.filled k inputWord)

def calculated (f : Form) (k : Nat) (n : Int) : List Char := f.filled k (intChars n)

end Form

variable (f : Form) (k : Nat) (n : Int)

theorem replaceInput_template :
    replaceInputAnyCase (f.filled k inputWord) (intText n).toList = f.calculated k n := by
  let front := f.wrapping.opening ++ (Nat.toDigits 10 k ++
    (Operation.gap f.spaced ++ f.operation.mark :: Operation.gap f.spaced))
  have hsplit : ∀ right, f.filled k right = front ++ (right ++ f.wrapping.closing) := by
    intro right
    simp only [front, Form.filled, Operation.write, List.append_assoc, List.cons_append]
  have hmark : Operation.gap f.spaced ++ f.operation.mark :: Operation.gap f.spaced ⊆
      Operation.characters := by
    cases f.operation <;> cases f.spaced <;> decide
  have hfront : ∀ c ∈ front, c.toLower ≠ 'i' := by
    intro c hc
    have hl : ∀ c ∈ Wrapping.characters ++ Operation.characters, c.toLower ≠ 'i' :=
      List.all_iff_forall_prop.mp (by decide)
    refine hl c (List.mem_append.mpr ?_)
    rcases List.mem_append.mp hc with hc | hc
    · exact Or.inl (List.mem_append_left _ (f.wrapping.opening_subset hc))
    · rcases List.mem_append.mp hc with hc | hc
      · exact Or.inr (mem_characters_of_isDigit (digits_toDigits k c hc))
      · exact Or.inr (hmark hc)
  have hclosing : replaceAnyCase inputWord (intText n).toList (inputWord ++ f.wrapping.closing) =
      (intText n).toList ++ f.wrapping.closing := by
    cases f.wrapping with
    | bare => rfl
    | call semicolon => cases semicolon <;> rfl
  rw [Form.calculated, hsplit, hsplit, replaceInputAnyCase]
  refine (replaceAnyCase_behind hfront).trans ?_
  exact congrArg _ hclosing

theorem mem_calculated {c : Char} (h : c ∈ f.calculated k n) :
    c ∈ Wrapping.characters ++ Operation.characters := by
  rw [List.mem_append]
  rcases List.mem_append.mp h with h | h
  · exact Or.inl (List.mem_append_left _ (f.wrapping.opening_subset h))
  · rcases List.mem_append.mp h with h | h
    · exact Or.inr (mem_write h)
    · exact Or.inl (List.mem_append_right _ (f.wrapping.closing_subset h))

theorem notMem_calculated {c : Char} (hc : c ∉ Wrapping.characters ++ Operation.characters) :
    c ∉ f.calculated k n :=
  fun h => hc (mem_calculated f k n h)

theorem mapM_resolveWord (lookup : String → Option String) {ws : List (List Char)}
    (h : ∀ w ∈ ws, ∀ c ∈ w, c ∈ Operation.characters) :
    ws.mapM (Variables.resolveWord lookup) = some ws := by
  have hw : ∀ w ∈ ws, Variables.resolveWord lookup w = some w := by
    intro w hm
    have ha : w.head?.any isAlphabetic = false := by
      cases w with
      | nil => rfl
      | cons c w =>
        have hc : ∀ c ∈ Operation.characters, isAlphabetic c = false :=
          List.all_iff_forall_prop.mp (by decide +kernel)
        exact hc c (h _ hm c (List.mem_cons_self ..))
    rw [Variables.resolveWord, ha, if_neg Bool.false_ne_true]
  exact (Variables.mapM_eq_some_map hw).trans (congrArg some (List.map_id' ws))

theorem blank_notMem_toDigits : ' ' ∉ Nat.toDigits 10 k :=
  fun h => ne_of_isDigit (digits_toDigits k _ h) rfl rfl

theorem blank_notMem_intChars : ' ' ∉ intChars n := by
  rw [intChars_eq]
  refine List.not_mem_append ?_ (blank_notMem_toDigits _)
  split <;> decide

theorem intChars_ne_nil : intChars n ≠ [] := by
  rw [intChars_eq]
  exact List.append_ne_nil_of_right_ne_nil _ Nat.toDigits_ne_nil

theorem words_write (op : Operation) (spaced : Bool) :
    Variables.words (op.write spaced k (intChars n)) =
      if spaced then [Nat.toDigits 10 k, [op.mark], intChars n]
      else [op.write spaced k (intChars n)] := by
  have hm : ' ' ∉ [op.mark] := by cases op <;> decide
  have hk := blank_notMem_toDigits k
  have hn := blank_notMem_intChars n
  cases spaced with
  | true =>
    have hw : op.write true k (intChars n) =
        Nat.toDigits 10 k ++ ' ' :: ([op.mark] ++ ' ' :: intChars n) := rfl
    rw [Variables.words, hw, splitOn_append hk, splitOn_append hm, splitOn_of_notMem hn]
    simp [Nat.toDigits_ne_nil, intChars_ne_nil]
  | false =>
    have hw : op.write false k (intChars n) = Nat.toDigits 10 k ++ ([op.mark] ++ intChars n) := rfl
    rw [Variables.words, hw,
      splitOn_of_notMem (List.not_mem_append hk (List.not_mem_append hm hn))]
    simp

theorem resolveBareNames_write (lookup : String → Option String) (op : Operation) (spaced : Bool) :
    Variables.resolveBareNames lookup (op.write spaced k (intChars n)) =
      op.write spaced k (intChars n) := by
  have hw := words_write k n op spaced
  have hc : ∀ w ∈ Variables.words (op.write spaced k (intChars n)), ∀ c ∈ w,
      c ∈ Operation.characters := by
    intro w hm c hc
    exact mem_write (subset_of_mem_splitOn (List.mem_filter.mp hm).1 hc)
  rw [Variables.resolveBareNames, mapM_resolveWord lookup hc, hw]
  cases spaced with
  | true => simp [List.intercalate, Operation.write, Operation.gap]
  | false => simp [List.intercalate]

theorem usesBareNames_call (s : List Char) :
    Variables.usesBareNames ("Calc(".toList ++ s) = false := by
  have hc : containsIgnoreCase ("Calc(".toList ++ s) "Calc".toList = true := rfl
  rw [Variables.usesBareNames, hc]
  simp

/-- Names are only replaced where there is no wrapping, and then none of the words is one. -/
theorem resolve_calculated (lookup : String → Option String) :
    Variables.resolve lookup (f.calculated k n) = f.calculated k n := by
  have hm : 'R' ∉ f.calculated k n := notMem_calculated f k n (by decide)
  rw [Variables.resolve]
  split
  · rename_i hb
    cases hw : f.wrapping with
    | bare =>
      have hf : f.calculated k n = f.operation.write f.spaced k (intChars n) := by
        rw [Form.calculated, Form.filled, hw]
        exact List.append_nil _
      rw [hf]
      exact resolveBareNames_write k n lookup _ _
    | call semicolon =>
      rw [Form.calculated, Form.filled, hw, Wrapping.opening, usesBareNames_call] at hb
      cases hb
  · rw [Variables.resolveReadMarkers, Marker.readMarkers_of_notMem hm]
    rfl

theorem write_ends (op : Operation) (spaced : Bool) : ∃ c s d,
    op.write spaced k (intChars n) = c :: s ++ [d] ∧ isDigit c = true ∧ isDigit d = true := by
  obtain ⟨c, ds, hc⟩ : ∃ c ds, Nat.toDigits 10 k = c :: ds :=
    List.exists_cons_of_ne_nil Nat.toDigits_ne_nil
  obtain ⟨es, d, hd⟩ : ∃ es d, Nat.toDigits 10 n.natAbs = es ++ [d] :=
    ⟨_, _, (List.dropLast_concat_getLast Nat.toDigits_ne_nil).symm⟩
  refine ⟨c, ds ++ (Operation.gap spaced ++ op.mark :: (Operation.gap spaced ++
    ((if n < 0 then ['-'] else []) ++ es))), d, ?_, digits_toDigits k c (by simp [hc]),
    digits_toDigits n.natAbs d (by simp [hd])⟩
  rw [Operation.write, intChars_eq, hc, hd]
  simp only [List.cons_append, List.append_assoc]

theorem rewritten_calc : Calculation.rewritten "Calc".toList = [] := by
  have ha : ¬ ['&', '&'] <:+: "Calc".toList := by decide
  have ho : ¬ ['|', '|'] <:+: "Calc".toList := by decide
  rw [Calculation.rewritten, replace_of_not_isInfix ha, replace_of_not_isInfix ho]
  rfl

/-- The wrapping is taken off up to its parentheses. -/
theorem prepare_calculated : Calculation.prepare (f.calculated k n) =
    Operation.grouped f.wrapping.isCall (f.operation.write f.spaced k (intChars n)) := by
  let p : Char → Bool := fun c => c = ';' || isBlank c
  let body := f.operation.write f.spaced k (intChars n)
  change trimEndWhile p (trim (Calculation.rewritten (f.wrapping.opening ++
    (body ++ f.wrapping.closing)))) = Operation.grouped f.wrapping.isCall body
  have hrewritten : Calculation.rewritten (body ++ f.wrapping.closing) =
      body ++ f.wrapping.closing := by
    refine Calculation.rewritten_of_untouched (Calculation.untouched_of_characters fun c hc => ?_)
    have hl : ∀ c ∈ ");".toList ++ Operation.characters, c ≠ '&' ∧ c ≠ '|' ∧ c.toLower ≠ 'c' :=
      List.all_iff_forall_prop.mp (by decide)
    refine hl c (List.mem_append.mpr ?_)
    rcases List.mem_append.mp hc with hc | hc
    · exact Or.inr (mem_write hc)
    · exact Or.inl (f.wrapping.closing_subset hc)
  cases hw : f.wrapping with
  | bare =>
    obtain ⟨c, s, d, hb, hc, hd⟩ := write_ends k n f.operation f.spaced
    have hp : p d = false := by
      have hs : d ≠ ';' := ne_of_isDigit hd rfl
      simp [p, hs, not_blank_of_isDigit hd]
    have hr : Calculation.rewritten (body ++ []) = body ++ [] := by
      rw [hw] at hrewritten
      exact hrewritten
    change trimEndWhile p (trim (Calculation.rewritten (body ++ []))) = body
    rw [hr, List.append_nil, show body = c :: s ++ [d] from hb,
      trim_of_ends (not_blank_of_isDigit hc) (not_blank_of_isDigit hd)]
    exact trimEndWhile_concat hp _
  | call semicolon =>
    have hr : Calculation.rewritten ("Calc".toList ++ '(' :: (body ++ f.wrapping.closing)) =
        '(' :: (body ++ f.wrapping.closing) := by
      rw [Calculation.rewritten_around (by decide) (by decide) (by decide), rewritten_calc,
        hrewritten]
      rfl
    rw [hw] at hr
    change trimEndWhile p (trim (Calculation.rewritten ("Calc".toList ++ '(' ::
      (body ++ (Wrapping.call semicolon).closing)))) = '(' :: body ++ [')']
    rw [hr]
    cases semicolon with
    | false =>
      change trimEndWhile p (trim ('(' :: body ++ [')'])) = _
      rw [trim_of_ends (by decide) (by decide)]
      exact trimEndWhile_concat (by decide) _
    | true =>
      have hs : '(' :: (body ++ [')', ';']) = '(' :: (body ++ [')']) ++ [';'] := by simp
      change trimEndWhile p (trim ('(' :: (body ++ [')', ';']))) = _
      rw [hs, trim_of_ends (by decide) (by decide), trimEndWhile_drops (by decide)]
      exact trimEndWhile_concat (by decide) ('(' :: body)

theorem looksLikeCalculation_calculated : looksLikeCalculation (f.calculated k n) = true := by
  have hm : f.operation.mark ∈ f.calculated k n := by
    simp [Form.calculated, Form.filled, Operation.write]
  have ho : isMathOperator f.operation.mark = true := by
    cases f.operation <;> rfl
  have hh : hasMathOperators (f.calculated k n) = true := List.any_eq_true.mpr ⟨_, hm, ho⟩
  rw [looksLikeCalculation, hh]
  rfl

variable {query : List Char → Option Sql.Value}

/-- What a template comes to: the value of the calculation if it has one, else the text. -/
theorem resolve_template {c : Collaborators} (hc : c.calculate = Calculation.calculateBy query) :
    resolve c (some (f.template k)) (intText n) =
      ⟨⟨[String.ofList (f.calculated k n)], []⟩, .ok (some (String.ofList
        (match query (Operation.grouped f.wrapping.isCall
            (f.operation.write f.spaced k (intChars n))) with
        | some v => unescape (Calculation.scalarOf v).display.toList
        | none => f.calculated k n)))⟩ := by
  have hne : Operation.grouped f.wrapping.isCall (f.operation.write f.spaced k (intChars n)) ≠ [] := by
    obtain ⟨a, s, d, hw, -⟩ := write_ends k n f.operation f.spaced
    rw [hw]
    cases f.wrapping.isCall <;> exact nofun
  have hcalculate := Calculation.calculateBy_prepared query (prepare_calculated f k n) hne
  have hcalculated : calculated c (f.calculated k n) =
      ⟨⟨[String.ofList (f.calculated k n)], []⟩, .ok
        (match query (Operation.grouped f.wrapping.isCall
            (f.operation.write f.spaced k (intChars n))) with
        | some v => (Calculation.scalarOf v).display.toList
        | none => f.calculated k n)⟩ := by
    rw [calculated, looksLikeCalculation_calculated, if_pos rfl, Collaborators.runCalculation, hc,
      hcalculate]
    cases query _ <;> rfl
  have hescape : unescape (f.calculated k n) = f.calculated k n :=
    unescape_of_notMem (notMem_calculated f k n (by decide))
  have htext : resolveText c (f.template k).toList (intText n) =
      ⟨⟨[String.ofList (f.calculated k n)], []⟩, .ok
        (match query (Operation.grouped f.wrapping.isCall
            (f.operation.write f.spaced k (intChars n))) with
        | some v => unescape (Calculation.scalarOf v).display.toList
        | none => f.calculated k n)⟩ := by
    rw [resolveText, Form.template, String.toList_ofList, replaceInput_template, resolve_calculated,
      Scripts.resolve_of_notMem c (notMem_calculated f k n (by decide))]
    change (calculated c (Expression.substitutePath _ (f.calculated k n) _) >>= _) = _
    rw [Expression.substitutePath_of_notMem _ (notMem_calculated f k n (by decide)), hcalculated]
    cases query _ with
    | some v => rfl
    | none => exact congrArg (fun t => Run.mk ⟨[String.ofList (f.calculated k n)], []⟩ (.ok t)) hescape
  have hempty : (f.template k).isEmpty = false := by
    have hf : f.filled k inputWord ≠ [] := by simp [Form.filled, Operation.write]
    simp [Form.template, hf]
  rw [resolve, hempty, if_neg Bool.false_ne_true, htext]
  rfl

theorem unescape_intText (m : Int) : unescape (intText m).toList = (intText m).toList := by
  refine unescape_of_notMem fun h => ?_
  rw [Json.toList_intText] at h
  rcases List.mem_append.mp h with h | h
  · split at h
    · exact absurd h (by decide)
    · cases h
  · exact ne_of_isDigit (digits_toDigits _ _ h) rfl rfl

variable {f k n} {c : Collaborators}

theorem result_operation (hq : Sql.CalculatesIntegers query)
    (hc : c.calculate = Calculation.calculateBy query) (h : ¬ f.operation.Comments f.spaced n)
    (hk : k < 2 ^ 31) (hn : n.natAbs < 2 ^ 31) :
    (resolve c (some (f.template k)) (intText n)).result =
      .ok (some (intText (f.operation.apply k n))) := by
  rw [resolve_template f k n hc, hq.operation h hk hn]
  change Except.ok (some (String.ofList (unescape (intText _).toList))) = _
  rw [unescape_intText, String.ofList_toList]

theorem result_comment (hq : Sql.CalculatesIntegers query)
    (hc : c.calculate = Calculation.calculateBy query) (h : f.operation.Comments f.spaced n)
    (hk : k < 2 ^ 31) :
    (resolve c (some (f.template k)) (intText n)).result =
      .ok (some (if f.wrapping.isCall then String.ofList (f.calculated k n) else intText k)) := by
  rw [resolve_template f k n hc, hq.comment h hk]
  cases f.wrapping.isCall with
  | true => rfl
  | false =>
    change Except.ok (some (String.ofList (unescape (intText k).toList))) = _
    rw [unescape_intText, String.ofList_toList]
    rfl

/-- Every form of an operation on a constant and an integer payload comes to the value of the operation,
except a difference without blanks with a negative payload. That one comes to the constant by itself,
and in its wrapping it stays as it is. In both cases the text with the payload in it is all that is
calculated. -/
theorem integer_arithmetic (hq : Sql.CalculatesIntegers query)
    (hc : c.calculate = Calculation.calculateBy query) (f : Form) {k : Nat} {n : Int}
    (hk : k < 2 ^ 31) (hn : n.natAbs < 2 ^ 31) :
    let text := String.ofList (f.calculated k n)
    let run := resolve c (some (f.template k)) (intText n)
    run.log = ⟨[text], []⟩ ∧
    (¬ f.operation.Comments f.spaced n →
      run.result = .ok (some (intText (f.operation.apply k n)))) ∧
    (f.operation.Comments f.spaced n →
      run.result = .ok (some (if f.wrapping.isCall then text else intText k))) := by
  intro text run
  refine ⟨congrArg Run.log (resolve_template f k n hc), ?_, ?_⟩
  · intro h
    exact result_operation hq hc h hk hn
  · intro h
    exact result_comment hq hc h hk

/-- A product in its wrapping, with a negative payload. -/
theorem wrapped_product :
    let f : Form := ⟨.product, true, .call true⟩
    f.template 6 = "Calc(6 * input);" ∧
      (resolve Expression.calculator (some (f.template 6)) (intText (-7))).result =
        .ok (some "-42") := by
  intro f
  have hr := (integer_arithmetic (c := Expression.calculator)
    calculatesIntegers_evaluate? rfl f (k := 6) (n := -7) (by decide) (by decide)).2.1 (by decide)
  exact ⟨by decide, hr⟩

/-- The difference of five and minus three is eight. It comes to five, and in its wrapping to no
number. -/
theorem minus_negative_lost :
    let f : Form := ⟨.difference, false, .bare⟩
    let g : Form := ⟨.difference, false, .call true⟩
    f.template 5 = "5-input" ∧ g.template 5 = "Calc(5-input);" ∧
      intText (f.operation.apply 5 (-3)) = "8" ∧
      (resolve Expression.calculator (some (f.template 5)) (intText (-3))).result =
        .ok (some "5") ∧
      (resolve Expression.calculator (some (g.template 5)) (intText (-3))).result =
        .ok (some "Calc(5--3);") := by
  intro f g
  have hf := result_comment (f := f) (k := 5) (n := -3) (c := Expression.calculator)
    calculatesIntegers_evaluate? rfl (by decide) (by decide)
  have hg := result_comment (f := g) (k := 5) (n := -3) (c := Expression.calculator)
    calculatesIntegers_evaluate? rfl (by decide) (by decide)
  have ht : String.ofList (g.calculated 5 (-3)) = "Calc(5--3);" := by decide
  rw [ht] at hg
  exact ⟨by decide, by decide, by decide, hf, hg⟩

end Template

end TopicHub
