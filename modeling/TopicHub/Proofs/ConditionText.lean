import TopicHub.Proofs.TextComparison

/-!
Conditions that are written as JSON. A text of one object or of a list of them comes out as the
objects themselves do, as long as none of the words that join conditions and no start of a path
stands in it. Such a text is taken apart at the words and calculated at a path like any other, also
where they are part of a value: an object with a path in it never matches, and one with a word in it
matches as its parts do, each read as a test of its own.
-/

namespace TopicHub

open Json Text

namespace Condition

/-- A text that is the JSON of one condition object or of a list of them, without blanks around it. -/
inductive Written (text : String) : List Condition → Prop
  | object {c : Condition} (head : text.toList.head? = some '{') (reads : read? text = some c) :
    Written text [c]
  | list {cs : List Condition} (head : text.toList.head? = some '[')
    (reads : readList? text = some cs) : Written text cs

theorem anyHolds_iff (cs : List Condition) (payload : String) :
    anyHolds cs payload = true ↔ ∃ c ∈ cs, c.holds payload = true := by
  simp [anyHolds]

end Condition

namespace Expression

variable {c : Collaborators} {text payload : String} {conditions : List Condition}

theorem isMatch_condition {x : Condition} (h : Condition.read? text = some x) :
    (evaluateCondition text payload).isMatch = x.holds payload := by
  rw [evaluateCondition, h]
  dsimp only
  split
  · rename_i hx
    exact hx.symm
  · rename_i hx
    exact (Bool.eq_false_iff.mpr hx).symm

theorem isMatch_conditionList (h : Condition.readList? text = some conditions) :
    (evaluateConditionList text payload).isMatch = Condition.anyHolds conditions payload := by
  rw [evaluateConditionList, h]
  dsimp only
  split
  · rename_i hx
    exact hx.symm
  · rename_i hx
    exact (Bool.eq_false_iff.mpr hx).symm

theorem nonempty_of_head {d : Char} {t : List Char} (h : t.head? = some d) : t.isEmpty = false := by
  cases t with
  | nil => cases h
  | cons d s => rfl

theorem evaluateSingle_object (hs : text.toList.head? = some '{')
    (hp : holdsPath text.toList = false) :
    evaluateSingle c text.toList payload = pure (evaluateCondition text payload) := by
  simp only [evaluateSingle, nonempty_of_head hs, hp, hs, String.ofList_toList]
  rfl

theorem evaluateSingle_list (hs : text.toList.head? = some '[')
    (hp : holdsPath text.toList = false) :
    evaluateSingle c text.toList payload = pure (evaluateConditionList text payload) := by
  simp only [evaluateSingle, nonempty_of_head hs, hp, hs, String.ofList_toList]
  rfl

theorem evaluateSingle_written (h : Condition.Written text conditions)
    (hp : holdsPath text.toList = false) :
    let run := evaluateSingle c text.toList payload
    run.log = .empty ∧ (run.isMatch = true ↔ ∃ x ∈ conditions, x.holds payload = true) := by
  intro run
  cases h with
  | object head reads =>
    have hr : run = pure (evaluateCondition text payload) := evaluateSingle_object head hp
    rw [hr]
    refine ⟨rfl, ?_⟩
    rw [Run.isMatch_ok rfl, isMatch_condition reads]
    simp
  | list head reads =>
    have hr : run = pure (evaluateConditionList text payload) := evaluateSingle_list head hp
    rw [hr]
    refine ⟨rfl, ?_⟩
    rw [Run.isMatch_ok rfl, isMatch_conditionList reads]
    exact Condition.anyHolds_iff conditions payload

/-- What is calculated still begins as the text does, for no path begins with a brace. -/
theorem head_substitutePath (write : Value → List Char) (s : List Char) (payload : String) :
    ∃ t, substitutePath write ('{' :: s) payload = '{' :: t := by
  rw [substitutePath]
  split
  · exact ⟨s, rfl⟩
  · rename_i i hi
    split
    · exact ⟨s, rfl⟩
    · obtain ⟨⟨before, rest⟩, hc, hg⟩ := Option.bind_eq_some_iff.mp hi
      obtain ⟨groups, -, rfl⟩ := Option.map_eq_some_iff.mp hg
      have he := cut?_eq hc
      cases before with
      | nil => simp at he
      | cons d before =>
        simp only [List.cons_append, List.cons.injEq] at he
        exact ⟨_, by rw [← he.1]; rfl⟩

theorem head_prepare (s : List Char) : ∃ t, Calculation.prepare ('{' :: s) = '{' :: t := by
  have hr : Calculation.rewritten ('{' :: s) = '{' :: Calculation.rewritten s := by
    have h := Calculation.rewritten_around (q := '{') (by decide) (by decide) (by decide) [] s
    rwa [Calculation.rewritten_nil] at h
  have ht : trim ('{' :: Calculation.rewritten s) = '{' :: trimEnd (Calculation.rewritten s) :=
    trimEndWhile_cons (by decide) _
  change ∃ t, trimEndWhile _ (trim (Calculation.rewritten ('{' :: s))) = '{' :: t
  rw [hr, ht]
  exact ⟨_, trimEndWhile_cons (by decide) _⟩

/-- No SQL expression begins with a brace. -/
def RefusesBraces (query : List Char → Option Sql.Value) : Prop := ∀ s, query ('{' :: s) = none

theorem refusesBraces_evaluate? : RefusesBraces Sql.evaluate? := by
  intro s
  have ht : Sql.tokens ('{' :: s) = none := rfl
  rw [Sql.evaluate?, Sql.readQuery?, ht]
  rfl

variable {query : List Char → Option Sql.Value}

theorem calculateBy_brace (hq : RefusesBraces query) (s : List Char) :
    ∃ e, Calculation.calculateBy query (String.ofList ('{' :: s)) = .error e := by
  obtain ⟨t, ht⟩ := head_prepare s
  rw [Calculation.calculateBy_prepared query ht nofun, hq]
  exact ⟨_, rfl⟩

theorem not_isMatch_path (hq : RefusesBraces query)
    (hc : c.calculate = Calculation.calculateBy query)
    (hs : text.toList.head? = some '{') (hp : holdsPath text.toList = true) :
    (evaluateSingle c text.toList payload).isMatch = false := by
  obtain ⟨s, hs⟩ : ∃ s, text.toList = '{' :: s := by
    cases ht : text.toList with
    | nil => simp [ht] at hs
    | cons d s =>
      rw [ht, List.head?_cons] at hs
      exact ⟨s, by rw [Option.some.inj hs]⟩
  rw [hs] at hp ⊢
  obtain ⟨t, ht⟩ := head_substitutePath literal s payload
  have hr : evaluateSingle c ('{' :: s) payload = calculate c ('{' :: t) := by
    rw [evaluateSingle, if_neg (by simp), if_pos hp, ht]
  rw [hr, Bool.eq_false_iff, ne_eq, isMatch_calculate, hc]
  obtain ⟨e, he⟩ := calculateBy_brace hq t
  rintro ⟨value, hv, -⟩
  rw [he] at hv
  cases hv

theorem evaluate_free (ha : Free andSeparators (trim text.toList))
    (ho : Free orSeparators (trim text.toList)) :
    evaluate c (some text) payload = evaluateSingle c (trim text.toList) payload := by
  have h := evaluate_part c payload (trim_trim text.toList) ha ho
  rw [← h, evaluate, evaluate, String.toList_ofList, trim_trim]

/-- An expression that is the JSON of conditions. Its verdict is that of the conditions if neither a
word that joins conditions nor the start of a path is in it. With a path in it, a single object never
matches, and a list matches if what is calculated from it is true. With a word in it, its parts are
tests of their own: all of them have to match, or one that is evaluated. -/
theorem condition_text_verdict (hq : RefusesBraces query)
    (hc : c.calculate = Calculation.calculateBy query) {expression : String} (payload : String)
    (h : Condition.Written expression.trimBlank conditions) :
    let text := trim expression.toList
    let run := evaluate c (some expression) payload
    (Free andSeparators text → Free orSeparators text → holdsPath text = false →
      run.log = .empty ∧ (run.isMatch = true ↔ ∃ x ∈ conditions, x.holds payload = true)) ∧
    (Free andSeparators text → Free orSeparators text → holdsPath text = true →
      (text.head? = some '{' → run.isMatch = false) ∧
      (run.isMatch = true ↔ ∃ value,
        c.calculate (String.ofList (substitutePath literal text payload)) = .ok value ∧
          value.isTruthy = true)) ∧
    (∀ parts, splitAny? andSeparators text = some parts →
      (run.isMatch = true ↔ ∀ r ∈ tests c parts payload, r.isMatch = true)) ∧
    (∀ parts, Free andSeparators text → splitAny? orSeparators text = some parts →
      (run.isMatch = true ↔ ∃ r ∈ Run.upTo true (tests c parts payload), r.isMatch = true)) := by
  intro text run
  have ht : expression.trimBlank.toList = text := String.toList_ofList ..
  refine ⟨?_, ?_, ?_, ?_⟩
  · intro ha ho hp
    have hr : run = evaluateSingle c text payload := evaluate_free ha ho
    rw [hr, ← ht]
    exact evaluateSingle_written h (ht ▸ hp)
  · intro ha ho hp
    have hr : run = evaluateSingle c text payload := evaluate_free ha ho
    constructor
    · intro hs
      rw [hr, ← ht]
      exact not_isMatch_path hq hc (ht ▸ hs) (ht ▸ hp)
    · have hne : text.isEmpty = false := by
        cases h with
        | object head reads => exact nonempty_of_head (ht ▸ head)
        | list head reads => exact nonempty_of_head (ht ▸ head)
      have hs : evaluateSingle c text payload =
          calculate c (substitutePath literal text payload) := by
        rw [evaluateSingle, hne, if_neg Bool.false_ne_true, if_pos hp]
      rw [hr, hs, isMatch_calculate]
  · intro parts hs
    have hr : run = evaluateUntil c false payload "" parts := evaluate_and c _ payload hs
    rw [hr]
    exact isMatch_conjunction c payload parts ""
  · intro parts ha hs
    have hr : run = evaluateUntil c true payload "" parts := evaluate_or c _ payload ha hs
    rw [hr]
    exact isMatch_disjunction c payload parts ""

theorem second_value_matches :
    let text := "[\x7b'operator':'=','value':'a'\x7d,\x7b'operator':'=','value':'b'\x7d]"
    Condition.Written text.trimBlank [⟨"=", "a"⟩, ⟨"=", "b"⟩] ∧
      (evaluate calculator (some text) " b").isMatch = true := by
  intro text
  have hw : Condition.Written text.trimBlank [⟨"=", "a"⟩, ⟨"=", "b"⟩] :=
    .list (by decide +kernel) (by decide +kernel)
  have ha : Free andSeparators (trim text.toList) := by decide +kernel
  have ho : Free orSeparators (trim text.toList) := by decide +kernel
  have hp : holdsPath (trim text.toList) = false := by decide +kernel
  have hh : (⟨"=", "b"⟩ : Condition).holds " b" = true := by cbv
  have h := condition_text_verdict (c := calculator) refusesBraces_evaluate? rfl " b" hw
  obtain ⟨-, hmatch⟩ := h.1 ha ho hp
  exact ⟨hw, hmatch.mpr ⟨_, by simp, hh⟩⟩

/-- The condition holds, but its value is taken for two conditions. -/
theorem salt_and_pepper_lost :
    let text := "\x7b\"operator\":\"=\",\"value\":\"salt and pepper\"\x7d"
    let condition : Condition := ⟨"=", "salt and pepper"⟩
    Condition.Written text.trimBlank [condition] ∧ condition.holds "salt and pepper" = true ∧
      (evaluate calculator (some text) "salt and pepper").isMatch = false := by
  intro text condition
  let first := "\x7b\"operator\":\"=\",\"value\":\"salt"
  have hs : splitAny? andSeparators (trim text.toList) =
      some [first.toList, "pepper\"\x7d".toList] := by decide +kernel
  have hf : (evaluateSingle calculator first.toList "salt and pepper").isMatch = false := by
    have hn : Condition.read? first = none := by decide +kernel
    rw [evaluateSingle_object (by decide +kernel) (by decide +kernel), evaluateCondition, hn]
    rfl
  refine ⟨.object (by decide +kernel) (by decide +kernel), by decide +kernel, ?_⟩
  rw [evaluate_and calculator text _ hs, Bool.eq_false_iff, ne_eq, isMatch_conjunction]
  intro h
  have hm := h _ (List.mem_map_of_mem (List.mem_cons_self ..))
  rw [hf] at hm
  cases hm

end Expression

end TopicHub
