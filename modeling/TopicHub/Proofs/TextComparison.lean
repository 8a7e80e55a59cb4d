import TopicHub.Proofs.Combinators
import TopicHub.Proofs.Json.MemberPath
import TopicHub.Proofs.Replacement
import TopicHub.Proofs.Sql.Literal

/-!
Conditions that compare a member of the payload with a text. What is calculated is both texts between
single quotes as they stand, rewritten and read as SQL. The result is that of comparing the texts as
long as they survive this: quotes are not made double, signs and a word inside the texts are
rewritten, and a null character ends everything.
-/

namespace TopicHub.Expression

open Text Json

def memberEquals (key text : String) : String := "$['" ++ key ++ "'] == '" ++ text ++ "'"

variable {key payload v w : String}

theorem toList_memberEquals (key text : String) : (memberEquals key text).toList =
    memberPath key ++ ' ' :: ("== '".toList ++ (text.toList ++ ['\''])) := by
  unfold memberEquals memberPath
  simp only [String.toList_append, List.append_assoc, List.cons_append, List.nil_append]
  rfl

theorem free_memberEquals {seps : List (List Char)} (hb : ∀ sep ∈ seps, ' ' ∈ sep ∧ '\'' ∉ sep)
    (hm : Free seps "] == ".toList) (hk : ∀ c ∈ key.toList, c.isAlphanum = true)
    (hw : Free seps w.toList) : Free seps (memberEquals key w).toList := by
  have hq : ∀ sep ∈ seps, '\'' ∉ sep := fun sep hs => (hb sep hs).2
  have hplain {s : List Char} (hs : ' ' ∉ s) : Free seps s :=
    fun sep hm hi => hs (hi.subset (hb sep hm).1)
  have hkey : Free seps key.toList := by
    apply hplain
    intro hc
    exact absurd (hk _ hc) (by decide)
  have he : (memberEquals key w).toList = "$[".toList ++ '\'' :: (key.toList ++
      '\'' :: ("] == ".toList ++ '\'' :: (w.toList ++ '\'' :: []))) := by
    unfold memberEquals
    simp only [String.toList_append, List.append_assoc]
    rfl
  rw [he]
  apply (hplain (by decide)).join hq
  apply hkey.join hq
  apply hm.join hq
  exact hw.join hq (hplain List.not_mem_nil)

theorem evaluate_memberEquals (c : Collaborators) (hk : ∀ c ∈ key.toList, c.isAlphanum = true)
    (ha : Free andSeparators w.toList) (ho : Free orSeparators w.toList) :
    evaluate c (some (memberEquals key w)) payload =
      calculate c (substitutePath literal (memberEquals key w).toList payload) := by
  have ht : trim (memberEquals key w).toList = (memberEquals key w).toList := by
    have he : (memberEquals key w).toList =
        '$' :: ("['" ++ key ++ "'] == '" ++ w).toList ++ ['\''] := by
      unfold memberEquals
      simp only [String.toList_append, List.append_assoc, List.cons_append]
      rfl
    rw [he]
    exact trim_of_ends (by decide) (by decide) _
  have hs := evaluate_part c payload ht
    (free_memberEquals (by decide) (by decide) hk ha)
    (free_memberEquals (by decide) (by decide) hk ho)
  rw [String.ofList_toList] at hs
  rw [hs, toList_memberEquals]
  rfl

/-- The text is written between single quotes as it stands. -/
theorem substitute_memberEquals (hk : ∀ c ∈ key.toList, c.isAlphanum = true)
    (hv : (Value.read? payload).bind (Value.field? key) = some (.string v))
    (hn : Number.float? (trim v.toList) = none) :
    substitutePath literal (memberEquals key w).toList payload =
      Sql.comparison v.toList w.toList := by
  have hl : literal (.string v) = '\'' :: v.toList ++ ['\''] := by
    have ht : (Value.string v).plainText = v := rfl
    unfold literal
    dsimp only
    rw [ht, hn]
    rfl
  unfold substitutePath
  rw [toList_memberEquals, find?_member (bracket_notMem_of_isAlphanum hk)]
  dsimp only
  rw [firstMatch_member (verbatim_of_isAlphanum hk), hv]
  dsimp only
  rw [hl]
  simp only [Sql.comparison, List.nil_append, List.cons_append, List.append_assoc]
  rfl

theorem log_calculate (c : Collaborators) (text : List Char) :
    (calculate c text).log = ⟨[String.ofList text], []⟩ := by
  unfold calculate
  rw [Run.bind_ok rfl]
  cases c.calculate (String.ofList text) <;> rfl

theorem isMatch_calculate (c : Collaborators) (text : List Char) :
    (calculate c text).isMatch = true ↔
      ∃ value, c.calculate (String.ofList text) = .ok value ∧ value.isTruthy = true := by
  unfold calculate
  rw [Run.bind_ok rfl]
  cases c.calculate (String.ofList text) with
  | error e => exact iff_of_false Bool.false_ne_true nofun
  | ok value =>
    refine ⟨fun h => ⟨value, rfl, h⟩, ?_⟩
    rintro ⟨u, hu, h⟩
    rw [← Except.ok.inj hu] at h
    exact h

theorem prepare_comparison (l r : List Char) :
    Calculation.prepare (Sql.comparison l r) =
      Sql.comparison (Calculation.rewritten l) (Calculation.rewritten r) := by
  have he (l r : List Char) : Sql.comparison l r =
      '\'' :: (l ++ '\'' :: (" == ".toList ++ '\'' :: r)) ++ ['\''] := by
    simp only [Sql.comparison, List.cons_append, List.append_assoc]
  have hm : Calculation.rewritten " == ".toList = " == ".toList :=
    Calculation.rewritten_of_untouched ⟨by decide, by decide, by decide⟩
  rw [he, Calculation.prepare_quoted, Calculation.rewritten_join, Calculation.rewritten_join, hm,
    ← he]

/-- An SQL expression that has a value which counts as true. -/
def Holds (query : List Char → Option Sql.Value) (text : List Char) : Prop :=
  ∃ x, query text = some x ∧ (Calculation.scalarOf x).isTruthy = true

variable {query : List Char → Option Sql.Value}

theorem calculateBy_comparison {l r : List Char} {value : Scalar} :
    Calculation.calculateBy query (String.ofList (Sql.comparison l r)) = .ok value ↔
      ∃ x, query (Sql.comparison (Calculation.rewritten l) (Calculation.rewritten r)) = some x ∧
        Calculation.scalarOf x = value := by
  rw [Calculation.calculateBy_prepared query (prepare_comparison l r) nofun]
  cases query (Sql.comparison (Calculation.rewritten l) (Calculation.rewritten r)) with
  | none => exact iff_of_false nofun nofun
  | some x =>
    refine ⟨fun h => ⟨x, rfl, Except.ok.inj h⟩, ?_⟩
    rintro ⟨y, hy, rfl⟩
    rw [Option.some.inj hy]

theorem isMatch_memberEquals {c : Collaborators} (hc : c.calculate = Calculation.calculateBy query)
    (hk : ∀ c ∈ key.toList, c.isAlphanum = true)
    (hv : (Value.read? payload).bind (Value.field? key) = some (.string v))
    (hn : Number.float? (trim v.toList) = none) (ha : Free andSeparators w.toList)
    (ho : Free orSeparators w.toList) :
    let run := evaluate c (some (memberEquals key w)) payload
    run.log = ⟨[String.ofList (Sql.comparison v.toList w.toList)], []⟩ ∧
      (run.isMatch = true ↔ Holds query
        (Sql.comparison (Calculation.rewritten v.toList) (Calculation.rewritten w.toList))) := by
  intro run
  have hr : run = calculate c (Sql.comparison v.toList w.toList) := by
    rw [← substitute_memberEquals hk hv hn]
    exact evaluate_memberEquals c hk ha ho
  rw [hr]
  refine ⟨log_calculate c _, (isMatch_calculate c _).trans ?_⟩
  rw [hc]
  constructor
  · rintro ⟨value, hvalue, ht⟩
    obtain ⟨x, hx, rfl⟩ := calculateBy_comparison.mp hvalue
    exact ⟨x, hx, ht⟩
  · rintro ⟨x, hx, ht⟩
    exact ⟨_, calculateBy_comparison.mpr ⟨x, hx, rfl⟩, ht⟩

theorem isTruthy_ofBool (b : Bool) : (Calculation.scalarOf (.ofBool b)).isTruthy = b := by
  cases b <;> rfl

theorem holds_comparison (hq : Sql.ComparesTexts query) {s t : List Char} (hs : '\x00' ∉ s)
    (ht : '\x00' ∉ t) : Holds query (Sql.comparison (Sql.doubled s) (Sql.doubled t)) ↔ s = t := by
  unfold Holds
  rw [hq s t hs ht]
  constructor
  · rintro ⟨x, hx, htruthy⟩
    rw [← Option.some.inj hx, isTruthy_ofBool] at htruthy
    exact of_decide_eq_true htruthy
  · intro he
    exact ⟨_, rfl, (isTruthy_ofBool _).trans (decide_eq_true he)⟩

/-- Both texts stand between quotes as they are. What is calculated from them is compared for equality
if the text of the payload is the written form of some text, and that is the text of the payload itself
if there is no quote in it and nothing to rewrite in either text. -/
theorem spliced_text_comparison (hq : Sql.ComparesTexts query) {c : Collaborators}
    (hc : c.calculate = Calculation.calculateBy query)
    (hk : ∀ c ∈ key.toList, c.isAlphanum = true)
    (hv : (Value.read? payload).bind (Value.field? key) = some (.string v))
    (hn : Number.float? (trim v.toList) = none) (hw : '\'' ∉ w.toList)
    (ha : Free andSeparators w.toList) (ho : Free orSeparators w.toList) :
    let run := evaluate c (some (memberEquals key w)) payload
    let l := Calculation.rewritten v.toList
    let r := Calculation.rewritten w.toList
    run.log = ⟨["'" ++ v ++ "' == '" ++ w ++ "'"], []⟩ ∧
    (run.isMatch = true ↔ Holds query (Sql.comparison l r)) ∧
    (∀ s, l = Sql.doubled s → '\x00' ∉ s → '\x00' ∉ r → (run.isMatch = true ↔ s = r)) ∧
    ('\'' ∉ v.toList → '\x00' ∉ v.toList → '\x00' ∉ w.toList → Calculation.Untouched v.toList →
      Calculation.Untouched w.toList → (run.isMatch = true ↔ v = w)) := by
  intro run l r
  obtain ⟨hlog, hmatch⟩ := isMatch_memberEquals hc hk hv hn ha ho
  have hr : Sql.doubled r = r := Sql.doubled_of_notMem (Calculation.quote_notMem_rewritten hw)
  have hdoubled {s : List Char} (hs : l = Sql.doubled s) (hs0 : '\x00' ∉ s) (hr0 : '\x00' ∉ r) :
      run.isMatch = true ↔ s = r := by
    have h := holds_comparison hq hs0 hr0
    rw [hr, ← hs] at h
    exact hmatch.trans h
  refine ⟨?_, hmatch, fun s hs hs0 hr0 => hdoubled hs hs0 hr0, ?_⟩
  · have ht : String.ofList (Sql.comparison v.toList w.toList) =
        "'" ++ v ++ "' == '" ++ w ++ "'" := by
      apply String.toList_inj.mp
      rw [String.toList_ofList]
      simp only [String.toList_append, List.append_assoc]
      rfl
    rw [← ht]
    exact hlog
  · intro hvq hv0 hw0 hvu hwu
    have hl : l = Sql.doubled v.toList := by
      rw [Sql.doubled_of_notMem hvq]
      exact Calculation.rewritten_of_untouched hvu
    have he : r = w.toList := Calculation.rewritten_of_untouched hwu
    rw [hdoubled hl hv0 (he ▸ hw0), he, String.toList_inj]

def calculator : Collaborators where
  lookup _ := none
  invoke name _ := .error (.script name)
  calculate := Calculation.calculate

theorem plain_text_matches :
    let payload := "\x7b\"k\":\"on\"\x7d"
    let run := evaluate calculator (some (memberEquals "k" "on")) payload
    (Value.read? payload).bind (Value.field? "k") = some (.string "on") ∧
      run.log = ⟨["'on' == 'on'"], []⟩ ∧ run.isMatch = true := by
  intro payload run
  have hk : ∀ c ∈ "k".toList, c.isAlphanum = true := List.all_eq_true.mp rfl
  have hv : (Value.read? payload).bind (Value.field? "k") = some (.string "on") := by cbv
  have hn : Number.float? (trim "on".toList) = none := by cbv
  have hq : '\'' ∉ "on".toList := by decide
  have ha : Free andSeparators "on".toList := by decide
  have ho : Free orSeparators "on".toList := by decide
  have hu : Calculation.Untouched "on".toList := ⟨by decide, by decide, by decide⟩
  obtain ⟨hlog, -, -, hmatch⟩ := spliced_text_comparison (c := calculator)
    Sql.comparesTexts_evaluate? rfl hk hv hn hq ha ho
  exact ⟨hv, hlog, (hmatch hq (by decide) (by decide) hu hu).mpr rfl⟩

/-- The quotes in the payload end the text, and what is between them becomes part of the condition. -/
theorem quotes_join_condition :
    let payload := "\x7b\"k\":\"x' == 'x' or 'x\"\x7d"
    (Value.read? payload).bind (Value.field? "k") = some (.string "x' == 'x' or 'x") ∧
      Number.float? (trim "x' == 'x' or 'x".toList) = none ∧
      (evaluate calculator (some (memberEquals "k" "w")) payload).isMatch = true := by
  intro payload
  have hk : ∀ c ∈ "k".toList, c.isAlphanum = true := List.all_eq_true.mp rfl
  have hv : (Value.read? payload).bind (Value.field? "k") = some (.string "x' == 'x' or 'x") := by
    cbv
  have hn : Number.float? (trim "x' == 'x' or 'x".toList) = none := by cbv
  have ha : Free andSeparators "w".toList := by decide
  have ho : Free orSeparators "w".toList := by decide
  obtain ⟨-, hmatch⟩ := isMatch_memberEquals (c := calculator) rfl hk hv hn ha ho
  have hx : Calculation.rewritten "x' == 'x' or 'x".toList = "x' == 'x' or 'x".toList :=
    Calculation.rewritten_of_untouched ⟨by decide, by decide, by decide⟩
  have hw : Calculation.rewritten "w".toList = "w".toList :=
    Calculation.rewritten_of_untouched ⟨by decide, by decide, by decide⟩
  refine ⟨hv, hn, hmatch.mpr ⟨.integer 1, ?_, rfl⟩⟩
  rw [hx, hw]
  cbv

end TopicHub.Expression
