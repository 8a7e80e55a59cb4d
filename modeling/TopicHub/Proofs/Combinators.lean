import Mathlib
import TopicHub.Expression.Evaluate
import TopicHub.Proofs.Splitting

/-!
Conditions whose parts are joined by combinators. The parts are evaluated in order up to the first
one that settles the whole: it fails, or a part of a conjunction does not match, or a part of a
disjunction does. What these parts did is all that was done, and a failure is the result. The parts
of a conjunction are single tests: a disjunction inside of one is not taken apart.
-/

namespace TopicHub

namespace Log

theorem append_empty (a : Log) : a.append .empty = a := by simp [append, empty]

def join : List Log → Log
  | [] => .empty
  | a :: rest => a.append (join rest)

end Log

namespace Run

variable {α β : Type}

theorem bind_ok {x : Run α} {a : α} (h : x.result = .ok a) (f : α → Run β) :
    x >>= f = ⟨x.log.append (f a).log, (f a).result⟩ := by
  change Run.bind x f = _
  rw [Run.bind, h]

theorem bind_error {x : Run α} {e : RuleError} (h : x.result = .error e) (f : α → Run β) :
    x >>= f = ⟨x.log, .error e⟩ := by
  change Run.bind x f = _
  rw [Run.bind, h]

/-- Whether a run came out as a match. A failure did not. -/
def isMatch (r : Run Evaluation) : Bool :=
  match r.result with
  | .ok e => e.isMatch
  | .error _ => false

/-- Whether nothing is evaluated behind a run: it failed, or its outcome is `stop`. -/
def settles (stop : Bool) (r : Run Evaluation) : Bool :=
  match r.result with
  | .ok e => e.isMatch = stop
  | .error _ => true

def upTo (stop : Bool) (parts : List (Run Evaluation)) : List (Run Evaluation) :=
  parts.take (parts.findIdx (settles stop) + 1)

/-- A run that consists of the runs of its parts. A part that fails is the end of it; otherwise the
protocols of all parts are written one to a line, behind what was written before. -/
structure MadeOf (protocol : String) (parts : List (Run Evaluation)) (whole : Run Evaluation) :
    Prop where
  log : whole.log = Log.join (parts.map Run.log)
  failure : ∀ e, whole.result = .error e ↔ ∃ part ∈ parts, part.result = .error e
  outcome : ∀ e, whole.result = .ok e → ∃ es : List Evaluation,
    parts.map Run.result = es.map .ok ∧
      e.protocol = protocol ++ String.join (es.map fun e => e.protocol ++ "\n")

section

variable {r : Run Evaluation} {e : Evaluation} {err : RuleError} {stop : Bool}

theorem isMatch_ok (h : r.result = .ok e) : r.isMatch = e.isMatch := by rw [isMatch, h]

theorem isMatch_error (h : r.result = .error err) : r.isMatch = false := by rw [isMatch, h]

theorem settles_ok (h : r.result = .ok e) : r.settles stop = decide (e.isMatch = stop) := by
  rw [settles, h]

theorem settles_error (h : r.result = .error err) : r.settles stop = true := by rw [settles, h]

theorem upTo_settled (h : r.settles stop = true) (rs : List (Run Evaluation)) :
    upTo stop (r :: rs) = [r] := by
  rw [upTo, List.findIdx_cons, h]
  rfl

theorem upTo_unsettled (h : r.settles stop = false) (rs : List (Run Evaluation)) :
    upTo stop (r :: rs) = r :: upTo stop rs := by
  rw [upTo, List.findIdx_cons, h]
  rfl

theorem madeOf_nil (protocol : String) {e : Evaluation} (h : e.protocol = protocol) :
    MadeOf protocol [] ⟨.empty, .ok e⟩ where
  log := rfl
  failure := by simp
  outcome := by
    intro e he
    cases he
    exact ⟨[], rfl, by simp [h]⟩

theorem madeOf_failed (protocol : String) (h : r.result = .error err) :
    MadeOf protocol [r] ⟨r.log, .error err⟩ where
  log := (Log.append_empty r.log).symm
  failure := by simp [h]
  outcome := by
    intro e he
    cases he

theorem MadeOf.cons {protocol : String} {parts : List (Run Evaluation)} {later : Run Evaluation}
    (h : r.result = .ok e) (hl : MadeOf (protocol ++ e.protocol ++ "\n") parts later) :
    MadeOf protocol (r :: parts) ⟨r.log.append later.log, later.result⟩ where
  log := by rw [hl.log, List.map_cons, Log.join]
  failure := by
    intro err
    simp only [hl.failure, List.exists_mem_cons_iff, h, reduceCtorEq, false_or]
  outcome := by
    intro e' he
    obtain ⟨es, hes, hp⟩ := hl.outcome e' he
    refine ⟨e :: es, ?_, ?_⟩
    · rw [List.map_cons, List.map_cons, h, hes]
    · rw [hp, List.map_cons, String.join_cons]
      simp only [String.append_assoc]

theorem upTo_subset (parts : List (Run Evaluation)) : upTo stop parts ⊆ parts :=
  List.take_subset _ _

theorem upTo_eq_self {parts : List (Run Evaluation)}
    (h : ∀ r ∈ upTo stop parts, r.settles stop = false) : upTo stop parts = parts := by
  induction parts with
  | nil => rfl
  | cons r rs ih =>
    cases hr : r.settles stop with
    | true =>
      rw [upTo_settled hr] at h
      rw [h r (List.mem_singleton_self r)] at hr
      cases hr
    | false =>
      rw [upTo_unsettled hr] at h ⊢
      rw [ih fun q hq => h q (List.mem_cons_of_mem r hq)]

theorem settles_eq_isMatch (h : ∀ err, r.result ≠ .error err) : r.settles true = r.isMatch := by
  cases hr : r.result with
  | error err => exact absurd hr (h err)
  | ok e =>
    rw [settles_ok hr, isMatch_ok hr]
    exact Bool.decide_eq_true

/-- Parts that were not evaluated matter only behind a failure. -/
theorem MadeOf.exists_match {parts : List (Run Evaluation)} {whole : Run Evaluation}
    {protocol : String} (h : MadeOf protocol (upTo true parts) whole)
    (hok : whole.result.isOk = true) :
    (∃ r ∈ upTo true parts, r.isMatch = true) ↔ ∃ r ∈ parts, r.isMatch = true := by
  constructor
  · rintro ⟨r, hr, hm⟩
    exact ⟨r, upTo_subset parts hr, hm⟩
  · rintro ⟨r, hr, hm⟩
    by_contra hn
    have hnone : ∀ q ∈ upTo true parts, q.settles true = false := by
      intro q hq
      rw [settles_eq_isMatch, Bool.eq_false_iff]
      · exact fun hq' => hn ⟨q, hq, hq'⟩
      · intro err he
        rw [(h.failure err).mpr ⟨q, hq, he⟩] at hok
        cases hok
    rw [upTo_eq_self hnone] at hn
    exact hn ⟨r, hr, hm⟩

end

end Run

namespace Expression

open Text

section

variable {c : Collaborators} {stop : Bool} {payload protocol : String} {part : List Char}
  {e : Evaluation} {err : RuleError}

theorem evaluateUntil_failed (h : (evaluateSingle c part payload).result = .error err)
    (parts : List (List Char)) :
    evaluateUntil c stop payload protocol (part :: parts) =
      ⟨(evaluateSingle c part payload).log, .error err⟩ :=
  Run.bind_error h _

theorem evaluateUntil_settled (h : (evaluateSingle c part payload).result = .ok e)
    (hs : e.isMatch = stop) (parts : List (List Char)) :
    evaluateUntil c stop payload protocol (part :: parts) =
      ⟨(evaluateSingle c part payload).log, .ok ⟨stop, protocol ++ e.protocol ++ "\n", none⟩⟩ := by
  rw [evaluateUntil, Run.bind_ok h]
  dsimp only
  rw [if_pos hs]
  exact congrArg (Run.mk · _) (Log.append_empty _)

theorem evaluateUntil_unsettled (h : (evaluateSingle c part payload).result = .ok e)
    (hs : e.isMatch ≠ stop) (parts : List (List Char)) :
    let later := evaluateUntil c stop payload (protocol ++ e.protocol ++ "\n") parts
    evaluateUntil c stop payload protocol (part :: parts) =
      ⟨(evaluateSingle c part payload).log.append later.log, later.result⟩ := by
  rw [evaluateUntil, Run.bind_ok h]
  dsimp only
  rw [if_neg hs]

end

/-- The runs of the parts of an expression, each as a single test. -/
def tests (c : Collaborators) (parts : List (List Char)) (payload : String) :
    List (Run Evaluation) :=
  parts.map fun part => evaluateSingle c part payload

section

variable (c : Collaborators) (stop : Bool) (payload : String)

theorem evaluateUntil_madeOf (parts : List (List Char)) : ∀ protocol,
    Run.MadeOf protocol (Run.upTo stop (tests c parts payload))
      (evaluateUntil c stop payload protocol parts) := by
  induction parts with
  | nil => exact fun protocol => Run.madeOf_nil protocol rfl
  | cons part parts ih =>
    intro protocol
    cases hr : (evaluateSingle c part payload).result with
    | error err =>
      rw [evaluateUntil_failed hr, tests, List.map_cons, Run.upTo_settled (Run.settles_error hr)]
      exact Run.madeOf_failed protocol hr
    | ok e =>
      by_cases hs : e.isMatch = stop
      · have hd : (evaluateSingle c part payload).settles stop = true := by
          rw [Run.settles_ok hr, decide_eq_true hs]
        rw [evaluateUntil_settled hr hs, tests, List.map_cons, Run.upTo_settled hd]
        have hlast := Run.madeOf_nil (protocol ++ e.protocol ++ "\n")
          (e := ⟨stop, protocol ++ e.protocol ++ "\n", none⟩) rfl
        have := hlast.cons hr
        rwa [Log.append_empty] at this
      · have hd : (evaluateSingle c part payload).settles stop = false := by
          rw [Run.settles_ok hr, decide_eq_false hs]
        rw [evaluateUntil_unsettled hr hs, tests, List.map_cons, Run.upTo_unsettled hd]
        exact (ih _).cons hr

theorem isMatch_conjunction (parts : List (List Char)) : ∀ protocol,
    (evaluateUntil c false payload protocol parts).isMatch = true ↔
      ∀ part ∈ tests c parts payload, part.isMatch = true := by
  induction parts with
  | nil => exact fun protocol => iff_of_true rfl (by simp [tests])
  | cons part parts ih =>
    intro protocol
    rw [tests, List.map_cons, List.forall_mem_cons]
    cases hr : (evaluateSingle c part payload).result with
    | error err =>
      rw [evaluateUntil_failed hr, Run.isMatch_error hr, Run.isMatch_error rfl]
      simp
    | ok e =>
      rw [Run.isMatch_ok hr]
      cases he : e.isMatch with
      | false =>
        rw [evaluateUntil_settled hr he, Run.isMatch_ok rfl]
        simp
      | true =>
        rw [evaluateUntil_unsettled hr (by simp [he])]
        simp only [true_and]
        exact ih _

theorem isMatch_disjunction (parts : List (List Char)) : ∀ protocol,
    (evaluateUntil c true payload protocol parts).isMatch = true ↔
      ∃ part ∈ Run.upTo true (tests c parts payload), part.isMatch = true := by
  induction parts with
  | nil => exact fun protocol => iff_of_false Bool.false_ne_true (by simp [tests, Run.upTo])
  | cons part parts ih =>
    intro protocol
    rw [tests, List.map_cons]
    cases hr : (evaluateSingle c part payload).result with
    | error err =>
      rw [evaluateUntil_failed hr, Run.upTo_settled (Run.settles_error hr), Run.isMatch_error rfl]
      simp [Run.isMatch_error hr]
    | ok e =>
      cases he : e.isMatch with
      | true =>
        rw [evaluateUntil_settled hr he, Run.isMatch_ok rfl, Run.upTo_settled]
        · simp [Run.isMatch_ok hr, he]
        · simp [Run.settles_ok hr, he]
      | false =>
        rw [evaluateUntil_unsettled hr (by simp [he]), Run.upTo_unsettled]
        · refine (ih _).trans ?_
          simp [Run.isMatch_ok hr, he, tests]
        · simp [Run.settles_ok hr, he]

end

theorem evaluate_part (c : Collaborators) (payload : String) {part : List Char}
    (ht : trim part = part) (ha : Free andSeparators part) (ho : Free orSeparators part) :
    evaluate c (some (String.ofList part)) payload = evaluateSingle c part payload := by
  rw [evaluate, String.toList_ofList, ht]
  split
  · rename_i he
    rw [evaluateSingle, if_pos he]
  · rw [evaluateText, splitAny?_of_free ha, splitAny?_of_free ho]

/-- The runs of the parts of an expression, each as an expression of its own. -/
def evaluations (c : Collaborators) (parts : List (List Char)) (payload : String) :
    List (Run Evaluation) :=
  parts.map fun part => evaluate c (some (String.ofList part)) payload

theorem evaluations_eq_tests (c : Collaborators) (payload : String) {parts : List (List Char)}
    (h : ∀ part ∈ parts, trim part = part ∧ Free andSeparators part ∧ Free orSeparators part) :
    evaluations c parts payload = tests c parts payload := by
  apply List.map_congr_left
  intro part hp
  obtain ⟨ht, ha, ho⟩ := h part hp
  exact evaluate_part c payload ht ha ho

theorem and_nonempty : [] ∉ andSeparators := by decide

theorem or_nonempty : [] ∉ orSeparators := by decide

theorem evaluate_eq (c : Collaborators) (expression payload : String) {seps : List (List Char)}
    (hne : [] ∉ seps) {parts : List (List Char)}
    (h : splitAny? seps (trim expression.toList) = some parts) :
    evaluate c (some expression) payload = evaluateText c (trim expression.toList) payload := by
  rw [evaluate, if_neg]
  intro he
  rw [List.isEmpty_iff.mp he, splitAny?_of_free (free_nil hne)] at h
  cases h

theorem evaluate_and (c : Collaborators) (expression payload : String) {parts : List (List Char)}
    (h : splitAny? andSeparators (trim expression.toList) = some parts) :
    evaluate c (some expression) payload = evaluateUntil c false payload "" parts := by
  rw [evaluate_eq c expression payload and_nonempty h, evaluateText, h]

theorem evaluate_or (c : Collaborators) (expression payload : String) {parts : List (List Char)}
    (ha : Free andSeparators (trim expression.toList))
    (h : splitAny? orSeparators (trim expression.toList) = some parts) :
    evaluate c (some expression) payload = evaluateUntil c true payload "" parts := by
  rw [evaluate_eq c expression payload or_nonempty h, evaluateText, splitAny?_of_free ha, h]

/-- The parts of a conjunction and of a disjunction, each an expression of its own, are evaluated in
order up to the first one that fails, or that does not match or does match. A conjunction matches if
all parts do. A disjunction matches if a part does that is evaluated, and these are all parts that
match unless an evaluation fails. -/
theorem combinators_short_circuit (c : Collaborators) (expression payload : String)
    {parts : List (List Char)} :
    let text := trim expression.toList
    let whole := evaluate c (some expression) payload
    let runs := evaluations c parts payload
    (splitAny? andSeparators text = some parts → (∀ part ∈ parts, Free orSeparators part) →
      (whole.isMatch = true ↔ ∀ r ∈ runs, r.isMatch = true) ∧
        Run.MadeOf "" (Run.upTo false runs) whole) ∧
    (Free andSeparators text → splitAny? orSeparators text = some parts →
      (whole.isMatch = true ↔ ∃ r ∈ Run.upTo true runs, r.isMatch = true) ∧
        (whole.result.isOk = true → (whole.isMatch = true ↔ ∃ r ∈ runs, r.isMatch = true)) ∧
        Run.MadeOf "" (Run.upTo true runs) whole) := by
  intro text whole runs
  constructor
  · intro hs ho
    have hr : runs = tests c parts payload := by
      apply evaluations_eq_tests
      intro part hp
      obtain ⟨ha, ht⟩ := free_part and_nonempty hs part hp
      exact ⟨ht, ha, ho part hp⟩
    have hw : whole = evaluateUntil c false payload "" parts := evaluate_and c _ payload hs
    rw [hr, hw]
    exact ⟨isMatch_conjunction c payload parts "", evaluateUntil_madeOf c false payload parts ""⟩
  · intro ha hs
    have hr : runs = tests c parts payload := by
      apply evaluations_eq_tests
      intro part hp
      obtain ⟨ho, ht⟩ := free_part or_nonempty hs part hp
      exact ⟨ht, ha.of_isInfix (part_isInfix hs part hp), ho⟩
    have hw : whole = evaluateUntil c true payload "" parts := evaluate_or c _ payload ha hs
    have hm := evaluateUntil_madeOf c true payload parts ""
    rw [hr, hw]
    refine ⟨isMatch_disjunction c payload parts "", fun hok => ?_, hm⟩
    rw [isMatch_disjunction, hm.exists_match hok]

def gauge : Collaborators where
  lookup _ := none
  invoke name _ := .error (.script name)
  calculate text := .ok (.integer (if text = "0" then 0 else 1))

/-- The second part of either expression settles it, and the third is not looked at. -/
theorem second_part_settles :
    let parts := ["1".toList, "0".toList, "1".toList]
    let others := ["0".toList, "1".toList, "0".toList]
    splitAny? andSeparators (trim "1 && 0 && 1".toList) = some parts ∧
      (∀ part ∈ parts, Free orSeparators part) ∧
      Free andSeparators (trim "0 || 1 or 0".toList) ∧
      splitAny? orSeparators (trim "0 || 1 or 0".toList) = some others ∧
      (evaluate gauge (some "1 && 0 && 1") "").log = ⟨["1", "0"], []⟩ ∧
      (evaluate gauge (some "0 || 1 or 0") "").log = ⟨["0", "1"], []⟩ := by
  intro parts others
  have hs : splitAny? andSeparators (trim "1 && 0 && 1".toList) = some parts := by cbv
  have ho : ∀ part ∈ parts, Free orSeparators part := by decide
  have ha : Free andSeparators (trim "0 || 1 or 0".toList) := by decide
  have hd : splitAny? orSeparators (trim "0 || 1 or 0".toList) = some others := by cbv
  obtain ⟨-, hand⟩ := (combinators_short_circuit gauge "1 && 0 && 1" "").1 hs ho
  obtain ⟨-, -, hor⟩ := (combinators_short_circuit gauge "0 || 1 or 0" "").2 ha hd
  refine ⟨hs, ho, ha, hd, ?_, ?_⟩
  · rw [hand.log]
    cbv
  · rw [hor.log]
    cbv

/-- Whatever is in them, the parts of a conjunction are single tests. Those without a disjunction
come out as they do as expressions of their own. -/
theorem conjunction_of_tests (c : Collaborators) (expression payload : String)
    {parts : List (List Char)}
    (h : splitAny? andSeparators (trim expression.toList) = some parts) :
    let whole := evaluate c (some expression) payload
    (whole.isMatch = true ↔ ∀ r ∈ tests c parts payload, r.isMatch = true) ∧
      Run.MadeOf "" (Run.upTo false (tests c parts payload)) whole ∧
      ∀ part ∈ parts, Free orSeparators part →
        evaluate c (some (String.ofList part)) payload = evaluateSingle c part payload := by
  intro whole
  have hw : whole = evaluateUntil c false payload "" parts := evaluate_and c _ payload h
  refine ⟨?_, ?_, ?_⟩
  · rw [hw]
    exact isMatch_conjunction c payload parts ""
  · rw [hw]
    exact evaluateUntil_madeOf c false payload parts ""
  · intro part hp ho
    obtain ⟨ha, ht⟩ := free_part and_nonempty h part hp
    exact evaluate_part c payload ht ha ho

/-- The part with a disjunction in it is calculated as one text. -/
theorem single_tests_joined :
    let parts := ["0 or 1".toList, "1".toList]
    splitAny? andSeparators (trim "0 or 1 and 1".toList) = some parts ∧
      (evaluate gauge (some "0 or 1 and 1") "").isMatch = true ∧
      (evaluate gauge (some "0 or 1 and 1") "").log = ⟨["0 or 1", "1"], []⟩ := by
  intro parts
  have hs : splitAny? andSeparators (trim "0 or 1 and 1".toList) = some parts := by cbv
  obtain ⟨hmatch, hmade, -⟩ := conjunction_of_tests gauge "0 or 1 and 1" "" hs
  refine ⟨hs, hmatch.mpr ?_, ?_⟩
  · have h : (evaluateSingle gauge "0 or 1".toList "").isMatch = true := by cbv
    have h' : (evaluateSingle gauge "1".toList "").isMatch = true := by cbv
    exact List.forall_mem_cons.mpr ⟨h, List.forall_mem_singleton.mpr h'⟩
  · rw [hmade.log]
    cbv

def switches : Collaborators where
  lookup name := if name = "a" then some "1" else if name = "b" then some "0" else none
  invoke name _ := .error (.script name)
  calculate text :=
    if text = "1 == 1" then .ok (.integer 1) else .error (.calculation text)

/-- Each part is an expression that matches, and the conjunction does not. -/
theorem disjunction_inside_lost :
    let parts := ["a == 1 or b == 1".toList, "1 == 1".toList]
    splitAny? andSeparators (trim "a == 1 or b == 1 and 1 == 1".toList) = some parts ∧
      (∀ r ∈ evaluations switches parts "", r.isMatch = true) ∧
      (evaluate switches (some "a == 1 or b == 1 and 1 == 1") "").isMatch = false := by
  intro parts
  have hs : splitAny? andSeparators (trim "a == 1 or b == 1 and 1 == 1".toList) = some parts := by
    cbv
  refine ⟨hs, ?_, ?_⟩
  · have hd : splitAny? orSeparators (trim "a == 1 or b == 1".toList) =
        some ["a == 1".toList, "b == 1".toList] := by cbv
    have h : (evaluate switches (some "a == 1 or b == 1") "").isMatch = true := by
      rw [evaluate_or switches _ "" (by decide) hd]
      cbv
    have h' : (evaluate switches (some (String.ofList "1 == 1".toList)) "").isMatch = true := by
      rw [evaluate_part switches "" (by decide) (by decide) (by decide)]
      cbv
    exact List.forall_mem_cons.mpr ⟨h, List.forall_mem_singleton.mpr h'⟩
  · rw [evaluate_and switches _ "" hs]
    cbv

end Expression

end TopicHub
