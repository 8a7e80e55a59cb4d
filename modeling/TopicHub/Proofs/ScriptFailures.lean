import TopicHub.Expression.Template
import TopicHub.Proofs.Combinators

/-!
Failures of conditions and of templates. A name without a value, a path that picks nothing, a
condition that cannot be read and a calculation that fails are text or no match. Only a script that
fails ends a run. Its failure is the result, and no script is called after it.
-/

namespace TopicHub

/-- Each of these calls gives a result. -/
def Collaborators.Answers (c : Collaborators) (calls : List (String × String)) : Prop :=
  ∀ call ∈ calls, ∃ text, c.invoke call.1 call.2 = .ok text

namespace Collaborators

variable {c : Collaborators} {calls later : List (String × String)}

theorem answers_append :
    c.Answers (calls ++ later) ↔ c.Answers calls ∧ c.Answers later := List.forall_mem_append

theorem Answers.not_failed (h : c.Answers calls) {call : String × String} (hc : call ∈ calls)
    (e : RuleError) : c.invoke call.1 call.2 ≠ .error e := by
  obtain ⟨text, ht⟩ := h call hc
  intro he
  rw [ht] at he
  cases he

end Collaborators

namespace Run

variable {α β : Type} {c : Collaborators} {p : α → Prop} {q : β → Prop} {x : Run α}

/-- The failures of a run are those of the scripts that it called, and it called none after one that
failed. -/
structure FailsByScript (c : Collaborators) (x : Run α) : Prop where
  failure : ∀ e, x.result = .error e ↔ ∃ call ∈ x.log.calls, c.invoke call.1 call.2 = .error e
  last : ∀ earlier call later e, x.log.calls = earlier ++ call :: later →
    c.invoke call.1 call.2 = .error e → later = []

/-- A run that comes to a result with the property `p` had all its calls answered. Any other run had
all but the last one answered. -/
structure Ends (c : Collaborators) (p : α → Prop) (x : Run α) : Prop where
  answered : ∀ a, x.result = .ok a → p a ∧ c.Answers x.log.calls
  failed : ∀ e, x.result = .error e → ∃ earlier call,
    x.log.calls = earlier ++ [call] ∧ c.Answers earlier ∧ c.invoke call.1 call.2 = .error e

theorem ends_pure {a : α} (h : p a) : Ends c p (Pure.pure a : Run α) where
  answered := by
    intro b hb
    cases hb
    exact ⟨h, List.forall_mem_nil _⟩
  failed := by
    intro e he
    cases he

theorem Ends.bind {f : α → Run β} (hx : Ends c p x) (hf : ∀ a, p a → Ends c q (f a)) :
    Ends c q (x >>= f) := by
  rcases hr : x.result with e | a
  · obtain ⟨earlier, call, hcalls, hearlier, hcall⟩ := hx.failed e hr
    rw [bind_error hr]
    constructor
    · intro b hb
      cases hb
    · intro e' he'
      cases he'
      exact ⟨earlier, call, hcalls, hearlier, hcall⟩
  · obtain ⟨ha, hcalls⟩ := hx.answered a hr
    have hlater := hf a ha
    rw [bind_ok hr]
    constructor
    · intro b hb
      obtain ⟨hb, hrest⟩ := hlater.answered b hb
      exact ⟨hb, Collaborators.answers_append.mpr ⟨hcalls, hrest⟩⟩
    · intro e he
      obtain ⟨earlier, call, hrest, hearlier, hcall⟩ := hlater.failed e he
      refine ⟨x.log.calls ++ earlier, call, ?_, ?_, hcall⟩
      · simp [Log.append, hrest]
      · exact Collaborators.answers_append.mpr ⟨hcalls, hearlier⟩

theorem ends_script (call : String × String) : Ends c (fun _ => True) (c.runScript call) where
  answered := by
    intro text ht
    exact ⟨trivial, List.forall_mem_singleton.mpr ⟨text, ht⟩⟩
  failed := by
    intro e he
    exact ⟨[], call, rfl, List.forall_mem_nil _, he⟩

theorem ends_calculation (text : String) : Ends c (fun _ => True) (c.runCalculation text) where
  answered := by
    intro value _
    exact ⟨trivial, List.forall_mem_nil _⟩
  failed := by
    intro e he
    cases he

theorem Ends.answers_iff (h : Ends c p x) :
    c.Answers x.log.calls ↔ ∃ a, x.result = .ok a ∧ p a := by
  constructor
  · intro hc
    rcases hr : x.result with e | a
    · obtain ⟨earlier, call, hcalls, -, hcall⟩ := h.failed e hr
      have hmem : call ∈ x.log.calls := by simp [hcalls]
      exact absurd hcall (hc.not_failed hmem e)
    · exact ⟨a, rfl, (h.answered a hr).1⟩
  · rintro ⟨a, hr, -⟩
    exact (h.answered a hr).2

theorem Ends.failsByScript (h : Ends c p x) : FailsByScript c x := by
  rcases hr : x.result with e | a
  · obtain ⟨earlier, last, hcalls, hearlier, hlast⟩ := h.failed e hr
    constructor
    · intro e'
      rw [hr, hcalls]
      constructor
      · intro he
        cases he
        exact ⟨last, by simp, hlast⟩
      · rintro ⟨call, hc, hf⟩
        rcases List.mem_append.mp hc with hc | hc
        · exact absurd hf (hearlier.not_failed hc e')
        · rw [List.mem_singleton.mp hc, hlast] at hf
          cases hf
          rfl
    · intro before call later e' hs hf
      -- A failed call with others behind it would be among the earlier ones.
      by_contra hne
      obtain ⟨rest, end', rfl⟩ := List.eq_nil_or_concat later |>.resolve_left hne
      have hsplit : earlier ++ [last] = (before ++ call :: rest) ++ [end'] := by
        rw [← hcalls, hs]
        simp
      have hcut : before ++ call :: rest = earlier := (List.append_inj_left' hsplit rfl).symm
      exact hearlier.not_failed (hcut ▸ by simp) e' hf
  · obtain ⟨-, hcalls⟩ := h.answered a hr
    constructor
    · intro e
      rw [hr]
      constructor
      · intro he
        cases he
      · rintro ⟨call, hc, hf⟩
        exact absurd hf (hcalls.not_failed hc e)
    · intro before call later e hs hf
      exact absurd hf (hcalls.not_failed (by simp [hs]) e)

end Run

open Run Text

theorem Scripts.ends_resolveFrom (c : Collaborators) (n : ℕ) : ∀ (text : List Char) (offset : ℕ),
    Ends c (fun _ => True)
      (resolveFrom (fun name argument => c.runScript (name, argument)) n text offset) := by
  induction n with
  | zero => exact fun text offset => ends_pure trivial
  | succ n ih =>
    intro text offset
    rw [resolveFrom]
    cases Marker.findScriptFrom text offset with
    | none => exact ends_pure trivial
    | some p => exact (ends_script _).bind fun result _ => ih _ _

theorem Scripts.ends_resolve (c : Collaborators) (text : List Char) :
    Ends c (fun _ => True) (resolve c text) := ends_resolveFrom c _ _ _

namespace Expression

def Documented (e : Evaluation) : Prop := e.protocol ≠ ""

variable (c : Collaborators) (payload : String)

theorem documented_positive_none : Documented (.positive noExpressionProtocol) := by
  simp [Documented, Evaluation.positive, noExpressionProtocol]

theorem documented_condition (expression : String) :
    Documented (evaluateCondition expression payload) := by
  rw [evaluateCondition]
  cases Condition.read? expression with
  | none => simp [Documented, Evaluation.negative]
  | some condition =>
    by_cases h : condition.holds payload = true
    · simp [Documented, Evaluation.positive, h]
    · simp [Documented, Evaluation.negative, h]

theorem documented_conditionList (expression : String) :
    Documented (evaluateConditionList expression payload) := by
  rw [evaluateConditionList]
  cases Condition.readList? expression with
  | none => simp [Documented, Evaluation.negative]
  | some list =>
    by_cases h : Condition.anyHolds list payload = true
    · simp [Documented, Evaluation.positive, h]
    · simp [Documented, Evaluation.negative, h]

theorem ends_calculate (resolved : List Char) : Ends c Documented (calculate c resolved) := by
  rw [calculate]
  refine (ends_calculation _).bind fun value _ => ?_
  cases value with
  | ok value => exact ends_pure (by simp [Documented, Evaluation.ofScalar])
  | error e => exact ends_pure (by simp [Documented, Evaluation.negative])

theorem ends_evaluateSingle (part : List Char) :
    Ends c Documented (evaluateSingle c part payload) := by
  rw [evaluateSingle]
  by_cases hempty : part.isEmpty = true
  · rw [if_pos hempty]
    exact ends_pure documented_positive_none
  rw [if_neg hempty]
  by_cases hpath : Json.holdsPath part = true
  · rw [if_pos hpath]
    exact ends_calculate c _
  rw [if_neg hpath]
  by_cases hlist : part.head? = some '['
  · rw [if_pos hlist]
    exact ends_pure (documented_conditionList payload _)
  rw [if_neg hlist]
  by_cases hobject : part.head? = some '{'
  · rw [if_pos hobject]
    exact ends_pure (documented_condition payload _)
  · rw [if_neg hobject]
    exact (Scripts.ends_resolve c _).bind fun text _ => ends_calculate c text

/-- Behind the first part something is written already, so only a list without parts needs a
protocol to begin with. -/
theorem ends_evaluateUntil (stop : Bool) (parts : List (List Char)) : ∀ protocol : String,
    (parts = [] → protocol ≠ "") →
      Ends c Documented (evaluateUntil c stop payload protocol parts) := by
  induction parts with
  | nil => exact fun protocol h => ends_pure (h rfl)
  | cons part parts ih =>
    intro protocol _
    rw [evaluateUntil]
    refine (ends_evaluateSingle c payload part).bind fun e _ => ?_
    have hwritten : protocol ++ e.protocol ++ "\n" ≠ "" := by simp
    by_cases hs : e.isMatch = stop
    · simp only [hs, if_true]
      exact ends_pure hwritten
    · simp only [hs, if_false]
      exact ih _ fun _ => hwritten

theorem ends_evaluateText (expression : List Char) :
    Ends c Documented (evaluateText c expression payload) := by
  rw [evaluateText]
  cases ha : splitAny? andSeparators expression with
  | some parts =>
    exact ends_evaluateUntil c payload false parts "" (absurd · (splitAny?_ne_nil ha))
  | none =>
    cases ho : splitAny? orSeparators expression with
    | some parts =>
      exact ends_evaluateUntil c payload true parts "" (absurd · (splitAny?_ne_nil ho))
    | none => exact ends_evaluateSingle c payload expression

theorem ends_evaluate (expression : Option String) :
    Ends c Documented (evaluate c expression payload) := by
  cases expression with
  | none => exact ends_pure documented_positive_none
  | some text =>
    rw [evaluate]
    by_cases hempty : (trim text.toList).isEmpty = true
    · simp only [hempty, if_true]
      exact ends_pure documented_positive_none
    · simp only [hempty]
      exact ends_evaluateText c payload _

end Expression

namespace Template

variable (c : Collaborators)

theorem ends_calculated (text : List Char) : Ends c (fun _ => True) (calculated c text) := by
  rw [calculated]
  by_cases hl : looksLikeCalculation text = true
  · rw [if_pos hl]
    refine (ends_calculation _).bind fun value _ => ?_
    cases value with
    | ok value => exact ends_pure trivial
    | error e => exact ends_pure trivial
  · rw [if_neg hl]
    exact ends_pure trivial

theorem ends_resolveText (template : List Char) (payload : String) :
    Ends c (fun _ => True) (resolveText c template payload) := by
  rw [resolveText]
  refine (Scripts.ends_resolve c _).bind fun text _ => ?_
  exact (ends_calculated c _).bind fun text _ => ends_pure trivial

theorem ends_resolve (template : Option String) (payload : String) :
    Ends c (fun text => text.isSome = template.isSome) (resolve c template payload) := by
  cases template with
  | none => exact ends_pure rfl
  | some t =>
    rw [resolve]
    by_cases hempty : t.isEmpty = true
    · simp only [hempty, if_true]
      exact ends_pure rfl
    · simp only [hempty]
      exact (ends_resolveText c _ payload).bind fun text _ => ends_pure rfl

end Template

/-- Conditions and templates fail with a failure of a script, the last one that they call, and with
nothing else. When all scripts give results, a condition has an outcome with a protocol, and a
template a text. -/
theorem only_script_failures_surface (c : Collaborators) (expression template : Option String)
    (payload : String) :
    let evaluated := Expression.evaluate c expression payload
    let resolved := Template.resolve c template payload
    evaluated.FailsByScript c ∧ resolved.FailsByScript c ∧
      (c.Answers evaluated.log.calls ↔
        ∃ evaluation, evaluated.result = .ok evaluation ∧ evaluation.protocol ≠ "") ∧
      (c.Answers resolved.log.calls ↔
        ∃ text, resolved.result = .ok text ∧ text.isSome = template.isSome) := by
  intro evaluated resolved
  have hevaluated : Ends c Expression.Documented evaluated :=
    Expression.ends_evaluate c payload expression
  have hresolved : Ends c (fun text => text.isSome = template.isSome) resolved :=
    Template.ends_resolve c template payload
  exact ⟨hevaluated.failsByScript, hresolved.failsByScript, hevaluated.answers_iff,
    hresolved.answers_iff⟩

end TopicHub
