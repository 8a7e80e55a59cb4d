import TopicHub.Expression.Scripts
import TopicHub.Proofs.Combinators
import TopicHub.Proofs.Marker.Offset
import TopicHub.Proofs.Marker.Written

/-!
Script calls are replaced in one pass. Although results are put into the text while the search goes on
in it, the calls that are made are those of the text as it was, each of them once, and the limit on
their number cuts none of them off.
-/

namespace TopicHub

open Text

namespace Marker

theorem suffix_of_parenthesized? {s arg rest : List Char}
    (h : parenthesized? s = some (arg, rest)) : rest <:+ s :=
  ⟨'(' :: arg ++ [')'], by simp [parenthesized?_eq h]⟩

theorem suffix_of_nameAndArgument? {s rest : List Char} {marker : ScriptCall}
    (h : nameAndArgument? s = some (marker, rest)) : rest <:+ s := by
  unfold nameAndArgument? at h
  split at h
  · split at h
    · cases h
    · rename_i arg u hu
      cases h
      exact (suffix_of_parenthesized? hu).trans
        ((List.dropWhile_suffix _).trans (List.dropWhile_suffix _))
  · cases h

theorem suffix_of_scriptAt? {s rest : List Char} {marker : ScriptCall}
    (h : scriptAt? s = some (marker, rest)) : rest <:+ s := by
  unfold scriptAt? at h
  split at h
  · split at h
    · cases h
    · rename_i found u hu
      split at h
      · rename_i v hv
        cases h
        have hclose : ')' :: rest <:+ u := hv ▸ List.dropWhile_suffix _
        exact (List.suffix_cons ..).trans
          (hclose.trans ((suffix_of_nameAndArgument? hu).trans (List.suffix_cons ..)))
      · cases h
  · exact (suffix_of_nameAndArgument? h).trans (List.suffix_cons ..)
  · exact suffix_of_nameAndArgument? h

/-- Colons that are added in front of a text make one more pair at most, and take none away. -/
theorem scriptMarkerCount_cons (c : Char) (s : List Char) :
    scriptMarkerCount s ≤ scriptMarkerCount (c :: s) ∧
      scriptMarkerCount (c :: s) ≤ scriptMarkerCount s + 1 := by
  induction s generalizing c with
  | nil => simp [scriptMarkerCount]
  | cons d s ih =>
    by_cases h : c = ':' ∧ d = ':'
    · obtain ⟨rfl, rfl⟩ := h
      have hs := ih ':'
      simp only [scriptMarkerCount] at hs ⊢
      omega
    · have hc : scriptMarkerCount (c :: d :: s) = scriptMarkerCount (d :: s) := by
        rw [scriptMarkerCount]
        intro t hct hdt
        cases hdt
        exact h ⟨hct, rfl⟩
      omega

theorem scriptMarkerCount_append (u s : List Char) :
    scriptMarkerCount s ≤ scriptMarkerCount (u ++ s) := by
  induction u with
  | nil => exact Nat.le_refl _
  | cons c u ih => exact Nat.le_trans ih (scriptMarkerCount_cons c (u ++ s)).1

theorem of_findScript {s : List Char} {p : Placed ScriptCall} (h : findScript s = some p) :
    s = p.before ++ p.written ++ p.after ∧ p.written ≠ [] ∧
      scriptMarkerCount p.after < scriptMarkerCount s := by
  -- Both functions walk over the same pairs up to the one at which the call starts.
  fun_induction findScript s generalizing p with
  | case1 => cases h
  | case2 s marker rest hs =>
    cases h
    obtain ⟨u, rfl⟩ := suffix_of_scriptAt? hs
    have hle := scriptMarkerCount_append u rest
    refine ⟨?_, by simp, ?_⟩
    · simp [consumed_append]
    · simp only [scriptMarkerCount]
      omega
  | case3 s hs ih =>
    obtain ⟨q, hq, rfl⟩ := Option.map_eq_some_iff.mp h
    obtain ⟨hsplit, hne, hlt⟩ := ih hq
    refine ⟨?_, hne, ?_⟩
    · simpa using hsplit
    · simp only [scriptMarkerCount]
      omega
  | case4 c s hc ih =>
    obtain ⟨q, hq, rfl⟩ := Option.map_eq_some_iff.mp h
    obtain ⟨hsplit, hne, hlt⟩ := ih hq
    refine ⟨?_, hne, ?_⟩
    · simpa using hsplit
    · exact Nat.lt_of_lt_of_le hlt (scriptMarkerCount_cons c s).1

theorem advances_of_findScriptFrom {text : List Char} {offset : Nat} {p : Placed ScriptCall}
    (h : findScriptFrom text offset = some p) : offset < p.stop ∧ p.stop ≤ utf8Size text := by
  obtain ⟨⟨front, rest⟩, hcut, hfind⟩ := Option.bind_eq_some_iff.mp h
  obtain ⟨q, hq, rfl⟩ := Option.map_eq_some_iff.mp hfind
  obtain ⟨rfl, rfl⟩ := cutAt?_eq_some hcut
  obtain ⟨hsplit, hne, -⟩ := of_findScript hq
  have hpos := utf8Size_pos hne
  simp only [Placed.stop, Placed.start, Placed.behind, hsplit, utf8Size_append]
  omega

end Marker

namespace Log

theorem empty_append (a : Log) : empty.append a = a := by simp [append, empty]

theorem append_assoc (a b c : Log) : (a.append b).append c = a.append (b.append c) := by
  simp [append]

end Log

namespace Run

variable {α β γ : Type}

theorem bind_pure_id (x : Run α) : id <$> x = x := by
  change x >>= (fun a => Pure.pure a) = x
  cases hx : x.result with
  | error e => rw [bind_error hx, ← hx]
  | ok a =>
    rw [bind_ok hx]
    exact congrArg₂ Run.mk (Log.append_empty _) hx.symm

theorem pure_bind (a : α) (f : α → Run β) : Pure.pure a >>= f = f a := by
  rw [bind_ok (x := Pure.pure a) rfl]
  exact congrArg (Run.mk · _) (Log.empty_append _)

theorem bind_assoc (x : Run α) (f : α → Run β) (g : β → Run γ) :
    x >>= f >>= g = x >>= fun a => f a >>= g := by
  cases hx : x.result with
  | error e =>
    rw [bind_error hx, bind_error hx]
    exact bind_error rfl g
  | ok a =>
    rw [bind_ok hx, bind_ok hx]
    cases hf : (f a).result with
    | error e =>
      rw [bind_error hf]
      exact bind_error rfl g
    | ok b =>
      rw [bind_ok hf, bind_ok (a := b) rfl]
      exact congrArg (Run.mk · _) (Log.append_assoc ..)

instance : LawfulMonad Run := LawfulMonad.mk' Run bind_pure_id pure_bind bind_assoc

end Run

namespace Scripts

open Marker

inductive Segment where
  | piece (text : List Char)
  | call (written : List Char) (script : ScriptCall)
  deriving DecidableEq, Repr

def textBehind (offset : Nat) (text : List Char) : List Char :=
  ((cutAt? offset text).map Prod.snd).getD []

/-- A text from a byte offset on, cut at its calls; each of them is searched for behind the one before. -/
def segmentsFrom (text : List Char) (offset : Nat) : List Segment :=
  match _h : findScriptFrom text offset with
  | none => [.piece (textBehind offset text)]
  | some p =>
    .piece (textBehind offset p.before) :: .call p.written p.marker :: segmentsFrom text p.stop
termination_by utf8Size text - offset
decreasing_by
  have := advances_of_findScriptFrom _h
  omega

def segments (text : List Char) : List Segment := segmentsFrom text 0

namespace Segment

def written : Segment → List Char
  | piece text => text
  | call written _ => written

def script? : Segment → Option ScriptCall
  | piece _ => none
  | call _ script => some script

section

variable {m : Type → Type} [Monad m] (invoke : (name argument : String) → m String)

/-- A piece stands for itself, and a call for its result. -/
def resolved : Segment → m (List Char)
  | piece text => pure text
  | call _ script => String.toList <$> invoke script.name script.argument

end

end Segment

/-- How a text is cut, without offsets. -/
inductive Segmented : List Char → List Segment → Prop where
  | last {s : List Char} (h : findScript s = none) : Segmented s [.piece s]
  | call {s : List Char} {p : Placed ScriptCall} {rest : List Segment} (h : findScript s = some p)
      (hrest : Segmented p.after rest) :
      Segmented s (.piece p.before :: .call p.written p.marker :: rest)

theorem textBehind_append (front rest : List Char) :
    textBehind (utf8Size front) (front ++ rest) = rest := by
  rw [textBehind, cutAt?_append]
  rfl

theorem segmented_segmentsFrom (front rest : List Char) :
    Segmented rest (segmentsFrom (front ++ rest) (utf8Size front)) := by
  rw [segmentsFrom]
  split
  · rename_i hn
    rw [findScriptFrom_append, Option.map_eq_none_iff] at hn
    rw [textBehind_append]
    exact .last hn
  · rename_i p hp
    rw [findScriptFrom_append] at hp
    obtain ⟨q, hq, rfl⟩ := Option.map_eq_some_iff.mp hp
    obtain ⟨hsplit, -, hlt⟩ := of_findScript hq
    have hstop : (q.behind front).stop = utf8Size (front ++ q.before ++ q.written) := by
      simp [Placed.stop, Placed.start, Placed.behind, Nat.add_assoc]
    have htext : front ++ rest = front ++ q.before ++ q.written ++ q.after := by
      rw [hsplit]
      simp
    have hrest := segmented_segmentsFrom (front ++ q.before ++ q.written) q.after
    rw [← htext, ← hstop] at hrest
    have hpiece : textBehind (utf8Size front) (q.behind front).before = q.before :=
      textBehind_append front q.before
    rw [hpiece]
    exact .call hq hrest
termination_by scriptMarkerCount rest

theorem segmented_segments (text : List Char) : Segmented text (segments text) :=
  segmented_segmentsFrom [] text

theorem Segmented.join {s : List Char} {l : List Segment} (h : Segmented s l) :
    (l.map Segment.written).flatten = s := by
  induction h with
  | last => simp [Segment.written]
  | call h _ ih =>
    obtain ⟨hsplit, -, -⟩ := of_findScript h
    simp [Segment.written, ih, hsplit]

theorem Segmented.length_le {s : List Char} {l : List Segment} (h : Segmented s l) :
    (l.filterMap Segment.script?).length ≤ scriptMarkerCount s := by
  induction h with
  | last => exact Nat.zero_le _
  | call h _ ih =>
    obtain ⟨-, -, hlt⟩ := of_findScript h
    simp only [List.filterMap_cons, Segment.script?, List.length_cons]
    omega

section

variable {m : Type → Type} [Monad m] [LawfulMonad m] (invoke : (name argument : String) → m String)

/-- With results in front, whatever they are, the calls are the same. -/
theorem Segmented.resolveFrom_eq {s : List Char} {l : List Segment} (h : Segmented s l) :
    ∀ {n : Nat}, scriptMarkerCount s ≤ n → ∀ done : List Char,
      resolveFrom invoke n (done ++ s) (utf8Size done) =
        (fun parts => done ++ parts.flatten) <$> l.mapM (Segment.resolved invoke) := by
  induction h with
  | @last s h =>
    intro n _ done
    have hend : resolveFrom invoke n (done ++ s) (utf8Size done) = pure (done ++ s) := by
      cases n with
      | zero => rfl
      | succ n =>
        rw [resolveFrom, findScriptFrom_append, h]
        rfl
    rw [hend]
    simp [Segment.resolved]
  | @call s p rest h _ ih =>
    intro n hn done
    obtain ⟨-, -, hlt⟩ := of_findScript h
    cases n with
    | zero => omega
    | succ n =>
      have hgo (result : String) :
          resolveFrom invoke n (done ++ p.before ++ result.toList ++ p.after)
            (utf8Size (done ++ p.before) + utf8Size result.toList) =
          (fun parts => done ++ p.before ++ result.toList ++ parts.flatten) <$>
            rest.mapM (Segment.resolved invoke) := by
        rw [← utf8Size_append]
        exact ih (by omega) _
      rw [resolveFrom, findScriptFrom_append, h]
      simp only [Option.map_some, Placed.behind, Placed.start, hgo]
      simp [Segment.resolved]

/-- A text with calls becomes its pieces and the results, one behind the other. The engine is asked for
each call of the text once, from left to right, and for nothing else; the pieces and the calls make up
the text, and there are no more calls than the limit allows. -/
theorem calls_replaced_in_one_pass (text : List Char) :
    resolveWith invoke text = List.flatten <$> (segments text).mapM (Segment.resolved invoke) ∧
      ((segments text).map Segment.written).flatten = text ∧
      ((segments text).filterMap Segment.script?).length ≤ scriptMarkerCount text := by
  have h := segmented_segments text
  have hpass := h.resolveFrom_eq invoke (Nat.le_refl _) []
  simp only [List.nil_append] at hpass
  exact ⟨hpass, h.join, h.length_le⟩

end

def returnsCall : Collaborators where
  lookup := fun _ => none
  invoke := fun name argument =>
    if name = "again" then .ok "::half(2)"
    else if name = "half" then .ok argument
    else .error (.script name)
  calculate := .error ∘ .calculation

/-- The call in a result is left alone, and nothing is called behind a failure. -/
theorem returned_call_stays :
    resolve returnsCall "::again() = ::(half(4))".toList =
        List.flatten <$> (segments "::again() = ::(half(4))".toList).mapM
          (Segment.resolved fun name argument => returnsCall.runScript (name, argument)) ∧
      segments "::again() = ::(half(4))".toList =
        [.piece [], .call "::again()".toList ⟨"again", ""⟩, .piece " = ".toList,
          .call "::(half(4))".toList ⟨"half", "4"⟩, .piece []] ∧
      (resolve returnsCall "::again() = ::(half(4))".toList).log.calls =
        [("again", ""), ("half", "4")] ∧
      (resolve returnsCall "::again() = ::(half(4))".toList).result =
        .ok "::half(2) = 4".toList ∧
      (resolve returnsCall "::half(4) ::lost() ::half(6)".toList).log.calls =
        [("half", "4"), ("lost", "")] ∧
      (resolve returnsCall "::half(4) ::lost() ::half(6)".toList).result =
        .error (.script "lost") := by
  obtain ⟨hpass, -, -⟩ := calls_replaced_in_one_pass
    (fun name argument => returnsCall.runScript (name, argument)) "::again() = ::(half(4))".toList
  refine ⟨hpass, ?_, ?_, ?_, ?_, ?_⟩
  · decide +kernel
  · decide
  · decide
  · decide
  · decide

end Scripts

end TopicHub
