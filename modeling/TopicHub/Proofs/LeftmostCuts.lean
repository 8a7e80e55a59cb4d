import Mathlib.Order.Bounds.Basic
import TopicHub.Proofs.Splitting

/-!
How a text is taken apart at separators. Each separator stands at the leftmost place at which one does in
what is left of the text, and is the first of the list among those that stand there. Pieces and separators
together are the text, and there is no other way to choose them so. Without separators that are empty
every cut leaves less of the text.
-/

namespace TopicHub.Text

/-- A piece of a text and the separator behind it. -/
structure Cut where
  piece : List Char
  separator : List Char
  deriving DecidableEq, Repr

def joined (cuts : List Cut) (last : List Char) : List Char :=
  cuts.flatMap (fun cut => cut.piece ++ cut.separator) ++ last

/-- The separator of a cut is the first of the list that stands behind its piece, and further to the left
there is none. -/
structure Leftmost (seps : List (List Char)) (cut : Cut) (text : List Char) : Prop where
  place : IsLeast {n | ∃ sep ∈ seps, sep <+: text.drop n} cut.piece.length
  first : (seps.find? fun sep => sep <+: text.drop cut.piece.length) = some cut.separator

/-- A text taken apart from left to right. -/
structure Separated (seps : List (List Char)) (text : List Char) (cuts : List Cut)
    (last : List Char) : Prop where
  whole : text = joined cuts last
  listed : ∀ cut ∈ cuts, cut.separator ∈ seps
  free : ∀ cut ∈ cuts, Free seps cut.piece
  free_last : Free seps last
  leftmost : ∀ before cut after, cuts = before ++ cut :: after →
    Leftmost seps cut (joined (cut :: after) last)

variable {seps : List (List Char)} {text before rest last : List Char} {cut : Cut} {cuts : List Cut}

theorem joined_cons (cut : Cut) (cuts : List Cut) (last : List Char) :
    joined (cut :: cuts) last = cut.piece ++ cut.separator ++ joined cuts last := by
  unfold joined
  rw [List.flatMap_cons, List.append_assoc]

theorem find?_starts (h : (seps.findSome? fun sep => after? sep text) = some rest) :
    ∃ sep, (seps.find? fun sep => sep <+: text) = some sep ∧ text = sep ++ rest := by
  obtain ⟨front, sep, behind, rfl, ha, hfront⟩ := List.findSome?_eq_some_iff.mp h
  have he := after?_eq ha
  refine ⟨sep, List.find?_eq_some_iff_append.mpr ⟨?_, front, behind, rfl, ?_⟩, he⟩
  · exact decide_eq_true ⟨rest, he.symm⟩
  · intro other ho
    rw [decide_eq_false (not_isPrefix_of_after? (hfront other ho))]
    rfl

theorem leftmost_of_cutAny? (h : cutAny? seps text = some (before, rest)) :
    ∃ sep, Leftmost seps ⟨before, sep⟩ text ∧ text = before ++ sep ++ rest := by
  have hstart {text rest : List Char}
      (hs : (seps.findSome? fun sep => after? sep text) = some rest) :
      ∃ sep, Leftmost seps ⟨[], sep⟩ text ∧ text = [] ++ sep ++ rest := by
    obtain ⟨sep, hf, he⟩ := find?_starts hs
    exact ⟨sep, ⟨⟨⟨sep, List.mem_of_find?_eq_some hf, rest, he.symm⟩, fun n _ => Nat.zero_le n⟩, hf⟩, he⟩
  -- Where no separator stands, the leftmost one stands further on.
  induction text generalizing before with
  | nil =>
    obtain ⟨r, hr, he⟩ := Option.map_eq_some_iff.mp h
    cases he
    exact hstart hr
  | cons c s ih =>
    unfold cutAny? at h
    split at h
    · rename_i r hr
      cases h
      exact hstart hr
    · rename_i hn
      obtain ⟨⟨b, r⟩, hb, he⟩ := Option.map_eq_some_iff.mp h
      cases he
      obtain ⟨sep, ⟨⟨hplace, hleast⟩, hfirst⟩, rfl⟩ := ih hb
      refine ⟨sep, ⟨⟨hplace, fun n hn' => ?_⟩, hfirst⟩, rfl⟩
      obtain ⟨other, ho, hp⟩ := hn'
      cases n with
      | zero => exact absurd hp (starts_with_none hn other ho)
      | succ n => exact Nat.succ_le_succ (hleast ⟨other, ho, hp⟩)

theorem Leftmost.mem (h : Leftmost seps cut text) : cut.separator ∈ seps :=
  List.mem_of_find?_eq_some h.first

theorem Leftmost.unique {cut' : Cut} {rest' : List Char} (h : Leftmost seps cut text)
    (h' : Leftmost seps cut' text) (he : text = cut.piece ++ cut.separator ++ rest)
    (he' : text = cut'.piece ++ cut'.separator ++ rest') : cut = cut' ∧ rest = rest' := by
  have hlength : cut.piece.length = cut'.piece.length := h.place.unique h'.place
  have hsep : cut.separator = cut'.separator := by
    have hf := h.first
    rw [hlength, h'.first] at hf
    exact (Option.some.inj hf).symm
  have htext := he.symm.trans he'
  rw [List.append_assoc, List.append_assoc, hsep] at htext
  obtain ⟨hpiece, htail⟩ := List.append_inj htext hlength
  refine ⟨?_, List.append_cancel_left htail⟩
  cases cut
  cases cut'
  cases hpiece
  cases hsep
  rfl

/-- Every cut leaves less of the text. -/
theorem cuts_wellFounded (hne : [] ∉ seps) :
    WellFounded fun rest text => ∃ before, cutAny? seps text = some (before, rest) := by
  refine Subrelation.wf ?_ (measure List.length).wf
  rintro rest text ⟨before, h⟩
  exact length_cutAny? (fun sep hs he => hne (he ▸ hs)) h

example : cutAny? [[]] ['a'] = some ([], ['a']) := rfl

theorem Free.separated (h : Free seps text) : Separated seps text [] text where
  whole := rfl
  listed := nofun
  free := nofun
  free_last := h
  leftmost before cut after hc := absurd hc.symm (by simp)

theorem Separated.cons (h : Separated seps rest cuts last) (hfree : Free seps cut.piece)
    (hcut : Leftmost seps cut (cut.piece ++ cut.separator ++ rest)) :
    Separated seps (cut.piece ++ cut.separator ++ rest) (cut :: cuts) last where
  whole := by rw [joined_cons, h.whole]
  listed := List.forall_mem_cons.mpr ⟨hcut.mem, h.listed⟩
  free := List.forall_mem_cons.mpr ⟨hfree, h.free⟩
  free_last := h.free_last
  leftmost before other after hc := by
    cases before with
    | nil =>
      cases hc
      rw [joined_cons, ← h.whole]
      exact hcut
    | cons first before =>
      obtain ⟨rfl, rfl⟩ := List.cons.inj hc
      exact h.leftmost before other after rfl

theorem Separated.tail (h : Separated seps text (cut :: cuts) last) :
    Separated seps (joined cuts last) cuts last where
  whole := rfl
  listed := (List.forall_mem_cons.mp h.listed).2
  free := (List.forall_mem_cons.mp h.free).2
  free_last := h.free_last
  leftmost before other after hc := h.leftmost (cut :: before) other after (congrArg (cut :: ·) hc)

theorem exists_separated (hne : [] ∉ seps) (text : List Char) :
    ∃ cuts last, Separated seps text cuts last := by
  induction text using pieces.induct seps with
  | case1 text hc =>
    rw [filter_nonempty hne] at hc
    exact ⟨[], text, (free_of_cutAny? hc).separated⟩
  | case2 text before rest hc ih =>
    rw [filter_nonempty hne] at hc
    obtain ⟨cuts, last, h⟩ := ih
    obtain ⟨sep, hcut, rfl⟩ := leftmost_of_cutAny? hc
    exact ⟨⟨before, sep⟩ :: cuts, last, h.cons (free_before hne hc) hcut⟩

theorem Separated.pieces_eq (hne : [] ∉ seps) (h : Separated seps text cuts last) :
    pieces seps text = cuts.map Cut.piece ++ [last] := by
  induction cuts generalizing text with
  | nil =>
    obtain rfl : text = last := h.whole
    apply pieces_of_none
    rw [filter_nonempty hne]
    cases hc : cutAny? seps text with
    | none => rfl
    | some found =>
      obtain ⟨sep, hs, he⟩ := cutAny?_eq hc
      exact absurd ⟨found.1, found.2, he.symm⟩ (h.free_last sep hs)
  | cons cut cuts ih =>
    have hcut := h.leftmost [] cut cuts rfl
    have he := h.whole
    rw [← he] at hcut
    rw [joined_cons] at he
    cases hc : cutAny? seps text with
    | none =>
      have hsep : cut.separator <:+: text := ⟨cut.piece, joined cuts last, he.symm⟩
      exact absurd hsep (free_of_cutAny? hc _ hcut.mem)
    | some found =>
      obtain ⟨before, rest⟩ := found
      obtain ⟨sep, hcut', he'⟩ := leftmost_of_cutAny? hc
      obtain ⟨rfl, rfl⟩ := hcut.unique hcut' he he'
      rw [← filter_nonempty hne] at hc
      rw [pieces_of_some hc, ih h.tail]
      rfl

theorem Separated.splitAny?_eq (hne : [] ∉ seps) (h : Separated seps text cuts last) :
    splitAny? seps text =
      if cuts = [] then none else some ((cuts.map Cut.piece ++ [last]).map trim) := by
  unfold splitAny?
  rw [h.pieces_eq hne]
  cases cuts <;> simp

/-- A text is split by cuts that each leave less of it, none of them if and only if there is no separator
in it. Its parts are the pieces between the leftmost separators without the blanks around them. -/
theorem split_at_leftmost (hne : [] ∉ seps) (text : List Char) :
    (WellFounded fun rest text => ∃ before, cutAny? seps text = some (before, rest)) ∧
    (splitAny? seps text = none ↔ Free seps text) ∧
    ∀ parts, splitAny? seps text = some parts ↔ ∃ cuts last, cuts ≠ [] ∧
      Separated seps text cuts last ∧ parts = (cuts.map Cut.piece ++ [last]).map trim := by
  refine ⟨cuts_wellFounded hne, ⟨fun h => ?_, splitAny?_of_free⟩, fun parts => ⟨fun h => ?_, ?_⟩⟩
  · obtain ⟨cuts, last, hs⟩ := exists_separated hne text
    rw [hs.splitAny?_eq hne] at h
    have hnone : cuts = [] := by
      by_contra hc
      rw [if_neg hc] at h
      cases h
    subst hnone
    exact hs.whole ▸ hs.free_last
  · obtain ⟨cuts, last, hs⟩ := exists_separated hne text
    rw [hs.splitAny?_eq hne] at h
    split at h
    · cases h
    · rename_i hc
      exact ⟨cuts, last, hc, hs, (Option.some.inj h).symm⟩
  · rintro ⟨cuts, last, hc, hs, rfl⟩
    rw [hs.splitAny?_eq hne, if_neg hc]

/-- Of two separators that stand at one place the first of the list counts, and not the longer one. -/
theorem arrow_split_at_dashes :
    let seps := ["--".toList, "-->".toList]
    [] ∉ seps ∧ ∃ cuts last, cuts ≠ [] ∧ Separated seps "a --> b--c".toList cuts last ∧
      ["a".toList, "> b".toList, "c".toList] = (cuts.map Cut.piece ++ [last]).map trim := by
  intro seps
  have hne : [] ∉ seps := by decide
  have hs : splitAny? seps "a --> b--c".toList = some ["a".toList, "> b".toList, "c".toList] := by
    decide +kernel
  exact ⟨hne, ((split_at_leftmost hne "a --> b--c".toList).2.2 _).mp hs⟩

end TopicHub.Text
