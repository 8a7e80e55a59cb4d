import TopicHub.Text.Lower

/-!
Cutting texts: what follows a given start, the first occurrence of a word, replacement and
splitting. Positions are not numbers here but the pieces before and after; `utf8Size` gives the
offset of a cut in bytes.
-/

namespace TopicHub.Text

def utf8Size : List Char → Nat
  | [] => 0
  | c :: s => c.utf8Size + utf8Size s

/-- The text in front of a byte offset and the text behind it; none if the offset lies inside a
character or beyond the end. -/
def cutAt? (offset : Nat) : List Char → Option (List Char × List Char)
  | [] => if offset = 0 then some ([], []) else none
  | c :: s =>
    if offset = 0 then some ([], c :: s)
    else if offset < c.utf8Size then none
    else (cutAt? (offset - c.utf8Size) s).map fun (before, rest) => (c :: before, rest)

def after? : (word text : List Char) → Option (List Char)
  | [], s => some s
  | _ :: _, [] => none
  | a :: w, c :: s => if a = c then after? w s else none

def cut? (word : List Char) : List Char → Option (List Char × List Char)
  | [] => if word.isEmpty then some ([], []) else none
  | c :: s =>
    match after? word (c :: s) with
    | some rest => some ([], rest)
    | none => (cut? word s).map fun (before, rest) => (c :: before, rest)

def contains (text word : List Char) : Bool := (cut? word text).isSome

def containsIgnoreCase (text word : List Char) : Bool := contains (lower text) (lower word)

theorem length_after? {word text rest : List Char} (h : after? word text = some rest) :
    rest.length + word.length = text.length := by
  induction word generalizing text with
  | nil => simp [after?] at h; simp [h]
  | cons a w ih =>
    cases text with
    | nil => simp [after?] at h
    | cons c s =>
      simp only [after?] at h
      split at h
      · have := ih h; simp; omega
      · simp at h

theorem length_cut? {word text before rest : List Char} (h : cut? word text = some (before, rest)) :
    before.length + word.length + rest.length = text.length := by
  induction text generalizing before with
  | nil =>
    simp only [cut?] at h
    split at h
    · simp_all [List.isEmpty_iff]
    · simp at h
  | cons c s ih =>
    simp only [cut?] at h
    split at h
    · rename_i r hr
      simp only [Option.some.injEq, Prod.mk.injEq] at h
      obtain ⟨rfl, rfl⟩ := h
      have := length_after? hr
      simp at this ⊢; omega
    · simp only [Option.map_eq_some_iff, Prod.mk.injEq, Prod.exists] at h
      obtain ⟨b, r, hb, rfl, rfl⟩ := h
      have := ih hb
      simp; omega

/-- Each occurrence of a non-empty `word` becomes `new`, from left to right and without overlap. -/
def replace (word new text : List Char) : List Char :=
  if _hw : word = [] then text
  else
    match _h : cut? word text with
    | none => text
    | some (before, rest) => before ++ new ++ replace word new rest
termination_by text.length
decreasing_by
  have := length_cut? _h
  have := List.length_pos_iff.2 _hw
  omega

def splitOn (sep : Char) : List Char → List (List Char)
  | [] => [[]]
  | c :: s =>
    if c = sep then [] :: splitOn sep s
    else match splitOn sep s with
      | [] => [[c]]
      | piece :: pieces => (c :: piece) :: pieces

/-- The first position at which one of the separators begins, and the text before and after that
separator; among separators that begin there the first of the list is taken. -/
def cutAny? (seps : List (List Char)) : List Char → Option (List Char × List Char)
  | [] => (seps.findSome? fun sep => after? sep []).map fun rest => ([], rest)
  | c :: s =>
    match seps.findSome? fun sep => after? sep (c :: s) with
    | some rest => some ([], rest)
    | none => (cutAny? seps s).map fun (before, rest) => (c :: before, rest)

theorem length_cutAny? {seps : List (List Char)} {text before rest : List Char}
    (hs : ∀ sep ∈ seps, sep ≠ []) (h : cutAny? seps text = some (before, rest)) :
    rest.length < text.length := by
  have key : ∀ t r, seps.findSome? (fun sep => after? sep t) = some r → r.length < t.length := by
    intro t r hr
    obtain ⟨sep, hm, ha⟩ := List.exists_of_findSome?_eq_some hr
    have := length_after? ha
    have := List.length_pos_iff.2 (hs sep hm)
    omega
  induction text generalizing before with
  | nil =>
    simp only [cutAny?, Option.map_eq_some_iff, Prod.mk.injEq] at h
    obtain ⟨r, hr, -, rfl⟩ := h
    exact key [] r hr
  | cons c s ih =>
    simp only [cutAny?] at h
    split at h
    · rename_i r hr
      simp only [Option.some.injEq, Prod.mk.injEq] at h
      obtain ⟨-, rfl⟩ := h
      exact key _ _ hr
    · simp only [Option.map_eq_some_iff, Prod.mk.injEq, Prod.exists] at h
      obtain ⟨b, r, hb, -, rfl⟩ := h
      have := ih hb
      simp; omega

def pieces (seps : List (List Char)) (text : List Char) : List (List Char) :=
  match _h : cutAny? (seps.filter (· ≠ [])) text with
  | none => [text]
  | some (before, rest) => before :: pieces seps rest
termination_by text.length
decreasing_by
  exact length_cutAny? (by simp) _h

/-- The trimmed pieces of a text that holds at least one of the separators. -/
def splitAny? (seps : List (List Char)) (text : List Char) : Option (List (List Char)) :=
  let ps := pieces seps text
  if ps.length > 1 then some (ps.map trim) else none

end TopicHub.Text
