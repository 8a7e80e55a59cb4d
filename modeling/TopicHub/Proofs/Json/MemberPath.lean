import TopicHub.Json.Inline
import TopicHub.Proofs.Splitting

/-!
Paths to a member of the document itself. A key in single quotes and brackets behind a dollar sign is read
as a path that picks the member of that name, if its characters stand for themselves between quotes; if
there is no closing bracket in the key, the path is found at the start of a text.
-/

namespace TopicHub.Json

open Text

def Verbatim (key : List Char) : Prop := ∀ c ∈ key, c ≠ '\'' ∧ c ≠ '\\' ∧ ¬ c < ' '

theorem verbatim_of_isAlphanum {key : List Char} (h : ∀ c ∈ key, c.isAlphanum = true) : Verbatim key := by
  intro c hm
  have hc := h c hm
  refine ⟨?_, ?_, ?_⟩
  · rintro rfl
    cases hc
  · rintro rfl
    cases hc
  · intro hl
    have hlt : c.toNat < 32 := hl
    have hn : ∀ n < 32, (Char.ofNat n).isAlphanum = false := by decide
    have hf := hn c.toNat hlt
    rw [Char.ofNat_toNat, hc] at hf
    cases hf

theorem bracket_notMem_of_isAlphanum {key : List Char} (h : ∀ c ∈ key, c.isAlphanum = true) :
    ']' ∉ key :=
  fun hm => absurd (h _ hm) (by decide)

theorem readName_cons {quote c : Char} (hq : c ≠ quote) (hb : c ≠ '\\') (hc : ¬ c < ' ')
    (s : List Char) :
    readName quote (c :: s) = (readName quote s).map fun (cs, rest) => (c :: cs, rest) := by
  rw [readName]
  · simp only [hq, hb, hc, decide_false, Bool.or_self, Bool.false_eq_true, if_false]
  · intro _ _ _ _ _ _ _ _ _ h
    exact absurd h hb
  · intro _ _ _ _ _ h
    exact absurd h hb
  · intro _ _ h
    exact absurd h hb

theorem readName_key {name : List Char} (hk : Verbatim name) (rest : List Char) :
    readName '\'' (name ++ '\'' :: rest) = some (name, rest) := by
  induction name with
  | nil => rfl
  | cons c s ih =>
    obtain ⟨hq, hb, hc⟩ := hk c (List.mem_cons_self ..)
    rw [List.cons_append, readName_cons hq hb hc, ih fun d hd => hk d (List.mem_cons_of_mem _ hd)]
    rfl

def memberPath (key : String) : List Char := '$' :: '[' :: '\'' :: (key.toList ++ ['\'', ']'])

variable {key : String}

theorem readSelector_quoted (fuel : ℕ) (s : List Char) : readSelector (fuel + 1) ('\'' :: s) =
    (readName '\'' s).map fun (name, rest) => (.name (String.ofList name), rest) := by
  rw [readSelector]
  · simp only [decide_true, Bool.true_or, if_true]
  all_goals exact nofun

theorem readSelectors_key (hk : Verbatim key.toList) (fuel : Nat) :
    readSelectors (fuel + 2) ('\'' :: (key.toList ++ ['\'', ']'])) = some ([.name key], []) := by
  have hs : readSelector (fuel + 1) ('\'' :: (key.toList ++ ['\'', ']'])) =
      some (.name key, [']']) := by
    simp only [readSelector_quoted, readName_key hk, Option.map_some, String.ofList_toList]
  have hb : skipBlank ('\'' :: (key.toList ++ ['\'', ']'])) =
      '\'' :: (key.toList ++ ['\'', ']']) := rfl
  rw [readSelectors, hb, hs]
  rfl

theorem readPath_member (hk : Verbatim key.toList) :
    Path.read? (memberPath key) = some ⟨[.child [.name key]]⟩ := by
  have hs (fuel : Nat) : readSegments (fuel + 3) ('[' :: '\'' :: (key.toList ++ ['\'', ']'])) =
      some ([.child [.name key]], []) := by
    have hb : skipBlank ('[' :: '\'' :: (key.toList ++ ['\'', ']'])) =
        '[' :: '\'' :: (key.toList ++ ['\'', ']']) := rfl
    rw [readSegments, hb]
    simp only [readSelectors_key hk]
    rfl
  have hr := hs (4 * ('[' :: '\'' :: (key.toList ++ ['\'', ']'])).length + 5)
  unfold Path.read? memberPath
  simp only [hr]

theorem readGroups_bracket (n : ℕ) {group : List Char} (h : ']' ∉ group) (rest : List Char) :
    readGroups (n + 1) ('[' :: (group ++ ']' :: rest)) =
      (readGroups n rest).map fun (more, after) => ('[' :: group ++ ']' :: more, after) := by
  rw [readGroups, cut?_of_notMem h]

theorem readGroups_other (n : ℕ) {c : Char} (hb : c ≠ '[') (hp : c ≠ '.') (s : List Char) :
    readGroups n (c :: s) = some ([], c :: s) := by
  cases n with
  | zero => rfl
  | succ n =>
    rw [readGroups]
    · intro t h
      exact hb (List.cons.inj h).1
    · intro d t h
      exact hp (List.cons.inj h).1

theorem find?_member (hk : ']' ∉ key.toList) (rest : List Char) :
    Inline.find? (memberPath key ++ ' ' :: rest) = some ⟨[], memberPath key, ' ' :: rest⟩ := by
  have hn : ']' ∉ '\'' :: (key.toList ++ ['\'']) := by simpa using hk
  have ht : memberPath key ++ ' ' :: rest =
      '$' :: '[' :: ('\'' :: (key.toList ++ ['\'']) ++ ']' :: ' ' :: rest) := by
    simp only [memberPath, List.cons_append, List.append_assoc, List.nil_append]
  rw [ht]
  change (readGroups _ ('[' :: ('\'' :: (key.toList ++ ['\'']) ++ ']' :: ' ' :: rest))).map _ = _
  rw [readGroups_bracket _ hn, readGroups_other _ (by decide) (by decide)]
  simp only [memberPath, Option.map_some, List.cons_append, List.append_assoc, List.nil_append]

theorem firstMatch_member (hk : Verbatim key.toList) (document : String) :
    firstMatch (memberPath key) document = (Value.read? document).bind (Value.field? key) := by
  unfold firstMatch
  rw [readPath_member hk]
  cases Value.read? document with
  | none => rfl
  | some v =>
    change ((((v.field? key).toList ++ []) ++ []) : List Value).head? = v.field? key
    rw [List.append_nil, List.append_nil]
    cases v.field? key <;> rfl

end TopicHub.Json
