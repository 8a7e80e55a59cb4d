import TopicHub.Proofs.Json.Literal

/-!
JSON documents of several lines. A document without fractions is read back from what is written for
it, at any indentation and in front of any text that does not take up its last numeral.
-/

open TopicHub.Number

namespace TopicHub.Json

mutual
/-- No number has a fraction or an exponent. -/
def Value.isWhole : Value → Bool
  | .null => true
  | .bool _ => true
  | .number (.int _) => true
  | .number (.float _) => false
  | .string _ => true
  | .array items => wholeItems items
  | .object fields => wholeFields fields

def wholeItems : List Value → Bool
  | [] => true
  | v :: rest => v.isWhole && wholeItems rest

def wholeFields : List (String × Value) → Bool
  | [] => true
  | (_, v) :: rest => v.isWhole && wholeFields rest
end

mutual
def Raw.ofValue : Value → Raw
  | .null => .null
  | .bool b => .bool b
  | .number (.int n) => .number (Numeral.ofInt n)
  | .number (.float _) => .null
  | .string s => .string (some s)
  | .array items => .array (rawItems items)
  | .object fields => .object (rawFields fields)

def rawItems : List Value → List Raw
  | [] => []
  | v :: rest => Raw.ofValue v :: rawItems rest

def rawFields : List (String × Value) → List (Option String × Raw)
  | [] => []
  | (k, v) :: rest => (some k, Raw.ofValue v) :: rawFields rest
end

theorem skipBlank_newLine (indent : Nat) (s : List Char) :
    skipBlank (newLine indent ++ s) = skipBlank s := by
  unfold skipBlank newLine
  rw [List.cons_append, List.dropWhile_cons_of_pos (by decide), List.dropWhile_append_of_pos]
  intro c hc
  rw [List.eq_of_mem_replicate hc]
  rfl

theorem skipBlank_of_head {c : Char} (h : isJsonBlank c = false) (s : List Char) :
    skipBlank (c :: s) = c :: s := by
  unfold skipBlank
  rw [List.dropWhile_cons, h]
  rfl

theorem skipBlank_space (s : List Char) : skipBlank (' ' :: s) = skipBlank s := by
  unfold skipBlank
  rw [List.dropWhile_cons_of_pos (by decide)]

/-- Blanks in front of a value make no difference. -/
theorem readValue_congr {s t : List Char} (h : skipBlank s = skipBlank t) (fuel : Nat) :
    readValue fuel s = readValue fuel t := by
  cases fuel with
  | zero => rw [readValue, readValue]
  | succ fuel => rw [readValue, readValue, h]

theorem readItems_congr {s t : List Char} (h : skipBlank s = skipBlank t) (fuel : Nat) :
    readItems fuel s = readItems fuel t := by
  cases fuel with
  | zero => rw [readItems, readItems]
  | succ fuel => rw [readItems, readItems, readValue_congr h]

theorem readFields_congr {s t : List Char} (h : skipBlank s = skipBlank t) (fuel : Nat) :
    readFields fuel s = readFields fuel t := by
  cases fuel with
  | zero => rw [readFields, readFields]
  | succ fuel => rw [readFields, readFields, h]

theorem numeral_head {c : Char} (h : c = '-' ∨ isDigit c = true) :
    isJsonBlank c = false ∧ c ≠ '"' ∧ c ≠ '[' ∧ c ≠ ']' ∧ c ≠ '{' := by
  rcases h with rfl | h
  · decide
  · obtain ⟨hl, hu⟩ := toNat_of_isDigit h
    have ne {d : Char} (hd : d.toNat < 48 ∨ 57 < d.toNat) : c ≠ d := by
      rintro rfl
      omega
    refine ⟨?_, ne (by decide), ne (by decide), ne (by decide), ne (by decide)⟩
    simp only [isJsonBlank, Bool.or_eq_false_iff, decide_eq_false_iff_not]
    exact ⟨⟨⟨ne (by decide), ne (by decide)⟩, ne (by decide)⟩, ne (by decide)⟩

theorem readValue_numeral {c : Char} (h : c = '-' ∨ isDigit c = true) (fuel : Nat) (s : List Char) :
    readValue (fuel + 1) (c :: s) =
      (readNumeral (c :: s)).map fun (n, rest) => (.number n, rest) := by
  obtain ⟨hb, hq, ha, -, ho⟩ := numeral_head h
  have hc : (decide (c = '-') || isDigit c) = true := by simpa using h
  rw [readValue, skipBlank_of_head hb]
  split
  · rename_i heq
    cases heq
  · rename_i heq
    exact absurd (List.cons.inj heq).1 hq
  · rename_i heq
    exact absurd (List.cons.inj heq).1 ha
  · rename_i heq
    exact absurd (List.cons.inj heq).1 ho
  · rename_i heq
    obtain ⟨rfl, rfl⟩ := List.cons.inj heq
    rw [if_pos hc]

theorem intText_head (n : Int) : ∃ c s, (intText n).toList = c :: s ∧ (c = '-' ∨ isDigit c = true) := by
  rw [toList_intText]
  by_cases hn : n < 0
  · rw [if_pos hn]
    exact ⟨_, _, rfl, Or.inl rfl⟩
  · obtain ⟨c, s, hc⟩ := List.exists_cons_of_ne_nil (Nat.toDigits_ne_nil (b := 10) (n := n.natAbs))
    rw [if_neg hn, hc]
    exact ⟨c, s, rfl, Or.inr (digits_toDigits n.natAbs c (hc ▸ List.mem_cons_self ..))⟩

theorem writePretty_head (indent : Nat) (v : Value) (h : v.isWhole = true) :
    ∃ c s, writePretty indent v = c :: s ∧ isJsonBlank c = false ∧ c ≠ ']' := by
  cases v with
  | null => exact ⟨_, _, rfl, by decide⟩
  | bool b => cases b <;> exact ⟨_, _, rfl, by decide⟩
  | number n =>
    cases n with
    | int n =>
      obtain ⟨c, s, hc, hd⟩ := intText_head n
      obtain ⟨hb, -, -, ha, -⟩ := numeral_head hd
      exact ⟨c, s, hc, hb, ha⟩
    | float x => cases h
  | string s => exact ⟨_, _, rfl, by decide⟩
  | array items => cases items <;> exact ⟨_, _, rfl, by decide⟩
  | object fields => cases fields <;> exact ⟨_, _, rfl, by decide⟩

theorem readValue_literal {word : List Char} {r : Raw} (h : word = "null".toList ∧ r = .null ∨
    word = "true".toList ∧ r = .bool true ∨ word = "false".toList ∧ r = .bool false)
    (fuel : Nat) (rest : List Char) : readValue (fuel + 1) (word ++ rest) = some (r, rest) := by
  rw [readValue]
  rcases h with ⟨rfl, rfl⟩ | ⟨rfl, rfl⟩ | ⟨rfl, rfl⟩ <;> rfl

theorem readValue_quote (fuel : Nat) (s : List Char) : readValue (fuel + 1) ('"' :: s) =
    (readString s).map fun (content, rest) => (.string (content.map String.ofList), rest) := by
  rw [readValue]
  rfl

theorem quoted_append (s : String) (rest : List Char) :
    quoted s ++ rest = '"' :: (s.toList.flatMap escapeChar ++ '"' :: rest) := by
  unfold quoted
  rw [List.cons_append, List.cons_append, List.append_assoc, List.singleton_append]

theorem readValue_string (s : String) (fuel : Nat) (rest : List Char) :
    readValue (fuel + 1) (quoted s ++ rest) = some (.string (some s), rest) := by
  rw [quoted_append, readValue_quote, readString_escaped, Option.map_some]
  dsimp only
  rw [Option.map_some, String.ofList_toList]

theorem readValue_int (n : Int) (fuel : Nat) {rest : List Char} (hr : EndsNumeral rest) :
    readValue (fuel + 1) ((intText n).toList ++ rest) = some (.number (Numeral.ofInt n), rest) := by
  obtain ⟨c, s, hc, hd⟩ := intText_head n
  have hn := readNumeral_intText n hr
  rw [hc] at hn ⊢
  rw [List.cons_append] at hn ⊢
  rw [readValue_numeral hd, hn]
  rfl

theorem readValue_bracket (fuel : Nat) {c : Char} {s t : List Char} (hs : skipBlank s = c :: t)
    (hb : isJsonBlank c = false) (hc : c ≠ ']') : readValue (fuel + 1) ('[' :: s) =
      (readItems fuel s).map fun (items, rest) => (.array items, rest) := by
  rw [readValue, skipBlank_of_head (by decide),
    readItems_congr (hs.trans (skipBlank_of_head hb t).symm)]
  simp only [hs]
  split
  · rename_i heq
    exact absurd (List.cons.inj heq).1 hc
  · rfl

theorem readValue_brace (fuel : Nat) {s t : List Char} (hs : skipBlank s = '"' :: t) :
    readValue (fuel + 1) ('{' :: s) =
      (readFields fuel s).map fun (fields, rest) => (.object fields, rest) := by
  rw [readValue, skipBlank_of_head (by decide),
    readFields_congr (hs.trans (skipBlank_of_head (by decide) t).symm)]
  simp only [hs]
  rfl

theorem readItems_last {fuel : Nat} {s rest : List Char} {item : Raw} (k : Nat)
    (h : readValue fuel s = some (item, newLine k ++ ']' :: rest)) :
    readItems (fuel + 1) s = some ([item], rest) := by
  rw [readItems, h]
  dsimp only
  rw [skipBlank_newLine, skipBlank_of_head (by decide)]
  rfl

theorem readItems_next {fuel : Nat} {s rest : List Char} {item : Raw}
    (h : readValue fuel s = some (item, ',' :: rest)) :
    readItems (fuel + 1) s =
      (readItems fuel rest).map fun (items, rest) => (item :: items, rest) := by
  rw [readItems, h]
  dsimp only
  rw [skipBlank_of_head (by decide)]
  rfl

theorem readFields_member (key : String) {fuel : Nat} {s rest : List Char} {item : Raw}
    (h : readValue fuel s = some (item, rest)) :
    readFields (fuel + 1) (quoted key ++ ':' :: s) =
      match skipBlank rest with
      | '}' :: rest => some ([(some key, item)], rest)
      | ',' :: rest =>
        (readFields fuel rest).map fun (fields, rest) => ((some key, item) :: fields, rest)
      | _ => none := by
  rw [quoted_append, readFields, skipBlank_of_head (by decide)]
  simp only [readString_escaped, skipBlank_of_head (show isJsonBlank ':' = false by decide), h]
  have hk : (some key.toList).map String.ofList = some key := by
    rw [Option.map_some, String.ofList_toList]
  exact hk ▸ rfl

theorem prettyItems_first (indent : Nat) (v : Value) (vs : List Value) (rest : List Char) :
    prettyItems indent true (v :: vs) ++ rest =
      newLine indent ++ (writePretty indent v ++ (prettyItems indent false vs ++ rest)) := by
  rw [prettyItems, if_pos rfl, List.nil_append, List.append_assoc, List.append_assoc]

theorem prettyItems_later (indent : Nat) (v : Value) (vs : List Value) :
    prettyItems indent false (v :: vs) = ',' :: prettyItems indent true (v :: vs) := by
  rw [prettyItems, prettyItems]
  rfl

theorem prettyFields_first (indent : Nat) (k : String) (v : Value) (fs : List (String × Value))
    (rest : List Char) : prettyFields indent true ((k, v) :: fs) ++ rest =
      newLine indent ++ (quoted k ++ ':' :: ' ' ::
        (writePretty indent v ++ (prettyFields indent false fs ++ rest))) := by
  rw [prettyFields, if_pos rfl, List.nil_append]
  simp only [List.append_assoc, List.cons_append]

theorem prettyFields_later (indent : Nat) (f : String × Value) (fs : List (String × Value)) :
    prettyFields indent false (f :: fs) = ',' :: prettyFields indent true (f :: fs) := by
  rw [prettyFields, prettyFields]
  rfl

theorem length_newLine (indent : Nat) : (newLine indent).length = 2 * indent + 1 := by
  rw [newLine, List.length_cons, List.length_replicate]

-- The fuel is at least the length of what is to be read, and each step takes up a character.
mutual
theorem readValue_pretty (v : Value) (hv : v.isWhole = true) (indent fuel : Nat)
    (hf : (writePretty indent v).length ≤ fuel) (rest : List Char) (hr : EndsNumeral rest) :
    readValue fuel (writePretty indent v ++ rest) = some (Raw.ofValue v, rest) := by
  match fuel with
  | 0 =>
    obtain ⟨c, s, hc, -⟩ := writePretty_head indent v hv
    rw [hc] at hf
    exact absurd hf (Nat.not_succ_le_zero _)
  | fuel + 1 =>
    match v with
    | .null => exact readValue_literal (Or.inl ⟨rfl, rfl⟩) fuel rest
    | .bool true => exact readValue_literal (Or.inr (Or.inl ⟨rfl, rfl⟩)) fuel rest
    | .bool false => exact readValue_literal (Or.inr (Or.inr ⟨rfl, rfl⟩)) fuel rest
    | .number (.int n) => exact readValue_int n fuel hr
    | .string s => exact readValue_string s fuel rest
    | .array [] =>
      rw [readValue]
      rfl
    | .array (v :: vs) =>
      have hw := hv
      rw [Value.isWhole, wholeItems, Bool.and_eq_true] at hw
      rw [Value.isWhole] at hv
      rw [writePretty] at hf ⊢
      simp only [List.length_cons, List.length_append] at hf
      obtain ⟨c, s, hc, hb, hn⟩ := writePretty_head (indent + 1) v hw.1
      have hi := readItems_pretty v vs hv (indent + 1) indent fuel (by omega) rest
      have hs : skipBlank (prettyItems (indent + 1) true (v :: vs) ++
          (newLine indent ++ ']' :: rest)) = c :: (s ++ (prettyItems (indent + 1) false vs ++
            (newLine indent ++ ']' :: rest))) := by
        rw [prettyItems_first, skipBlank_newLine, hc, List.cons_append, skipBlank_of_head hb]
      rw [List.append_assoc, List.cons_append, List.cons_append, List.append_assoc,
        List.singleton_append, readValue_bracket fuel hs hb hn, hi]
      rfl
    | .object [] =>
      rw [readValue]
      rfl
    | .object ((key, v) :: fs) =>
      rw [Value.isWhole] at hv
      rw [writePretty] at hf ⊢
      simp only [List.length_cons, List.length_append] at hf
      have hi := readFields_pretty key v fs hv (indent + 1) indent fuel (by omega) rest
      have hs := congrArg skipBlank (prettyFields_first (indent + 1) key v fs
        (newLine indent ++ '}' :: rest))
      rw [skipBlank_newLine, quoted_append, skipBlank_of_head (by decide)] at hs
      rw [List.append_assoc, List.cons_append, List.cons_append, List.append_assoc,
        List.singleton_append, readValue_brace fuel hs, hi]
      rfl
termination_by structural fuel

theorem readItems_pretty (v : Value) (vs : List Value) (hv : wholeItems (v :: vs) = true)
    (indent k fuel : Nat) (hf : (prettyItems indent true (v :: vs)).length ≤ fuel)
    (rest : List Char) :
    readItems fuel (prettyItems indent true (v :: vs) ++ (newLine k ++ ']' :: rest)) =
      some (rawItems (v :: vs), rest) := by
  have hl := congrArg List.length (prettyItems_first indent v vs [])
  simp only [List.append_nil, List.length_append, length_newLine] at hl
  rw [wholeItems, Bool.and_eq_true] at hv
  rw [prettyItems_first, readItems_congr (skipBlank_newLine indent _)]
  match fuel, vs with
  | 0, _ => omega
  | fuel + 1, [] =>
    have hr := readValue_pretty v hv.1 indent fuel (by omega) (newLine k ++ ']' :: rest) rfl
    exact readItems_last k hr
  | fuel + 1, w :: ws =>
    rw [prettyItems_later, List.length_cons] at hl
    have hr := readValue_pretty v hv.1 indent fuel (by omega)
      (',' :: (prettyItems indent true (w :: ws) ++ (newLine k ++ ']' :: rest))) rfl
    rw [prettyItems_later, List.cons_append, readItems_next hr,
      readItems_pretty w ws hv.2 indent k fuel (by omega) rest]
    rfl
termination_by structural fuel

theorem readFields_pretty (key : String) (v : Value) (fs : List (String × Value))
    (hv : wholeFields ((key, v) :: fs) = true) (indent k fuel : Nat)
    (hf : (prettyFields indent true ((key, v) :: fs)).length ≤ fuel) (rest : List Char) :
    readFields fuel (prettyFields indent true ((key, v) :: fs) ++ (newLine k ++ '}' :: rest)) =
      some (rawFields ((key, v) :: fs), rest) := by
  have hl := congrArg List.length (prettyFields_first indent key v fs [])
  simp only [List.append_nil, List.length_append, List.length_cons, length_newLine] at hl
  rw [wholeFields, Bool.and_eq_true] at hv
  rw [prettyFields_first, readFields_congr (skipBlank_newLine indent _)]
  match fuel, fs with
  | 0, _ => omega
  | fuel + 1, [] =>
    have hr := readValue_pretty v hv.1 indent fuel (by omega) (newLine k ++ '}' :: rest) rfl
    rw [← readValue_congr (skipBlank_space _)] at hr
    refine (readFields_member key hr).trans ?_
    rw [skipBlank_newLine, skipBlank_of_head (by decide)]
    rfl
  | fuel + 1, (later, w) :: ws =>
    rw [prettyFields_later, List.length_cons] at hl
    have hr := readValue_pretty v hv.1 indent fuel (by omega)
      (',' :: (prettyFields indent true ((later, w) :: ws) ++ (newLine k ++ '}' :: rest))) rfl
    have hi := readFields_pretty later w ws hv.2 indent k fuel (by omega) rest
    rw [← readValue_congr (skipBlank_space _)] at hr
    rw [prettyFields_later, List.cons_append, readFields_member key hr,
      skipBlank_of_head (by decide)]
    simp only [hi, Option.map_some]
    rfl
termination_by structural fuel
end

/-- Nothing of a document without fractions is lost in its text. -/
theorem read?_pretty {v : Value} (hv : v.isWhole = true) :
    Raw.read? v.pretty = some (Raw.ofValue v) := by
  have hr := readValue_pretty v hv 0 (2 * (writePretty 0 v).length + 2) (by omega) [] rfl
  rw [List.append_nil] at hr
  unfold Raw.read? Value.pretty
  rw [String.toList_ofList]
  simp only [hr]
  rfl

end TopicHub.Json
