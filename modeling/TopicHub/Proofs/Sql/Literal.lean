import TopicHub.Sql.Evaluate

/-!
Text literals. Between single quotes every text can be written, each single quote of it twice, and it
is read back as it was; only a null character, which ends what is read, leaves the literal open. Two
literals that are compared are equal just when their texts are.
-/

namespace TopicHub.Sql

/-- A text as it is written between single quotes. -/
def doubled (s : List Char) : List Char :=
  s.flatMap fun c => if c = '\'' then ['\'', '\''] else [c]

theorem doubled_cons_quote (s : List Char) : doubled ('\'' :: s) = '\'' :: '\'' :: doubled s := rfl

theorem doubled_cons {c : Char} (h : c ≠ '\'') (s : List Char) :
    doubled (c :: s) = c :: doubled s := by
  unfold doubled
  rw [List.flatMap_cons, if_neg h]
  rfl

theorem doubled_of_notMem {s : List Char} (h : '\'' ∉ s) : doubled s = s := by
  induction s with
  | nil => rfl
  | cons c s ih =>
    obtain ⟨hc, hs⟩ := not_or.mp (mt List.mem_cons.mpr h)
    rw [doubled_cons (Ne.symm hc), ih hs]

theorem mem_doubled {c : Char} {s : List Char} : c ∈ doubled s ↔ c ∈ s := by
  induction s with
  | nil => exact Iff.rfl
  | cons d s ih =>
    by_cases hd : d = '\''
    · rw [hd, doubled_cons_quote, List.mem_cons, List.mem_cons, ih, List.mem_cons]
      exact or_self_left
    · rw [doubled_cons hd, List.mem_cons, ih, List.mem_cons]

theorem readQuoted_cons_ne {mark c : Char} (h : c ≠ mark) (s : List Char) :
    readQuoted mark (c :: s) =
      (readQuoted mark s).map fun (content, rest) => (c :: content, rest) := by
  rw [readQuoted.eq_def]
  dsimp only
  rw [if_neg h]

theorem readQuoted_doubled {s rest : List Char} (hr : rest.head? ≠ some '\'') :
    readQuoted '\'' (doubled s ++ '\'' :: rest) = some (s, rest) := by
  induction s with
  | nil =>
    cases rest with
    | nil => rfl
    | cons d rest =>
      have hd : d ≠ '\'' := fun hd => hr (congrArg some hd)
      change readQuoted '\'' ('\'' :: d :: rest) = _
      rw [readQuoted.eq_def]
      dsimp only
      rw [if_pos rfl, if_neg hd]
  | cons c s ih =>
    by_cases hc : c = '\''
    · rw [hc, doubled_cons_quote, List.cons_append, List.cons_append, readQuoted.eq_def]
      dsimp only
      rw [if_pos rfl, if_pos rfl, ih]
      rfl
    · rw [doubled_cons hc, List.cons_append, readQuoted_cons_ne hc, ih]
      rfl

theorem readQuoted_open (s : List Char) : readQuoted '\'' (doubled s) = none := by
  induction s with
  | nil => rfl
  | cons c s ih =>
    by_cases hc : c = '\''
    · rw [hc, doubled_cons_quote, readQuoted.eq_def]
      dsimp only
      rw [if_pos rfl, if_pos rfl, ih]
      rfl
    · rw [doubled_cons hc, readQuoted_cons_ne hc, ih]
      rfl

theorem takeWhile_doubled {p : Char → Bool} (hp : p '\'' = true) (s : List Char) :
    (doubled s).takeWhile p = doubled (s.takeWhile p) := by
  induction s with
  | nil => rfl
  | cons c s ih =>
    by_cases hc : c = '\''
    · rw [hc, doubled_cons_quote, List.takeWhile_cons_of_pos hp, List.takeWhile_cons_of_pos hp,
        List.takeWhile_cons_of_pos hp, ih]
      rfl
    · rw [doubled_cons hc]
      by_cases hpc : p c = true
      · rw [List.takeWhile_cons_of_pos hpc, List.takeWhile_cons_of_pos hpc, ih, doubled_cons hc]
      · rw [List.takeWhile_cons_of_neg hpc, List.takeWhile_cons_of_neg hpc]
        rfl

theorem takeWhile_left {p : Char → Bool} {s : List Char} (hs : ∃ c ∈ s, p c = false)
    (t : List Char) : (s ++ t).takeWhile p = s.takeWhile p := by
  induction s with
  | nil =>
    obtain ⟨c, hc, -⟩ := hs
    cases hc
  | cons d s ih =>
    by_cases hd : p d = true
    · rw [List.cons_append, List.takeWhile_cons_of_pos hd, List.takeWhile_cons_of_pos hd, ih]
      obtain ⟨c, hc, hp⟩ := hs
      rcases List.mem_cons.mp hc with rfl | hc
      · rw [hd] at hp
        cases hp
      · exact ⟨c, hc, hp⟩
    · rw [List.cons_append, List.takeWhile_cons_of_neg hd, List.takeWhile_cons_of_neg hd]

/-- The comparison of two texts in quotes. -/
def comparison (l r : List Char) : List Char :=
  '\'' :: (l ++ '\'' :: (" == ".toList ++ '\'' :: (r ++ ['\''])))

theorem step_literal {s rest : List Char} (hr : rest.head? ≠ some '\'') :
    step ('\'' :: (doubled s ++ '\'' :: rest)) = some (some (.text s), rest) := by
  change (readQuoted '\'' (doubled s ++ '\'' :: rest)).map _ = _
  rw [readQuoted_doubled hr]
  rfl

theorem step_open (s : List Char) : step ('\'' :: doubled s) = none := by
  change (readQuoted '\'' (doubled s)).map _ = _
  rw [readQuoted_open]
  rfl

theorem tokensFrom_literal {s rest : List Char} (hr : rest.head? ≠ some '\'') (fuel : Nat) :
    tokensFrom (fuel + 1) ('\'' :: (doubled s ++ '\'' :: rest)) =
      (tokensFrom fuel rest).map (.text s :: ·) := by
  rw [tokensFrom, step_literal hr]

theorem tokensFrom_open (s : List Char) (fuel : Nat) :
    tokensFrom (fuel + 1) ('\'' :: doubled s) = none := by
  rw [tokensFrom, step_open]

theorem tokensFrom_equal (s : List Char) (fuel : Nat) :
    tokensFrom (fuel + 3) (" == ".toList ++ '\'' :: s) =
      (tokensFrom fuel ('\'' :: s)).map (.symbol .equal :: ·) := rfl

theorem tokensFrom_left (a s : List Char) (fuel : Nat) :
    tokensFrom (fuel + 4) ('\'' :: (doubled a ++ '\'' :: (" == ".toList ++ '\'' :: s))) =
      (tokensFrom fuel ('\'' :: s)).map ([.text a, .symbol .equal] ++ ·) := by
  rw [tokensFrom_literal, tokensFrom_equal, Option.map_map]
  · rfl
  · exact nofun

theorem tokensFrom_comparison (a s : List Char) :
    let text := '\'' :: (doubled a ++ '\'' :: (" == ".toList ++ '\'' :: s))
    ∃ fuel, tokensFrom text.length text =
      (tokensFrom (fuel + 1) ('\'' :: s)).map ([.text a, .symbol .equal] ++ ·) := by
  intro text
  refine ⟨(doubled a).length + s.length + 2, ?_⟩
  have hl : text.length = (doubled a).length + s.length + 2 + 1 + 4 := by
    simp only [text, List.length_cons, List.length_append, String.length_toList]
    rw [show " == ".length = 4 from rfl]
    omega
  rw [hl]
  exact tokensFrom_left ..

/-- A null character ends the text before the closing quote. -/
theorem tokens_comparison (a b : List Char) : tokens (comparison (doubled a) (doubled b)) =
    if '\x00' ∈ a ∨ '\x00' ∈ b then none else some [.text a, .symbol .equal, .text b] := by
  let p : Char → Bool := fun c => c ≠ '\x00'
  have hq : p '\'' = true := rfl
  have hpos {s : List Char} (hs : '\x00' ∉ s) : ∀ c ∈ doubled s, p c = true := by
    intro c hc
    refine decide_eq_true ?_
    rintro rfl
    exact hs (mem_doubled.mp hc)
  have hneg {s : List Char} (hs : '\x00' ∈ s) : ∃ c ∈ doubled s, p c = false :=
    ⟨'\x00', mem_doubled.mpr hs, rfl⟩
  have hmiddle (s : List Char) : (" == ".toList ++ '\'' :: s).takeWhile p =
      " == ".toList ++ '\'' :: s.takeWhile p := rfl
  let text := comparison (doubled a) (doubled b)
  change tokensFrom (text.takeWhile p).length (text.takeWhile p) = _
  unfold text comparison
  rw [List.takeWhile_cons_of_pos hq]
  by_cases ha : '\x00' ∈ a
  · rw [if_pos (Or.inl ha), takeWhile_left (hneg ha), takeWhile_doubled hq]
    exact tokensFrom_open ..
  · rw [List.takeWhile_append_of_pos (hpos ha), List.takeWhile_cons_of_pos hq, hmiddle]
    obtain ⟨fuel, hf⟩ := tokensFrom_comparison a ((doubled b ++ ['\'']).takeWhile p)
    rw [hf]
    by_cases hb : '\x00' ∈ b
    · rw [if_pos (Or.inr hb), takeWhile_left (hneg hb), takeWhile_doubled hq, tokensFrom_open]
      rfl
    · have hend : ([] : List Char).head? ≠ some '\'' := nofun
      rw [if_neg (not_or_intro ha hb), List.takeWhile_append_of_pos (hpos hb),
        List.takeWhile_cons_of_pos hq, List.takeWhile_nil, tokensFrom_literal hend, tokensFrom]
      rfl

theorem compareChars_eq_iff {a b : List Char} : Value.compareChars a b = .eq ↔ a = b := by
  induction a generalizing b with
  | nil => cases b <;> simp [Value.compareChars]
  | cons c s ih =>
    cases b with
    | nil => simp [Value.compareChars]
    | cons d t =>
      rw [Value.compareChars, List.cons.injEq]
      by_cases hl : c < d
      · rw [if_pos hl]
        exact iff_of_false nofun fun h => Char.lt_irrefl d (h.1 ▸ hl)
      · by_cases hg : d < c
        · rw [if_neg hl, if_pos hg]
          exact iff_of_false nofun fun h => Char.lt_irrefl d (h.1 ▸ hg)
        · have he : c = d := Char.le_antisymm (Char.not_lt.mp hg) (Char.not_lt.mp hl)
          rw [if_neg hl, if_neg hg, ih]
          exact (and_iff_right he).symm

theorem value?_comparison (a b : List Char) :
    Expr.value? (.compare .equal (.text a) (.text b)) = some (.ofBool (a = b)) := by
  have he : (Value.compareChars a b == .eq) = decide (a = b) := by
    rw [Bool.eq_iff_iff, beq_iff_eq, decide_eq_true_eq]
    exact compareChars_eq_iff
  rw [← he]
  rfl

theorem readQuery?_comparison {text a b : List Char}
    (h : tokens text = some [.text a, .symbol .equal, .text b]) :
    readQuery? text = some [.compare .equal (.text a) (.text b)] := by
  unfold readQuery?
  rw [h]
  rfl

theorem evaluate?_comparison (a b : List Char) : evaluate? (comparison (doubled a) (doubled b)) =
    if '\x00' ∈ a ∨ '\x00' ∈ b then none else some (.ofBool (a = b)) := by
  have ht := tokens_comparison a b
  unfold evaluate?
  split
  · rename_i hn
    rw [if_pos hn] at ht
    unfold readQuery?
    rw [ht]
    rfl
  · rename_i hn
    rw [if_neg hn] at ht
    rw [readQuery?_comparison ht]
    have hv : Expr.values? [.compare .equal (.text a) (.text b)] = some [.ofBool (a = b)] := by
      unfold Expr.values?
      rw [value?_comparison]
      rfl
    change (Expr.values? [.compare .equal (.text a) (.text b)]).bind List.head? = _
    rw [hv]
    rfl

/-- Texts between single quotes, with each single quote in them written twice, are equal just when they
are the same text. -/
def ComparesTexts (query : List Char → Option Value) : Prop :=
  ∀ s t, '\x00' ∉ s → '\x00' ∉ t →
    query (comparison (doubled s) (doubled t)) = some (.ofBool (s = t))

theorem comparesTexts_evaluate? : ComparesTexts evaluate? := by
  intro s t hs ht
  rw [evaluate?_comparison, if_neg (not_or_intro hs ht)]

end TopicHub.Sql
