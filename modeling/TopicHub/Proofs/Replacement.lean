import TopicHub.Calculation
import TopicHub.Proofs.Splitting

/-!
Replacing words in a text. A character that is in none of the words stands between them, and so the
text in front of it and the text behind it are rewritten each by itself. This is how calculations
are prepared: what stands between single quotes is rewritten like anything else.
-/

namespace TopicHub

namespace Text

variable {word new s t : List Char} {q : Char}

theorem isPrefix_left (hq : q ∉ word) (h : word <+: s ++ q :: t) : word <+: s := by
  rcases List.prefix_or_prefix_of_prefix h (List.prefix_append s (q :: t)) with hs | ⟨u, rfl⟩
  · exact hs
  · rw [List.prefix_append_right_inj] at h
    cases u with
    | nil => rw [List.append_nil]
    | cons c u =>
      obtain ⟨rfl, -⟩ := List.cons_prefix_cons.mp h
      exact absurd (List.mem_append_right s (List.mem_cons_self ..)) hq

theorem isInfix_either (hq : q ∉ word) (h : word <:+: s ++ q :: t) : word <:+: s ∨ word <:+: t := by
  induction s with
  | nil =>
    rcases List.infix_cons_iff.mp h with hp | hi
    · exact Or.inl (isPrefix_left (s := []) hq hp).isInfix
    · exact Or.inr hi
  | cons c s ih =>
    rcases List.infix_cons_iff.mp h with hp | hi
    · exact Or.inl (isPrefix_left (s := c :: s) hq hp).isInfix
    · rcases ih hi with hs | ht
      · exact Or.inl (hs.trans (List.suffix_cons c s).isInfix)
      · exact Or.inr ht

theorem Free.join {seps : List (List Char)} (hs : Free seps s) (hq : ∀ sep ∈ seps, q ∉ sep)
    (ht : Free seps t) : Free seps (s ++ q :: t) := by
  intro sep hm hi
  rcases isInfix_either (hq sep hm) hi with h | h
  · exact hs sep hm h
  · exact ht sep hm h

theorem after?_of_not_isPrefix (h : ¬ word <+: s) : after? word s = none := by
  cases ha : after? word s with
  | none => rfl
  | some rest => exact absurd ⟨rest, (after?_eq ha).symm⟩ h

theorem after?_join (hq : q ∉ word) :
    after? word (s ++ q :: t) = (after? word s).map (· ++ q :: t) := by
  cases ha : after? word s with
  | none => exact after?_of_not_isPrefix fun h => not_isPrefix_of_after? ha (isPrefix_left hq h)
  | some rest =>
    rw [after?_eq ha, List.append_assoc]
    exact after?_append ..

theorem cut?_of_not_isInfix (h : ¬ word <:+: s) : cut? word s = none := by
  cases hc : cut? word s with
  | none => rfl
  | some cut => exact absurd ⟨cut.1, cut.2, (cut?_eq hc).symm⟩ h

theorem cut?_join (hw : word ≠ []) (hq : q ∉ word) :
    cut? word (s ++ q :: t) =
      match cut? word s with
      | some (before, rest) => some (before, rest ++ q :: t)
      | none => (cut? word t).map fun (before, rest) => (s ++ q :: before, rest) := by
  induction s with
  | nil =>
    have hn : cut? word [] = none :=
      cut?_of_not_isInfix fun h => hw (List.infix_nil.mp h)
    have ha : after? word (q :: t) = none :=
      after?_of_not_isPrefix fun h => hw (List.prefix_nil.mp (isPrefix_left (s := []) hq h))
    rw [hn, List.nil_append, cut?, ha]
    rfl
  | cons c s ih =>
    rw [List.cons_append, cut?, cut?, ← List.cons_append, after?_join hq, ih]
    cases after? word (c :: s) with
    | some rest => rfl
    | none =>
      cases cut? word s with
      | some cut => rfl
      | none => cases cut? word t <;> rfl

theorem replace_of_none (h : cut? word s = none) : replace word new s = s := by
  rw [replace]
  split
  · rfl
  · split
    · rfl
    · rename_i hc
      rw [h] at hc
      cases hc

theorem replace_of_not_isInfix (h : ¬ word <:+: s) : replace word new s = s :=
  replace_of_none (cut?_of_not_isInfix h)

theorem replace_of_cut? {before rest : List Char} (hw : word ≠ [])
    (h : cut? word s = some (before, rest)) :
    replace word new s = before ++ new ++ replace word new rest := by
  rw [replace, dif_neg hw]
  split
  · rename_i hc
    rw [h] at hc
    cases hc
  · rename_i hc
    rw [h] at hc
    cases hc
    rfl

theorem replace_join (hw : word ≠ []) (hq : q ∉ word) :
    replace word new (s ++ q :: t) = replace word new s ++ q :: replace word new t := by
  induction s using replace.induct word with
  | case1 s hn => exact absurd hn hw
  | case2 s _ hc =>
    have hcut : cut? word (s ++ q :: t) =
        (cut? word t).map fun (before, rest) => (s ++ q :: before, rest) := by
      rw [cut?_join hw hq, hc]
    rw [replace_of_none hc]
    cases ht : cut? word t with
    | none =>
      rw [ht] at hcut
      rw [replace_of_none ht, replace_of_none hcut]
    | some cut =>
      rw [ht] at hcut
      rw [replace_of_cut? hw ht, replace_of_cut? hw hcut]
      simp only [List.append_assoc, List.cons_append]
  | case3 s _ before rest hc ih =>
    have hcut : cut? word (s ++ q :: t) = some (before, rest ++ q :: t) := by
      rw [cut?_join hw hq, hc]
    rw [replace_of_cut? hw hc, replace_of_cut? hw hcut, ih]
    simp only [List.append_assoc]

theorem notMem_replace (hn : q ∉ new) (h : q ∉ s) : q ∉ replace word new s := by
  induction s using replace.induct word with
  | case1 s hw =>
    rw [replace, dif_pos hw]
    exact h
  | case2 s _ hc =>
    rw [replace_of_none hc]
    exact h
  | case3 s hw before rest hc ih =>
    rw [cut?_eq hc] at h
    rw [replace_of_cut? hw hc]
    simp only [List.mem_append, not_or] at h ⊢
    exact ⟨⟨h.1.1, hn⟩, ih h.2⟩

theorem startsAnyCase_iff : startsAnyCase word s = true ↔ word <+: s.map Char.toLower := by
  induction word generalizing s with
  | nil => exact iff_of_true rfl List.nil_prefix
  | cons a w ih =>
    cases s with
    | nil => exact iff_of_false Bool.false_ne_true (by simp)
    | cons c s =>
      rw [startsAnyCase, Bool.and_eq_true, decide_eq_true_eq, ih, List.map_cons,
        List.cons_prefix_cons, eq_comm]

theorem replaceAnyCase_of_not_isInfix (h : ¬ word <:+: s.map Char.toLower) :
    replaceAnyCase word new s = s := by
  unfold replaceAnyCase
  induction s with
  | nil => rfl
  | cons c s ih =>
    have hs : ¬ startsAnyCase word (c :: s) = true := fun hs => h (startsAnyCase_iff.mp hs).isInfix
    rw [replaceAnyCaseFrom, if_neg hs, ih]
    exact fun hi => h (hi.trans (List.suffix_cons ..).isInfix)

theorem replaceAnyCase_behind {a : Char} (h : ∀ c ∈ s, c.toLower ≠ a) :
    replaceAnyCase (a :: word) new (s ++ t) = s ++ replaceAnyCase (a :: word) new t := by
  induction s with
  | nil => rfl
  | cons c s ih =>
    obtain ⟨hc, hs⟩ := List.forall_mem_cons.mp h
    have hn : ¬ startsAnyCase (a :: word) (c :: (s ++ t)) = true := by simp [startsAnyCase, hc]
    rw [List.cons_append, replaceAnyCase, replaceAnyCaseFrom, if_neg hn]
    exact congrArg _ (ih hs)

theorem startsAnyCase_join (hq : q.toLower ∉ word) :
    startsAnyCase word (s ++ q :: t) = startsAnyCase word s := by
  rw [Bool.eq_iff_iff, startsAnyCase_iff, startsAnyCase_iff, List.map_append, List.map_cons]
  exact ⟨isPrefix_left hq, fun h => h.trans (List.prefix_append ..)⟩

theorem replaceAnyCaseFrom_join (hw : word ≠ []) (hq : q.toLower ∉ word) {skip : Nat}
    (hs : skip ≤ s.length) :
    replaceAnyCaseFrom word new skip (s ++ q :: t) =
      replaceAnyCaseFrom word new skip s ++ q :: replaceAnyCaseFrom word new 0 t := by
  induction s generalizing skip with
  | nil =>
    obtain rfl : skip = 0 := Nat.le_zero.mp hs
    have hn : ¬ startsAnyCase word ([] ++ q :: t) = true := by
      rw [startsAnyCase_join hq, startsAnyCase_iff]
      exact fun h => hw (List.prefix_nil.mp h)
    rw [List.nil_append] at hn ⊢
    rw [replaceAnyCaseFrom, replaceAnyCaseFrom, if_neg hn]
    rfl
  | cons c s ih =>
    cases skip with
    | succ skip => exact ih (Nat.le_of_succ_le_succ hs)
    | zero =>
      rw [List.cons_append, replaceAnyCaseFrom, replaceAnyCaseFrom, ← List.cons_append,
        startsAnyCase_join hq]
      by_cases hc : startsAnyCase word (c :: s) = true
      · have hl := (startsAnyCase_iff.mp hc).length_le
        rw [List.length_map, List.length_cons] at hl
        rw [if_pos hc, if_pos hc, ih (by omega), List.append_assoc]
      · rw [if_neg hc, if_neg hc, ih (Nat.zero_le _)]
        rfl

theorem notMem_replaceAnyCaseFrom (hn : q ∉ new) (h : q ∉ s) (skip : Nat) :
    q ∉ replaceAnyCaseFrom word new skip s := by
  induction s generalizing skip with
  | nil =>
    rw [replaceAnyCaseFrom]
    exact List.not_mem_nil
  | cons c s ih =>
    obtain ⟨hc, hs⟩ := not_or.mp (mt List.mem_cons.mpr h)
    cases skip with
    | succ skip => exact ih hs skip
    | zero =>
      rw [replaceAnyCaseFrom]
      split
      · exact List.not_mem_append hn (ih hs _)
      · exact List.not_mem_cons_of_ne_of_not_mem hc (ih hs 0)

theorem trimEndWhile_concat {p : Char → Bool} {d : Char} (hd : p d = false) (s : List Char) :
    trimEndWhile p (s ++ [d]) = s ++ [d] := by
  unfold trimEndWhile
  rw [List.reverse_concat, List.dropWhile_cons_of_neg, List.reverse_cons, List.reverse_reverse]
  rw [hd]
  exact Bool.false_ne_true

theorem trimEndWhile_drops {p : Char → Bool} {d : Char} (hd : p d = true) (s : List Char) :
    trimEndWhile p (s ++ [d]) = trimEndWhile p s := by
  unfold trimEndWhile
  rw [List.reverse_concat, List.dropWhile_cons_of_pos hd]

theorem trimEndWhile_cons {p : Char → Bool} {d : Char} (hd : p d = false) (s : List Char) :
    trimEndWhile p (d :: s) = d :: trimEndWhile p s := by
  unfold trimEndWhile
  rw [List.reverse_cons, List.dropWhile_append]
  split
  · rename_i he
    simp [List.isEmpty_iff.mp he, hd]
  · simp

theorem trim_of_ends {c d : Char} (hc : isBlank c = false) (hd : isBlank d = false) (s : List Char) :
    trim (c :: s ++ [d]) = c :: s ++ [d] := by
  have hs : trimStart (c :: s ++ [d]) = c :: s ++ [d] := by
    unfold trimStart
    rw [List.cons_append, List.dropWhile_cons_of_neg]
    rw [hc]
    exact Bool.false_ne_true
  unfold trim
  rw [hs]
  exact trimEndWhile_concat hd _

end Text

namespace Calculation

open Text

/-- A text with the signs for conjunction and disjunction replaced by words, and without the word that
says that there is something to calculate. -/
def rewritten (text : List Char) : List Char :=
  replaceAnyCase calcWord []
    (replace ['|', '|'] " or ".toList (replace ['&', '&'] " and ".toList text))

/-- A character that is part of no sign and no word stays where it is. -/
theorem rewritten_around {q : Char} (ha : q ∉ ['&', '&']) (ho : q ∉ ['|', '|'])
    (hc : q.toLower ∉ calcWord) (s t : List Char) :
    rewritten (s ++ q :: t) = rewritten s ++ q :: rewritten t := by
  unfold rewritten replaceAnyCase
  rw [replace_join (by decide) ha, replace_join (by decide) ho]
  exact replaceAnyCaseFrom_join (by decide) hc (Nat.zero_le _)

theorem rewritten_join (s t : List Char) :
    rewritten (s ++ '\'' :: t) = rewritten s ++ '\'' :: rewritten t :=
  rewritten_around (by decide) (by decide) (by decide) s t

structure Untouched (text : List Char) : Prop where
  conjunction : ¬ ['&', '&'] <:+: text
  disjunction : ¬ ['|', '|'] <:+: text
  calculation : ¬ calcWord <:+: text.map Char.toLower

theorem untouched_of_characters {s : List Char}
    (h : ∀ c ∈ s, c ≠ '&' ∧ c ≠ '|' ∧ c.toLower ≠ 'c') : Untouched s := by
  refine ⟨fun hi => ?_, fun hi => ?_, fun hi => ?_⟩
  · exact (h '&' (hi.subset (by decide))).1 rfl
  · exact (h '|' (hi.subset (by decide))).2.1 rfl
  · obtain ⟨c, hm, hc⟩ := List.mem_map.mp (hi.subset (by decide : 'c' ∈ calcWord))
    exact (h c hm).2.2 hc

theorem rewritten_of_untouched {text : List Char} (h : Untouched text) : rewritten text = text := by
  unfold rewritten
  rw [replace_of_not_isInfix h.conjunction, replace_of_not_isInfix h.disjunction,
    replaceAnyCase_of_not_isInfix h.calculation]

theorem rewritten_nil : rewritten [] = [] :=
  rewritten_of_untouched ⟨by decide, by decide, by decide⟩

theorem quote_notMem_rewritten {text : List Char} (h : '\'' ∉ text) : '\'' ∉ rewritten text :=
  notMem_replaceAnyCaseFrom List.not_mem_nil
    (notMem_replace (by decide) (notMem_replace (by decide) h)) 0

theorem prepare_quoted (s : List Char) :
    prepare ('\'' :: s ++ ['\'']) = '\'' :: rewritten s ++ ['\''] := by
  have hr : rewritten ('\'' :: s ++ ['\'']) = '\'' :: rewritten s ++ ['\''] := by
    have hq : rewritten ('\'' :: (s ++ ['\''])) = '\'' :: rewritten (s ++ ['\'']) := by
      have h := rewritten_join [] (s ++ ['\''])
      rw [rewritten_nil] at h
      exact h
    rw [List.cons_append, hq, rewritten_join, rewritten_nil]
    rfl
  change trimEndWhile _ (trim (rewritten _)) = _
  rw [hr, trim_of_ends (by decide) (by decide)]
  exact trimEndWhile_concat (by decide) _

theorem calculateBy_prepared (query : List Char → Option Sql.Value) {text prepared : List Char}
    (hp : prepare text = prepared) (hn : prepared ≠ []) :
    calculateBy query (String.ofList text) =
      match query prepared with
      | some v => .ok (scalarOf v)
      | none => .error (.calculation (String.ofList prepared)) := by
  rw [calculateBy, String.toList_ofList, hp]
  exact if_neg (by simpa using hn)

end Calculation

end TopicHub
