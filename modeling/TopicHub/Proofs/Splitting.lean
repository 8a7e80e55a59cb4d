import TopicHub.Text.Cut
import Mathlib.Data.List.DropRight
import Mathlib.Data.List.Infix

/-!
Cutting a text at the occurrences of words. A piece between separators has no separator in it, and
trimming it brings none in.
-/

namespace TopicHub.Text

theorem after?_eq {word text rest : List Char} (h : after? word text = some rest) :
    text = word ++ rest := by
  induction word generalizing text with
  | nil =>
    cases h
    rfl
  | cons a w ih =>
    cases text with
    | nil => cases h
    | cons c s =>
      unfold after? at h
      split at h
      · rename_i hc
        rw [hc, ih h, List.cons_append]
      · cases h

theorem cut?_eq {word text before rest : List Char}
    (h : cut? word text = some (before, rest)) :
    text = before ++ word ++ rest := by
  induction text generalizing before with
  | nil =>
    unfold cut? at h
    split at h
    · rename_i hw
      cases h
      rw [List.isEmpty_iff.mp hw]
      rfl
    · cases h
  | cons c s ih =>
    unfold cut? at h
    split at h
    · rename_i r hr
      cases h
      exact after?_eq hr
    · obtain ⟨⟨b, r⟩, hb, he⟩ := Option.map_eq_some_iff.mp h
      cases he
      rw [ih hb]
      rfl

theorem after?_append (word rest : List Char) : after? word (word ++ rest) = some rest := by
  induction word with
  | nil => rfl
  | cons a w ih =>
    rw [List.cons_append, after?, if_pos rfl]
    exact ih

theorem not_isPrefix_of_after? {word text : List Char} (h : after? word text = none) :
    ¬ word <+: text := by
  rintro ⟨rest, rfl⟩
  rw [after?_append] at h
  cases h

theorem cut?_char (c d : Char) (s : List Char) : cut? [c] (d :: s) =
    if c = d then some ([], s) else (cut? [c] s).map fun (before, rest) => (d :: before, rest) := by
  rw [cut?, after?]
  by_cases h : c = d
  · rw [if_pos h, if_pos h]
    rfl
  · rw [if_neg h, if_neg h]

theorem cut?_of_notMem {c : Char} {s : List Char} (h : c ∉ s) (rest : List Char) :
    cut? [c] (s ++ c :: rest) = some (s, rest) := by
  induction s with
  | nil => rw [List.nil_append, cut?_char, if_pos rfl]
  | cons d s ih =>
    obtain ⟨hd, hs⟩ := not_or.mp (mt List.mem_cons.mpr h)
    rw [List.cons_append, cut?_char, if_neg hd, ih hs]
    rfl

theorem notMem_of_cut? {c : Char} {text before rest : List Char}
    (h : cut? [c] text = some (before, rest)) : c ∉ before := by
  induction text generalizing before with
  | nil => cases h
  | cons d s ih =>
    rw [cut?_char] at h
    split at h
    · cases h
      exact List.not_mem_nil
    · rename_i hd
      obtain ⟨⟨b, r⟩, hb, he⟩ := Option.map_eq_some_iff.mp h
      cases he
      exact List.not_mem_cons_of_ne_of_not_mem hd (ih hb)

theorem joined_inj {p q t u : String} (hp : '/' ∉ p.toList) (hq : '/' ∉ q.toList) :
    p ++ "/" ++ t = q ++ "/" ++ u ↔ p = q ∧ t = u := by
  constructor
  · intro h
    have hl := congrArg String.toList h
    simp only [String.toList_append, List.append_assoc] at hl
    have hc : cut? ['/'] (p.toList ++ '/' :: t.toList) = cut? ['/'] (q.toList ++ '/' :: u.toList) :=
      congrArg (cut? ['/']) hl
    rw [cut?_of_notMem hp, cut?_of_notMem hq] at hc
    obtain ⟨hpq, htu⟩ := Prod.mk.inj (Option.some.inj hc)
    exact ⟨String.toList_inj.mp hpq, String.toList_inj.mp htu⟩
  · rintro ⟨rfl, rfl⟩
    rfl

def Free (seps : List (List Char)) (text : List Char) : Prop := ∀ sep ∈ seps, ¬ sep <:+: text

instance (seps : List (List Char)) (text : List Char) : Decidable (Free seps text) :=
  inferInstanceAs (Decidable (∀ sep ∈ seps, ¬ sep <:+: text))

variable {seps : List (List Char)} {text before rest : List Char}

theorem Free.of_isInfix {part : List Char} (h : Free seps text) (hp : part <:+: text) :
    Free seps part := by
  intro sep hs hi
  exact h sep hs (hi.trans hp)

theorem starts_with_none (h : (seps.findSome? fun sep => after? sep text) = none) :
    ∀ sep ∈ seps, ¬ sep <+: text := by
  intro sep hs
  exact not_isPrefix_of_after? (List.findSome?_eq_none_iff.mp h sep hs)

theorem free_of_cutAny? (h : cutAny? seps text = none) : Free seps text := by
  induction text with
  | nil =>
    rw [cutAny?, Option.map_eq_none_iff] at h
    intro sep hs hi
    exact starts_with_none h sep hs (List.infix_nil.mp hi ▸ List.prefix_rfl)
  | cons c s ih =>
    unfold cutAny? at h
    split at h
    · cases h
    · rename_i hn
      rw [Option.map_eq_none_iff] at h
      intro sep hs hi
      rcases List.infix_cons_iff.mp hi with hp | hi
      · exact starts_with_none hn sep hs hp
      · exact ih h sep hs hi

theorem starts_with_some (h : (seps.findSome? fun sep => after? sep text) = some rest) :
    ∃ sep ∈ seps, text = sep ++ rest := by
  obtain ⟨sep, hs, ha⟩ := List.exists_of_findSome?_eq_some h
  exact ⟨sep, hs, after?_eq ha⟩

theorem cutAny?_eq (h : cutAny? seps text = some (before, rest)) :
    ∃ sep ∈ seps, text = before ++ sep ++ rest := by
  induction text generalizing before with
  | nil =>
    obtain ⟨r, hr, he⟩ := Option.map_eq_some_iff.mp h
    cases he
    exact starts_with_some hr
  | cons c s ih =>
    unfold cutAny? at h
    split at h
    · rename_i r hr
      cases h
      exact starts_with_some hr
    · obtain ⟨⟨b, r⟩, hb, he⟩ := Option.map_eq_some_iff.mp h
      cases he
      obtain ⟨sep, hs, he⟩ := ih hb
      refine ⟨sep, hs, ?_⟩
      rw [he]
      simp

theorem free_nil (hne : [] ∉ seps) : Free seps [] := by
  intro sep hs hi
  rw [List.infix_nil.mp hi] at hs
  exact hne hs

theorem free_before (hne : [] ∉ seps) (h : cutAny? seps text = some (before, rest)) :
    Free seps before := by
  induction text generalizing before with
  | nil =>
    obtain ⟨r, -, he⟩ := Option.map_eq_some_iff.mp h
    cases he
    exact free_nil hne
  | cons c s ih =>
    unfold cutAny? at h
    split at h
    · cases h
      exact free_nil hne
    · rename_i hn
      obtain ⟨⟨b, r⟩, hb, he⟩ := Option.map_eq_some_iff.mp h
      cases he
      have hbs : b <+: s := by
        obtain ⟨sep, -, he⟩ := cutAny?_eq hb
        rw [he, List.append_assoc]
        exact List.prefix_append ..
      intro sep hs hi
      rcases List.infix_cons_iff.mp hi with hp | hi
      · exact starts_with_none hn sep hs (hp.trans (List.cons_prefix_cons.mpr ⟨rfl, hbs⟩))
      · exact ih hb sep hs hi

theorem pieces_of_none (h : cutAny? (seps.filter (· ≠ [])) text = none) :
    pieces seps text = [text] := by
  rw [pieces]
  split
  · rfl
  · rename_i hc
    rw [h] at hc
    cases hc

theorem pieces_of_some (h : cutAny? (seps.filter (· ≠ [])) text = some (before, rest)) :
    pieces seps text = before :: pieces seps rest := by
  rw [pieces]
  split
  · rename_i hc
    rw [h] at hc
    cases hc
  · rename_i hc
    rw [h] at hc
    cases hc
    rfl

theorem filter_nonempty (h : [] ∉ seps) : seps.filter (· ≠ []) = seps := by
  rw [List.filter_eq_self]
  intro sep hs
  rw [decide_eq_true_eq]
  rintro rfl
  exact h hs

theorem free_pieces (hne : [] ∉ seps) (text : List Char) :
    ∀ piece ∈ pieces seps text, Free seps piece := by
  induction text using pieces.induct seps with
  | case1 text hc =>
    rw [pieces_of_none hc]
    rw [filter_nonempty hne] at hc
    intro piece hp
    rw [List.mem_singleton.mp hp]
    exact free_of_cutAny? hc
  | case2 text before rest hc ih =>
    rw [pieces_of_some hc]
    rw [filter_nonempty hne] at hc
    intro piece hp
    rcases List.mem_cons.mp hp with rfl | hp
    · exact free_before hne hc
    · exact ih piece hp

theorem pieces_isInfix (seps : List (List Char)) (text : List Char) :
    ∀ piece ∈ pieces seps text, piece <:+: text := by
  induction text using pieces.induct seps with
  | case1 text hc =>
    rw [pieces_of_none hc]
    intro piece hp
    rw [List.mem_singleton.mp hp]
  | case2 text before rest hc ih =>
    rw [pieces_of_some hc]
    obtain ⟨sep, -, he⟩ := cutAny?_eq hc
    intro piece hp
    rcases List.mem_cons.mp hp with rfl | hp
    · exact ⟨[], sep ++ rest, by rw [he, List.nil_append, List.append_assoc]⟩
    · exact (ih piece hp).trans (he ▸ (List.suffix_append _ rest).isInfix)

theorem splitOn_of_notMem {sep : Char} {s : List Char} (h : sep ∉ s) : splitOn sep s = [s] := by
  induction s with
  | nil => rfl
  | cons c s ih =>
    obtain ⟨hc, hs⟩ := not_or.mp (mt List.mem_cons.mpr h)
    rw [splitOn, if_neg (Ne.symm hc), ih hs]

theorem splitOn_append {sep : Char} {s : List Char} (h : sep ∉ s) (t : List Char) :
    splitOn sep (s ++ sep :: t) = s :: splitOn sep t := by
  induction s with
  | nil => simp [splitOn]
  | cons c s ih =>
    obtain ⟨hc, hs⟩ := not_or.mp (mt List.mem_cons.mpr h)
    rw [List.cons_append, splitOn, if_neg (Ne.symm hc), ih hs]

theorem subset_of_mem_splitOn {sep : Char} {s t : List Char} (h : t ∈ splitOn sep s) : t ⊆ s := by
  induction s generalizing t with
  | nil => exact List.mem_singleton.mp h ▸ List.Subset.refl _
  | cons c s ih =>
    rw [splitOn] at h
    split at h
    · rcases List.mem_cons.mp h with rfl | h
      · exact List.nil_subset _
      · exact List.subset_cons_of_subset _ (ih h)
    · split at h
      · rw [List.mem_singleton.mp h]
        exact List.cons_subset_cons _ (List.nil_subset _)
      · rename_i hp
        rw [hp] at ih
        rcases List.mem_cons.mp h with rfl | h
        · exact List.cons_subset_cons _ (ih (List.mem_cons_self ..))
        · exact List.subset_cons_of_subset _ (ih (List.mem_cons_of_mem _ h))

theorem trimEndWhile_isPrefix (p : Char → Bool) (s : List Char) : trimEndWhile p s <+: s := by
  have h := List.dropWhile_suffix p (l := s.reverse)
  unfold trimEndWhile
  rw [← List.reverse_suffix, List.reverse_reverse]
  exact h

theorem trim_isInfix (s : List Char) : trim s <:+: s :=
  (trimEndWhile_isPrefix isBlank (trimStart s)).isInfix.trans (List.dropWhile_suffix isBlank).isInfix

theorem trimStart_of_isPrefix {s t : List Char} (hs : trimStart s = s) (ht : t <+: s) :
    trimStart t = t := by
  cases t with
  | nil => rfl
  | cons c t =>
    obtain ⟨u, rfl⟩ := ht
    unfold trimStart at hs ⊢
    rw [List.cons_append, List.dropWhile_eq_self_iff] at hs
    rw [List.dropWhile_eq_self_iff]
    intro _
    exact hs (Nat.succ_pos _)

theorem trimStart_trimStart (s : List Char) : trimStart (trimStart s) = trimStart s :=
  List.dropWhile_idempotent isBlank s

theorem trimEnd_trimEnd (s : List Char) : trimEnd (trimEnd s) = trimEnd s := by
  unfold trimEnd trimEndWhile
  rw [List.reverse_reverse, List.dropWhile_idempotent]

theorem trim_trim (s : List Char) : trim (trim s) = trim s := by
  have hs : trimStart (trim s) = trim s :=
    trimStart_of_isPrefix (trimStart_trimStart s) (trimEndWhile_isPrefix isBlank (trimStart s))
  calc trim (trim s)
    _ = trimEnd (trim s) := congrArg trimEnd hs
    _ = trim s := trimEnd_trimEnd (trimStart s)

theorem mem_of_splitAny? {parts : List (List Char)} (h : splitAny? seps text = some parts) :
    ∀ part ∈ parts, ∃ piece ∈ pieces seps text, part = trim piece := by
  unfold splitAny? at h
  dsimp only at h
  split at h
  · cases h
    intro part hp
    obtain ⟨piece, hm, he⟩ := List.mem_map.mp hp
    exact ⟨piece, hm, he.symm⟩
  · cases h

theorem splitAny?_ne_nil {parts : List (List Char)} (h : splitAny? seps text = some parts) :
    parts ≠ [] := by
  rw [splitAny?] at h
  by_cases hl : (pieces seps text).length > 1
  · simp only [hl, if_true, Option.some.injEq] at h
    rintro rfl
    rw [List.map_eq_nil_iff.mp h] at hl
    cases hl
  · simp [hl] at h

theorem part_isInfix {parts : List (List Char)} (h : splitAny? seps text = some parts) :
    ∀ part ∈ parts, part <:+: text := by
  intro part hp
  obtain ⟨piece, hm, rfl⟩ := mem_of_splitAny? h part hp
  exact (trim_isInfix piece).trans (pieces_isInfix seps text piece hm)

theorem free_part (hne : [] ∉ seps) {parts : List (List Char)}
    (h : splitAny? seps text = some parts) : ∀ part ∈ parts, Free seps part ∧ trim part = part := by
  intro part hp
  obtain ⟨piece, hm, rfl⟩ := mem_of_splitAny? h part hp
  exact ⟨(free_pieces hne text piece hm).of_isInfix (trim_isInfix piece), trim_trim piece⟩

theorem splitAny?_of_free (h : Free seps text) : splitAny? seps text = none := by
  have hp : pieces seps text = [text] := by
    cases hc : cutAny? (seps.filter (· ≠ [])) text with
    | none => exact pieces_of_none hc
    | some cut =>
      obtain ⟨sep, hs, he⟩ := cutAny?_eq hc
      exact absurd ⟨cut.1, cut.2, he.symm⟩ (h sep (List.mem_of_mem_filter hs))
  unfold splitAny?
  rw [hp]
  rfl

end TopicHub.Text
