import Mathlib
import TopicHub.Proofs.Replacement
import TopicHub.Proofs.Utf8

/-!
Words in any letter case. The lower-case forms of wide characters are wide again, except for those of the
dotted capital I and the Kelvin sign. So a word without `i` and `k` stands in the lower-case form of a
text just where it stands in the text letter by letter, each in either case.
-/

namespace TopicHub.Text

/-- Letters that are the lower-case form of no wide character. -/
structure Plain (c : Char) : Prop where
  lower : c.isLower = true
  dotless : c ≠ 'i'
  metric : c ≠ 'k'

instance : DecidablePred Plain := fun c =>
  decidable_of_iff (c.isLower = true ∧ c ≠ 'i' ∧ c ≠ 'k')
    ⟨fun ⟨h, hi, hk⟩ => ⟨h, hi, hk⟩, fun ⟨h, hi, hk⟩ => ⟨h, hi, hk⟩⟩

theorem not_isInfix_of_cut? {word text : List Char} (h : cut? word text = none) :
    ¬ word <:+: text := by
  induction text with
  | nil =>
    intro hi
    obtain rfl := List.infix_nil.mp hi
    cases h
  | cons c s ih =>
    rw [cut?] at h
    cases ha : after? word (c :: s) with
    | some rest =>
      rw [ha] at h
      cases h
    | none =>
      rw [ha] at h
      intro hi
      rcases List.infix_cons_iff.mp hi with hp | hi
      · exact not_isPrefix_of_after? ha hp
      · exact ih (Option.map_eq_none_iff.mp h) hi

theorem contains_iff (text word : List Char) : contains text word = true ↔ word <:+: text := by
  unfold contains
  cases hc : cut? word text with
  | none => exact iff_of_false Bool.false_ne_true (not_isInfix_of_cut? hc)
  | some cut => exact iff_of_true rfl ⟨cut.1, cut.2, (cut?_eq hc).symm⟩

theorem isInfix_append_iff {word u : List Char} (hne : word ≠ []) (hu : ∀ c ∈ u, c ∉ word)
    (s : List Char) : word <:+: u ++ s ↔ word <:+: s := by
  refine ⟨fun h => ?_, fun h => h.trans (List.suffix_append u s).isInfix⟩
  induction u with
  | nil => exact h
  | cons c u ih =>
    obtain ⟨hc, hu⟩ := List.forall_mem_cons.mp hu
    rcases isInfix_either (s := []) hc h with hnil | h
    · exact absurd (List.infix_nil.mp hnil) hne
    · exact ih hu h

theorem Plain.toNat_mem {c : Char} (h : Plain c) : 97 ≤ c.toNat ∧ c.toNat ≤ 122 := by
  have hlower := h.lower
  simp only [Char.isLower, Bool.and_eq_true, decide_eq_true_eq, UInt32.le_iff_toNat_le,
    ge_iff_le] at hlower
  exact hlower

theorem Plain.isAscii {c : Char} (h : Plain c) : IsAscii c := by
  obtain ⟨-, hle⟩ := h.toNat_mem
  unfold IsAscii
  omega

/-- The runs of the table lead to wide characters, but for the one of the Kelvin sign. -/
theorem lowerRuns_wide : ∀ r ∈ lowerRuns, 128 ≤ (r.1 : Int) + r.2.2.2 ∨
    r.1 = r.2.1 ∧ (r.1 : Int) + r.2.2.2 = 'k'.toNat := by
  decide +kernel

theorem lowerChar_ascii {c : Char} (h : IsAscii c) : lowerChar c = [c.toLower] := if_pos h

theorem toLower_wide {c : Char} (h : ¬ IsAscii c) : c.toLower = c := by
  apply Char.toLower_eq_of_not_isUpper
  intro hu
  simp only [Char.isUpper, decide_eq_true_eq, UInt32.le_iff_toNat_le] at hu
  have hZ : 'Z'.val.toNat = 90 := rfl
  have hc : c.val.toNat < 128 := by omega
  exact h hc

theorem Plain.ne_ofNat {d : Char} (h : Plain d) {n : Nat} (hn : 128 ≤ n ∨ n = 'k'.toNat) :
    d ≠ Char.ofNat n := by
  obtain ⟨hge, hle⟩ := h.toNat_mem
  rintro rfl
  have hvalue : (Char.ofNat n).toNat = n ∨ (Char.ofNat n).toNat = 0 := by
    rw [Char.toNat_ofNat]
    exact ite_eq_or_eq ..
  rcases hn with hn | rfl
  · omega
  · exact h.metric rfl

theorem Plain.notMem_lowerChar {c d : Char} (h : Plain d) (hc : ¬ IsAscii c) :
    d ∉ lowerChar c := by
  have hd := h.isAscii
  unfold IsAscii at hc
  unfold lowerChar
  rw [if_neg hc]
  split
  · rintro hmem
    simp only [List.mem_cons, List.not_mem_nil, or_false] at hmem
    rcases hmem with rfl | rfl
    · exact h.dotless rfl
    · exact absurd hd (by decide)
  · split
    · rename_i r hr
      have hrun := List.find?_some hr
      simp only [Bool.and_eq_true, decide_eq_true_eq] at hrun
      obtain ⟨⟨hge, hle⟩, -⟩ := hrun
      rw [List.mem_singleton]
      refine h.ne_ofNat ?_
      rcases lowerRuns_wide r (List.mem_of_find?_eq_some hr) with hwide | ⟨hone, hk⟩
      · left
        omega
      · right
        omega
    · intro hmem
      obtain rfl := List.mem_singleton.mp hmem
      exact hc hd

theorem lowerChar_ne_nil (c : Char) : lowerChar c ≠ [] := by
  unfold lowerChar
  split
  · exact nofun
  · split
    · exact nofun
    · split <;> exact nofun

section

variable {word : List Char} (hw : ∀ c ∈ word, Plain c)

theorem lowerAfter_ascii {c : Char} (h : IsAscii c) (before s : List Char) :
    lowerAfter before (c :: s) = c.toLower :: lowerAfter (c :: before) s := by
  have hc : c ≠ '\u03A3' := by
    rintro rfl
    exact absurd h (by decide)
  rw [lowerAfter, if_neg hc, lowerChar_ascii h]
  rfl

theorem lowerAfter_cons (before : List Char) (c : Char) (s : List Char) :
    ∃ low, lowerAfter before (c :: s) = low ++ lowerAfter (c :: before) s ∧
      (low = lowerChar c ∨ low = ['\u03C2'] ∨ low = ['\u03C3']) := by
  rw [lowerAfter]
  refine ⟨_, rfl, ?_⟩
  split
  · split
    · exact Or.inr (Or.inl rfl)
    · exact Or.inr (Or.inr rfl)
  · exact Or.inl rfl

include hw in
/-- What a wide character becomes holds no letter of the word. -/
theorem lowerAfter_wide {c : Char} (h : ¬ IsAscii c) (before s : List Char) :
    ∃ d low, (∀ e ∈ d :: low, e ∉ word) ∧
      lowerAfter before (c :: s) = d :: low ++ lowerAfter (c :: before) s := by
  have hwide : ∀ d, ¬ IsAscii d → ∀ e ∈ [d], e ∉ word := by
    intro d hd e he hm
    exact hd (List.mem_singleton.mp he ▸ (hw e hm).isAscii)
  obtain ⟨low, he, rfl | rfl | rfl⟩ := lowerAfter_cons before c s
  · have hlow : ∀ e ∈ lowerChar c, e ∉ word := fun e he hm => (hw e hm).notMem_lowerChar h he
    obtain ⟨d, low, hl⟩ := List.exists_cons_of_ne_nil (lowerChar_ne_nil c)
    rw [hl] at he hlow
    exact ⟨d, low, hlow, he⟩
  · exact ⟨_, [], hwide _ (by decide), he⟩
  · exact ⟨_, [], hwide _ (by decide), he⟩

include hw in
theorem isPrefix_lowerAfter_iff (before s : List Char) :
    word <+: lowerAfter before s ↔ word <+: s.map Char.toLower := by
  induction word generalizing before s with
  | nil => exact iff_of_true List.nil_prefix List.nil_prefix
  | cons a w ih =>
    cases s with
    | nil => rfl
    | cons c s =>
      obtain ⟨ha, hrest⟩ := List.forall_mem_cons.mp hw
      by_cases hc : IsAscii c
      · rw [lowerAfter_ascii hc, List.map_cons, List.cons_prefix_cons, List.cons_prefix_cons,
          ih hrest]
      · obtain ⟨d, low, hlow, he⟩ := lowerAfter_wide hw hc before s
        obtain ⟨hd, -⟩ := List.forall_mem_cons.mp hlow
        have had : a ≠ d := fun h => hd (h ▸ List.mem_cons_self ..)
        have hac : a ≠ c.toLower := by
          rw [toLower_wide hc]
          rintro rfl
          exact hc ha.isAscii
        rw [he, List.cons_append, List.map_cons, List.cons_prefix_cons, List.cons_prefix_cons]
        exact iff_of_false (fun h => had h.1) (fun h => hac h.1)

include hw in
theorem isInfix_lowerAfter_iff (before s : List Char) :
    word <:+: lowerAfter before s ↔ word <:+: s.map Char.toLower := by
  by_cases hne : word = []
  · subst hne
    exact iff_of_true List.nil_infix List.nil_infix
  -- A wide character and its lower-case form belong to no occurrence.
  induction s generalizing before with
  | nil => rfl
  | cons c s ih =>
    by_cases hc : IsAscii c
    · have hprefix := isPrefix_lowerAfter_iff hw before (c :: s)
      rw [lowerAfter_ascii hc, List.map_cons] at hprefix ⊢
      rw [List.infix_cons_iff, List.infix_cons_iff, hprefix, ih]
    · obtain ⟨d, low, hlow, he⟩ := lowerAfter_wide hw hc before s
      have hself : ∀ e ∈ [c.toLower], e ∉ word := by
        rw [toLower_wide hc]
        intro e h hm
        exact hc (List.mem_singleton.mp h ▸ (hw e hm).isAscii)
      rw [he, isInfix_append_iff hne hlow, ih, List.map_cons, ← List.singleton_append,
        isInfix_append_iff hne hself]

end

theorem containsIgnoreCase_iff (text : List Char) {word : List Char}
    (hw : ∀ c ∈ lower word, Plain c) :
    containsIgnoreCase text word = true ↔ lower word <:+: text.map Char.toLower := by
  unfold containsIgnoreCase
  rw [contains_iff]
  exact isInfix_lowerAfter_iff hw [] text

end TopicHub.Text
