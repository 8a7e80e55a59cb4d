import TopicHub.Proofs.LetterCase
import TopicHub.Proofs.ReadSubstitution

/-!
Texts without markers. Words that start with a letter are taken as names, unless `read` stands in the text
in any letter case, be it in a name. Words are put together again with one space between them, so that a
text in which there is nothing to resolve is kept only if its words stood so.
-/

namespace TopicHub.Variables

open Text Marker

def isName (word : List Char) : Bool := word.head?.any isAlphabetic

/-- Words with one space between them: none at either end, and no two together. -/
structure SinglySpaced (text : List Char) : Prop where
  first : text.head? ≠ some ' '
  last : text.getLast? ≠ some ' '
  apart : text.IsChain fun c d => c ≠ ' ' ∨ d ≠ ' '

theorem splitOn_eq (sep : Char) (s : List Char) : splitOn sep s = List.splitOn sep s := by
  induction s with
  | nil => rfl
  | cons c s ih =>
    obtain ⟨piece, pieces, hp⟩ := List.exists_cons_of_ne_nil (List.splitOnP_ne_nil (· == sep) s)
    unfold List.splitOn at ih ⊢
    rw [splitOn, List.splitOnP_cons_eq_if_modifyHead, ih, hp]
    simp only [beq_iff_eq]
    rfl

@[elab_as_elim]
theorem wordInduction {motive : List Char → Prop} (word : ∀ w, ' ' ∉ w → motive w)
    (space : ∀ w t, ' ' ∉ w → motive t → motive (w ++ ' ' :: t)) (text : List Char) :
    motive text := by
  induction h : text.length using Nat.strong_induction_on generalizing text with
  | _ n ih =>
    by_cases hs : ' ' ∈ text
    · obtain ⟨w, t, rfl, hw⟩ := List.eq_append_cons_of_mem hs
      rw [List.length_append, List.length_cons] at h
      exact space w t hw (ih t.length (by omega) t rfl)
    · exact word text hs

theorem notMem_of_mem_splitOn {text : List Char} : ∀ w ∈ splitOn ' ' text, ' ' ∉ w := by
  induction text using wordInduction with
  | word w hw =>
    rw [splitOn_of_notMem hw]
    exact List.forall_mem_singleton.mpr hw
  | space w t hw ih =>
    rw [splitOn_append hw]
    exact List.forall_mem_cons.mpr ⟨hw, ih⟩

theorem SinglySpaced.of_notMem {w : List Char} (h : ' ' ∉ w) : SinglySpaced w := by
  refine ⟨fun hf => h (List.mem_of_head? hf), fun hl => h (List.mem_of_getLast? hl), ?_⟩
  induction w with
  | nil => exact List.IsChain.nil
  | cons c w ih =>
    obtain ⟨hc, hw⟩ := not_or.mp (mt List.mem_cons.mpr h)
    exact List.isChain_cons.mpr ⟨fun d _ => Or.inl (Ne.symm hc), ih hw⟩

theorem singlySpaced_append_cons {w t : List Char} (hw : ' ' ∉ w) :
    SinglySpaced (w ++ ' ' :: t) ↔ w ≠ [] ∧ t ≠ [] ∧ SinglySpaced t := by
  have hlast (ht : t ≠ []) : (w ++ ' ' :: t).getLast? = t.getLast? := by
    rw [List.getLast?_append_of_ne_nil w (List.cons_ne_nil ' ' t), List.getLast?_cons_of_ne_nil ht]
  constructor
  · intro h
    obtain ⟨-, hbehind, -⟩ := List.isChain_append.mp h.apart
    obtain ⟨hhead, htail⟩ := List.isChain_cons.mp hbehind
    have hwne : w ≠ [] := by
      rintro rfl
      exact h.first rfl
    have htne : t ≠ [] := by
      rintro rfl
      exact h.last List.getLast?_concat
    refine ⟨hwne, htne, fun hf => ?_, hlast htne ▸ h.last, htail⟩
    rcases hhead ' ' hf with hs | hs <;> exact hs rfl
  · rintro ⟨hwne, htne, h⟩
    obtain ⟨c, w, rfl⟩ := List.exists_cons_of_ne_nil hwne
    have hword := SinglySpaced.of_notMem hw
    refine ⟨hword.first, (hlast htne).symm ▸ h.last, List.isChain_append.mpr ⟨hword.apart, ?_, ?_⟩⟩
    · refine List.isChain_cons.mpr ⟨fun d hd => Or.inr ?_, h.apart⟩
      rintro rfl
      exact h.first hd
    · intro d hd e _
      refine Or.inl ?_
      rintro rfl
      exact hword.last hd

theorem singlySpaced_intercalate {ws : List (List Char)} (h : ∀ w ∈ ws, w ≠ [] ∧ ' ' ∉ w) :
    SinglySpaced (List.intercalate [' '] ws) := by
  induction ws with
  | nil => exact .of_notMem List.not_mem_nil
  | cons w ws ih =>
    obtain ⟨⟨hne, hw⟩, hrest⟩ := List.forall_mem_cons.mp h
    cases ws with
    | nil =>
      rw [List.intercalate_singleton]
      exact .of_notMem hw
    | cons v ws =>
      have hlater : List.intercalate [' '] (v :: ws) ≠ [] := by
        have hv := (hrest v (List.mem_cons_self ..)).1
        cases ws with
        | nil => rwa [List.intercalate_singleton]
        | cons u ws => simp [hv]
      rw [List.intercalate_cons_cons, List.append_assoc]
      exact (singlySpaced_append_cons hw).mpr ⟨hne, hlater, ih hrest⟩

theorem SinglySpaced.ne_nil {text : List Char} (h : SinglySpaced text) (hne : text ≠ []) :
    ∀ w ∈ splitOn ' ' text, w ≠ [] := by
  induction text using wordInduction with
  | word w hw =>
    rw [splitOn_of_notMem hw]
    exact List.forall_mem_singleton.mpr hne
  | space w t hw ih =>
    obtain ⟨hwne, htne, ht⟩ := (singlySpaced_append_cons hw).mp h
    rw [splitOn_append hw]
    exact List.forall_mem_cons.mpr ⟨hwne, ih ht htne⟩

theorem intercalate_words_eq_iff (text : List Char) :
    List.intercalate [' '] (words text) = text ↔ SinglySpaced text := by
  constructor
  · intro h
    rw [← h]
    refine singlySpaced_intercalate fun w hw => ?_
    obtain ⟨hmem, hne⟩ := List.mem_filter.mp hw
    exact ⟨by simpa using hne, notMem_of_mem_splitOn w hmem⟩
  · intro h
    rcases eq_or_ne text [] with rfl | hne
    · rfl
    · have hall : words text = splitOn ' ' text :=
        List.filter_eq_self.mpr fun w hw => by simpa using h.ne_nil hne w hw
      rw [hall, splitOn_eq]
      exact List.intercalate_splitOn ' '

theorem plain_read : ∀ c ∈ lower "Read".toList, Plain c :=
  List.all_iff_forall_prop.mp (by decide)

theorem plain_calc : ∀ c ∈ lower "Calc".toList, Plain c :=
  List.all_iff_forall_prop.mp (by decide)

theorem usesBareNames_iff (text : List Char) : usesBareNames text = true ↔
    (trimStart text).head? ≠ some '{' ∧ ¬ "read".toList <:+: text.map Char.toLower ∧
      ¬ "calc".toList <:+: text.map Char.toLower ∧ ¬ [':', ':'] <:+: text := by
  have hread : containsIgnoreCase text "Read".toList = true ↔
      "read".toList <:+: text.map Char.toLower := containsIgnoreCase_iff text plain_read
  have hcalc : containsIgnoreCase text "Calc".toList = true ↔
      "calc".toList <:+: text.map Char.toLower := containsIgnoreCase_iff text plain_calc
  -- The longer keyword holds the shorter one.
  have hlong : containsIgnoreCase text "ReadFromMemory".toList = true →
      containsIgnoreCase text "Read".toList = true := by
    unfold containsIgnoreCase
    rw [contains_iff, contains_iff]
    exact fun h => List.IsInfix.trans (by decide) h
  have hcolons := contains_iff text [':', ':']
  unfold usesBareNames readKeywords
  rw [← hread, ← hcalc, ← hcolons]
  simp only [List.any_cons, List.any_nil, Bool.or_false, Bool.and_eq_true, Bool.not_eq_true',
    Bool.or_eq_false_iff, decide_eq_true_eq, Bool.not_eq_true]
  constructor
  · rintro ⟨⟨⟨hbrace, -, hr⟩, hc⟩, hs⟩
    exact ⟨hbrace, hr, hc, hs⟩
  · rintro ⟨hbrace, hr, hc, hs⟩
    have hl : containsIgnoreCase text "ReadFromMemory".toList = false :=
      Bool.eq_false_of_not_eq_true fun h => Bool.false_ne_true (hr.symm.trans (hlong h))
    exact ⟨⟨⟨hbrace, hl, hr⟩, hc⟩, hs⟩

variable {lookup : String → Option String} {text : List Char}

theorem resolve_eq_bare (h : usesBareNames text = true) :
    resolve lookup text = resolveBareNames lookup text := if_pos h

theorem resolve_of_no_marker (h : usesBareNames text = false) (hm : readMarkers text = []) :
    resolve lookup text = text := by
  unfold resolve resolveReadMarkers
  rw [h, hm]
  rfl

def wordValue (lookup : String → Option String) (word : List Char) : List Char :=
  if isName word then ((lookup (String.ofList word)).getD "").toList else word

/-- The words of a text with values in place of the names. -/
def withValues (lookup : String → Option String) (text : List Char) : List Char :=
  List.intercalate [' '] ((words text).map (wordValue lookup))

section

variable {α β : Type} {f : α → Option β} {l : List α}

theorem mapM_eq_some_map {g : α → β} (h : ∀ a ∈ l, f a = some (g a)) : l.mapM f = some (l.map g) := by
  induction l with
  | nil => rfl
  | cons a l ih =>
    obtain ⟨ha, hl⟩ := List.forall_mem_cons.mp h
    rw [List.mapM_cons, ha, ih hl]
    rfl

theorem mapM_eq_none {a : α} (ha : a ∈ l) (h : f a = none) : l.mapM f = none := by
  induction l with
  | nil => cases ha
  | cons b l ih =>
    rw [List.mapM_cons]
    rcases List.mem_cons.mp ha with rfl | ha
    · rw [h]
      rfl
    · rw [ih ha]
      cases f b <;> rfl

end

theorem resolveWord_eq (word : List Char) : resolveWord lookup word =
    if isName word = true then (lookup (String.ofList word)).map String.toList else some word := rfl

theorem resolveWord_of_value {word : List Char}
    (h : isName word = true → (lookup (String.ofList word)).isSome = true) :
    resolveWord lookup word = some (wordValue lookup word) := by
  rw [resolveWord_eq, wordValue]
  by_cases hn : isName word = true
  · obtain ⟨value, hv⟩ := Option.isSome_iff_exists.mp (h hn)
    rw [if_pos hn, if_pos hn, hv]
    rfl
  · rw [if_neg hn, if_neg hn]

theorem resolveBareNames_of_values
    (h : ∀ w ∈ words text, isName w = true → (lookup (String.ofList w)).isSome = true) :
    resolveBareNames lookup text = withValues lookup text := by
  unfold resolveBareNames
  rw [mapM_eq_some_map fun w hw => resolveWord_of_value (h w hw)]
  rfl

theorem resolveBareNames_of_unknown {w : List Char} (hw : w ∈ words text) (hn : isName w = true)
    (h : lookup (String.ofList w) = none) : resolveBareNames lookup text = text := by
  have hnone : resolveWord lookup w = none := by
    rw [resolveWord_eq, if_pos hn, h]
    rfl
  unfold resolveBareNames
  rw [mapM_eq_none hw hnone]

/-- Names that all have values are replaced by them, unless the text is an object or has `read` in it in
any letter case; then it stays as it is, although it has no marker. -/
theorem names_replaced_iff (hm : readMarkers text = []) (hs : ¬ [':', ':'] <:+: text)
    (hc : ¬ "calc".toList <:+: text.map Char.toLower)
    (hv : ∀ w ∈ words text, isName w = true → (lookup (String.ofList w)).isSome = true) :
    let held := (trimStart text).head? = some '{' ∨ "read".toList <:+: text.map Char.toLower
    (¬ held → resolve lookup text = withValues lookup text) ∧
      (held → resolve lookup text = text) ∧
      (resolve lookup text = withValues lookup text ↔ ¬ held ∨ withValues lookup text = text) := by
  intro held
  have hmode : usesBareNames text = true ↔ ¬ held := by
    rw [usesBareNames_iff]
    tauto
  have hfree (h : ¬ held) : resolve lookup text = withValues lookup text :=
    (resolve_eq_bare (hmode.mpr h)).trans (resolveBareNames_of_values hv)
  have hheld (h : held) : resolve lookup text = text :=
    resolve_of_no_marker (Bool.eq_false_of_not_eq_true fun hb => hmode.mp hb h) hm
  refine ⟨hfree, hheld, fun h => ?_, fun h => ?_⟩
  · by_cases hh : held
    · exact Or.inr (h.symm.trans (hheld hh))
    · exact Or.inl hh
  · by_cases hh : held
    · exact (hheld hh).trans (h.resolve_left (not_not_intro hh)).symm
    · exact hfree hh

def lampAndBread (name : String) : Option String :=
  if name = "lamp" then some "1" else if name = "bread" then some "2" else none

theorem lamp_replaced :
    readMarkers "3 * lamp".toList = [] ∧
      (∀ w ∈ words "3 * lamp".toList, isName w = true →
        (lampAndBread (String.ofList w)).isSome = true) ∧
      resolve lampAndBread "3 * lamp".toList = "3 * 1".toList := by
  have hm : readMarkers "3 * lamp".toList = [] := by decide
  have hv : ∀ w ∈ words "3 * lamp".toList, isName w = true →
      (lampAndBread (String.ofList w)).isSome = true := List.all_iff_forall_prop.mp (by decide)
  have hr : ¬ "read".toList <:+: "3 * lamp".toList.map Char.toLower := by decide
  have hheld : ¬ ((trimStart "3 * lamp".toList).head? = some '{' ∨
      "read".toList <:+: "3 * lamp".toList.map Char.toLower) := by
    rw [not_or]
    exact ⟨by decide, hr⟩
  have hresolve := (names_replaced_iff hm (by decide) (by decide) hv).1 hheld
  refine ⟨hm, hv, hresolve.trans ?_⟩
  decide

/-- The name has a value and the text has no marker. -/
theorem bread_not_replaced :
    readMarkers "bread + 1".toList = [] ∧ ¬ [':', ':'] <:+: "bread + 1".toList ∧
      ¬ "calc".toList <:+: "bread + 1".toList.map Char.toLower ∧
      "bread + 1".toList.head? ≠ some '{' ∧
      (∀ w ∈ words "bread + 1".toList, isName w = true →
        (lampAndBread (String.ofList w)).isSome = true) ∧
      withValues lampAndBread "bread + 1".toList = "2 + 1".toList ∧
      resolve lampAndBread "bread + 1".toList = "bread + 1".toList := by
  refine ⟨by decide, by decide, by decide, by decide, ?_, by decide, ?_⟩
  · exact List.all_iff_forall_prop.mp (by decide)
  · decide

theorem replacedFrom_eq_nil_iff {value : ReadMarker → Option (List Char)} (n : Nat)
    (ps : List (Placed ReadMarker)) :
    replacedFrom value n 0 ps = [] ↔ ∀ p ∈ ps.take n, value p.marker = none := by
  induction ps generalizing n with
  | nil => simp [replacedFrom_eq, askedFrom, scanFrom, passFrom]
  | cons p ps ih =>
    cases n with
    | zero => simp [replacedFrom_eq, askedFrom]
    | succ n =>
      rw [List.take_succ_cons, List.forall_mem_cons]
      cases hv : value p.marker with
      | none =>
        rw [replacedFrom_none (Nat.zero_le _) hv, ih]
        exact (and_iff_right rfl).symm
      | some v =>
        rw [replacedFrom_some (Nat.zero_le _) hv]
        exact iff_of_false nofun nofun

theorem resolveBareNames_eq_self_iff
    (h : ∀ w ∈ words text, isName w = true → lookup (String.ofList w) = none) :
    resolveBareNames lookup text = text ↔
      (∃ w ∈ words text, isName w = true) ∨ SinglySpaced text := by
  by_cases hex : ∃ w ∈ words text, isName w = true
  · obtain ⟨w, hw, hn⟩ := hex
    exact iff_of_true (resolveBareNames_of_unknown hw hn (h w hw hn)) (Or.inl ⟨w, hw, hn⟩)
  · have hnone : ∀ w ∈ words text, ¬ isName w = true := fun w hw hn => hex ⟨w, hw, hn⟩
    have hvalues : (words text).map (wordValue lookup) = words text :=
      (List.map_congr_left fun w hw => if_neg (hnone w hw)).trans (List.map_id' _)
    rw [resolveBareNames_of_values fun w hw hn => absurd hn (hnone w hw), withValues, hvalues,
      intercalate_words_eq_iff]
    exact (or_iff_right hex).symm

/-- A text in which no name and no marker has a value. Words without a name among them are put together
again, and are the text if they stood with one space between them. Where markers are read, the text stays
as it is if no call inside of a marker has a value, as far as the count of the markers reaches. -/
theorem nothing_to_resolve_kept_iff
    (hm : ∀ p ∈ readMarkers text, markerValue lookup p.marker = none)
    (hn : ∀ w ∈ words text, isName w = true → lookup (String.ofList w) = none) :
    let inner := ∀ p ∈ (calls text).take (readMarkers text).length, p ∉ readMarkers text →
      markerValue lookup p.marker = none
    (usesBareNames text = true →
      (resolve lookup text = text ↔ (∃ w ∈ words text, isName w = true) ∨ SinglySpaced text)) ∧
    (usesBareNames text = false →
      resolve lookup text = fill lookup text (replaced lookup text) ∧
        (replaced lookup text = [] ↔ inner) ∧ (inner → resolve lookup text = text)) := by
  intro inner
  have hreplaced : replaced lookup text = [] ↔ inner := by
    refine (replacedFrom_eq_nil_iff _ _).trans (forall₂_congr fun p _ => ?_)
    by_cases hp : p ∈ readMarkers text
    · exact iff_of_true (hm p hp) (fun hnot => absurd hp hnot)
    · exact ⟨fun h _ => h, fun h => h hp⟩
  refine ⟨fun hb => ?_, fun hb => ?_⟩
  · rw [resolve_eq_bare hb]
    exact resolveBareNames_eq_self_iff hn
  · have hfill := resolve_eq_fill lookup hb
    refine ⟨hfill, hreplaced, fun hi => ?_⟩
    rw [hfill, hreplaced.mpr hi]
    rfl

theorem unknown_marker_kept :
    usesBareNames "Read('a')  + b".toList = false ∧
      (∀ p ∈ readMarkers "Read('a')  + b".toList,
        markerValue lampAndBread p.marker = none) ∧
      (∀ w ∈ words "Read('a')  + b".toList, isName w = true →
        lampAndBread (String.ofList w) = none) ∧
      resolve lampAndBread "Read('a')  + b".toList = "Read('a')  + b".toList := by
  have hb : usesBareNames "Read('a')  + b".toList = false := by cbv
  have hm : ∀ p ∈ readMarkers "Read('a')  + b".toList, markerValue lampAndBread p.marker = none :=
    List.all_iff_forall_prop.mp (by decide)
  have hn : ∀ w ∈ words "Read('a')  + b".toList, isName w = true →
      lampAndBread (String.ofList w) = none := List.all_iff_forall_prop.mp (by decide)
  obtain ⟨-, hmarkers⟩ := nothing_to_resolve_kept_iff hm hn
  obtain ⟨-, -, hkept⟩ := hmarkers hb
  exact ⟨hb, hm, hn, hkept (List.all_iff_forall_prop.mp (by decide))⟩

/-- There is no name and no marker, and of the two spaces one is left. -/
theorem two_spaces_joined :
    readMarkers "1  2".toList = [] ∧ (∀ w ∈ words "1  2".toList, ¬ isName w = true) ∧
      resolve lampAndBread "1  2".toList = "1 2".toList := by
  refine ⟨by decide, List.all_iff_forall_prop.mp (by decide), ?_⟩
  decide

end TopicHub.Variables
