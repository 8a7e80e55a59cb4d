import TopicHub.Proofs.Json.MemberPath
import TopicHub.Proofs.Marker.ReadSearch

/-!
Keys in quotes and brackets. What ends the brackets is looked for without regard to the quotes, in a path
as well as behind a read call, so that a closing bracket in the key ends them. Behind a read call this
cuts off the key. A path goes on with the next group, and is found as a whole if each bracket in the key
is followed by such a group; otherwise it ends inside the quotes, and picks nothing.
-/

namespace TopicHub

open Text

namespace Json

/-- Members behind points, if any, and then an opening bracket. -/
inductive Reopens : List Char → Prop where
  | bracket (s : List Char) : Reopens ('[' :: s)
  | member {c : Char} {name s : List Char} (hc : Marker.isNameStart c = true)
    (hn : ∀ d ∈ name, Marker.isNamePart d = true) (h : Reopens s) : Reopens ('.' :: c :: (name ++ s))

/-- Another group is opened behind each closing bracket. -/
def Bridged (key : List Char) : Prop := ∀ a b, key = a ++ ']' :: b → Reopens b

theorem reopens_point {c : Char} {s : List Char} (hc : Marker.isNameStart c = true) :
    Reopens ('.' :: c :: s) ↔ Reopens (s.dropWhile Marker.isNamePart) := by
  constructor
  · intro h
    cases h with
    | member _ hn h =>
      -- The name ends where the rest begins, with a bracket or a point.
      cases h with
      | bracket s =>
        rw [Marker.dropWhile_append_of_not hn (by decide)]
        exact .bracket s
      | member hd hm h =>
        rw [Marker.dropWhile_append_of_not hn (by decide)]
        exact .member hd hm h
  · intro h
    rw [← List.takeWhile_append_dropWhile (p := Marker.isNamePart) (l := s)]
    exact .member hc (fun d hd => List.mem_takeWhile_imp hd) h

theorem bridged_cons {c : Char} {s : List Char} (hc : c ≠ ']') : Bridged (c :: s) ↔ Bridged s := by
  constructor
  · rintro h a b rfl
    exact h (c :: a) b rfl
  · intro h a b he
    cases a with
    | nil => exact absurd (List.cons.inj he).1 hc
    | cons d a => exact h a b (List.cons.inj he).2

theorem bridged_append {a : List Char} (ha : ']' ∉ a) (s : List Char) :
    Bridged (a ++ s) ↔ Bridged s := by
  induction a with
  | nil => rfl
  | cons c a ih =>
    obtain ⟨hc, ha⟩ := not_or.mp (mt List.mem_cons.mpr ha)
    exact (bridged_cons (Ne.symm hc)).trans (ih ha)

theorem bridged_close {s : List Char} : Bridged (']' :: s) ↔ Reopens s ∧ Bridged s := by
  constructor
  · intro h
    refine ⟨h [] s rfl, ?_⟩
    rintro a b rfl
    exact h (']' :: a) b rfl
  · rintro ⟨hr, h⟩ a b he
    cases a with
    | nil => exact (List.cons.inj he).2 ▸ hr
    | cons d a => exact h a b (List.cons.inj he).2

theorem bridged_of_notMem {key : List Char} (h : ']' ∉ key) : Bridged key := by
  rintro a b rfl
  exact absurd (List.mem_append_right a (List.mem_cons_self ..)) h

def closing (rest : List Char) : List Char := '\'' :: ']' :: ' ' :: rest

/-- What is read of the groups in a key that follow a closing bracket: all of them and the end of the
quotes, or else a part of the key. -/
inductive Grouped (key rest : List Char) : Option (List Char × List Char) → Prop where
  | whole (hr : Reopens key) (hb : Bridged key) :
    Grouped key rest (some (key ++ ['\'', ']'], ' ' :: rest))
  | part {groups after : List Char} (h : ¬ (Reopens key ∧ Bridged key)) (hg : groups <+: key) :
    Grouped key rest (some (groups, after))

theorem Grouped.behind {key rest : List Char} {found : Option (List Char × List Char)}
    (front : List Char) (h : Grouped key rest found)
    (hk : Reopens (front ++ key) ∧ Bridged (front ++ key) ↔ Reopens key ∧ Bridged key) :
    Grouped (front ++ key) rest (found.map fun (more, after) => (front ++ more, after)) := by
  cases h with
  | whole hr hb =>
    obtain ⟨hr, hb⟩ := hk.mpr ⟨hr, hb⟩
    have hw : Grouped (front ++ key) rest _ := .whole hr hb
    rwa [List.append_assoc] at hw
  | part h hg => exact .part (mt hk.mp h) ((List.prefix_append_right_inj front).mpr hg)

theorem readGroups_member (n : ℕ) {c : Char} (hc : Marker.isNameStart c = true) (s : List Char) :
    readGroups (n + 1) ('.' :: c :: s) = (readGroups n (s.dropWhile Marker.isNamePart)).map
      fun (more, after) => ('.' :: c :: s.takeWhile Marker.isNamePart ++ more, after) := by
  have hp : Marker.isNamePart c = true := Marker.isNamePart_of_isNameStart hc
  have hm : readGroups (n + 1) ('.' :: c :: s) =
      if Marker.isNameStart c then
        (readGroups n ((c :: s).dropWhile Marker.isNamePart)).map
          fun (more, after) => ('.' :: (c :: s).takeWhile Marker.isNamePart ++ more, after)
      else some ([], '.' :: c :: s) := rfl
  rw [hm, if_pos hc, List.takeWhile_cons_of_pos hp, List.dropWhile_cons_of_pos hp]

theorem readGroups_unnamed (n : ℕ) {c : Char} (hc : ¬ Marker.isNameStart c = true) (s : List Char) :
    readGroups n ('.' :: c :: s) = some ([], '.' :: c :: s) := by
  cases n with
  | zero => rfl
  | succ n => exact if_neg hc

/-- What stands behind a name, if it is no part of one, is left when the name is taken. -/
theorem takeWhile_closing (s rest : List Char) :
    (s ++ closing rest).takeWhile Marker.isNamePart = s.takeWhile Marker.isNamePart ∧
      (s ++ closing rest).dropWhile Marker.isNamePart = s.dropWhile Marker.isNamePart ++ closing rest := by
  induction s with
  | nil => exact ⟨rfl, rfl⟩
  | cons c s ih =>
    by_cases hc : Marker.isNamePart c = true
    · simp only [List.cons_append, List.takeWhile_cons_of_pos hc, List.dropWhile_cons_of_pos hc, ih,
        and_self]
    · simp only [List.cons_append, List.takeWhile_cons_of_neg hc, List.dropWhile_cons_of_neg hc,
        and_self]

section

variable {rest : List Char} {n : ℕ}

theorem grouped_last {s : List Char} (hs : ']' ∉ s) :
    Grouped ('[' :: s) rest (readGroups (n + 1) ('[' :: s ++ closing rest)) := by
  have hg : ']' ∉ s ++ ['\''] := by simpa using hs
  have hb : Bridged ('[' :: s) := (bridged_cons (by decide)).mpr (bridged_of_notMem hs)
  have ht : '[' :: s ++ closing rest = '[' :: (s ++ ['\''] ++ ']' :: ' ' :: rest) := by
    simp [closing]
  have hw : Grouped ('[' :: s) rest _ := .whole (.bracket s) hb
  rw [ht, readGroups_bracket n hg, readGroups_other n (by decide) (by decide)]
  simpa using hw

theorem grouped_bracket {u v : List Char} (hu : ']' ∉ u)
    (h : Grouped v rest (readGroups n (v ++ closing rest))) :
    Grouped ('[' :: (u ++ ']' :: v)) rest
      (readGroups (n + 1) ('[' :: (u ++ ']' :: v) ++ closing rest)) := by
  have hk : '[' :: (u ++ ']' :: v) = '[' :: u ++ [']'] ++ v := by simp
  have ht : '[' :: (u ++ ']' :: v) ++ closing rest = '[' :: (u ++ ']' :: (v ++ closing rest)) := by
    simp
  have hb : Bridged ('[' :: (u ++ ']' :: v)) ↔ Reopens v ∧ Bridged v :=
    (bridged_cons (by decide)).trans ((bridged_append hu _).trans bridged_close)
  have hf := h.behind ('[' :: u ++ [']']) (by
    rw [← hk, hb]
    exact and_iff_right (.bracket _))
  rw [ht, readGroups_bracket n hu, hk]
  simpa using hf

theorem grouped_member {c : Char} (hc : Marker.isNameStart c = true) {s : List Char}
    (h : Grouped (s.dropWhile Marker.isNamePart) rest
      (readGroups n (s.dropWhile Marker.isNamePart ++ closing rest))) :
    Grouped ('.' :: c :: s) rest (readGroups (n + 1) ('.' :: c :: s ++ closing rest)) := by
  have hn : ']' ∉ '.' :: c :: s.takeWhile Marker.isNamePart := by
    intro hm
    rcases List.mem_cons.mp hm with h | hm
    · cases h
    · rcases List.mem_cons.mp hm with rfl | hm
      · cases hc
      · cases List.mem_takeWhile_imp hm
  have hk : '.' :: c :: s =
      '.' :: c :: s.takeWhile Marker.isNamePart ++ s.dropWhile Marker.isNamePart := by
    simp
  have hf := h.behind ('.' :: c :: s.takeWhile Marker.isNamePart) (by
    rw [bridged_append hn, ← hk, reopens_point hc])
  obtain ⟨ht, hd⟩ := takeWhile_closing s rest
  rw [← hk] at hf
  rw [List.cons_append, List.cons_append, readGroups_member n hc, ht, hd]
  exact hf

end

theorem grouped_readGroups (rest : List Char) (n : ℕ) : ∀ key : List Char, key.length < n →
    Grouped key rest (readGroups n (key ++ closing rest)) := by
  induction n with
  | zero => exact fun key h => absurd h (Nat.not_lt_zero _)
  | succ n ih =>
    intro key hn
    -- Only an opening bracket, or a point with a name behind it, is read on.
    have hstop {s : List Char} (hs : ¬ Reopens key)
        (h : readGroups (n + 1) (key ++ closing rest) = some ([], s)) :
        Grouped key rest (readGroups (n + 1) (key ++ closing rest)) := by
      rw [h]
      exact .part (fun hk => hs hk.1) (List.nil_prefix ..)
    rcases key with _ | ⟨c, s⟩
    · exact hstop nofun (readGroups_other _ (by decide) (by decide) _)
    have hl : s.length < n := Nat.lt_of_succ_lt_succ hn
    by_cases hb : c = '['
    · subst hb
      by_cases hm : ']' ∈ s
      · obtain ⟨u, v, rfl, hu⟩ := List.eq_append_cons_of_mem hm
        rw [List.length_append, List.length_cons] at hl
        exact grouped_bracket hu (ih v (by omega))
      · exact grouped_last hm
    by_cases hp : c = '.'
    · subst hp
      rcases s with _ | ⟨d, s⟩
      · exact hstop nofun (readGroups_unnamed _ (by decide) _)
      by_cases hd : Marker.isNameStart d = true
      · have hdrop := (List.dropWhile_suffix Marker.isNamePart (l := s)).length_le
        rw [List.length_cons] at hl
        exact grouped_member hd (ih _ (by omega))
      · refine hstop ?_ (readGroups_unnamed _ hd _)
        intro h
        cases h with
        | member hc => exact hd hc
    · refine hstop ?_ (readGroups_other _ hb hp _)
      intro h
      cases h with
      | bracket => exact hb rfl
      | member => exact hp rfl

variable {key : String}

/-- What is found of a path to a member: all of it, or else a part of the key with an open quote in front. -/
inductive Spanned (key : String) (rest : List Char) : Option Inline → Prop where
  | whole (hb : Bridged key.toList) : Spanned key rest (some ⟨[], memberPath key, ' ' :: rest⟩)
  | part {name after : List Char} (hb : ¬ Bridged key.toList) (hn : name <+: key.toList) :
    Spanned key rest (some ⟨[], '$' :: '[' :: '\'' :: name, after⟩)

theorem spanned_find? (key : String) (rest : List Char) :
    Spanned key rest (Inline.find? (memberPath key ++ ' ' :: rest)) := by
  by_cases hm : ']' ∈ key.toList
  · obtain ⟨a, b, hk, ha⟩ := List.eq_append_cons_of_mem hm
    have hb : Bridged key.toList ↔ Reopens b ∧ Bridged b := by
      rw [hk]
      exact (bridged_append ha _).trans bridged_close
    have hq : ']' ∉ '\'' :: a := List.not_mem_cons_of_ne_of_not_mem (by decide) ha
    have ht : memberPath key ++ ' ' :: rest =
        '$' :: '[' :: ('\'' :: a ++ ']' :: (b ++ closing rest)) := by
      simp [memberPath, hk, closing]
    have hf : Inline.find? (memberPath key ++ ' ' :: rest) =
        (readGroups (('\'' :: a ++ ']' :: (b ++ closing rest)).length + 1)
          ('[' :: ('\'' :: a ++ ']' :: (b ++ closing rest)))).map
            fun (groups, after) => ⟨[], '$' :: groups, after⟩ := by
      rw [ht]
      rfl
    have hg := grouped_readGroups rest ('\'' :: a ++ ']' :: (b ++ closing rest)).length b
      (by simp; omega)
    rw [hf, readGroups_bracket _ hq]
    generalize readGroups _ (b ++ closing rest) = found at hg
    cases hg with
    | whole hr hbb =>
      have hw : Spanned key rest _ := .whole (hb.mpr ⟨hr, hbb⟩)
      simpa [memberPath, hk] using hw
    | @part groups after h hpre =>
      have hname : a ++ ']' :: groups <+: key.toList := by
        rw [hk]
        exact (List.prefix_append_right_inj a).mpr (List.cons_prefix_cons.mpr ⟨rfl, hpre⟩)
      have hp : Spanned key rest (some ⟨[], '$' :: '[' :: '\'' :: (a ++ ']' :: groups), after⟩) :=
        .part (mt hb.mp h) hname
      simpa using hp
  · rw [find?_member hm]
    exact .whole (bridged_of_notMem hm)

theorem readName_open {name : List Char} (h : Verbatim name) : readName '\'' name = none := by
  induction name with
  | nil => rfl
  | cons c s ih =>
    obtain ⟨hq, hb, hc⟩ := h c (List.mem_cons_self ..)
    rw [readName_cons hq hb hc, ih fun d hd => h d (List.mem_cons_of_mem _ hd)]
    rfl

theorem readPath_open {name : List Char} (h : Verbatim name) :
    Path.read? ('$' :: '[' :: '\'' :: name) = none := by
  have hs (fuel : ℕ) : readSelector (fuel + 1) ('\'' :: name) = none := by
    rw [readSelector_quoted, readName_open h, Option.map_none]
  have hl (fuel : ℕ) : readSelectors (fuel + 2) ('\'' :: name) = none := by
    have hb : skipBlank ('\'' :: name) = '\'' :: name := rfl
    rw [readSelectors, hb, hs]
  have hg (fuel : ℕ) : readSegments (fuel + 3) ('[' :: '\'' :: name) = none := by
    have hb : skipBlank ('[' :: '\'' :: name) = '[' :: '\'' :: name := rfl
    rw [readSegments, hb]
    simp only [hl]
  have hr := hg (4 * ('[' :: '\'' :: name).length + 5)
  unfold Path.read?
  simp only [hr]

theorem firstMatch_open {name : List Char} (h : Verbatim name) (document : String) :
    firstMatch ('$' :: '[' :: '\'' :: name) document = none := by
  unfold firstMatch
  rw [readPath_open h]
  cases Value.read? document <;> rfl

theorem member_found_iff (hk : Verbatim key.toList) (rest : List Char) :
    let found := Inline.find? (memberPath key ++ ' ' :: rest)
    (found = some ⟨[], memberPath key, ' ' :: rest⟩ ↔ Bridged key.toList) ∧
    ∀ (document : String) (v : Value),
      (Value.read? document).bind (Value.field? key) = some v →
        ((found.bind fun p => firstMatch p.path document) = some v ↔ Bridged key.toList) := by
  intro found
  have hs : Spanned key rest found := spanned_find? key rest
  generalize found = f at hs
  cases hs with
  | whole hb =>
    refine ⟨iff_of_true rfl hb, fun document v hv => iff_of_true ?_ hb⟩
    exact (firstMatch_member hk document).trans hv
  | @part name after hb hn =>
    have hv : Verbatim name := fun c hc => hk c (hn.subset hc)
    refine ⟨iff_of_false ?_ hb, fun document v _ => iff_of_false ?_ hb⟩
    · intro h
      have hp : name = key.toList ++ ['\'', ']'] := by
        simpa [memberPath] using congrArg (Option.map Inline.path) h
      have hq : '\'' ∈ name := by simp [hp]
      exact (hv _ hq).1 rfl
    · rw [Option.bind_some, firstMatch_open hv]
      exact (Option.some_ne_none v).symm

end Json

namespace Marker

def indexed (topic key : List Char) : List Char :=
  "Read".toList ++ '(' :: '\'' :: topic ++ '\'' :: ')' :: ('[' :: key ++ [']'])

theorem unquote_subset (s : List Char) : unquote s ⊆ s := by
  unfold unquote
  dsimp only
  refine fun c hc => ?_
  have hinner := (trimEndWhile_isPrefix _ _).subset ((trim_isInfix _).subset hc)
  exact (trim_isInfix s).subset ((List.dropWhile_suffix _).subset hinner)

theorem findReadFrom_indexed {topic key : List Char} (ht : '\'' ∉ topic) (hk : ']' ∉ key)
    (rest : List Char) :
    findReadFrom (indexed topic key ++ rest) 0 = some ⟨[], indexed topic key,
      ⟨String.ofList (unquote ('\'' :: topic ++ ['\''])), some (String.ofList (unquote key))⟩,
      rest⟩ := by
  have hkeyword : "Read".toList ∈ readKeywords := by decide
  have hquote : '\'' ∈ quotes := by decide
  have hcall := readCall_quoted hkeyword hquote ht ('[' :: key ++ ']' :: rest)
  obtain ⟨argument, behind, ha, hb, hread⟩ := read_of_readCall hcall
  have htext : indexed topic key ++ rest = "Read".toList ++ '(' :: '\'' :: topic ++
      '\'' :: ')' :: ('[' :: key ++ ']' :: rest) := by
    simp [indexed]
  rw [← htext, ← octets_inj ha, ← octets_inj hb] at hread
  have hat : readAt? (indexed topic key ++ rest) = some (⟨String.ofList (unquote
      ('\'' :: topic ++ ['\''])), some (String.ofList (unquote key))⟩, rest) := by
    rw [readAt?_eq_map, hread, Option.map_some]
    unfold markerOf
    dsimp only
    rw [key?_of_notMem hk]
  have hfind := findReadFrom_append [] (indexed topic key ++ rest)
  rw [findRead_of_readAt? rfl hat, consumed_append] at hfind
  exact hfind

theorem indexed_found_iff {key : String} (hq : ∀ q ∈ quotes, q ∉ key.toList)
    (htrim : trim key.toList = key.toList) {topic : List Char} (ht : '\'' ∉ topic) :
    let text := indexed topic ('\'' :: key.toList ++ ['\''])
    ∃ p, findReadFrom text 0 = some p ∧ p.before = [] ∧
      (p.marker.key = some key ↔ ']' ∉ key.toList) ∧ (p.written = text ↔ ']' ∉ key.toList) := by
  intro text
  by_cases hm : ']' ∈ key.toList
  · obtain ⟨a, b, hk, ha⟩ := List.eq_append_cons_of_mem hm
    have hqa : ']' ∉ '\'' :: a := List.not_mem_cons_of_ne_of_not_mem (by decide) ha
    have htext : text = indexed topic ('\'' :: a) ++ (b ++ ['\'', ']']) := by
      simp [text, indexed, hk]
    refine ⟨_, htext ▸ findReadFrom_indexed ht hqa _, rfl, ?_, ?_⟩
    · refine iff_of_false (fun h => ?_) (not_not_intro hm)
      have hu : unquote ('\'' :: a) = key.toList := by
        rw [← Option.some.inj h, String.toList_ofList]
      exact hqa (unquote_subset _ (hu ▸ hm))
    · refine iff_of_false (fun h => ?_) (not_not_intro hm)
      have hl := congrArg List.length (h.trans htext)
      simp at hl
  · have hu : ']' ∉ '\'' :: key.toList ++ ['\''] := by simpa using hm
    have hf := findReadFrom_indexed ht hu []
    rw [List.append_nil, unquote_quoted (by decide) hq htrim, String.ofList_toList] at hf
    exact ⟨_, hf, rfl, iff_of_true rfl hm, iff_of_true rfl hm⟩

end Marker

open Json Marker

/-- Brackets with a key in quotes are found as a whole, in a path and behind a read call, if there is no
closing bracket in the key. If there is one, the key behind a call is cut off; a path is still found, and
picks the value, if each of them is followed by a further group. -/
theorem quoted_key_whole_iff {key : String} (hq : ∀ q ∈ quotes, q ∉ key.toList)
    (hb : '\\' ∉ key.toList) (hc : ∀ c ∈ key.toList, ¬ c < ' ')
    (ht : trim key.toList = key.toList) :
    (∀ rest : List Char,
      let found := Inline.find? (memberPath key ++ ' ' :: rest)
      (found = some ⟨[], memberPath key, ' ' :: rest⟩ ↔ Bridged key.toList) ∧
      ∀ (document : String) (v : Value),
        (Value.read? document).bind (Value.field? key) = some v →
          ((found.bind fun p => firstMatch p.path document) = some v ↔ Bridged key.toList)) ∧
    (∀ topic : List Char, (∀ q ∈ quotes, q ∉ topic) →
      let text := indexed topic ('\'' :: key.toList ++ ['\''])
      ∃ p, findReadFrom text 0 = some p ∧ p.before = [] ∧
        (p.marker.key = some key ↔ ']' ∉ key.toList) ∧ (p.written = text ↔ ']' ∉ key.toList)) ∧
    (']' ∉ key.toList → Bridged key.toList) := by
  have hk : Verbatim key.toList := by
    intro c hm
    refine ⟨?_, ?_, hc c hm⟩
    · rintro rfl
      exact hq _ (by decide) hm
    · rintro rfl
      exact hb hm
  refine ⟨fun rest => member_found_iff hk rest, fun topic htopic => ?_, bridged_of_notMem⟩
  exact indexed_found_iff hq ht (htopic '\'' (by decide))

theorem opening_bracket_in_key :
    let key := "a.(b)[c"
    let document := "\x7b\"a.(b)[c\": 2\x7d"
    (∀ q ∈ quotes, q ∉ key.toList) ∧ '\\' ∉ key.toList ∧ (∀ c ∈ key.toList, ¬ c < ' ') ∧
      trim key.toList = key.toList ∧
      (Value.read? document).bind (Value.field? key) = some (int 2) ∧
      (∃ p, Inline.find? "$['a.(b)[c'] > 1".toList = some p ∧ p.path = "$['a.(b)[c']".toList ∧
        firstMatch p.path document = some (int 2)) ∧
      ∃ p, findReadFrom "Read('shed)lamp')['a.(b)[c']".toList 0 = some p ∧
        p.marker.key = some key ∧ p.written = "Read('shed)lamp')['a.(b)[c']".toList := by
  intro key document
  have hq : ∀ q ∈ quotes, q ∉ key.toList := by simp [quotes, key]
  have hb : '\\' ∉ key.toList := by simp [key]
  have hc : ∀ c ∈ key.toList, ¬ c < ' ' := by simp [key]
  have ht : trim key.toList = key.toList := by cbv
  have hv : (Value.read? document).bind (Value.field? key) = some (int 2) := by cbv
  have hn : ']' ∉ key.toList := by simp [key]
  obtain ⟨hpath, hcall, hbridged⟩ := quoted_key_whole_iff hq hb hc ht
  obtain ⟨hspan, hvalue⟩ := hpath "> 1".toList
  have hfound := hspan.mpr (hbridged hn)
  have hmatch := (hvalue document (int 2) hv).mpr (hbridged hn)
  rw [hfound] at hmatch
  obtain ⟨p, hp, -, hkey, hwritten⟩ := hcall "shed)lamp".toList (by simp [quotes])
  have htext : memberPath key ++ ' ' :: "> 1".toList = "$['a.(b)[c'] > 1".toList := by
    simp [memberPath, key]
  have hread : indexed "shed)lamp".toList ('\'' :: key.toList ++ ['\'']) =
      "Read('shed)lamp')['a.(b)[c']".toList := by
    simp [indexed, key]
  rw [htext] at hfound
  rw [hread] at hp hwritten
  refine ⟨hq, hb, hc, ht, hv, ⟨_, hfound, ?_, hmatch⟩, p, hp, hkey.mpr hn, hwritten.mpr hn⟩
  simp [memberPath, key]

/-- The path ends inside the quotes and picks nothing, and the key behind the call is cut off. -/
theorem closing_bracket_in_key :
    let key := "a]b"
    let document := "\x7b\"a]b\": 2\x7d"
    (∀ q ∈ quotes, q ∉ key.toList) ∧ '\\' ∉ key.toList ∧ (∀ c ∈ key.toList, ¬ c < ' ') ∧
      trim key.toList = key.toList ∧
      (Value.read? document).bind (Value.field? key) = some (int 2) ∧
      Inline.find? "$['a]b'] > 1".toList = some ⟨[], "$['a]".toList, "b'] > 1".toList⟩ ∧
      firstMatch "$['a]".toList document = none ∧
      findReadFrom "Read('t')['a]b']".toList 0 =
        some ⟨[], "Read('t')['a]".toList, ⟨"t", some "a"⟩, "b']".toList⟩ := by
  intro key document
  refine ⟨by simp [quotes, key], by simp [key], by simp [key], by cbv, by cbv, ?_, ?_, ?_⟩
  · cbv
  · cbv
  · cbv

end TopicHub
