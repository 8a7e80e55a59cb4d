import TopicHub.Proofs.Marker.Reading
import TopicHub.Proofs.ReadConfinement
import TopicHub.Proofs.Replacement

/-!
The search for read markers. It finds the first place, at or behind an offset, at which a call of the
grammar starts, and the marker is that call; the list of markers is what is found when the search goes on
behind each of them. So a name in quotes is read back as it was written.
-/

namespace TopicHub.Marker

open Text

/-- The last byte is a letter, a digit or an underscore. -/
def EndsInName (bytes : List UInt8) : Prop :=
  ∃ c, isNamePart c = true ∧ bytes.getLast? = some (octet c)

def StartsRead (bytes : List UInt8) (o : ℕ) : Prop :=
  ¬ EndsInName (bytes.take o) ∧ ∃ argument rest, ReadCall argument rest (bytes.drop o)

inductive KeyBehind : (behind : List Char) → (key : Option String) → (rest : List Char) → Prop where
  | key {key rest : List Char} (h : ']' ∉ key) :
      KeyBehind ('[' :: key ++ ']' :: rest) (some (String.ofList (unquote key))) rest
  | nothing {s : List Char} (h : ∀ key rest, s ≠ '[' :: key ++ ']' :: rest) : KeyBehind s none s

/-- A marker in its text: a read call, of which the argument is the topic, and the key behind it. Its
place is given by characters. -/
structure InText (text : List Char) (p : Placed ReadMarker) : Prop where
  parts : text = p.before ++ p.written ++ p.after
  call : ∃ argument behind, ReadCall (octets argument) (octets behind) ((octets text).drop p.start) ∧
    (∀ a r, ReadCall a r ((octets text).drop p.start) → a = octets argument ∧ r = octets behind) ∧
    p.marker.topic = String.ofList (unquote argument) ∧ KeyBehind behind p.marker.key p.after

/-- Markers that are found one behind the other, until there are no more. -/
inductive Listed (text : List Char) : ℕ → List (Placed ReadMarker) → Prop where
  | done {offset : ℕ} (h : findReadFrom text offset = none) : Listed text offset []
  | next {offset : ℕ} {p : Placed ReadMarker} {ps : List (Placed ReadMarker)}
      (h : findReadFrom text offset = some p) (hps : Listed text p.stop ps) :
      Listed text offset (p :: ps)

theorem endsInName_octets (s : List Char) :
    EndsInName (octets s) ↔ s.getLast?.any isNamePart = true := by
  rcases List.eq_nil_or_concat s with rfl | ⟨s, c, rfl⟩
  · simp [EndsInName]
  · have hlast : (octets (s ++ [c])).getLast? = (String.utf8EncodeChar c).getLast? := by
      rw [octets_append, List.getLast?_append, octets_cons, octets_nil, List.append_nil]
      exact Option.or_of_isSome (List.getLast?_isSome.mpr String.utf8EncodeChar_ne_nil)
    rw [List.concat_eq_append, List.getLast?_concat, Option.any_some]
    unfold EndsInName
    rw [hlast]
    constructor
    · rintro ⟨d, hd, h⟩
      obtain rfl := eq_of_octet_mem (isAscii_of_isNamePart hd) (List.mem_of_getLast? h)
      exact hd
    · intro hc
      exact ⟨c, hc, by rw [utf8EncodeChar_ascii (isAscii_of_isNamePart hc)]; rfl⟩

theorem exists_readCall_iff (s : List Char) :
    (∃ argument rest, ReadCall argument rest (octets s)) ↔ (readAt? s).isSome = true := by
  rw [readAt?_eq_map, Option.isSome_map]
  constructor
  · rintro ⟨a, r, h⟩
    obtain ⟨arg, rest, -, -, hread⟩ := read_of_readCall h
    rw [hread]
    rfl
  · intro h
    obtain ⟨⟨arg, rest⟩, hread⟩ := Option.isSome_iff_exists.mp h
    exact ⟨_, _, readCall_of_read hread⟩

theorem startsRead_octets (front rest : List Char) :
    StartsRead (octets (front ++ rest)) (utf8Size front) ↔
      front.getLast?.any isNamePart = false ∧ (readAt? rest).isSome = true := by
  unfold StartsRead
  rw [take_octets, drop_octets, endsInName_octets, exists_readCall_iff, Bool.not_eq_true]

theorem read_isPrefix_of_mem : ∀ keyword ∈ readKeywords, "Read".toList <+: keyword := by decide

theorem exists_of_startsRead {text : List Char} {o : ℕ} (h : StartsRead (octets text) o) :
    ∃ front rest, text = front ++ rest ∧ utf8Size front = o ∧ "Read".toList <+: rest := by
  obtain ⟨-, a, r, hcall⟩ := h
  generalize ho : (octets text).drop o = bytes at hcall
  cases hcall with
  | @mk keyword s hk hs =>
    have hread := read_isPrefix_of_mem keyword hk
    have hne : keyword ≠ [] := by
      rintro rfl
      exact absurd hread (by decide)
    obtain ⟨front, rest, rfl, rfl, -⟩ :=
      exists_of_drop_octets_append (isAscii_of_mem_readKeywords keyword hk) hne ho
    exact ⟨front, keyword ++ rest, List.append_assoc .., rfl,
      hread.trans (List.prefix_append ..)⟩

theorem mem_callsBehind_of_readAt? {v rest : List Char} {marker : ReadMarker}
    (hr : readAt? v = some (marker, rest)) (front : List Char) (masked : Bool) {u : List Char}
    (hm : (u.getLast?.map isNamePart).getD masked = false) :
    ⟨front ++ u, consumed v rest, marker, rest⟩ ∈ callsBehind front masked (u ++ v) := by
  induction u generalizing front masked with
  | nil =>
    cases v with
    | nil => cases hr
    | cons c v =>
      obtain rfl : masked = false := hm
      apply List.mem_append_left
      simp [atOnce, hr]
  | cons c u ih =>
    apply List.mem_append_right
    have hlater := ih (front ++ [c]) (isNamePart c) (namePart_cons c u masked ▸ hm)
    rwa [List.append_assoc] at hlater

/-- The calls behind `front` start at the offsets at which calls of the grammar start. -/
theorem start_callsBehind (front rest : List Char) :
    {o | utf8Size front ≤ o ∧ StartsRead (octets (front ++ rest)) o} =
      {o | ∃ p ∈ callsBehind front (front.getLast?.any isNamePart) rest, p.start = o} := by
  have hmask (u : List Char) : (front ++ u).getLast?.any isNamePart =
      (u.getLast?.map isNamePart).getD (front.getLast?.any isNamePart) := by
    rw [List.getLast?_append]
    cases u.getLast? <;> rfl
  ext o
  constructor
  · rintro ⟨hle, hs⟩
    obtain ⟨before, v, htext, rfl, -⟩ := exists_of_startsRead hs
    obtain ⟨u, rfl⟩ := isPrefix_of_utf8Size_le htext hle
    obtain rfl : rest = u ++ v := by simpa using htext
    rw [← List.append_assoc, startsRead_octets] at hs
    obtain ⟨hname, hread⟩ := hs
    obtain ⟨⟨marker, after⟩, hread⟩ := Option.isSome_iff_exists.mp hread
    exact ⟨_, mem_callsBehind_of_readAt? hread front _ (hmask u ▸ hname), rfl⟩
  · rintro ⟨p, hp, rfl⟩
    obtain ⟨u, hb, hs, hread, hm⟩ := readAt?_of_mem_callsBehind hp
    have hstart : p.start = utf8Size (front ++ u) := congrArg utf8Size hb
    refine ⟨?_, ?_⟩
    · rw [hstart, utf8Size_append]
      exact Nat.le_add_right ..
    · rw [hstart, hs, List.append_assoc u, ← List.append_assoc, startsRead_octets, hmask, hread]
      exact ⟨hm, rfl⟩

theorem findReadFrom_eq_head? (front rest : List Char) :
    findReadFrom (front ++ rest) (utf8Size front) =
      (callsBehind front (front.getLast?.any isNamePart) rest).head? := by
  have hsearch := search front front.getLast? rest
  rw [findReadFrom_append]
  generalize findRead front.getLast? rest = r at hsearch ⊢
  generalize callsBehind front (front.getLast?.any isNamePart) rest = ps at hsearch ⊢
  cases hsearch with
  | nothing => rfl
  | found => rfl

theorem start_le_of_callsBehind {front : List Char} {masked : Bool} {rest : List Char}
    {p q : Placed ReadMarker} (hp : p ∈ callsBehind front masked rest)
    (hq : q ∈ callsBehind front masked rest) (h : p.first < q.first) : p.start ≤ q.start := by
  obtain ⟨u, hpb, -, hps⟩ := mem_callsBehind hp
  obtain ⟨v, hqb, -, hqs⟩ := mem_callsBehind hq
  have hpt : p.before <+: front ++ rest := ⟨p.written ++ p.after, by rw [hpb, hps]; simp⟩
  have hqt : q.before <+: front ++ rest := ⟨q.written ++ q.after, by rw [hqb, hqs]; simp⟩
  obtain ⟨w, hw⟩ := List.prefix_of_prefix_length_le hpt hqt (Nat.le_of_lt h)
  have hsize := utf8Size_append p.before w
  rw [hw] at hsize
  unfold Placed.start
  omega

theorem isFirst_findReadFrom (front rest : List Char) :
    IsFirst {o | utf8Size front ≤ o ∧ StartsRead (octets (front ++ rest)) o}
      ((findReadFrom (front ++ rest) (utf8Size front)).map Placed.start) := by
  have horder := inOrder_callsBehind front (front.getLast?.any isNamePart) rest
  have hle {p q : Placed ReadMarker} := @start_le_of_callsBehind front
    (front.getLast?.any isNamePart) rest p q
  rw [start_callsBehind, findReadFrom_eq_head?]
  generalize callsBehind front (front.getLast?.any isNamePart) rest = ps at horder hle ⊢
  cases ps with
  | nil => simp [IsFirst]
  | cons p ps =>
    obtain ⟨hlater, -⟩ := List.pairwise_cons.mp horder
    refine ⟨⟨p, List.mem_cons_self .., rfl⟩, ?_⟩
    rintro o ⟨q, hq, rfl⟩
    rcases List.mem_cons.mp hq with rfl | hmem
    · exact Nat.le_refl _
    · exact hle (List.mem_cons_self ..) hq (hlater q hmem)

theorem of_key? {s key rest : List Char} (h : key? s = some (key, rest)) :
    s = '[' :: key ++ ']' :: rest ∧ ']' ∉ key := by
  refine ⟨key?_eq h, ?_⟩
  unfold key? at h
  split at h
  · split at h
    · rename_i hcut
      cases h
      exact notMem_of_cut? hcut
    · cases h
  · cases h

theorem ne_of_key?_eq_none {s : List Char} (h : key? s = none) (key rest : List Char) :
    s ≠ '[' :: key ++ ']' :: rest := by
  rintro rfl
  have hmem : ']' ∈ key ++ ']' :: rest := List.mem_append_right _ (List.mem_cons_self ..)
  obtain ⟨u, v, huv, hu⟩ := List.eq_append_cons_of_mem hmem
  rw [List.cons_append, huv] at h
  cases h.symm.trans (key?_of_notMem hu v)

theorem of_markerOf {argument behind rest : List Char} {marker : ReadMarker}
    (h : markerOf argument behind = (marker, rest)) :
    marker.topic = String.ofList (unquote argument) ∧ KeyBehind behind marker.key rest := by
  unfold markerOf at h
  cases hk : key? behind with
  | none =>
    rw [hk] at h
    cases h
    exact ⟨rfl, .nothing (ne_of_key?_eq_none hk)⟩
  | some found =>
    obtain ⟨key, after⟩ := found
    rw [hk] at h
    cases h
    obtain ⟨rfl, hn⟩ := of_key? hk
    exact ⟨rfl, .key hn⟩

theorem inText_of_findReadFrom {text : List Char} {offset : ℕ} {p : Placed ReadMarker}
    (h : findReadFrom text offset = some p) : InText text p := by
  obtain ⟨⟨front, rest⟩, hcut, -⟩ := Option.bind_eq_some_iff.mp h
  obtain ⟨rfl, rfl⟩ := cutAt?_eq_some hcut
  rw [findReadFrom_eq_head?] at h
  obtain ⟨u, hb, hs, hread, -⟩ := readAt?_of_mem_callsBehind (List.mem_of_head? h)
  have hparts : front ++ rest = p.before ++ p.written ++ p.after := by
    rw [hb, hs]
    simp
  refine ⟨hparts, ?_⟩
  rw [hparts, List.append_assoc, Placed.start, drop_octets]
  rw [readAt?_eq_map] at hread
  obtain ⟨⟨argument, behind⟩, harg, hm⟩ := Option.map_eq_some_iff.mp hread
  obtain ⟨htopic, hkey⟩ := of_markerOf hm
  refine ⟨argument, behind, readCall_of_read harg, fun a r hcall => ?_, htopic, hkey⟩
  obtain ⟨argument', behind', rfl, rfl, harg'⟩ := read_of_readCall hcall
  rw [harg] at harg'
  cases harg'
  exact ⟨rfl, rfl⟩

theorem listed_readMarkersBehind (n : ℕ) : ∀ front rest : List Char, rest.length ≤ n →
    Listed (front ++ rest) (utf8Size front) (readMarkersBehind n front rest) := by
  induction n with
  | zero =>
    intro front rest hn
    obtain rfl := List.length_eq_zero_iff.mp (Nat.le_zero.mp hn)
    exact .done (by rw [findReadFrom_append]; rfl)
  | succ n ih =>
    intro front rest hn
    have hfind := findReadFrom_append front rest
    have hsearch := search front front.getLast? rest
    unfold readMarkersBehind
    generalize findRead front.getLast? rest = r at hfind hsearch
    generalize callsBehind front (front.getLast?.any isNamePart) rest = ps at hsearch
    cases hsearch with
    | nothing => exact .done hfind
    | found marker hs hw hb =>
      rename_i b w after
      have hpos : 0 < w.length := by
        cases hw
        simp
      have hlength := congrArg List.length hs
      simp only [List.length_append] at hlength
      have hlater := ih (front ++ b ++ w) after (by omega)
      have htext : front ++ rest = front ++ b ++ w ++ after := by
        rw [hs]
        simp
      refine .next hfind ?_
      have hstop : (Placed.behind front ⟨b, w, marker, after⟩).stop = utf8Size (front ++ b ++ w) :=
        (utf8Size_append ..).symm
      rw [htext, hstop]
      exact hlater

theorem listed_readMarkers (text : List Char) : Listed text 0 (readMarkers text) :=
  listed_readMarkersBehind text.length [] text (Nat.le_refl _)

theorem le_start_of_findReadFrom {text : List Char} {offset : ℕ} {p : Placed ReadMarker}
    (h : findReadFrom text offset = some p) : offset ≤ p.start := by
  obtain ⟨⟨front, rest⟩, hcut, hfind⟩ := Option.bind_eq_some_iff.mp h
  obtain ⟨q, -, rfl⟩ := Option.map_eq_some_iff.mp hfind
  rw [(cutAt?_eq_some hcut).2]
  simp [Placed.start, Placed.behind]

theorem Listed.le_start {text : List Char} {offset : ℕ} {ps : List (Placed ReadMarker)}
    (h : Listed text offset ps) : ∀ p ∈ ps, offset ≤ p.start := by
  induction h with
  | done => exact List.forall_mem_nil _
  | @next offset p ps h _ ih =>
    have hp := le_start_of_findReadFrom h
    refine List.forall_mem_cons.mpr ⟨hp, fun q hq => ?_⟩
    have hstop : p.start ≤ p.stop := Nat.le_add_right ..
    exact Nat.le_trans hp (Nat.le_trans hstop (ih q hq))

theorem Listed.disjoint {text : List Char} {offset : ℕ} {ps : List (Placed ReadMarker)}
    (h : Listed text offset ps) : ps.Pairwise fun p q => p.stop ≤ q.start := by
  induction h with
  | done => exact List.Pairwise.nil
  | next _ hps ih => exact List.Pairwise.cons (hps.le_start) ih

theorem Listed.head? {text : List Char} {ps : List (Placed ReadMarker)} {offset : ℕ}
    (h : Listed text offset ps) : ps.head? = findReadFrom text offset := by
  cases h with
  | done h => exact h.symm
  | next h => exact h.symm

theorem readCall_quoted {keyword : List Char} (hk : keyword ∈ readKeywords) {quote : Char}
    (hq : quote ∈ quotes) {name : List Char} (hn : quote ∉ name) (after : List Char) :
    ReadCall (octets (quote :: name ++ [quote])) (octets after)
      (octets (keyword ++ '(' :: quote :: name ++ quote :: ')' :: after)) := by
  have hqa := isAscii_of_mem_quotes hq
  have hm : octet quote ∉ octets name := mt (octet_mem_octets hqa).mp hn
  have hargument : Balanced (octets (quote :: name ++ [quote])) := by
    rw [octets_append, octets_cons_ascii hqa, octets_cons_ascii hqa]
    exact .quoted hq hm .nil
  have hcall : ReadCall (octets (quote :: name ++ [quote])) (octets after) _ :=
    .mk hk (.mk (b := []) (List.forall_mem_nil _) hargument)
  have hopen : String.utf8EncodeChar '(' = [octet '('] := utf8EncodeChar_ascii (by decide)
  have hclose : String.utf8EncodeChar ')' = [octet ')'] := utf8EncodeChar_ascii (by decide)
  have hbytes : octets (keyword ++ '(' :: quote :: name ++ quote :: ')' :: after) =
      octets keyword ++ (octets [] ++ octet '(' :: octets (quote :: name ++ [quote]) ++
        octet ')' :: octets after) := by
    simp [hopen, hclose]
  rw [hbytes]
  exact hcall

theorem unquote_quoted {quote : Char} (hq : quote ∈ quotes) {name : List Char}
    (hn : ∀ q ∈ quotes, q ∉ name) (ht : trim name = name) :
    unquote (quote :: name ++ [quote]) = name := by
  have hblank : isBlank quote = false := by
    simp only [quotes, List.mem_cons, List.not_mem_nil, or_false] at hq
    rcases hq with rfl | rfl <;> rfl
  have hquote : (quote = '\'' || quote = '"') = true := by simpa [quotes] using hq
  have hother {c : Char} (hc : c ∈ name) : ¬ (c = '\'' || c = '"') = true := by
    rw [Bool.or_eq_true, decide_eq_true_eq, decide_eq_true_eq]
    rintro (rfl | rfl)
    · exact hn '\'' (by decide) hc
    · exact hn '"' (by decide) hc
  unfold unquote
  dsimp only
  rw [trim_of_ends hblank hblank, List.cons_append,
    List.dropWhile_cons_of_pos (p := fun c => c = '\'' || c = '"') hquote]
  rcases List.eq_nil_or_concat name with rfl | ⟨s, d, rfl⟩
  · rw [List.nil_append, List.dropWhile_cons_of_pos (p := fun c => c = '\'' || c = '"') hquote]
    rfl
  · rw [List.concat_eq_append] at hother ht ⊢
    have hfront : (s ++ [d] ++ [quote]).dropWhile (fun c => c = '\'' || c = '"') =
        s ++ [d] ++ [quote] := by
      rw [List.dropWhile_eq_self_iff]
      intro hl
      apply hother
      rw [List.getElem_append_left (by simp)]
      exact List.getElem_mem _
    have hlast := hother (List.mem_append_right s (List.mem_singleton_self d))
    rw [hfront, trimEndWhile_drops hquote, trimEndWhile_concat (by simpa using hlast), ht]

theorem utf8Size_le_of_read {before rest front behind : List Char}
    (hb : before.getLast?.any isNamePart = false) (hn : ¬ "Read".toList <:+: before)
    (htext : before ++ rest = front ++ behind) (hread : "Read".toList <+: behind) :
    utf8Size before ≤ utf8Size front := by
  by_contra hlt
  have hletters : ∀ c ∈ "Read".toList, isNamePart c = true := List.all_eq_true.mp rfl
  obtain ⟨w, rfl⟩ := isPrefix_of_utf8Size_le htext.symm (Nat.le_of_not_le hlt)
  obtain rfl : w ++ rest = behind := by simpa using htext
  rcases List.prefix_or_prefix_of_prefix hread (List.prefix_append w rest) with hw | hw
  · exact hn (hw.isInfix.trans (List.suffix_append front w).isInfix)
  · rcases List.eq_nil_or_concat w with rfl | ⟨v, c, rfl⟩
    · rw [List.append_nil] at hlt
      exact hlt (Nat.le_refl _)
    · rw [List.concat_eq_append] at hb hw
      rw [← List.append_assoc, List.getLast?_concat, Option.any_some] at hb
      rw [hletters c (hw.subset (List.mem_append_right v (List.mem_singleton_self c)))] at hb
      cases hb

theorem name_read_back {keyword : List Char} (hk : keyword ∈ readKeywords) {quote : Char}
    (hq : quote ∈ quotes) {before name : List Char} (after : List Char)
    (hb : ¬ EndsInName (octets before)) (hr : ¬ "Read".toList <:+: before)
    (hn : ∀ q ∈ quotes, q ∉ name) (ht : trim name = name) :
    let text := before ++ (keyword ++ '(' :: quote :: name ++ quote :: ')' :: after)
    ∃ p, findReadFrom text 0 = some p ∧ p.before = before ∧ p.marker.topic = String.ofList name := by
  intro text
  have hcall := readCall_quoted hk hq (hn quote hq) after
  have hstart : StartsRead (octets text) (utf8Size before) := by
    unfold StartsRead
    rw [take_octets, drop_octets]
    exact ⟨hb, _, _, hcall⟩
  have hbefore : before.getLast?.any isNamePart = false := by
    rwa [endsInName_octets, Bool.not_eq_true] at hb
  have hfirst := isFirst_findReadFrom [] text
  obtain ⟨o, ho, hle⟩ := hfirst.exists ⟨Nat.zero_le _, hstart⟩
  obtain ⟨p, hp, rfl⟩ := Option.map_eq_some_iff.mp ho
  obtain ⟨hparts, argument, behind, -, honly, htopic, -⟩ := inText_of_findReadFrom hp
  have hleast : StartsRead (octets text) p.start := by
    rw [ho] at hfirst
    exact hfirst.1.2
  obtain ⟨front, rest, htext, hsize, hread⟩ := exists_of_startsRead hleast
  -- No call starts earlier, for there is no keyword that it could start with.
  have hge := utf8Size_le_of_read hbefore hr htext hread
  have hsame : p.start = utf8Size before := Nat.le_antisymm hle (hsize ▸ hge)
  refine ⟨p, hp, ?_, ?_⟩
  · rw [List.append_assoc p.before] at hparts
    exact eq_of_utf8Size_eq hparts.symm hsame
  · rw [hsame, List.nil_append, drop_octets] at honly
    have hargument := octets_inj (honly _ _ hcall).1
    rw [htopic, ← hargument, unquote_quoted hq hn ht]

/-- What is found is the first call of the grammar, and what is listed are the markers that are found
one behind the other. A name in quotes is found as it is. -/
theorem read_calls_found :
    (∀ front rest : List Char,
      let text := front ++ rest
      let found := findReadFrom text (utf8Size front)
      IsFirst {o | utf8Size front ≤ o ∧ StartsRead (octets text) o} (found.map Placed.start) ∧
        ∀ p ∈ found, InText text p) ∧
    (∀ text : List Char, Listed text 0 (readMarkers text) ∧
      (readMarkers text).Pairwise fun p q => p.stop ≤ q.start) ∧
    ∀ keyword ∈ readKeywords, ∀ quote ∈ quotes, ∀ before name after : List Char,
      ¬ EndsInName (octets before) → ¬ "Read".toList <:+: before →
      (∀ q ∈ quotes, q ∉ name) → trim name = name →
      let text := before ++ (keyword ++ '(' :: quote :: name ++ quote :: ')' :: after)
      ∃ p, findReadFrom text 0 = some p ∧ (readMarkers text).head? = some p ∧
        p.before = before ∧ p.marker.topic = String.ofList name := by
  refine ⟨fun front rest => ?_, fun text => ?_, ?_⟩
  · exact ⟨isFirst_findReadFrom front rest, fun p hp => inText_of_findReadFrom hp⟩
  · exact ⟨listed_readMarkers text, (listed_readMarkers text).disjoint⟩
  · intro keyword hk quote hq before name after hb hr hn ht text
    obtain ⟨p, hp, hbefore, htopic⟩ := name_read_back hk hq after hb hr hn ht
    exact ⟨p, hp, (listed_readMarkers text).head?.trans hp, hbefore, htopic⟩

/-- The first call has no end, so that the one in its argument is found. -/
theorem lamp_found_behind_open_call :
    IsFirst {o | 0 ≤ o ∧ StartsRead (octets "é + Read(2 * ReadFromMemory('lamp)')[k]".toList) o} (some 14) ∧
      trim "lamp)".toList = "lamp)".toList ∧
      ∃ p, findReadFrom "é + ReadFromMemory('lamp)')[k]".toList 0 = some p ∧
        p.before = "é + ".toList ∧ p.marker.topic = "lamp)" := by
  obtain ⟨hfirst, -, hnames⟩ := read_calls_found
  have hblank : ¬ EndsInName (octets "é + ".toList) := by
    rw [endsInName_octets]
    decide
  have hread : ¬ "Read".toList <:+: "é + ".toList := by decide
  have hquotes : ∀ q ∈ quotes, q ∉ "lamp)".toList := by simp [quotes]
  have htrim : trim "lamp)".toList = "lamp)".toList := by cbv
  refine ⟨(hfirst [] "é + Read(2 * ReadFromMemory('lamp)')[k]".toList).1, htrim, ?_⟩
  obtain ⟨p, hp, -, hbefore, htopic⟩ := hnames "ReadFromMemory".toList (by decide) '\'' (by decide)
    "é + ".toList "lamp)".toList "[k]".toList hblank hread hquotes htrim
  exact ⟨p, hp, hbefore, htopic⟩

end TopicHub.Marker
