import TopicHub.Proofs.Marker.Reading
import TopicHub.Proofs.ScriptSubstitution

/-!
The search for script calls. Two colons that start no call are passed over together, so in a run of
colons the search comes to every other one only: it finds the first call with an even number of colons
directly in front of it. It also takes calls with blanks in front of their last parenthesis, which the
grammar does not have.
-/

namespace TopicHub.Marker

open Text

def trailing {α : Type} [DecidableEq α] (x : α) (s : List α) : ℕ := (s.rtakeWhile (· = x)).length

def StartsScript (bytes : List UInt8) (o : ℕ) : Prop :=
  ∃ name argument rest, ScriptCallOf [] name argument rest (bytes.drop o)

/-- A call starts at a byte that may have blanks in front of its last parenthesis. -/
def StartsLoosely (bytes : List UInt8) (o : ℕ) : Prop :=
  ∃ gap name argument rest, (∀ c ∈ gap, isAsciiBlank c = true) ∧
    ScriptCallOf gap name argument rest (bytes.drop o)

/-- The colons directly in front of a byte, from the offset on, are whole pairs. -/
def InStep (bytes : List UInt8) (offset o : ℕ) : Prop :=
  Even (trailing (octet ':') ((bytes.take o).drop offset))

section Trailing

variable {α : Type} [DecidableEq α] {x y : α}

@[simp] theorem trailing_nil : trailing x [] = 0 := rfl

@[simp] theorem trailing_concat (s : List α) : trailing x (s ++ [x]) = trailing x s + 1 := by
  simp [trailing]

theorem trailing_concat_of_ne (hy : y ≠ x) (s : List α) : trailing x (s ++ [y]) = 0 := by
  simp [trailing, hy]

theorem trailing_append_cons (hy : y ≠ x) (u s : List α) :
    trailing x (u ++ y :: s) = trailing x s := by
  induction s using List.reverseRecOn with
  | nil => exact trailing_concat_of_ne hy u
  | append_singleton s z ih =>
    rw [← List.cons_append, ← List.append_assoc]
    by_cases hz : z = x
    · subst hz
      rw [trailing_concat, trailing_concat, ih]
    · rw [trailing_concat_of_ne hz, trailing_concat_of_ne hz]

theorem even_trailing_pair (s : List α) : Even (trailing x (x :: x :: s)) ↔ Even (trailing x s) := by
  induction s using List.reverseRecOn with
  | nil =>
    have htwo : trailing x [x, x] = 2 := by simp [trailing, List.rtakeWhile]
    rw [htwo, trailing_nil]
    decide
  | append_singleton s z ih =>
    rw [← List.cons_append, ← List.cons_append]
    by_cases hz : z = x
    · subst hz
      rw [trailing_concat, trailing_concat, Nat.even_add_one, Nat.even_add_one, ih]
    · rw [trailing_concat_of_ne hz, trailing_concat_of_ne hz]

theorem trailing_cons_of_single {u v : List α}
    (h : ∀ t, y = x → u ++ x :: v = x :: t → False) : trailing x (y :: u) = trailing x u := by
  by_cases hy : y = x
  · cases u with
    | nil => exact (h v hy rfl).elim
    | cons z u =>
      have hz : z ≠ x := by
        rintro rfl
        exact h _ hy rfl
      exact (trailing_append_cons hz [y] u).trans (trailing_append_cons hz [] u).symm
  · exact trailing_append_cons hy [] u

end Trailing

theorem trailing_octets {c : Char} (hc : IsAscii c) (s : List Char) :
    trailing (octet c) (octets s) = trailing c s := by
  induction s using List.reverseRecOn with
  | nil => rfl
  | append_singleton s d ih =>
    rw [octets_append, octets_cons, octets_nil, List.append_nil]
    by_cases hd : d = c
    · subst hd
      rw [utf8EncodeChar_ascii hc, trailing_concat, trailing_concat, ih]
    · rw [trailing_concat_of_ne hd]
      rcases List.eq_nil_or_concat (String.utf8EncodeChar d) with hnil | ⟨e, b, hb⟩
      · exact absurd hnil String.utf8EncodeChar_ne_nil
      · rw [List.concat_eq_append] at hb
        have hne : b ≠ octet c := by
          rintro rfl
          refine hd (eq_of_octet_mem hc ?_).symm
          rw [hb]
          exact List.mem_append_right _ (List.mem_singleton_self _)
        rw [hb, ← List.append_assoc, trailing_concat_of_ne hne]

structure Met (u v : List Char) : Prop where
  call : ∃ t, v = ':' :: ':' :: t ∧ (scriptAt? t).isSome = true
  even : Even (trailing ':' u)

/-- What is found stands in front of every other call that the search would come to. -/
theorem findScript_of_met {s u v : List Char} (hs : s = u ++ v) (hm : Met u v) :
    ∃ p, findScript s = some p ∧ p.before <+: u := by
  fun_induction findScript s generalizing u with
  | case1 =>
    obtain ⟨⟨t, rfl, -⟩, -⟩ := hm
    simp at hs
  | case2 s marker rest hread => exact ⟨_, rfl, List.nil_prefix⟩
  | case3 s hread ih =>
    cases u with
    | nil =>
      obtain ⟨⟨t, rfl, hsome⟩, -⟩ := hm
      cases hs
      rw [hread] at hsome
      cases hsome
    | cons c u =>
      cases u with
      | nil =>
        obtain rfl : c = ':' := (List.cons.inj hs).1.symm
        exact absurd hm.even (by decide)
      | cons d u =>
        cases hs
        obtain ⟨p, hp, hb⟩ := ih rfl ⟨hm.call, (even_trailing_pair u).mp hm.even⟩
        refine ⟨_, congrArg (Option.map _) hp, ?_⟩
        exact List.cons_prefix_cons.mpr ⟨rfl, List.cons_prefix_cons.mpr ⟨rfl, hb⟩⟩
  | case4 c s hpair ih =>
    cases u with
    | nil =>
      obtain ⟨⟨t, rfl, -⟩, -⟩ := hm
      cases hs
      exact (hpair _ rfl rfl).elim
    | cons d u =>
      cases hs
      obtain ⟨⟨t, rfl, hsome⟩, heven⟩ := hm
      rw [trailing_cons_of_single hpair] at heven
      obtain ⟨p, hp, hb⟩ := ih rfl ⟨⟨t, rfl, hsome⟩, heven⟩
      exact ⟨_, congrArg (Option.map _) hp, List.cons_prefix_cons.mpr ⟨rfl, hb⟩⟩

theorem of_findScript_eq_some {s : List Char} {p : Placed ScriptCall} (h : findScript s = some p) :
    Even (trailing ':' p.before) ∧ ∃ t, s = p.before ++ ':' :: ':' :: t ∧
      scriptAt? t = some (p.marker, p.after) := by
  fun_induction findScript s generalizing p with
  | case1 => cases h
  | case2 s marker rest hread =>
    cases h
    exact ⟨⟨0, rfl⟩, s, rfl, hread⟩
  | case3 s hread ih =>
    obtain ⟨q, hq, rfl⟩ := Option.map_eq_some_iff.mp h
    obtain ⟨heven, t, rfl, hcall⟩ := ih hq
    exact ⟨(even_trailing_pair _).mpr heven, t, rfl, hcall⟩
  | case4 c s hpair ih =>
    obtain ⟨q, hq, rfl⟩ := Option.map_eq_some_iff.mp h
    obtain ⟨heven, t, rfl, hcall⟩ := ih hq
    refine ⟨?_, t, rfl, hcall⟩
    rwa [trailing_cons_of_single hpair]

theorem startsLoosely_octets (front v : List Char) :
    StartsLoosely (octets (front ++ v)) (utf8Size front) ↔
      ∃ t, v = ':' :: ':' :: t ∧ (scriptAt? t).isSome = true := by
  unfold StartsLoosely
  rw [drop_octets]
  constructor
  · rintro ⟨gap, name, a, r, hgap, hcall⟩
    obtain ⟨t, argument, behind, rfl, -, -, hread⟩ := read_of_scriptCall hgap hcall
    exact ⟨t, rfl, Option.isSome_iff_exists.mpr ⟨_, hread⟩⟩
  · rintro ⟨t, rfl, hread⟩
    obtain ⟨⟨script, rest⟩, hread⟩ := Option.isSome_iff_exists.mp hread
    obtain ⟨gap, name, argument, hgap, -, hcall⟩ := scriptCall_of_read hread
    exact ⟨gap, name, _, _, hgap, hcall⟩

theorem inStep_octets (front u v : List Char) :
    InStep (octets (front ++ (u ++ v))) (utf8Size front) (utf8Size (front ++ u)) ↔
      Even (trailing ':' u) := by
  unfold InStep
  rw [← List.append_assoc, take_octets, drop_octets, trailing_octets (by decide)]

theorem colon_of_scriptCall {gap name : List Char} {a r bytes : List UInt8}
    (h : ScriptCallOf gap name a r bytes) : ∃ s, bytes = octet ':' :: s := by
  cases h with
  | plain => exact ⟨_, rfl⟩
  | dotted => exact ⟨_, rfl⟩
  | wrapped => exact ⟨_, rfl⟩

theorem exists_of_startsLoosely {text : List Char} {o : ℕ} (h : StartsLoosely (octets text) o) :
    ∃ front rest, text = front ++ rest ∧ utf8Size front = o := by
  obtain ⟨gap, name, a, r, -, hcall⟩ := h
  obtain ⟨s, hs⟩ := colon_of_scriptCall hcall
  obtain ⟨front, rest, rfl, rfl, -⟩ := exists_of_drop_octets (by decide) hs
  exact ⟨front, ':' :: rest, rfl, rfl⟩

theorem StartsScript.loosely {bytes : List UInt8} {o : ℕ} (h : StartsScript bytes o) :
    StartsLoosely bytes o := by
  obtain ⟨name, a, r, hcall⟩ := h
  exact ⟨[], name, a, r, List.forall_mem_nil _, hcall⟩

/-- The calls that the search comes to are the ones with whole pairs of colons in front. -/
theorem met_iff (front rest : List Char) (o : ℕ) :
    (utf8Size front ≤ o ∧ StartsLoosely (octets (front ++ rest)) o ∧
      InStep (octets (front ++ rest)) (utf8Size front) o) ↔
      ∃ u v, rest = u ++ v ∧ utf8Size (front ++ u) = o ∧ Met u v := by
  constructor
  · rintro ⟨hle, hstart, hstep⟩
    obtain ⟨before, v, htext, rfl⟩ := exists_of_startsLoosely hstart
    obtain ⟨u, rfl⟩ := isPrefix_of_utf8Size_le htext hle
    obtain rfl : rest = u ++ v := by simpa using htext
    refine ⟨u, v, rfl, rfl, ?_, (inStep_octets front u v).mp hstep⟩
    rwa [← List.append_assoc, startsLoosely_octets] at hstart
  · rintro ⟨u, v, rfl, rfl, hcall, heven⟩
    refine ⟨?_, ?_, (inStep_octets front u v).mpr heven⟩
    · rw [utf8Size_append]
      exact Nat.le_add_right ..
    · rw [← List.append_assoc, startsLoosely_octets]
      exact hcall

theorem isFirst_findScriptFrom (front rest : List Char) :
    IsFirst {o | utf8Size front ≤ o ∧ StartsLoosely (octets (front ++ rest)) o ∧
        InStep (octets (front ++ rest)) (utf8Size front) o}
      ((findScriptFrom (front ++ rest) (utf8Size front)).map Placed.start) := by
  simp only [met_iff]
  rw [findScriptFrom_append, Option.map_map]
  cases hfind : findScript rest with
  | none =>
    refine Set.eq_empty_iff_forall_notMem.mpr ?_
    rintro o ⟨u, v, hs, -, hm⟩
    obtain ⟨p, hp, -⟩ := findScript_of_met hs hm
    rw [hfind] at hp
    cases hp
  | some p =>
    obtain ⟨heven, t, hs, hread⟩ := of_findScript_eq_some hfind
    have hread := Option.isSome_iff_exists.mpr ⟨_, hread⟩
    refine ⟨⟨p.before, _, hs, rfl, ⟨t, rfl, hread⟩, heven⟩, ?_⟩
    rintro o ⟨u, v, hs, rfl, hm⟩
    obtain ⟨q, hq, w, rfl⟩ := findScript_of_met hs hm
    rw [hfind] at hq
    cases hq
    simp only [Function.comp_apply, Placed.start, Placed.behind, utf8Size_append]
    omega

theorem scriptCall_of_findScriptFrom {text : List Char} {offset : ℕ} {p : Placed ScriptCall}
    (h : findScriptFrom text offset = some p) : text = p.before ++ p.written ++ p.after ∧
      ∃ gap name argument, (∀ c ∈ gap, isAsciiBlank c = true) ∧
        p.marker = ⟨String.ofList name, String.ofList (trim argument)⟩ ∧
        ScriptCallOf gap name (octets argument) (octets p.after) ((octets text).drop p.start) := by
  obtain ⟨⟨front, rest⟩, hcut, hfind⟩ := Option.bind_eq_some_iff.mp h
  obtain ⟨q, hq, rfl⟩ := Option.map_eq_some_iff.mp hfind
  obtain ⟨rfl, -⟩ := cutAt?_eq_some hcut
  obtain ⟨hsplit, -, -⟩ := of_findScript hq
  obtain ⟨-, t, hs, hread⟩ := of_findScript_eq_some hq
  obtain ⟨gap, name, argument, hgap, hmarker, hcall⟩ := scriptCall_of_read hread
  refine ⟨?_, gap, name, argument, hgap, hmarker, ?_⟩
  · simp only [Placed.behind, List.append_assoc]
    rw [hsplit, List.append_assoc]
  · change ScriptCallOf gap name (octets argument) (octets q.after)
      ((octets (front ++ rest)).drop (utf8Size (front ++ q.before)))
    rwa [hs, ← List.append_assoc, drop_octets]

/-- What is found is the first call that the search comes to. It is the first call of the grammar exactly
if the search comes to that one, and comes to no other one first. -/
theorem script_call_found_iff (front rest : List Char) :
    let text := front ++ rest
    let offset := utf8Size front
    let found := findScriptFrom text offset
    let calls := {o | offset ≤ o ∧ StartsScript (octets text) o}
    let met := {o | offset ≤ o ∧ StartsLoosely (octets text) o ∧ InStep (octets text) offset o}
    IsFirst met (found.map Placed.start) ∧
      (∀ p ∈ found, text = p.before ++ p.written ++ p.after ∧
        ∃ gap name argument, (∀ c ∈ gap, isAsciiBlank c = true) ∧
          p.marker = ⟨String.ofList name, String.ofList (trim argument)⟩ ∧
          ScriptCallOf gap name (octets argument) (octets p.after) ((octets text).drop p.start)) ∧
      (IsFirst calls (found.map Placed.start) ↔
        (∀ o, IsLeast calls o → InStep (octets text) offset o) ∧
          ∀ o, IsLeast met o → StartsScript (octets text) o) := by
  intro text offset found calls met
  have hfirst : IsFirst met (found.map Placed.start) := isFirst_findScriptFrom front rest
  refine ⟨hfirst, fun p hp => scriptCall_of_findScriptFrom hp, ?_⟩
  rw [hfirst.iff_mem]
  refine and_congr (forall₂_congr fun o ho => ?_) (forall₂_congr fun o ho => ?_)
  · obtain ⟨hle, hstart⟩ := ho.1
    exact ⟨fun h => h.2.2, fun h => ⟨hle, hstart.loosely, h⟩⟩
  · exact ⟨fun h => h.2, fun h => ⟨ho.1.1, h⟩⟩

/-- Behind a pair of colons the search comes to the next pair. -/
theorem call_behind_pair_found :
    let text := "é::::half(4)".toList
    ((findScriptFrom text 2).map Placed.start) = some 4 ∧
      IsFirst {o | 2 ≤ o ∧ StartsLoosely (octets text) o ∧ InStep (octets text) 2 o} (some 4) := by
  intro text
  have hfound : (findScriptFrom text 2).map Placed.start = some 4 := by decide
  have hfirst := (script_call_found_iff ['é'] "::::half(4)".toList).1
  exact ⟨hfound, hfound ▸ hfirst⟩

/-- With one colon more in front, the search passes over the first half of the call. -/
theorem call_behind_colon_missed :
    findScriptFrom ":::half(4)".toList 0 = none ∧
      StartsScript (octets ":::half(4)".toList) 1 ∧
      ¬ IsFirst {o | 0 ≤ o ∧ StartsScript (octets ":::half(4)".toList) o}
        ((findScriptFrom ":::half(4)".toList 0).map Placed.start) := by
  have hnone : findScriptFrom ":::half(4)".toList 0 = none := by decide
  have hargument : Parenthesized (octets "4".toList) [] (octets "(4)".toList) :=
    .mk (b := []) (List.forall_mem_nil _) (Balanced.character (c := '4') (by decide))
  have hcall : ScriptCallOf [] "half".toList (octets "4".toList) [] (octets "::half(4)".toList) :=
    .plain (.mk rfl (List.all_eq_true.mp rfl) hargument)
  have hstart : StartsScript (octets ":::half(4)".toList) 1 := ⟨_, _, _, hcall⟩
  refine ⟨hnone, hstart, ?_⟩
  rw [hnone]
  intro h
  exact Set.eq_empty_iff_forall_notMem.mp h 1 ⟨Nat.zero_le 1, hstart⟩

end TopicHub.Marker
