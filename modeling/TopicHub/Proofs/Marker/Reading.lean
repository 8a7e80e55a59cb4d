import TopicHub.Proofs.Marker.Grammar

/-!
Calls are read as the grammar derives them. What is read at the start of a text is a call of the grammar,
with the same argument and the same rest, and no call of the grammar is refused.
-/

namespace TopicHub.Marker

open Text

theorem dropWhile_append_of_not {p : Char → Bool} {u : List Char} (hu : ∀ c ∈ u, p c = true)
    (hc : p c = false) (s : List Char) : (u ++ c :: s).dropWhile p = c :: s := by
  rw [List.dropWhile_append_of_pos hu, List.dropWhile_cons_of_neg]
  rw [hc]
  exact Bool.false_ne_true

theorem parenthesized_of_read {s arg rest : List Char}
    (h : parenthesized? (s.dropWhile isAsciiBlank) = some (arg, rest)) :
    Parenthesized (octets arg) (octets rest) (octets s) := by
  have hs : s.takeWhile isAsciiBlank ++ s.dropWhile isAsciiBlank = s :=
    List.takeWhile_append_dropWhile
  unfold parenthesized? at h
  split at h
  · rename_i t ht
    obtain ⟨rfl, ha⟩ := argument?_eq_some_iff.mp h
    rw [← hs, ht, octets_append, octets_cons_ascii (by decide), octets_append,
      octets_cons_ascii (by decide)]
    have hblank : ∀ c ∈ s.takeWhile isAsciiBlank, isAsciiBlank c = true :=
      fun c hc => List.mem_takeWhile_imp hc
    have hmk : Parenthesized (octets arg) (octets rest) _ := .mk hblank ha
    simpa using hmk
  · cases h

theorem read_of_parenthesized {a r : List UInt8} {s : List Char}
    (h : Parenthesized a r (octets s)) : ∃ arg rest, a = octets arg ∧ r = octets rest ∧
      parenthesized? (s.dropWhile isAsciiBlank) = some (arg, rest) := by
  generalize ho : octets s = o at h
  cases h with
  | @mk blanks hb ha =>
    rw [List.append_assoc] at ho
    obtain ⟨t, rfl, ht⟩ :=
      exists_of_octets_eq_append (fun c hc => isAscii_of_isAsciiBlank (hb c hc)) ho
    obtain ⟨t, rfl, hbehind⟩ := exists_of_octets_eq_cons (c := '(') (by decide) ht
    obtain ⟨arg, rest, rfl, rfl, rfl⟩ := exists_of_octets_eq (c := ')') (by decide) hbehind
    refine ⟨arg, rest, rfl, rfl, ?_⟩
    rw [dropWhile_append_of_not hb (by decide)]
    exact argument?_eq_some_iff.mpr ⟨rfl, ha⟩

theorem head_of_parenthesized {a r : List UInt8} {s : List Char}
    (h : Parenthesized a r (octets s)) : ∃ c t, s = c :: t ∧ isNamePart c = false := by
  generalize ho : octets s = o at h
  cases h with
  | @mk blanks hb ha =>
    rw [List.append_assoc] at ho
    obtain ⟨t, rfl, ht⟩ :=
      exists_of_octets_eq_append (fun c hc => isAscii_of_isAsciiBlank (hb c hc)) ho
    cases blanks with
    | nil =>
      obtain ⟨t, rfl, -⟩ := exists_of_octets_eq_cons (c := '(') (by decide) ht
      exact ⟨'(', t, rfl, by decide⟩
    | cons c blanks =>
      refine ⟨c, blanks ++ t, rfl, ?_⟩
      have hc := hb c (List.mem_cons_self ..)
      unfold isAsciiBlank at hc
      simp only [Bool.or_eq_true, decide_eq_true_eq] at hc
      rcases hc with (((rfl | rfl) | rfl) | rfl) | rfl <;> decide

def readArgument? (s : List Char) : Reading (List Char) :=
  readKeywords.findSome? fun keyword =>
    (after? keyword s).bind fun t => parenthesized? (t.dropWhile isAsciiBlank)

def markerOf (argument behind : List Char) : ReadMarker × List Char :=
  match key? behind with
  | some (key, rest) =>
    (⟨String.ofList (unquote argument), some (String.ofList (unquote key))⟩, rest)
  | none => (⟨String.ofList (unquote argument), none⟩, behind)

theorem readAt?_eq_map (s : List Char) :
    readAt? s = (readArgument? s).map fun (argument, behind) => markerOf argument behind := by
  have hafter (keyword : List Char) : readAfter? keyword s =
      ((after? keyword s).bind fun t => parenthesized? (t.dropWhile isAsciiBlank)).map
        fun (argument, behind) => markerOf argument behind := by
    unfold readAfter? markerOf
    cases after? keyword s with
    | none => rfl
    | some t =>
      rw [Option.bind_some]
      dsimp only
      cases parenthesized? (t.dropWhile isAsciiBlank) with
      | none => rfl
      | some found =>
        obtain ⟨argument, behind⟩ := found
        rw [Option.map_some]
        dsimp only
        cases key? behind <;> rfl
  unfold readAt? readArgument?
  rw [List.map_findSome?]
  exact congrArg (List.findSome? · readKeywords) (funext hafter)

theorem readCall_of_read {s arg rest : List Char} (h : readArgument? s = some (arg, rest)) :
    ReadCall (octets arg) (octets rest) (octets s) := by
  obtain ⟨keyword, hk, h⟩ := List.exists_of_findSome?_eq_some h
  obtain ⟨t, ht, h⟩ := Option.bind_eq_some_iff.mp h
  rw [after?_eq ht, octets_append]
  exact .mk hk (parenthesized_of_read h)

/-- If the shorter keyword stands in front of an argument, the longer one does not stand there. -/
theorem read_of_readCall {a r : List UInt8} {s : List Char} (h : ReadCall a r (octets s)) :
    ∃ arg rest, a = octets arg ∧ r = octets rest ∧ readArgument? s = some (arg, rest) := by
  generalize ho : octets s = o at h
  cases h with
  | @mk keyword o hk hs =>
    obtain ⟨t, rfl, rfl⟩ :=
      exists_of_octets_eq_append (isAscii_of_mem_readKeywords keyword hk) ho
    obtain ⟨arg, rest, rfl, rfl, hread⟩ := read_of_parenthesized hs
    refine ⟨arg, rest, rfl, rfl, ?_⟩
    simp only [readKeywords, List.mem_cons, List.not_mem_nil, or_false] at hk
    rcases hk with rfl | rfl
    · rw [readArgument?, readKeywords, List.findSome?_cons, after?_append, Option.bind_some, hread]
    · obtain ⟨c, u, rfl, hc⟩ := head_of_parenthesized hs
      have hlong : after? "ReadFromMemory".toList ("Read".toList ++ c :: u) = none := by
        have hF : 'F' ≠ c := by
          rintro rfl
          exact absurd hc (by decide)
        simp [after?, hF]
      rw [readArgument?, readKeywords, List.findSome?_cons, hlong, Option.bind_none,
        List.findSome?_cons, after?_append, Option.bind_some, hread]

theorem named_of_read {s rest : List Char} {script : ScriptCall}
    (h : nameAndArgument? s = some (script, rest)) :
    ∃ name arg, script = ⟨String.ofList name, String.ofList (trim arg)⟩ ∧
      Named name (octets arg) (octets rest) (octets s) := by
  unfold nameAndArgument? at h
  split at h
  · rename_i hf
    split at h
    · cases h
    · rename_i arg behind hp
      cases h
      refine ⟨s.takeWhile isNamePart, arg, rfl, ?_⟩
      have hs : s.takeWhile isNamePart ++ s.dropWhile isNamePart = s :=
        List.takeWhile_append_dropWhile
      have hfirst : (s.takeWhile isNamePart).head?.any isNameStart = true := by
        cases s with
        | nil => exact hf
        | cons c s =>
          have hc : isNamePart c = true := isNamePart_of_isNameStart hf
          rw [List.takeWhile_cons_of_pos hc]
          exact hf
      have hmk := Named.mk hfirst (fun c hc => List.mem_takeWhile_imp hc)
        (parenthesized_of_read hp)
      rwa [← octets_append, hs] at hmk
  · cases h

theorem read_of_named {name : List Char} {a r : List UInt8} {s : List Char}
    (h : Named name a r (octets s)) : ∃ arg rest, a = octets arg ∧ r = octets rest ∧
      nameAndArgument? s = some (⟨String.ofList name, String.ofList (trim arg)⟩, rest) := by
  generalize ho : octets s = o at h
  cases h with
  | @mk o hf hn hs =>
    obtain ⟨t, rfl, rfl⟩ :=
      exists_of_octets_eq_append (fun c hc => isAscii_of_isNamePart (hn c hc)) ho
    obtain ⟨arg, rest, rfl, rfl, hread⟩ := read_of_parenthesized hs
    obtain ⟨c, u, rfl, hc⟩ := head_of_parenthesized hs
    refine ⟨arg, rest, rfl, rfl, ?_⟩
    have hfirst : (name ++ c :: u).head?.any isNameStart = true := by
      cases name with
      | nil => cases hf
      | cons d name => exact hf
    have hname : (name ++ c :: u).takeWhile isNamePart = name := by
      rw [List.takeWhile_append_of_pos hn, List.takeWhile_cons_of_neg, List.append_nil]
      rw [hc]
      exact Bool.false_ne_true
    rw [nameAndArgument?, if_pos hfirst, dropWhile_append_of_not hn hc, hread, hname]

theorem scriptCall_of_read {s rest : List Char} {script : ScriptCall}
    (h : scriptAt? s = some (script, rest)) : ∃ gap name arg, (∀ c ∈ gap, isAsciiBlank c = true) ∧
      script = ⟨String.ofList name, String.ofList (trim arg)⟩ ∧
      ScriptCallOf gap name (octets arg) (octets rest) (octets (':' :: ':' :: s)) := by
  have hcolons (s : List Char) : octets (':' :: ':' :: s) = octets "::".toList ++ octets s :=
    octets_append "::".toList s
  have hpoint (s : List Char) : octets (':' :: ':' :: '.' :: s) = octets "::.".toList ++ octets s :=
    octets_append "::.".toList s
  have hopen (s : List Char) : octets (':' :: ':' :: '(' :: s) = octets "::(".toList ++ octets s :=
    octets_append "::(".toList s
  unfold scriptAt? at h
  split at h
  · rename_i t
    split at h
    · cases h
    · rename_i found behind hfound
      split at h
      · rename_i after hafter
        cases h
        obtain ⟨name, arg, he, hnamed⟩ := named_of_read hfound
        have hbehind : behind.takeWhile isAsciiBlank ++ ')' :: rest = behind := by
          rw [← hafter, List.takeWhile_append_dropWhile]
        have hrest : octets behind =
            octets (behind.takeWhile isAsciiBlank) ++ octet ')' :: octets rest := by
          rw [← octets_cons_ascii (by decide), ← octets_append, hbehind]
        rw [hrest] at hnamed
        refine ⟨behind.takeWhile isAsciiBlank, name, arg, fun c hc => List.mem_takeWhile_imp hc,
          he, ?_⟩
        rw [hopen]
        exact .wrapped hnamed
      · cases h
  · rename_i t
    obtain ⟨name, arg, he, hnamed⟩ := named_of_read h
    refine ⟨[], name, arg, List.forall_mem_nil _, he, ?_⟩
    rw [hpoint]
    exact .dotted hnamed
  · obtain ⟨name, arg, he, hnamed⟩ := named_of_read h
    refine ⟨[], name, arg, List.forall_mem_nil _, he, ?_⟩
    rw [hcolons]
    exact .plain hnamed

theorem read_of_scriptCall {gap name : List Char} {a r : List UInt8} {v : List Char}
    (hgap : ∀ c ∈ gap, isAsciiBlank c = true) (h : ScriptCallOf gap name a r (octets v)) :
    ∃ s arg rest, v = ':' :: ':' :: s ∧ a = octets arg ∧ r = octets rest ∧
      scriptAt? s = some (⟨String.ofList name, String.ofList (trim arg)⟩, rest) := by
  generalize ho : octets v = o at h
  cases h with
  | plain hs =>
    obtain ⟨s, rfl, rfl⟩ := exists_of_octets_eq_append (by simp [IsAscii]) ho
    obtain ⟨arg, rest, rfl, rfl, hread⟩ := read_of_named hs
    refine ⟨s, arg, rest, rfl, rfl, rfl, ?_⟩
    have hfirst : s.head?.any isNameStart = true := by
      by_contra hf
      rw [nameAndArgument?, if_neg hf] at hread
      cases hread
    unfold scriptAt?
    split
    · cases hfirst
    · cases hfirst
    · exact hread
  | dotted hs =>
    obtain ⟨s, rfl, rfl⟩ := exists_of_octets_eq_append (by simp [IsAscii]) ho
    obtain ⟨arg, rest, rfl, rfl, hread⟩ := read_of_named hs
    exact ⟨'.' :: s, arg, rest, rfl, rfl, rfl, hread⟩
  | wrapped hs =>
    obtain ⟨s, rfl, rfl⟩ := exists_of_octets_eq_append (by simp [IsAscii]) ho
    obtain ⟨arg, behind, rfl, hb, hread⟩ := read_of_named hs
    obtain ⟨t, rfl, ht⟩ :=
      exists_of_octets_eq_append (fun c hc => isAscii_of_isAsciiBlank (hgap c hc)) hb.symm
    obtain ⟨rest, rfl, rfl⟩ := exists_of_octets_eq_cons (c := ')') (by decide) ht
    refine ⟨'(' :: s, arg, rest, rfl, rfl, rfl, ?_⟩
    simp only [scriptAt?, hread, dropWhile_append_of_not hgap (by decide : isAsciiBlank ')' = false)]

end TopicHub.Marker
