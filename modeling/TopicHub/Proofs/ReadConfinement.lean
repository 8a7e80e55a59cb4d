import TopicHub.Proofs.ReadSubstitution

/-!
What is read is put into the text, and not read in its turn. The markers whose topics are looked up
stand in the text from the beginning, and so do the places that values are put in; no two of these
places overlap, and there are no more lookups than markers.
-/

namespace TopicHub

open Text

namespace Marker

/-- A marker that is found in the text, when it is searched for from where it stands. -/
structure Stands (text : List Char) (p : Placed ReadMarker) : Prop where
  parts : text = p.before ++ p.written ++ p.after
  found : findReadFrom text p.start = some p

theorem findRead_of_readAt? {previous : Option Char} {s rest : List Char} {marker : ReadMarker}
    (hp : previous.any isNamePart = false) (hr : readAt? s = some (marker, rest)) :
    findRead previous s = some ⟨[], consumed s rest, marker, rest⟩ := by
  cases s with
  | nil => cases hr
  | cons c s => simp [findRead, hp, hr]

/-- Whether a text ends in a part of a name; if it is empty, what stands in front of it decides. -/
theorem namePart_cons (c : Char) (s : List Char) (masked : Bool) :
    ((c :: s).getLast?.map isNamePart).getD masked =
      (s.getLast?.map isNamePart).getD (isNamePart c) := by
  rw [List.getLast?_cons]
  cases s.getLast? <;> rfl

theorem readAt?_of_mem_callsBehind {front : List Char} {masked : Bool} {s : List Char}
    {p : Placed ReadMarker} (h : p ∈ callsBehind front masked s) :
    ∃ b, p.before = front ++ b ∧ s = b ++ p.written ++ p.after ∧
      readAt? (p.written ++ p.after) = some (p.marker, p.after) ∧
      (b.getLast?.map isNamePart).getD masked = false := by
  induction s generalizing front masked with
  | nil => cases h
  | cons c s ih =>
    rcases List.mem_append.mp h with hp | hp
    · obtain ⟨hb, -, hs⟩ := mem_atOnce hp
      refine ⟨[], by simp [hb], hs, ?_⟩
      cases masked with
      | true => cases hp
      | false =>
        obtain ⟨⟨marker, rest⟩, hr, rfl⟩ := Option.map_eq_some_iff.mp (Option.mem_toList.mp hp)
        rw [← hs]
        exact ⟨hr, rfl⟩
    · obtain ⟨b, hb, hs, hr, hm⟩ := ih hp
      exact ⟨c :: b, by simp [hb], by simp [hs], hr, (namePart_cons c b masked).trans hm⟩

theorem stands_of_mem_calls {text : List Char} {p : Placed ReadMarker} (h : p ∈ calls text) :
    Stands text p := by
  obtain ⟨b, hb, hs, hr, hm⟩ := readAt?_of_mem_callsBehind h
  obtain ⟨before, written, marker, after⟩ := p
  obtain rfl : before = b := hb
  have hprevious : before.getLast?.any isNamePart = false := by
    cases hl : before.getLast? with
    | none => rfl
    | some c => simpa [hl] using hm
  refine ⟨hs, ?_⟩
  rw [hs, List.append_assoc]
  refine (findReadFrom_append ..).trans ?_
  rw [findRead_of_readAt? hprevious hr, consumed_append]
  simp [Placed.behind]

theorem Stands.stop_le {text : List Char} {p q : Placed ReadMarker} (hp : Stands text p)
    (hq : Stands text q) (h : p.edge ≤ q.first) : p.stop ≤ q.start := by
  have hfront : p.before ++ p.written <+: text := ⟨p.after, hp.parts.symm⟩
  have hbefore : q.before <+: text := ⟨q.written ++ q.after, by rw [hq.parts, List.append_assoc]⟩
  obtain ⟨u, hu⟩ := List.prefix_of_prefix_length_le hfront hbefore
    (by rw [List.length_append]; exact h)
  have hsize := utf8Size_append (p.before ++ p.written) u
  rw [hu, utf8Size_append] at hsize
  unfold Placed.stop Placed.start
  omega

section

variable {next : Placed ReadMarker → Option Nat}

theorem edge_le_of_mem_passFrom (h : Advances next) {e : Nat} {ps : List (Placed ReadMarker)} :
    ∀ q ∈ passFrom next e ps, e ≤ q.first := by
  induction ps generalizing e with
  | nil => exact List.forall_mem_nil _
  | cons p ps ih =>
    by_cases he : e ≤ p.first
    · rw [passFrom_cons he]
      refine List.forall_mem_cons.mpr ⟨he, fun q hq => ?_⟩
      have hlater := ih q hq
      cases hn : next p with
      | none => simpa [hn] using hlater
      | some f =>
        have hf := h p f hn
        rw [hn, Option.getD_some] at hlater
        omega
    · rw [passFrom_cons_of_lt (Nat.not_le.mp he)]
      exact ih

theorem pairwise_passFrom (h : Advances next) (e : Nat) (ps : List (Placed ReadMarker)) :
    (passFrom next e ps).Pairwise fun p q => ∀ f ∈ next p, f ≤ q.first := by
  induction ps generalizing e with
  | nil => exact List.Pairwise.nil
  | cons p ps ih =>
    by_cases he : e ≤ p.first
    · rw [passFrom_cons he]
      refine List.Pairwise.cons (fun q hq f hf => ?_) (ih _)
      have hlater := edge_le_of_mem_passFrom h q hq
      rwa [hf, Option.getD_some] at hlater
    · rw [passFrom_cons_of_lt (Nat.not_le.mp he)]
      exact ih e

end

end Marker

namespace Variables

open Marker

variable (lookup : String → Option String) (text : List Char)

def asked : List (Placed ReadMarker) :=
  askedFrom (markerValue lookup) (readMarkers text).length 0 (calls text)

theorem replaced_eq : replaced lookup text =
    (asked lookup text).filter (hasValue (markerValue lookup)) := rfl

theorem stands_of_mem_asked {p : Placed ReadMarker} (h : p ∈ asked lookup text) : Stands text p :=
  stands_of_mem_calls ((passFrom_sublist _ 0 _).subset (List.mem_of_mem_take h))

theorem disjoint_replaced :
    (replaced lookup text).Pairwise fun p q => p.stop ≤ q.start := by
  have hpass : (asked lookup text).Pairwise fun p q =>
      ∀ f ∈ (markerValue lookup p.marker).map (reach p), f ≤ q.first :=
    (pairwise_passFrom (scan_advances _) 0 (calls text)).sublist (List.take_sublist ..)
  rw [replaced_eq, List.pairwise_filter]
  refine hpass.imp_of_mem fun {p q} hp hq hlater hv _ => ?_
  obtain ⟨value, hvalue⟩ := Option.isSome_iff_exists.mp hv
  have hreach : reach p value ≤ q.first := hlater _ (by rw [hvalue]; rfl)
  exact (stands_of_mem_asked lookup text hp).stop_le (stands_of_mem_asked lookup text hq)
    (Nat.le_trans (edge_le_reach p value) hreach)

/-- A text in which markers are read becomes the text with values in the places of some of its markers.
The lookups are those of its own markers, and no more than it has markers; a value is put in the place
of the marker that it was looked up for, and these places stand one behind the other. -/
theorem values_not_read {text : List Char} (h : usesBareNames text = false) :
    let run := (resolveReadMarkers (noting lookup) text).run []
    resolve lookup text = run.1 ∧
      run.1 = fill lookup text (replaced lookup text) ∧
      run.2 = (asked lookup text).map (·.marker.topic) ∧
      run.2.length ≤ (readMarkers text).length ∧
      (∀ p ∈ asked lookup text, Stands text p) ∧
      replaced lookup text = (asked lookup text).filter (hasValue (markerValue lookup)) ∧
      (replaced lookup text).Pairwise fun p q => p.stop ≤ q.start := by
  intro run
  have hrun : run = (fill lookup text (replaced lookup text),
      (asked lookup text).map (·.marker.topic)) :=
    run_replaceFrom lookup (readMarkers text).length [] [] text []
  have hresolve := resolve_eq_fill lookup h
  rw [hrun]
  refine ⟨hresolve, rfl, rfl, ?_, fun p => stands_of_mem_asked lookup text,
    rfl, disjoint_replaced lookup text⟩
  rw [List.length_map]
  exact List.length_take_le ..

def echoes (name : String) : Option String :=
  if name = "a" then some "Read('b')" else if name = "b" then some "on" else none

/-- That marker is not read. -/
theorem marker_in_payload_stays :
    usesBareNames "Read('a')+Read('c')".toList = false ∧
      resolve echoes "Read('a')+Read('c')".toList = "Read('b')+Read('c')".toList ∧
      ((resolveReadMarkers (noting echoes) "Read('a')+Read('c')".toList).run []).2 = ["a", "c"] := by
  have hb : usesBareNames "Read('a')+Read('c')".toList = false := by cbv
  obtain ⟨hresolve, hfill, hlog, -⟩ := values_not_read echoes hb
  refine ⟨hb, ?_, ?_⟩
  · rw [hresolve, hfill]
    decide
  · rw [hlog]
    decide

end Variables

end TopicHub
