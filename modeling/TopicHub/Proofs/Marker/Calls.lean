import TopicHub.Proofs.Marker.Written

/-!
All calls of a text, also those in the arguments of others. Searching for the next marker is to
take the first call of what is left; the markers that are listed are the calls that do not start
in one listed before. What stands in front of a text matters only to a call at its very start.
-/

namespace TopicHub

namespace Placed

variable {μ : Type}

def first (p : Placed μ) : Nat := p.before.length

def edge (p : Placed μ) : Nat := p.before.length + p.written.length

theorem first_le_edge (p : Placed μ) : p.first ≤ p.edge := Nat.le_add_right ..

end Placed

namespace Marker

/-- The call at the start of a text behind `front`, if there is one. If it is masked, there is
none. -/
def atOnce (front : List Char) (masked : Bool) (s : List Char) : List (Placed ReadMarker) :=
  if masked then []
  else ((readAt? s).map fun (marker, rest) => ⟨front, consumed s rest, marker, rest⟩).toList

def callsBehind (front : List Char) (masked : Bool) : List Char → List (Placed ReadMarker)
  | [] => []
  | c :: s => atOnce front masked (c :: s) ++ callsBehind (front ++ [c]) (isNamePart c) s

def calls (text : List Char) : List (Placed ReadMarker) := callsBehind [] false text

theorem mem_atOnce {front s : List Char} {masked : Bool} {p : Placed ReadMarker}
    (h : p ∈ atOnce front masked s) :
    p.before = front ∧ Written p.written ∧ s = p.written ++ p.after := by
  cases masked with
  | true => cases h
  | false =>
    obtain ⟨⟨marker, rest⟩, hr, rfl⟩ := Option.map_eq_some_iff.mp (Option.mem_toList.mp h)
    obtain ⟨w, hw, rfl⟩ := readAt?_eq hr
    dsimp only
    rw [consumed_append]
    exact ⟨rfl, hw, rfl⟩

theorem mem_callsBehind {front : List Char} {masked : Bool} {s : List Char} {p : Placed ReadMarker}
    (h : p ∈ callsBehind front masked s) :
    ∃ b, p.before = front ++ b ∧ Written p.written ∧ s = b ++ p.written ++ p.after := by
  induction s generalizing front masked with
  | nil => cases h
  | cons c s ih =>
    rcases List.mem_append.mp h with hp | hp
    · obtain ⟨hb, hw, hs⟩ := mem_atOnce hp
      exact ⟨[], hb.trans (List.append_nil front).symm, hw, hs⟩
    · obtain ⟨b, hb, hw, hs⟩ := ih hp
      refine ⟨c :: b, ?_, hw, ?_⟩
      · rw [hb]
        simp
      · rw [hs]
        rfl

theorem length_le_first {front : List Char} {masked : Bool} {s : List Char} {p : Placed ReadMarker}
    (h : p ∈ callsBehind front masked s) : front.length ≤ p.first := by
  obtain ⟨b, hb, -⟩ := mem_callsBehind h
  unfold Placed.first
  rw [hb, List.length_append]
  exact Nat.le_add_right ..

theorem lt_first_of_later {front : List Char} {c : Char} {masked : Bool} {s : List Char}
    {p : Placed ReadMarker} (h : p ∈ callsBehind (front ++ [c]) masked s) :
    front.length < p.first := by
  have hl := length_le_first h
  rw [List.length_append] at hl
  exact hl

def InOrder (ps : List (Placed ReadMarker)) : Prop := ps.Pairwise fun p q => p.first < q.first

theorem inOrder_callsBehind (front : List Char) (masked : Bool) (s : List Char) :
    InOrder (callsBehind front masked s) := by
  induction s generalizing front masked with
  | nil => exact List.Pairwise.nil
  | cons c s ih =>
    apply List.pairwise_append.mpr
    refine ⟨?_, ih _ _, ?_⟩
    · cases masked with
      | true => exact List.Pairwise.nil
      | false =>
        unfold atOnce
        cases readAt? (c :: s) with
        | none => exact List.Pairwise.nil
        | some r => exact List.pairwise_singleton _ _
    · intro p hp q hq
      unfold Placed.first
      rw [(mem_atOnce hp).1]
      exact lt_first_of_later hq

theorem atOnce_beyond (front : List Char) (masked : Bool) (s : List Char) {n : Nat}
    (hn : front.length < n) : (atOnce front masked s).filter (n ≤ ·.first) = [] := by
  apply List.filter_eq_nil_iff.mpr
  intro p hp
  unfold Placed.first
  rw [(mem_atOnce hp).1]
  simpa using hn

theorem filter_all (front : List Char) (masked : Bool) (s : List Char) {n : Nat}
    (hn : n ≤ front.length) :
    (callsBehind front masked s).filter (n ≤ ·.first) = callsBehind front masked s := by
  apply List.filter_eq_self.mpr
  intro p hp
  exact decide_eq_true (Nat.le_trans hn (length_le_first hp))

theorem callsBehind_masked (front s : List Char) :
    callsBehind front true s = (callsBehind front false s).filter (front.length + 1 ≤ ·.first) := by
  cases s with
  | nil => rfl
  | cons c s =>
    unfold callsBehind
    rw [List.filter_append, atOnce_beyond _ _ _ (Nat.lt_succ_self _), filter_all]
    · rfl
    · simp

theorem callsBehind_append (front : List Char) (masked : Bool) {w : List Char} (hw : w ≠ [])
    (rest : List Char) :
    (callsBehind front masked (w ++ rest)).filter (front.length + w.length ≤ ·.first) =
      callsBehind (front ++ w) (w.getLast?.any isNamePart) rest := by
  induction w generalizing front masked with
  | nil => exact absurd rfl hw
  | cons c w ih =>
    rw [List.cons_append, callsBehind, List.filter_append, atOnce_beyond _ _ _ (by simp),
      List.nil_append]
    cases w with
    | nil => exact filter_all _ _ _ (by simp)
    | cons d w =>
      have h := ih (front ++ [c]) (isNamePart c) (List.cons_ne_nil d w)
      have hl : front.length + (c :: d :: w).length = (front ++ [c]).length + (d :: w).length := by
        simp only [List.length_append, List.length_cons, List.length_nil]
        omega
      rw [hl, h, List.append_assoc, List.getLast?_cons_cons]
      rfl

/-- What is found in a text, and the calls of that text: the first of them is found, and the
others start behind its first letter. -/
inductive Search (front : List Char) (previous : Option Char) (s : List Char) :
    Option (Placed ReadMarker) → List (Placed ReadMarker) → Prop where
  | nothing : Search front previous s none []
  | found {b w rest : List Char} (marker : ReadMarker) (hs : s = b ++ w ++ rest) (hw : Written w)
      (hb : (b.getLast?.or previous).any isNamePart = false) :
      Search front previous s (some ⟨b, w, marker, rest⟩)
        (⟨front ++ b, w, marker, rest⟩ ::
          callsBehind (front ++ b ++ w.take 1) true (w.drop 1 ++ rest))

theorem Search.later {front s : List Char} {c : Char} {previous : Option Char}
    {r : Option (Placed ReadMarker)} {ps : List (Placed ReadMarker)}
    (h : Search (front ++ [c]) (some c) s r ps) :
    Search front previous (c :: s) (r.map fun p => { p with before := c :: p.before }) ps := by
  cases h with
  | nothing => exact Search.nothing
  | found marker hs hw hb =>
    rename_i b w rest
    have hs' : c :: s = (c :: b) ++ w ++ rest := congrArg (c :: ·) hs
    have hb' : ((c :: b).getLast?.or previous).any isNamePart = false := by
      cases b with
      | nil => exact hb
      | cons d b => exact hb
    rw [List.append_assoc front [c]]
    exact Search.found marker hs' hw hb'

theorem search (front : List Char) (previous : Option Char) (s : List Char) :
    Search front previous s (findRead previous s)
      (callsBehind front (previous.any isNamePart) s) := by
  induction s generalizing front previous with
  | nil => exact Search.nothing
  | cons c s ih =>
    have hlater : Search front previous (c :: s)
        ((findRead (some c) s).map fun p => { p with before := c :: p.before })
        (callsBehind (front ++ [c]) (isNamePart c) s) := (ih (front ++ [c]) (some c)).later
    unfold findRead callsBehind atOnce
    cases hm : previous.any isNamePart with
    | true => exact hlater
    | false =>
      cases hr : readAt? (c :: s) with
      | none => exact hlater
      | some r =>
        obtain ⟨marker, rest⟩ := r
        obtain ⟨w, hw, hs⟩ := readAt?_eq hr
        have hc : consumed (c :: s) rest = w := by rw [hs, consumed_append]
        have hl : callsBehind (front ++ [c]) (isNamePart c) s =
            callsBehind (front ++ w.take 1) true (w.drop 1 ++ rest) := by
          cases hw with
          | mk middle hclose =>
            obtain ⟨rfl, rfl⟩ := List.cons.inj hs
            rfl
        simp only [Bool.false_eq_true, if_false, Option.map_some, hc, hl]
        have hf : Search front previous (c :: s) (some ⟨[], w, marker, rest⟩)
            (⟨front ++ [], w, marker, rest⟩ ::
              callsBehind (front ++ [] ++ w.take 1) true (w.drop 1 ++ rest)) :=
          Search.found marker hs hw hm
        rw [List.append_nil] at hf
        exact hf

/-- Behind a marker nothing is masked. -/
theorem callsBehind_written (front : List Char) (masked : Bool) {w : List Char} (hw : Written w)
    (rest : List Char) :
    (callsBehind (front ++ w.take 1) masked (w.drop 1 ++ rest)).filter
        (front.length + w.length ≤ ·.first) =
      callsBehind (front ++ w) false rest := by
  cases hw with
  | mk middle hclose =>
    rename_i close
    have hne : middle ++ [close] ≠ [] := by simp
    have hl : front.length + ('R' :: middle ++ [close]).length =
        (front ++ ['R']).length + (middle ++ [close]).length := by
      simp only [List.length_append, List.length_cons, List.length_nil]
      omega
    have h := callsBehind_append (front ++ ['R']) masked hne rest
    rw [List.getLast?_concat, Option.any_some, hclose, List.append_assoc front] at h
    rw [hl]
    exact h

/-- The calls that a pass comes to. It overlooks those that start in front of `edge`, and moves
`edge` on as `next` says. -/
def passFrom (next : Placed ReadMarker → Option Nat) (edge : Nat) :
    List (Placed ReadMarker) → List (Placed ReadMarker)
  | [] => []
  | p :: ps =>
    if p.first < edge then passFrom next edge ps
    else p :: passFrom next ((next p).getD edge) ps

def Advances (next : Placed ReadMarker → Option Nat) : Prop := ∀ p, ∀ e ∈ next p, p.first ≤ e

section

variable {next : Placed ReadMarker → Option Nat}

theorem passFrom_cons {e : Nat} {p : Placed ReadMarker} (h : e ≤ p.first)
    (ps : List (Placed ReadMarker)) :
    passFrom next e (p :: ps) = p :: passFrom next ((next p).getD e) ps :=
  if_neg (Nat.not_lt.mpr h)

theorem passFrom_cons_of_lt {e : Nat} {p : Placed ReadMarker} (h : p.first < e)
    (ps : List (Placed ReadMarker)) : passFrom next e (p :: ps) = passFrom next e ps :=
  if_pos h

theorem passFrom_sublist (next : Placed ReadMarker → Option Nat) (edge : Nat)
    (ps : List (Placed ReadMarker)) : (passFrom next edge ps).Sublist ps := by
  induction ps generalizing edge with
  | nil => exact List.Sublist.slnil
  | cons p ps ih =>
    unfold passFrom
    split
    · exact (ih edge).cons p
    · exact (ih _).cons_cons p

theorem passFrom_filter (h : Advances next) (d e : Nat) (ps : List (Placed ReadMarker)) :
    passFrom next d (ps.filter (e ≤ ·.first)) = passFrom next (max d e) ps := by
  induction ps generalizing d with
  | nil => rfl
  | cons p ps ih =>
    by_cases he : e ≤ p.first
    · rw [List.filter_cons_of_pos (by simpa using he)]
      by_cases hd : d ≤ p.first
      · rw [passFrom_cons hd, passFrom_cons (by omega), ih]
        cases hn : next p with
        | none => rfl
        | some f =>
          have hf : p.first ≤ f := h p f hn
          rw [Option.getD_some, Option.getD_some, Nat.max_eq_left (by omega)]
      · rw [passFrom_cons_of_lt (by omega), passFrom_cons_of_lt (by omega), ih]
    · rw [List.filter_cons_of_neg (by simpa using he), passFrom_cons_of_lt (by omega), ih]

end

/-- The calls at or behind `edge` that do not start in one listed before. -/
def listedFrom (edge : Nat) (ps : List (Placed ReadMarker)) : List (Placed ReadMarker) :=
  passFrom (fun p => some p.edge) edge ps

theorem listed_advances : Advances fun p => some p.edge := by
  intro p e he
  cases he
  exact p.first_le_edge

theorem readMarkersBehind_eq (n : Nat) (front rest : List Char) :
    readMarkersBehind n front rest =
      (listedFrom front.length
        (callsBehind front (front.getLast?.any isNamePart) rest)).take n := by
  induction n generalizing front rest with
  | zero => rfl
  | succ n ih =>
    have hsearch := search front front.getLast? rest
    unfold readMarkersBehind
    generalize findRead front.getLast? rest = r at hsearch
    generalize callsBehind front (front.getLast?.any isNamePart) rest = ps at hsearch
    cases hsearch with
    | nothing => rfl
    | found marker hs hw hb =>
      rename_i b w rest
      have hlast : (front ++ b ++ w).getLast?.any isNamePart = false := by
        cases hw with
        | mk middle hclose =>
          rw [← List.append_assoc, List.getLast?_concat]
          exact hclose
      let p : Placed ReadMarker := ⟨front ++ b, w, marker, rest⟩
      have hfirst : front.length ≤ p.first := by simp [p, Placed.first]
      have hedge : (front ++ b).length + w.length = (front ++ b ++ w).length :=
        List.length_append.symm
      have hlater := callsBehind_written (front ++ b) true hw rest
      have hih := ih (front ++ b ++ w) rest
      rw [hlast, ← hlater, hedge, listedFrom, passFrom_filter listed_advances, Nat.max_self] at hih
      rw [listedFrom, passFrom_cons hfirst, List.take_succ_cons, Option.getD_some]
      unfold Placed.edge
      rw [hedge]
      exact congrArg (p :: ·) hih

theorem length_callsBehind_le (front : List Char) (masked : Bool) (s : List Char) :
    (callsBehind front masked s).length ≤ s.length := by
  induction s generalizing front masked with
  | nil => exact Nat.le_refl 0
  | cons c s ih =>
    have hnow : (atOnce front masked (c :: s)).length ≤ 1 := by
      unfold atOnce
      cases masked with
      | true => exact Nat.zero_le 1
      | false => cases readAt? (c :: s) <;> simp
    have hlater := ih (front ++ [c]) (isNamePart c)
    rw [callsBehind, List.length_append, List.length_cons]
    omega

theorem readMarkers_eq (text : List Char) : readMarkers text = listedFrom 0 (calls text) := by
  have hl : (listedFrom 0 (calls text)).length ≤ text.length :=
    Nat.le_trans (passFrom_sublist _ 0 _).length_le (length_callsBehind_le [] false text)
  have h := readMarkersBehind_eq text.length [] text
  exact h.trans (List.take_of_length_le hl)

end Marker

end TopicHub
