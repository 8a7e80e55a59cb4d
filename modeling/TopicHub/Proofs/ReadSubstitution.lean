import Mathlib
import TopicHub.Expression.Variables
import TopicHub.Proofs.Marker.Calls
import TopicHub.Proofs.Marker.Offset

/-!
Which markers the substitution replaces. It comes to as many calls as the text has markers, but
not always to these: behind a marker without a value it goes on inside, and a value that ends like
a name hides the call directly behind it. The result is the text with the calls replaced that it
comes to and that have a value; these are the markers that have one under a condition on the text
and the values, and only then.
-/

namespace TopicHub.Variables

open Text Marker

def markerValue (lookup : String → Option String) (m : ReadMarker) : Option (List Char) :=
  valueOf (lookup m.topic) m.key

/-- A text from its character `i` on, which is `rest`, with values in place of markers. -/
def fillFrom (value : ReadMarker → Option (List Char)) (i : Nat) (rest : List Char) :
    List (Placed ReadMarker) → List Char
  | [] => rest
  | p :: ps => p.before.drop i ++ (value p.marker).getD [] ++ fillFrom value p.edge p.after ps

def hasValue (value : ReadMarker → Option (List Char)) (p : Placed ReadMarker) : Bool :=
  (value p.marker).isSome

/-- Where calls are seen again behind a value. -/
def reach (p : Placed ReadMarker) (value : List Char) : Nat :=
  p.edge + if value.getLast?.any isNamePart then 1 else 0

def scanFrom (value : ReadMarker → Option (List Char)) (edge : Nat)
    (ps : List (Placed ReadMarker)) : List (Placed ReadMarker) :=
  passFrom (fun p => (value p.marker).map (reach p)) edge ps

theorem edge_le_reach (p : Placed ReadMarker) (value : List Char) : p.edge ≤ reach p value :=
  Nat.le_add_right ..

theorem scan_advances (value : ReadMarker → Option (List Char)) :
    Advances fun p => (value p.marker).map (reach p) := by
  intro p e he
  obtain ⟨v, -, rfl⟩ := Option.map_eq_some_iff.mp he
  exact Nat.le_trans p.first_le_edge (edge_le_reach p v)

def askedFrom (value : ReadMarker → Option (List Char)) (n edge : Nat)
    (ps : List (Placed ReadMarker)) : List (Placed ReadMarker) := (scanFrom value edge ps).take n

def replacedFrom (value : ReadMarker → Option (List Char)) (n edge : Nat)
    (ps : List (Placed ReadMarker)) : List (Placed ReadMarker) :=
  ((scanFrom value edge ps).take n).filter (hasValue value)

section

variable {value : ReadMarker → Option (List Char)} {p : Placed ReadMarker} {e : Nat}

theorem hasValue_of_some {v : List Char} (h : value p.marker = some v) :
    hasValue value p = true := by
  rw [hasValue, h, Option.isSome_some]

theorem not_hasValue (h : value p.marker = none) : ¬ hasValue value p = true := by
  rw [hasValue, h]
  exact Bool.false_ne_true

theorem replacedFrom_eq (value : ReadMarker → Option (List Char)) (n e : Nat)
    (ps : List (Placed ReadMarker)) :
    replacedFrom value n e ps = (askedFrom value n e ps).filter (hasValue value) := rfl

theorem askedFrom_cons (he : e ≤ p.first) (n : Nat) (ps : List (Placed ReadMarker)) :
    askedFrom value (n + 1) e (p :: ps) =
      p :: askedFrom value n (((value p.marker).map (reach p)).getD e) ps := by
  unfold askedFrom scanFrom
  rw [passFrom_cons he, List.take_succ_cons]

theorem askedFrom_filter (n d e : Nat) (ps : List (Placed ReadMarker)) :
    askedFrom value n d (ps.filter (e ≤ ·.first)) = askedFrom value n (max d e) ps := by
  unfold askedFrom scanFrom
  rw [passFrom_filter (scan_advances value)]

theorem replacedFrom_some {v : List Char} (he : e ≤ p.first) (hv : value p.marker = some v)
    (n : Nat) (ps : List (Placed ReadMarker)) :
    replacedFrom value (n + 1) e (p :: ps) = p :: replacedFrom value n (reach p v) ps := by
  rw [replacedFrom_eq, askedFrom_cons he, List.filter_cons_of_pos (hasValue_of_some hv), hv]
  rfl

theorem replacedFrom_none (he : e ≤ p.first) (hv : value p.marker = none) (n : Nat)
    (ps : List (Placed ReadMarker)) :
    replacedFrom value (n + 1) e (p :: ps) = replacedFrom value n e ps := by
  rw [replacedFrom_eq, askedFrom_cons he, List.filter_cons_of_neg (not_hasValue hv), hv]
  rfl

theorem replacedFrom_of_lt (he : p.first < e) (n : Nat) (ps : List (Placed ReadMarker)) :
    replacedFrom value n e (p :: ps) = replacedFrom value n e ps := by
  unfold replacedFrom scanFrom
  rw [passFrom_cons_of_lt he]

theorem replacedFrom_subset (n : Nat) (ps : List (Placed ReadMarker)) :
    replacedFrom value n e ps ⊆ ps := by
  intro q hq
  exact (passFrom_sublist _ e ps).subset (List.mem_of_mem_take (List.mem_filter.mp hq).1)

end

theorem fillFrom_append (value : ReadMarker → Option (List Char)) (front u t : List Char)
    {ps : List (Placed ReadMarker)} (h : ∀ p ∈ ps, ∃ b, p.before = front ++ u ++ b) :
    fillFrom value front.length (u ++ t) ps = u ++ fillFrom value (front ++ u).length t ps := by
  cases ps with
  | nil => rfl
  | cons p ps =>
    obtain ⟨b, hb⟩ := h p (List.mem_cons_self ..)
    have hd : p.before.drop front.length = u ++ b := by
      rw [hb, List.append_assoc, List.drop_left]
    have hd' : p.before.drop (front ++ u).length = b := by
      rw [hb, List.drop_left]
    unfold fillFrom
    rw [hd, hd']
    simp

/-- The calls behind a value, as the substitution sees them. -/
theorem callsBehind_value {front before w rest : List Char} (hw : Written w)
    (value done : List Char) (hb : (before.getLast?.or done.getLast?).any isNamePart = false)
    (marker : ReadMarker) :
    let p : Placed ReadMarker := ⟨front ++ before, w, marker, rest⟩
    callsBehind (front ++ before ++ w) ((done ++ before ++ value).getLast?.any isNamePart) rest =
      (callsBehind (front ++ before ++ w.take 1) true (w.drop 1 ++ rest)).filter
        (reach p value ≤ ·.first) := by
  intro p
  have hedge : (front ++ before ++ w).length = p.edge := List.length_append
  have hlater : (callsBehind (front ++ before ++ w.take 1) true (w.drop 1 ++ rest)).filter
      (fun q => p.edge ≤ q.first) = callsBehind (front ++ before ++ w) false rest :=
    callsBehind_written (front ++ before) true hw rest
  have hlast : (done ++ before ++ value).getLast? =
      value.getLast?.or (before.getLast?.or done.getLast?) := by
    rw [List.getLast?_append, List.getLast?_append]
  unfold reach
  rw [hlast]
  cases value.getLast? with
  | none =>
    rw [Option.none_or, hb]
    exact hlater.symm
  | some c =>
    rw [Option.some_or, Option.any_some]
    cases isNamePart c with
    | false => exact hlater.symm
    | true =>
      rw [callsBehind_masked, ← hlater, hedge, List.filter_filter]
      apply List.filter_congr
      intro q _
      rw [← Bool.decide_and, decide_eq_decide]
      simp only [if_true]
      omega

theorem askedFrom_skip (value : ReadMarker → Option (List Char)) (n : Nat) (front u t : List Char)
    (masked : Bool) :
    let ps := callsBehind (front ++ u) masked t
    askedFrom value n (front ++ u).length ps = askedFrom value n front.length ps := by
  intro ps
  have hle : max front.length (front ++ u).length = (front ++ u).length := by simp
  have hall : ps.filter ((front ++ u).length ≤ ·.first) = ps := filter_all _ _ _ (Nat.le_refl _)
  rw [← hle, ← askedFrom_filter, hall]

theorem fillFrom_skip (value : ReadMarker → Option (List Char)) (n e : Nat) (front u t : List Char)
    (masked : Bool) :
    let ps := replacedFrom value n e (callsBehind (front ++ u) masked t)
    fillFrom value front.length (u ++ t) ps = u ++ fillFrom value (front ++ u).length t ps := by
  intro ps
  have hbefore : ∀ q ∈ ps, ∃ d, q.before = front ++ u ++ d := by
    intro q hq
    obtain ⟨d, hd, -⟩ := mem_callsBehind (replacedFrom_subset n _ hq)
    exact ⟨d, hd⟩
  exact fillFrom_append value front u t hbefore

section

variable {value : ReadMarker → Option (List Char)} {b w rest : List Char} {marker : ReadMarker}

/-- Behind the value of a call, those of the calls behind it are left that the value does not hide. -/
theorem askedFrom_value (hw : Written w) {v : List Char} (hv : value marker = some v)
    (done front : List Char) (hb : (b.getLast?.or done.getLast?).any isNamePart = false) (n : Nat) :
    let p : Placed ReadMarker := ⟨front ++ b, w, marker, rest⟩
    askedFrom value (n + 1) front.length
        (p :: callsBehind (front ++ b ++ w.take 1) true (w.drop 1 ++ rest)) =
      p :: askedFrom value n (front ++ b ++ w).length
        (callsBehind (front ++ b ++ w) ((done ++ b ++ v).getLast?.any isNamePart) rest) := by
  intro p
  have hfirst : front.length ≤ p.first := by simp [p, Placed.first]
  have hedge : (front ++ b ++ w).length = p.edge := List.length_append
  have hvalue : value p.marker = some v := hv
  rw [askedFrom_cons hfirst, callsBehind_value hw v done hb marker, askedFrom_filter, hedge,
    Nat.max_eq_right (edge_le_reach p v), hvalue]
  rfl

theorem askedFrom_inside (hv : value marker = none) (front : List Char) (n : Nat) :
    let p : Placed ReadMarker := ⟨front ++ b, w, marker, rest⟩
    let ps := callsBehind (front ++ b ++ w.take 1) true (w.drop 1 ++ rest)
    askedFrom value (n + 1) front.length (p :: ps) =
      p :: askedFrom value n (front ++ (b ++ w.take 1)).length ps := by
  intro p ps
  have hfirst : front.length ≤ p.first := by simp [p, Placed.first]
  have hvalue : value p.marker = none := hv
  have hps : ps = callsBehind (front ++ (b ++ w.take 1)) true (w.drop 1 ++ rest) := by
    rw [← List.append_assoc]
  rw [askedFrom_cons hfirst, hvalue, hps, askedFrom_skip]
  rfl

end

/-- A lookup that writes down the topics which are looked up. -/
def noting (lookup : String → Option String) (topic : String) :
    StateM (List String) (Option String) := do
  modify (· ++ [topic])
  pure (lookup topic)

section

variable (lookup : String → Option String)

theorem run_replaceFrom_succ {text : List Char} {offset : Nat} {p : Placed ReadMarker}
    (h : findReadFrom text offset = some p) (n : Nat) (log : List String) :
    (replaceFrom (noting lookup) (n + 1) text offset).run log =
      match markerValue lookup p.marker with
      | some value => (replaceFrom (noting lookup) n (p.before ++ value ++ p.after)
          (p.start + utf8Size value)).run (log ++ [p.marker.topic])
      | none => (replaceFrom (noting lookup) n text (p.start + 1)).run
          (log ++ [p.marker.topic]) := by
  rw [replaceFrom, h]
  change StateT.run (match markerValue lookup p.marker with | some value => _ | none => _) _ = _
  cases markerValue lookup p.marker <;> rfl

theorem run_replaceFrom (n : Nat) : ∀ (done front rest : List Char) (log : List String),
    let ps := callsBehind front (done.getLast?.any isNamePart) rest
    (replaceFrom (noting lookup) n (done ++ rest) (utf8Size done)).run log =
      (done ++ fillFrom (markerValue lookup) front.length rest
          (replacedFrom (markerValue lookup) n front.length ps),
        log ++ (askedFrom (markerValue lookup) n front.length ps).map (·.marker.topic)) := by
  -- A value is put in place of the first call, and the search goes on behind it; behind the first
  -- character of a call without a value, the calls are those inside it and those that follow.
  induction n with
  | zero =>
    intro done front rest log
    exact Prod.ext rfl (List.append_nil log).symm
  | succ n ih =>
    intro done front text log
    have hsearch := search front done.getLast? text
    have hfind := findReadFrom_append done text
    generalize findRead done.getLast? text = r at hsearch hfind
    generalize callsBehind front (done.getLast?.any isNamePart) text = ps at hsearch
    cases hsearch with
    | nothing =>
      rw [replaceFrom, hfind]
      exact Prod.ext rfl (List.append_nil log).symm
    | found marker hs hw hb =>
      rename_i b w rest
      let p : Placed ReadMarker := ⟨front ++ b, w, marker, rest⟩
      have hstart : (Placed.behind done ⟨b, w, marker, rest⟩).start = utf8Size (done ++ b) := rfl
      rw [run_replaceFrom_succ lookup hfind, hstart]
      dsimp only [Placed.behind]
      rw [replacedFrom_eq]
      cases hv : markerValue lookup marker with
      | some v =>
        have hdrop : (front ++ b).drop front.length = b := List.drop_left
        have hp : hasValue (markerValue lookup) p = true := hasValue_of_some hv
        have hih := ih (done ++ b ++ v) (front ++ b ++ w) rest (log ++ [marker.topic])
        rw [askedFrom_value hw hv done front hb n, List.filter_cons_of_pos hp, ← replacedFrom_eq]
        dsimp only
        rw [← utf8Size_append, hih, fillFrom]
        simp [p, hdrop, hv, Placed.edge, Nat.add_assoc]
      | none =>
        have hp : ¬ hasValue (markerValue lookup) p = true := not_hasValue hv
        have hletter : utf8Size (done ++ (b ++ w.take 1)) = utf8Size (done ++ b) + 1 := by
          cases hw
          rw [← List.append_assoc]
          exact utf8Size_append (done ++ b) ['R']
        have hmasked : (done ++ (b ++ w.take 1)).getLast?.any isNamePart = true := by
          cases hw
          rw [← List.append_assoc]
          exact congrArg (Option.any isNamePart) List.getLast?_concat
        have hsplit : text = b ++ w.take 1 ++ (w.drop 1 ++ rest) := by
          cases hw
          simp [hs]
        have hih := ih (done ++ (b ++ w.take 1)) (front ++ (b ++ w.take 1)) (w.drop 1 ++ rest)
          (log ++ [marker.topic])
        rw [askedFrom_inside hv front n, List.filter_cons_of_neg hp, ← replacedFrom_eq]
        dsimp only at hih ⊢
        rw [hmasked, hletter, List.append_assoc done, List.append_assoc done, ← fillFrom_skip,
          ← hsplit, ← List.append_assoc front] at hih
        simpa using hih

/-- What a text becomes does not depend on whether the lookups are written down. -/
theorem replaceFrom_eq (n : Nat) : ∀ (text : List Char) (offset : Nat) (log : List String),
    Id.run (replaceFrom (fun topic => pure (lookup topic)) n text offset) =
      ((replaceFrom (noting lookup) n text offset).run log).1 := by
  induction n with
  | zero => exact fun _ _ _ => rfl
  | succ n ih =>
    intro text offset log
    cases hf : findReadFrom text offset with
    | none =>
      rw [replaceFrom, replaceFrom, hf]
      rfl
    | some p =>
      rw [run_replaceFrom_succ lookup hf, replaceFrom, hf]
      change Id.run (match markerValue lookup p.marker with | some value => _ | none => _) = _
      cases markerValue lookup p.marker with
      | none => exact ih ..
      | some value => exact ih ..

end

def resolvableFrom (value : ReadMarker → Option (List Char)) (edge : Nat)
    (ps : List (Placed ReadMarker)) : List (Placed ReadMarker) :=
  (listedFrom edge ps).filter (hasValue value)

/-- Whether a call stands in one of the markers, or directly behind one whose value hides it. -/
def Hidden (value : ReadMarker → Option (List Char)) (ds : List (Placed ReadMarker))
    (p : Placed ReadMarker) : Prop :=
  ∃ d ∈ ds, ∃ v ∈ value d.marker, d.first < p.first ∧ p.first < reach d v

instance (value : ReadMarker → Option (List Char)) (ds : List (Placed ReadMarker))
    (p : Placed ReadMarker) : Decidable (Hidden value ds p) :=
  inferInstanceAs (Decidable (∃ d ∈ ds, _))

def shows (value : ReadMarker → Option (List Char)) (edge : Nat) (ds : List (Placed ReadMarker))
    (p : Placed ReadMarker) : Bool := edge ≤ p.first ∧ ¬ Hidden value ds p

def exposedFrom (value : ReadMarker → Option (List Char)) (n edge : Nat)
    (ds ps : List (Placed ReadMarker)) : List (Placed ReadMarker) :=
  ((ps.filter (shows value edge ds)).take n).filter (hasValue value)

section

variable {value : ReadMarker → Option (List Char)} {p : Placed ReadMarker} {e l : Nat}

theorem resolvableFrom_some (hl : l ≤ p.first) (hv : hasValue value p = true)
    (ps : List (Placed ReadMarker)) :
    resolvableFrom value l (p :: ps) = p :: resolvableFrom value p.edge ps := by
  unfold resolvableFrom listedFrom
  rw [passFrom_cons hl, List.filter_cons_of_pos hv]
  rfl

theorem resolvableFrom_none (hv : value p.marker = none) (l : Nat) (ps : List (Placed ReadMarker)) :
    ∃ k, resolvableFrom value l (p :: ps) = resolvableFrom value k ps := by
  by_cases hl : l ≤ p.first
  · refine ⟨p.edge, ?_⟩
    unfold resolvableFrom listedFrom
    rw [passFrom_cons hl, List.filter_cons_of_neg (not_hasValue hv)]
    rfl
  · refine ⟨l, ?_⟩
    unfold resolvableFrom listedFrom
    rw [passFrom_cons_of_lt (Nat.not_le.mp hl)]

theorem resolvableFrom_of_lt (hl : p.first < l) (ps : List (Placed ReadMarker)) :
    resolvableFrom value l (p :: ps) = resolvableFrom value l ps := by
  unfold resolvableFrom listedFrom
  rw [passFrom_cons_of_lt hl]

theorem resolvableFrom_subset (l : Nat) (ps : List (Placed ReadMarker)) :
    resolvableFrom value l ps ⊆ ps := by
  intro q hq
  exact (passFrom_sublist _ l ps).subset (List.mem_filter.mp hq).1

theorem exposedFrom_subset (n e : Nat) (ds ps : List (Placed ReadMarker)) :
    exposedFrom value n e ds ps ⊆ ps := by
  intro q hq
  exact (List.mem_filter.mp (List.mem_of_mem_take (List.mem_filter.mp hq).1)).1

theorem not_hidden {ds : List (Placed ReadMarker)} (h : ∀ d ∈ ds, p.first ≤ d.first) :
    ¬ Hidden value ds p := by
  rintro ⟨d, hd, v, -, hlt, -⟩
  exact Nat.not_lt.mpr (h d hd) hlt

theorem exposedFrom_of_lt (he : p.first < e) (n : Nat) (ds ps : List (Placed ReadMarker)) :
    exposedFrom value n e ds (p :: ps) = exposedFrom value n e ds ps := by
  have hp : ¬ shows value e ds p = true := by
    simp only [shows, decide_eq_true_eq, not_and]
    omega
  unfold exposedFrom
  rw [List.filter_cons_of_neg hp]

theorem exposedFrom_cons {ds : List (Placed ReadMarker)} (he : e ≤ p.first)
    (h : ∀ d ∈ ds, p.first ≤ d.first) (n : Nat) (ps : List (Placed ReadMarker)) :
    exposedFrom value (n + 1) e ds (p :: ps) =
      if hasValue value p then p :: exposedFrom value n e ds ps
      else exposedFrom value n e ds ps := by
  have hp : shows value e ds p = true := decide_eq_true ⟨he, not_hidden h⟩
  unfold exposedFrom
  rw [List.filter_cons_of_pos hp, List.take_succ_cons, List.filter_cons]

theorem exposedFrom_hide {v : List Char} (hv : value p.marker = some v) (he : e ≤ p.first)
    (n : Nat) (ds : List (Placed ReadMarker)) {ps : List (Placed ReadMarker)}
    (hp : ∀ q ∈ ps, p.first < q.first) :
    exposedFrom value n e (p :: ds) ps = exposedFrom value n (reach p v) ds ps := by
  have hreach : p.first ≤ reach p v := Nat.le_trans p.first_le_edge (edge_le_reach p v)
  unfold exposedFrom
  congr 2
  apply List.filter_congr
  intro q hq
  have hlt := hp q hq
  have hidden : Hidden value (p :: ds) q ↔ q.first < reach p v ∨ Hidden value ds q := by
    simp only [Hidden, List.mem_cons, exists_eq_or_imp, hv, Option.mem_some_iff, exists_eq_left',
      hlt, true_and]
  unfold shows
  rw [decide_eq_decide, hidden]
  constructor
  · rintro ⟨-, hn⟩
    exact ⟨Nat.not_lt.mp fun hr => hn (Or.inl hr), fun hr => hn (Or.inr hr)⟩
  · rintro ⟨hr, hn⟩
    refine ⟨by omega, ?_⟩
    rintro (hk | hk)
    · omega
    · exact hn hk

theorem ne_of_subset {as bs ps : List (Placed ReadMarker)} (hp : p ∉ ps) (ha : as ⊆ ps) :
    as ≠ p :: bs := by
  intro h
  exact hp (ha (h ▸ List.mem_cons_self ..))

theorem replacedFrom_eq_iff (n e l : Nat) {ps : List (Placed ReadMarker)} (h : InOrder ps) :
    replacedFrom value n e ps = resolvableFrom value l ps ↔
      exposedFrom value n e (resolvableFrom value l ps) ps = resolvableFrom value l ps := by
  -- As long as the replaced calls are resolvable markers and none of these was passed over, both sides
  -- hide the same calls; at the first difference both are false, unless the count has run out, and then
  -- no call is looked at on either side.
  induction ps generalizing n e l with
  | nil => rfl
  | cons p ps ih =>
    obtain ⟨hp, h⟩ := List.pairwise_cons.mp h
    have hnot : p ∉ ps := fun hm => Nat.lt_irrefl _ (hp p hm)
    have hlater : ∀ k, ∀ d ∈ resolvableFrom value k ps, p.first ≤ d.first :=
      fun k d hd => Nat.le_of_lt (hp d (resolvableFrom_subset k ps hd))
    cases hv : value p.marker with
    | none =>
      obtain ⟨k, hk⟩ := resolvableFrom_none hv l ps
      rw [hk]
      by_cases he : e ≤ p.first
      · cases n with
        | zero => exact Iff.rfl
        | succ n =>
          rw [replacedFrom_none he hv, exposedFrom_cons he (hlater k),
            if_neg (not_hasValue hv)]
          exact ih n e k h
      · rw [replacedFrom_of_lt (Nat.not_le.mp he), exposedFrom_of_lt (Nat.not_le.mp he)]
        exact ih n e k h
    | some v =>
      have hs := hasValue_of_some hv
      by_cases he : e ≤ p.first
      · cases n with
        | zero => exact Iff.rfl
        | succ n =>
          rw [replacedFrom_some he hv]
          by_cases hl : l ≤ p.first
          · rw [resolvableFrom_some hl hs]
            have hfirst : ∀ d ∈ p :: resolvableFrom value p.edge ps, p.first ≤ d.first := by
              intro d hd
              rcases List.mem_cons.mp hd with rfl | hd
              · exact Nat.le_refl _
              · exact hlater p.edge d hd
            rw [exposedFrom_cons he hfirst, if_pos hs, exposedFrom_hide hv he _ _ hp]
            simp only [List.cons.injEq, true_and]
            exact ih n (reach p v) p.edge h
          · rw [resolvableFrom_of_lt (Nat.not_le.mp hl), exposedFrom_cons he (hlater l), if_pos hs]
            have hne : ∀ bs, p :: bs ≠ resolvableFrom value l ps :=
              fun bs hb => ne_of_subset hnot (resolvableFrom_subset l ps) hb.symm
            exact ⟨fun hr => absurd hr (hne _), fun hr => absurd hr (hne _)⟩
      · rw [replacedFrom_of_lt (Nat.not_le.mp he), exposedFrom_of_lt (Nat.not_le.mp he)]
        by_cases hl : l ≤ p.first
        · rw [resolvableFrom_some hl hs]
          have hr : ∀ bs, replacedFrom value n e ps ≠ p :: bs :=
            fun _ => ne_of_subset hnot (replacedFrom_subset n ps)
          have hx : ∀ ds bs, exposedFrom value n e ds ps ≠ p :: bs :=
            fun ds _ => ne_of_subset hnot (exposedFrom_subset n e ds ps)
          exact ⟨fun hb => absurd hb (hr _), fun hb => absurd hb (hx _ _)⟩
        · rw [resolvableFrom_of_lt (Nat.not_le.mp hl)]
          exact ih n e l h

end

variable (lookup : String → Option String) (text : List Char)

/-- The listed markers that have a value. -/
def resolvable : List (Placed ReadMarker) :=
  (readMarkers text).filter (hasValue (markerValue lookup))

/-- The calls that the substitution replaces. -/
def replaced : List (Placed ReadMarker) :=
  replacedFrom (markerValue lookup) (readMarkers text).length 0 (calls text)

def fill (ps : List (Placed ReadMarker)) : List Char := fillFrom (markerValue lookup) 0 text ps

/-- Among the calls that no resolvable marker hides, the first ones, as many as there are markers,
have a value just where they are resolvable markers. -/
def Faithful : Prop :=
  (((calls text).filter fun p => ¬ Hidden (markerValue lookup) (resolvable lookup text) p).take
    (readMarkers text).length).filter (hasValue (markerValue lookup)) = resolvable lookup text

instance : Decidable (Faithful lookup text) := inferInstanceAs (Decidable (_ = _))

theorem faithful_iff : Faithful lookup text ↔
    exposedFrom (markerValue lookup) (readMarkers text).length 0 (resolvable lookup text)
      (calls text) = resolvable lookup text := by
  have hs : (calls text).filter (shows (markerValue lookup) 0 (resolvable lookup text)) =
      (calls text).filter fun p => ¬ Hidden (markerValue lookup) (resolvable lookup text) p := by
    apply List.filter_congr
    intro p _
    simp [shows]
  unfold Faithful exposedFrom
  rw [hs]

theorem resolve_eq_fill {text : List Char} (h : usesBareNames text = false) :
    resolve lookup text = fill lookup text (replaced lookup text) := by
  have hr := run_replaceFrom lookup (readMarkers text).length [] [] text []
  unfold resolve
  rw [h]
  exact (replaceFrom_eq lookup _ _ _ []).trans (congrArg Prod.fst hr)

/-- The text that results has the values of some calls in their places, and nothing else is
changed. These calls are the markers that have a value if and only if the text is faithful. -/
theorem replaces_resolvable_iff {text : List Char} (h : usesBareNames text = false) :
    resolve lookup text = fill lookup text (replaced lookup text) ∧
      (replaced lookup text = resolvable lookup text ↔ Faithful lookup text) := by
  refine ⟨resolve_eq_fill lookup h, ?_⟩
  have hl : resolvable lookup text = resolvableFrom (markerValue lookup) 0 (calls text) := by
    unfold resolvable resolvableFrom
    rw [readMarkers_eq]
  rw [faithful_iff, replaced, hl]
  exact replacedFrom_eq_iff _ 0 0 (inOrder_callsBehind [] false text)

def switches (name : String) : Option String :=
  if name = "a" then some "x" else if name = "b" then some "y" else none

/-- With a separator between them, both markers are replaced. -/
theorem separated_markers_replaced :
    usesBareNames "Read('a')+Read('b')".toList = false ∧
      Faithful switches "Read('a')+Read('b')".toList ∧
      resolve switches "Read('a')+Read('b')".toList = "x+y".toList := by
  have hb : usesBareNames "Read('a')+Read('b')".toList = false := by cbv
  have hf : Faithful switches "Read('a')+Read('b')".toList := by decide
  obtain ⟨hr, hi⟩ := replaces_resolvable_iff switches hb
  refine ⟨hb, hf, ?_⟩
  rw [hr, hi.mpr hf]
  cbv

/-- The search goes on inside a marker without a value, and comes to a call that is not listed. -/
example : ¬ Faithful switches "Read(Read('a'))+Read('b')".toList := by decide

/-- The value of the first marker hides the second one, which has a value and is listed. -/
theorem adjacent_marker_hidden :
    usesBareNames "Read('a')Read('b')".toList = false ∧
      (readMarkers "Read('a')Read('b')".toList).length = 2 ∧
      fill switches "Read('a')Read('b')".toList (resolvable switches "Read('a')Read('b')".toList) =
        "xy".toList ∧
      resolve switches "Read('a')Read('b')".toList = "xRead('b')".toList := by
  have hb : usesBareNames "Read('a')Read('b')".toList = false := by cbv
  refine ⟨hb, ?_, ?_, ?_⟩
  · decide
  · decide
  · unfold resolve
    rw [hb]
    decide

end TopicHub.Variables
