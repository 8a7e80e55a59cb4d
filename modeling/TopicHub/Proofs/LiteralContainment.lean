import TopicHub.Condition
import TopicHub.Proofs.LetterCase

/-!
Values that stand in a payload letter by letter. Payload and value are lower-cased as whole texts, and the
form of a capital sigma depends on what stands around it: the next character on either side that case rules
do not ignore. Where these belong to the value, its lower-case form is the same in every payload, and the
value is found wherever it stands. Where they are missing, there is a payload that contains the value and
in which it is not found.
-/

namespace TopicHub

namespace Text

def sigmaForm (before behind : List Char) : Char :=
  if meetsCased before && !meetsCased behind then '\u03C2' else '\u03C3'

def formAt (before : List Char) (c : Char) (behind : List Char) : List Char :=
  if c = '\u03A3' then [sigmaForm before behind] else lowerChar c

def lowerBetween (before : List Char) : (part behind : List Char) → List Char
  | [], _ => []
  | c :: s, behind => formAt before c (s ++ behind) ++ lowerBetween (c :: before) s behind

theorem lowerAfter_eq (before : List Char) (c : Char) (s : List Char) :
    lowerAfter before (c :: s) = formAt before c s ++ lowerAfter (c :: before) s := by
  rw [lowerAfter, formAt, sigmaForm]
  split
  · split <;> rfl
  · rfl

theorem lowerAfter_append (before s t : List Char) : lowerAfter before (s ++ t) =
    lowerBetween before s t ++ lowerAfter (s.reverse ++ before) t := by
  induction s generalizing before with
  | nil => rfl
  | cons c s ih =>
    rw [List.cons_append, lowerAfter_eq, lowerBetween, ih, List.reverse_cons, List.append_assoc,
      List.append_assoc]
    rfl

theorem lower_eq (s : List Char) : lower s = lowerBetween [] s [] := by
  have h := lowerAfter_append [] s []
  rw [List.append_nil, lowerAfter, List.append_nil] at h
  exact h

theorem lowerBetween_append (before s t behind : List Char) : lowerBetween before (s ++ t) behind =
    lowerBetween before s (t ++ behind) ++ lowerBetween (s.reverse ++ before) t behind := by
  induction s generalizing before with
  | nil => rfl
  | cons c s ih =>
    rw [List.cons_append, lowerBetween, lowerBetween, ih, List.reverse_cons, List.append_assoc,
      List.append_assoc, List.append_assoc]
    rfl

theorem lowerBetween_isInfix (front part back : List Char) :
    lowerBetween front.reverse part back <:+: lower (front ++ part ++ back) := by
  refine ⟨lowerBetween [] front (part ++ back), lowerAfter (part.reverse ++ front.reverse) back, ?_⟩
  rw [lower, List.append_assoc front, lowerAfter_append, lowerAfter_append, List.append_nil,
    List.append_assoc]

section

variable {r : Char → Char → Prop}

theorem forall₂_lowerBetween (hr : ∀ c, r c c) (before part behind pre : List Char)
    (h : ∀ x y, part = x ++ '\u03A3' :: y →
      r (sigmaForm (x.reverse ++ pre ++ before) (y ++ behind)) (sigmaForm (x.reverse ++ pre) y)) :
    List.Forall₂ r (lowerBetween (pre ++ before) part behind) (lowerBetween pre part []) := by
  induction part generalizing pre with
  | nil => exact .nil
  | cons c part ih =>
    have hrest := ih (c :: pre) fun x y he => by
      have hx := h (c :: x) y (congrArg (c :: ·) he)
      rw [List.reverse_cons, List.append_assoc x.reverse] at hx
      exact hx
    rw [lowerBetween, lowerBetween, List.append_nil]
    refine List.rel_append ?_ hrest
    unfold formAt
    split
    · rename_i hc
      exact .cons (h [] part (congrArg (· :: part) hc)) .nil
    · exact List.forall₂_same.mpr fun c _ => hr c

theorem length_lowerBetween (before part behind pre : List Char) :
    (lowerBetween (pre ++ before) part behind).length = (lowerBetween pre part []).length :=
  (forall₂_lowerBetween (r := fun _ _ => True) (fun _ => trivial) before part behind pre
    fun _ _ _ => trivial).length_eq

/-- Every sigma of a part has the form in its place that it has in the part by itself. -/
def SameSigmas (front part back : List Char) : Prop :=
  ∀ x y, part = x ++ '\u03A3' :: y →
    sigmaForm (x.reverse ++ front.reverse) (y ++ back) = sigmaForm x.reverse y

theorem lowerBetween_eq_iff {front part back : List Char} :
    lowerBetween front.reverse part back = lower part ↔ SameSigmas front part back := by
  rw [lower_eq]
  constructor
  · rintro h x y rfl
    rw [lowerBetween_append, lowerBetween_append [], List.append_nil] at h
    have hlength := length_lowerBetween front.reverse x ('\u03A3' :: y ++ back) []
    have hx := length_lowerBetween [] x ('\u03A3' :: y) []
    rw [List.nil_append] at hlength hx
    obtain ⟨-, hrest⟩ := List.append_inj h (hlength.trans hx.symm)
    rw [lowerBetween, lowerBetween, formAt, if_pos rfl, formAt, if_pos rfl, List.append_nil,
      List.append_nil] at hrest
    exact (List.cons.inj hrest).1
  · intro h
    have heq := forall₂_lowerBetween (r := Eq) (fun _ => rfl) front.reverse part back []
      (by simpa [SameSigmas] using h)
    rw [List.forall₂_eq_eq_eq] at heq
    exact heq

instance (front part back : List Char) : Decidable (SameSigmas front part back) :=
  decidable_of_iff _ lowerBetween_eq_iff

theorem count_lt_of_forall₂ {p q : Char} (hpq : p ≠ q) {s t : List Char}
    (h : List.Forall₂ (fun a b => a = b ∨ a = p ∧ b = q) s t) :
    s.count q ≤ t.count q ∧ (s ≠ t → s.count q < t.count q) := by
  induction h with
  | nil => exact ⟨Nat.le_refl _, fun hne => absurd rfl hne⟩
  | @cons a b s t hab _ ih =>
    obtain ⟨hle, hlt⟩ := ih
    rcases hab with rfl | ⟨rfl, rfl⟩
    · rw [List.count_cons, List.count_cons]
      refine ⟨Nat.add_le_add_right hle _, fun hne => Nat.add_lt_add_right (hlt fun he => ?_) _⟩
      exact hne (congrArg (a :: ·) he)
    · rw [List.count_cons_self, List.count_cons_of_ne hpq]
      exact ⟨Nat.le_succ_of_le hle, fun _ => Nat.lt_succ_of_le hle⟩

end

def neighbour? (s : List Char) : Option Char := (s.dropWhile isCaseIgnorable).head?

theorem neighbour?_append (s t : List Char) :
    neighbour? (s ++ t) = (neighbour? s).or (neighbour? t) := by
  unfold neighbour?
  rw [List.dropWhile_append]
  split
  · rename_i he
    rw [List.isEmpty_iff.mp he]
    rfl
  · rename_i hne
    obtain ⟨c, u, hu⟩ := List.exists_cons_of_ne_nil (mt List.isEmpty_iff.mpr hne)
    rw [hu]
    rfl

theorem meetsCased_eq (s : List Char) : meetsCased s = (neighbour? s).any isCased := by
  unfold meetsCased neighbour?
  cases s.dropWhile isCaseIgnorable <;> rfl

/-- A neighbour without case before a sigma decides its form, one with case behind it does, and two
neighbours always do. -/
def Decided (before behind : List Char) : Prop :=
  (neighbour? before).any (!isCased ·) = true ∨ (neighbour? behind).any isCased = true ∨
    (neighbour? before).isSome = true ∧ (neighbour? behind).isSome = true

instance (before behind : List Char) : Decidable (Decided before behind) :=
  inferInstanceAs (Decidable (_ ∨ _ ∨ _ ∧ _))

/-- Each capital sigma of a value is decided within the value. -/
def Settled (value : List Char) : Prop :=
  ∀ x y, value = x ++ '\u03A3' :: y → Decided x.reverse y

theorem settled_iff {value : List Char} : Settled value ↔
    ∀ i, (h : i < value.length) → value[i] = '\u03A3' →
      Decided (value.take i).reverse (value.drop (i + 1)) := by
  constructor
  · intro hs i hi hsigma
    refine hs _ _ ?_
    rw [← hsigma, List.cons_getElem_drop_succ, List.take_append_drop]
  · rintro h x y rfl
    have hx := h x.length (by simp) (by simp)
    simpa using hx

instance : DecidablePred Settled := fun _ => decidable_of_iff _ settled_iff.symm

/-- A mark behind the last sigma decides its form, and so does a letter behind the first one. -/
example : Settled "ΣΟΦΟΣ!".toList ∧ ¬ Settled "ΣΟΦΟΣ".toList := by decide +kernel

theorem settled_of_notMem {value : List Char} (h : '\u03A3' ∉ value) : Settled value := by
  rintro x y rfl
  exact absurd (List.mem_append_right x (List.mem_cons_self ..)) h

theorem sigmaForm_eq (before behind : List Char) : sigmaForm before behind =
    if (neighbour? before).any isCased && !(neighbour? behind).any isCased then '\u03C2'
    else '\u03C3' := by
  rw [sigmaForm, meetsCased_eq, meetsCased_eq]

theorem Decided.sigmaForm_append {x y : List Char} (h : Decided x y) (before behind : List Char) :
    sigmaForm (x ++ before) (y ++ behind) = sigmaForm x y := by
  simp only [sigmaForm_eq, neighbour?_append]
  unfold Decided at h
  cases hx : neighbour? x <;> cases hy : neighbour? y <;> simp_all

theorem Settled.sameSigmas {value : List Char} (h : Settled value) (front back : List Char) :
    SameSigmas front value back := fun x y he => (h x y he).sigmaForm_append front.reverse back

section

variable {value : List Char}

/-- The value is not found where some of its sigmas turn from `q` into `p`, none the other way, and no `q`
stands around it: the text has fewer of them than the value. -/
theorem containsIgnoreCase_eq_false {p q : Char} (hpq : p ≠ q) {front back : List Char}
    (hforms : ∀ x y, value = x ++ '\u03A3' :: y →
      let inside := sigmaForm (x.reverse ++ front.reverse) (y ++ back)
      inside = sigmaForm x.reverse y ∨ inside = p ∧ sigmaForm x.reverse y = q)
    (hdiff : ¬ SameSigmas front value back) (hfront : q ∉ lowerBetween [] front (value ++ back))
    (hback : q ∉ lowerAfter (value.reverse ++ front.reverse) back) :
    containsIgnoreCase (front ++ value ++ back) value = false := by
  have hpart := forall₂_lowerBetween (r := fun a b => a = b ∨ a = p ∧ b = q) (fun _ => Or.inl rfl)
    front.reverse value back [] (by simpa using hforms)
  have hlt : (lowerBetween front.reverse value back).count q < (lower value).count q := by
    rw [lower_eq]
    refine (count_lt_of_forall₂ hpq hpart).2 fun he => hdiff ?_
    exact lowerBetween_eq_iff.mp (he.trans (lower_eq value).symm)
  have hcount : (lower (front ++ value ++ back)).count q =
      (lowerBetween front.reverse value back).count q := by
    rw [lower, List.append_assoc front, lowerAfter_append, lowerAfter_append, List.append_nil,
      List.count_append, List.count_append, List.count_eq_zero.mpr hfront, List.count_eq_zero.mpr hback,
      Nat.zero_add, Nat.add_zero]
  rw [Bool.eq_false_iff]
  intro hc
  have hle := ((contains_iff _ _).mp hc).sublist.count_le q
  omega

theorem cased_letter : (neighbour? ['a']).any isCased = true := by decide +kernel

theorem lowerAfter_letter (before : List Char) : lowerAfter before ['a'] = ['a'] := by
  rw [lowerAfter_eq, formAt, if_neg (by decide)]
  rfl

theorem lowerBetween_letter (behind : List Char) : lowerBetween [] ['a'] behind = ['a'] := by
  rw [lowerBetween, formAt, if_neg (by decide)]
  rfl

theorem sigmaForm_cases (before behind : List Char) :
    sigmaForm before behind = '\u03C2' ∨ sigmaForm before behind = '\u03C3' := ite_eq_or_eq ..

theorem unfound_before_letter {x y : List Char} (h : value = x ++ '\u03A3' :: y)
    (hx : (neighbour? x.reverse).any isCased = true) (hy : neighbour? y = none) :
    containsIgnoreCase (value ++ ['a']) value = false := by
  have hform {v : List Char} (hv : neighbour? v = none) (u : List Char) :
      sigmaForm u (v ++ ['a']) = '\u03C3' := by
    simp [sigmaForm_eq, neighbour?_append, hv, cased_letter]
  have hfinal : sigmaForm x.reverse y = '\u03C2' := by simp [sigmaForm_eq, hx, hy]
  have hunfound : containsIgnoreCase ([] ++ value ++ ['a']) value = false := by
    refine containsIgnoreCase_eq_false (p := '\u03C3') (q := '\u03C2') (by decide)
      (fun u v _ => ?_) (fun hsame => ?_) List.not_mem_nil ?_
    · rw [List.reverse_nil, List.append_nil]
      cases hv : neighbour? v with
      | some c => exact Or.inl (by simp [sigmaForm_eq, neighbour?_append, hv])
      | none =>
        rw [hform hv]
        rcases sigmaForm_cases u.reverse v with hu | hu
        · exact Or.inr ⟨rfl, hu⟩
        · exact Or.inl hu.symm
    · have heq := hsame x y h
      rw [List.reverse_nil, List.append_nil, hform hy, hfinal] at heq
      cases heq
    · rw [lowerAfter_letter]
      decide
  exact hunfound

theorem unfound_behind_letter {x y : List Char} (h : value = x ++ '\u03A3' :: y)
    (hx : neighbour? x.reverse = none) (hy : (neighbour? y).any isCased = false) :
    containsIgnoreCase ('a' :: value) value = false := by
  have hform {u : List Char} (hu : neighbour? u = none) (v : List Char) :
      sigmaForm u v = '\u03C3' := by simp [sigmaForm_eq, hu]
  have hfinal : sigmaForm (x.reverse ++ ['a']) y = '\u03C2' := by
    simp [sigmaForm_eq, neighbour?_append, hx, hy, cased_letter]
  have hunfound : containsIgnoreCase (['a'] ++ value ++ []) value = false := by
    refine containsIgnoreCase_eq_false (p := '\u03C2') (q := '\u03C3') (by decide)
      (fun u v _ => ?_) (fun hsame => ?_) ?_ List.not_mem_nil
    · rw [List.append_nil]
      cases hu : neighbour? u.reverse with
      | some c => exact Or.inl (by simp [sigmaForm_eq, neighbour?_append, hu])
      | none =>
        rw [hform hu]
        rcases sigmaForm_cases (u.reverse ++ ['a'].reverse) v with hv | hv
        · exact Or.inr ⟨hv, rfl⟩
        · exact Or.inl hv
    · have heq := hsame x y h
      rw [List.append_nil, hform hx] at heq
      cases hfinal.symm.trans heq
    · rw [lowerBetween_letter]
      decide
  rwa [List.append_nil] at hunfound

theorem trim_with_letter (hne : value ≠ []) (ht : trim value = value) :
    trim (value ++ ['a']) = value ++ ['a'] ∧ trim ('a' :: value) = 'a' :: value := by
  have hstart : trimStart value = value := by
    have h := trimStart_of_isPrefix (trimStart_trimStart value)
      (trimEndWhile_isPrefix isBlank (trimStart value))
    exact ht ▸ h
  have hend : trimEnd value = value := by
    have h := trimEnd_trimEnd (trimStart value)
    exact ht ▸ h
  constructor
  · obtain ⟨c, s, rfl⟩ := List.exists_cons_of_ne_nil hne
    refine trim_of_ends ?_ (by decide) s
    simpa [trimStart] using List.dropWhile_eq_self_iff.mp hstart
  · have hletter : trimStart ('a' :: value) = 'a' :: value :=
      List.dropWhile_cons_of_neg (by decide)
    rw [trim, hletter]
    exact (trimEndWhile_cons (by decide) value).trans (congrArg ('a' :: ·) hend)

theorem exists_unfound (hne : value ≠ []) (ht : trim value = value) (h : ¬ Settled value) :
    ∃ text, trim text = text ∧ value <:+: text ∧ containsIgnoreCase text value = false := by
  obtain ⟨hbehind, hbefore⟩ := trim_with_letter hne ht
  unfold Settled at h
  push Not at h
  obtain ⟨x, y, he, hd⟩ := h
  obtain ⟨hx, hor⟩ := not_or.mp hd
  obtain ⟨hy, hboth⟩ := not_or.mp hor
  cases hn : neighbour? x.reverse with
  | none =>
    exact ⟨'a' :: value, hbefore, (List.suffix_cons ..).isInfix,
      unfound_behind_letter he hn (Bool.eq_false_iff.mpr hy)⟩
  | some c =>
    rw [hn] at hx hboth
    have hcased : (neighbour? x.reverse).any isCased = true := by
      rw [hn]
      simpa using hx
    have hnone : neighbour? y = none := by
      simpa using hboth
    exact ⟨value ++ ['a'], hbehind, (List.prefix_append ..).isInfix,
      unfound_before_letter he hcased hnone⟩

end

end Text

namespace Condition

open Text

variable {value : String}

theorem holds_contains (hne : value ≠ "") (payload : String) :
    (Condition.mk "Contains" value).holds payload =
      containsIgnoreCase (trim payload.toList) value.toList := by
  have hvalue : value.isEmpty = false := by simpa using hne
  have htrim : ("Contains" : String).trimBlank = "Contains" := by decide +kernel
  have hlower : ("Contains" : String).lowercase = "contains" := by decide +kernel
  simp only [holds, htrim, hlower, hvalue]
  rfl

theorem holds_containsNot (hne : value ≠ "") (payload : String) :
    (Condition.mk "Contains not" value).holds payload =
      !containsIgnoreCase (trim payload.toList) value.toList := by
  have hvalue : value.isEmpty = false := by simpa using hne
  have htrim : ("Contains not" : String).trimBlank = "Contains not" := by decide +kernel
  have hlower : ("Contains not" : String).lowercase = "contains not" := by decide +kernel
  simp only [holds, htrim, hlower, hvalue]
  rfl

/-- The payload satisfies the condition that it contains the value, and not the opposite one. -/
def FoundIn (value payload : String) : Prop :=
  (Condition.mk "Contains" value).holds payload = true ∧
    (Condition.mk "Contains not" value).holds payload = false

theorem foundIn_iff (hne : value ≠ "") (payload : String) : FoundIn value payload ↔
    containsIgnoreCase (trim payload.toList) value.toList = true := by
  rw [FoundIn, holds_contains hne, holds_containsNot hne, Bool.not_eq_false', and_self]

theorem foundIn_of_sameSigmas (hne : value ≠ "") {payload : String} {front back : List Char}
    (h : trim payload.toList = front ++ value.toList ++ back)
    (hsame : SameSigmas front value.toList back) : FoundIn value payload := by
  rw [foundIn_iff hne, h, containsIgnoreCase, contains_iff, ← lowerBetween_eq_iff.mpr hsame]
  exact lowerBetween_isInfix front value.toList back

theorem foundIn_of_notMem (hne : value ≠ "") (hsigma : '\u03A3' ∉ value.toList) {payload : String}
    (h : value.toList <:+: trim payload.toList) : FoundIn value payload := by
  obtain ⟨front, back, h⟩ := h
  exact foundIn_of_sameSigmas hne h.symm ((settled_of_notMem hsigma).sameSigmas front back)

/-- A value that stands in a payload letter by letter is found where each of its capital sigmas has the
form in its place that it has in the value alone. That is so in every payload just for the values that
decide the form of each of their sigmas, as all do that have none. -/
theorem literal_value_found_iff (hne : value ≠ "") (ht : trim value.toList = value.toList) :
    (∀ (payload : String) (front back : List Char),
      trim payload.toList = front ++ value.toList ++ back → SameSigmas front value.toList back →
        FoundIn value payload) ∧
    ((∀ payload : String, value.toList <:+: trim payload.toList → FoundIn value payload) ↔
      Settled value.toList) ∧
    ('\u03A3' ∉ value.toList →
      ∀ payload : String, value.toList <:+: trim payload.toList → FoundIn value payload) := by
  refine ⟨fun payload front back h hsame => foundIn_of_sameSigmas hne h hsame, ⟨?_, ?_⟩,
    fun hsigma payload h => foundIn_of_notMem hne hsigma h⟩
  · intro hfound
    by_contra hsettled
    have hchars : value.toList ≠ [] := mt String.toList_eq_nil_iff.mp hne
    obtain ⟨text, htrim, hinfix, hmissed⟩ := exists_unfound hchars ht hsettled
    have htext : trim (String.ofList text).toList = text := by rw [String.toList_ofList, htrim]
    have h := (foundIn_iff hne _).mp (hfound (String.ofList text) (htext.symm ▸ hinfix))
    rw [htext, hmissed] at h
    cases h
  · rintro hsettled payload ⟨front, back, h⟩
    exact foundIn_of_sameSigmas hne h.symm (hsettled.sameSigmas front back)

theorem street_ending_found :
    "ΟΣ" ≠ "" ∧ trim "ΟΣ".toList = "ΟΣ".toList ∧ FoundIn "ΟΣ" "ΟΔΟΣ" := by
  have hne : "ΟΣ" ≠ "" := by decide
  have ht : trim "ΟΣ".toList = "ΟΣ".toList := by decide +kernel
  refine ⟨hne, ht, ?_⟩
  exact (literal_value_found_iff hne ht).1 _ "ΟΔ".toList [] (by decide +kernel)
    (by decide +kernel)

/-- A sigma by itself is not final, and behind a letter it is. -/
theorem sigma_missed_behind_letter :
    "Σ" ≠ "" ∧ trim "Σ".toList = "Σ".toList ∧ "Σ".toList <:+: trim "ΑΣ".toList ∧
      (Condition.mk "Contains" "Σ").holds "ΑΣ" = false ∧
      (Condition.mk "Contains not" "Σ").holds "ΑΣ" = true := by
  refine ⟨by decide, by decide +kernel, by decide +kernel, ?_, ?_⟩
  · rw [holds_contains (by decide)]
    decide +kernel
  · rw [holds_containsNot (by decide)]
    decide +kernel

end Condition

end TopicHub
