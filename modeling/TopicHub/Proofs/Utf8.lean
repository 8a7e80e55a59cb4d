import TopicHub.Proofs.Marker.Offset

/-!
The bytes of a text. A byte below 128 is a character by itself wherever it stands: the bytes of wider
characters are all at or above it. So what is spelled in such characters stands in the bytes where it
stands in the text.
-/

namespace TopicHub.Text

def octets (s : List Char) : List UInt8 := s.flatMap String.utf8EncodeChar

def IsAscii (c : Char) : Prop := c.toNat < 128

instance : DecidablePred IsAscii := fun c => inferInstanceAs (Decidable (c.toNat < 128))

def octet (c : Char) : UInt8 := UInt8.ofNat c.toNat

@[simp] theorem octets_nil : octets [] = [] := rfl

@[simp] theorem octets_cons (c : Char) (s : List Char) :
    octets (c :: s) = String.utf8EncodeChar c ++ octets s := rfl

@[simp] theorem octets_append (s t : List Char) : octets (s ++ t) = octets s ++ octets t :=
  List.flatMap_append

theorem length_octets (s : List Char) : (octets s).length = utf8Size s := by
  induction s with
  | nil => rfl
  | cons c s ih => simp [ih, String.length_utf8EncodeChar]

theorem octets_eq_nil {s : List Char} (h : octets s = []) : s = [] := by
  cases s with
  | nil => rfl
  | cons c s => exact absurd (List.append_eq_nil_iff.mp h).1 String.utf8EncodeChar_ne_nil

theorem octets_inj {s t : List Char} (h : octets s = octets t) : s = t := by
  have hb : s.utf8Encode = t.utf8Encode := congrArg List.toByteArray h
  rw [← String.toByteArray_ofList, ← String.toByteArray_ofList, String.toByteArray_inj] at hb
  exact String.ofList_injective hb

variable {c d : Char}

theorem toNat_octet (h : IsAscii c) : (octet c).toNat = c.toNat := by
  unfold IsAscii at h
  simp only [octet, UInt8.toNat_ofNat']
  omega

theorem octet_inj (hc : IsAscii c) (hd : IsAscii d) (h : octet c = octet d) : c = d := by
  have hn := congrArg UInt8.toNat h
  rw [toNat_octet hc, toNat_octet hd] at hn
  exact Char.toNat_inj.mp hn

theorem utf8EncodeChar_ascii (h : IsAscii c) : String.utf8EncodeChar c = [octet c] := by
  unfold String.utf8EncodeChar
  exact if_pos (Nat.le_of_lt_succ h)

theorem utf8EncodeChar_wide (h : ¬ IsAscii c) : ∀ b ∈ String.utf8EncodeChar c, 128 ≤ b.toNat := by
  unfold IsAscii at h
  have hc : ¬ c.val.toNat ≤ 127 := by
    change ¬ c.toNat ≤ 127
    omega
  intro b hb
  unfold String.utf8EncodeChar at hb
  simp only [hc, if_false] at hb
  split at hb
  · simp only [List.mem_cons, List.not_mem_nil, or_false] at hb
    rcases hb with rfl | rfl <;> simp only [UInt8.toNat_ofNat'] <;> omega
  · split at hb
    · simp only [List.mem_cons, List.not_mem_nil, or_false] at hb
      rcases hb with rfl | rfl | rfl <;> simp only [UInt8.toNat_ofNat'] <;> omega
    · simp only [List.mem_cons, List.not_mem_nil, or_false] at hb
      rcases hb with rfl | rfl | rfl | rfl <;> simp only [UInt8.toNat_ofNat'] <;> omega

theorem octets_cons_ascii (h : IsAscii c) (s : List Char) :
    octets (c :: s) = octet c :: octets s := by
  rw [octets_cons, utf8EncodeChar_ascii h]
  rfl

theorem eq_of_octet_mem (hc : IsAscii c) (h : octet c ∈ String.utf8EncodeChar d) : c = d := by
  by_cases hd : IsAscii d
  · rw [utf8EncodeChar_ascii hd, List.mem_singleton] at h
    exact octet_inj hc hd h
  · have hwide := utf8EncodeChar_wide hd _ h
    have hlow : c.toNat < 128 := hc
    rw [toNat_octet hc] at hwide
    omega

theorem octet_mem_octets (hc : IsAscii c) {s : List Char} : octet c ∈ octets s ↔ c ∈ s := by
  unfold octets
  rw [List.mem_flatMap]
  constructor
  · rintro ⟨d, hd, hm⟩
    exact eq_of_octet_mem hc hm ▸ hd
  · intro h
    refine ⟨c, h, ?_⟩
    rw [utf8EncodeChar_ascii hc]
    exact List.mem_singleton_self _

/-- A text can be cut at each of its ASCII bytes. -/
theorem exists_of_octets_eq (hc : IsAscii c) {s : List Char} {u v : List UInt8}
    (h : octets s = u ++ octet c :: v) :
    ∃ s₁ s₂, s = s₁ ++ c :: s₂ ∧ octets s₁ = u ∧ octets s₂ = v := by
  induction s generalizing u with
  | nil => simp at h
  | cons d s ih =>
    rw [octets_cons] at h
    rcases List.append_eq_append_iff.mp h with ⟨w, rfl, hs⟩ | ⟨w, hd, hv⟩
    · obtain ⟨s₁, s₂, rfl, rfl, rfl⟩ := ih hs
      exact ⟨d :: s₁, s₂, rfl, rfl, rfl⟩
    · cases w with
      | nil =>
        obtain ⟨s₁, s₂, rfl, hs₁, rfl⟩ := ih (u := []) hv.symm
        obtain rfl := octets_eq_nil hs₁
        exact ⟨[d], s₂, rfl, by simpa using hd, rfl⟩
      | cons b w =>
        obtain ⟨rfl, rfl⟩ := List.cons.inj hv
        have hmem : octet c ∈ String.utf8EncodeChar d := by
          rw [hd]
          exact List.mem_append_right _ (List.mem_cons_self ..)
        obtain rfl := eq_of_octet_mem hc hmem
        rw [utf8EncodeChar_ascii hc] at hd
        -- The one byte of the character leaves no room in front of it or behind it.
        have hl := congrArg List.length hd
        simp only [List.length_append, List.length_cons, List.length_nil] at hl
        obtain rfl : u = [] := List.length_eq_zero_iff.mp (by omega)
        obtain rfl : w = [] := List.length_eq_zero_iff.mp (by omega)
        exact ⟨[], s, rfl, rfl, rfl⟩

theorem exists_of_octets_eq_cons (hc : IsAscii c) {s : List Char} {v : List UInt8}
    (h : octets s = octet c :: v) : ∃ t, s = c :: t ∧ octets t = v := by
  obtain ⟨s₁, t, rfl, hs₁, rfl⟩ := exists_of_octets_eq hc (u := []) h
  obtain rfl := octets_eq_nil hs₁
  exact ⟨t, rfl, rfl⟩

theorem exists_of_octets_eq_append {w s : List Char} {v : List UInt8} (hw : ∀ c ∈ w, IsAscii c)
    (h : octets s = octets w ++ v) : ∃ t, s = w ++ t ∧ octets t = v := by
  induction w generalizing s with
  | nil => exact ⟨s, rfl, h⟩
  | cons c w ih =>
    obtain ⟨hc, hw⟩ := List.forall_mem_cons.mp hw
    rw [octets_cons_ascii hc, List.cons_append] at h
    obtain ⟨t, rfl, ht⟩ := exists_of_octets_eq_cons hc h
    obtain ⟨t, rfl, rfl⟩ := ih hw ht
    exact ⟨t, rfl, rfl⟩

theorem drop_octets (front rest : List Char) :
    (octets (front ++ rest)).drop (utf8Size front) = octets rest := by
  rw [octets_append, ← length_octets, List.drop_left]

theorem take_octets (front rest : List Char) :
    (octets (front ++ rest)).take (utf8Size front) = octets front := by
  rw [octets_append, ← length_octets, List.take_left]

/-- An offset at which an ASCII byte stands lies between two characters. -/
theorem exists_of_drop_octets (hc : IsAscii c) {text : List Char} {o : Nat} {v : List UInt8}
    (h : (octets text).drop o = octet c :: v) :
    ∃ front rest, text = front ++ c :: rest ∧ utf8Size front = o ∧ octets rest = v := by
  have hsplit : octets text = (octets text).take o ++ octet c :: v := by
    rw [← h, List.take_append_drop]
  obtain ⟨front, rest, ht, hf, hr⟩ := exists_of_octets_eq hc hsplit
  refine ⟨front, rest, ht, ?_, hr⟩
  have hl := congrArg List.length h
  rw [List.length_drop, List.length_cons] at hl
  rw [← length_octets, hf, List.length_take]
  omega

theorem exists_of_drop_octets_append {w : List Char} (hw : ∀ c ∈ w, IsAscii c) (hne : w ≠ [])
    {text : List Char} {o : Nat} {v : List UInt8} (h : (octets text).drop o = octets w ++ v) :
    ∃ front rest, text = front ++ w ++ rest ∧ utf8Size front = o ∧ octets rest = v := by
  cases w with
  | nil => exact absurd rfl hne
  | cons c w =>
    obtain ⟨hc, hw⟩ := List.forall_mem_cons.mp hw
    rw [octets_cons_ascii hc, List.cons_append] at h
    obtain ⟨front, behind, rfl, ho, hb⟩ := exists_of_drop_octets hc h
    obtain ⟨rest, rfl, rfl⟩ := exists_of_octets_eq_append hw hb
    exact ⟨front, rest, by simp, ho, rfl⟩

theorem isPrefix_of_utf8Size_le {s t u v : List Char} (h : s ++ u = t ++ v)
    (hl : utf8Size s ≤ utf8Size t) : s <+: t := by
  rcases List.append_eq_append_iff.mp h with ⟨w, rfl, -⟩ | ⟨w, rfl, -⟩
  · exact List.prefix_append s w
  · cases w with
    | nil => exact (List.append_nil t).symm ▸ List.prefix_rfl
    | cons c w =>
      have hpos := c.utf8Size_pos
      simp only [utf8Size_append, utf8Size_cons] at hl
      omega

theorem eq_of_utf8Size_eq {s t u v : List Char} (h : s ++ u = t ++ v)
    (hl : utf8Size s = utf8Size t) : s = t := by
  have hs := isPrefix_of_utf8Size_le h (Nat.le_of_eq hl)
  have ht := isPrefix_of_utf8Size_le h.symm (Nat.le_of_eq hl.symm)
  exact hs.eq_of_length (Nat.le_antisymm hs.length_le ht.length_le)

end TopicHub.Text
