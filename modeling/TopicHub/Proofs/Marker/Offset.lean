import Mathlib.Data.Nat.Find
import Mathlib.Order.Bounds.Basic
import TopicHub.Marker

/-!
Byte offsets in a text. One that falls between two characters cuts the text there, and to search from
it is to search what stands behind it.
-/

namespace TopicHub

namespace Text

@[simp] theorem utf8Size_nil : utf8Size [] = 0 := rfl

@[simp] theorem utf8Size_cons (c : Char) (s : List Char) :
    utf8Size (c :: s) = c.utf8Size + utf8Size s := rfl

@[simp] theorem utf8Size_append (s t : List Char) :
    utf8Size (s ++ t) = utf8Size s + utf8Size t := by
  induction s with
  | nil => simp
  | cons c s ih => simp [ih, Nat.add_assoc]

theorem utf8Size_pos {s : List Char} (h : s ≠ []) : 0 < utf8Size s := by
  cases s with
  | nil => exact absurd rfl h
  | cons c s => exact Nat.add_pos_left c.utf8Size_pos _

theorem cutAt?_append (front rest : List Char) :
    cutAt? (utf8Size front) (front ++ rest) = some (front, rest) := by
  induction front with
  | nil => cases rest <;> rfl
  | cons c front ih =>
    have hc := c.utf8Size_pos
    rw [List.cons_append, utf8Size_cons, cutAt?, if_neg (by omega), if_neg (by omega),
      Nat.add_sub_cancel_left, ih]
    rfl

theorem cutAt?_eq_some {offset : Nat} {text front rest : List Char}
    (h : cutAt? offset text = some (front, rest)) :
    text = front ++ rest ∧ offset = utf8Size front := by
  induction text generalizing offset front with
  | nil =>
    rw [cutAt?] at h
    split at h
    · rename_i ho
      cases h
      exact ⟨rfl, ho⟩
    · cases h
  | cons c text ih =>
    rw [cutAt?] at h
    split at h
    · rename_i ho
      cases h
      exact ⟨rfl, ho⟩
    · split at h
      · cases h
      · obtain ⟨⟨before, behind⟩, hb, he⟩ := Option.map_eq_some_iff.mp h
        cases he
        obtain ⟨rfl, ho⟩ := ih hb
        refine ⟨rfl, ?_⟩
        rw [utf8Size_cons]
        omega

end Text

namespace Marker

open Text

theorem findReadFrom_append (front rest : List Char) :
    findReadFrom (front ++ rest) (utf8Size front) =
      (findRead front.getLast? rest).map (Placed.behind front) := by
  rw [findReadFrom, cutAt?_append]
  rfl

theorem findScriptFrom_append (front rest : List Char) :
    findScriptFrom (front ++ rest) (utf8Size front) =
      (findScript rest).map (Placed.behind front) := by
  rw [findScriptFrom, cutAt?_append]
  rfl

/-- What is found is the least of the offsets, if there are any. -/
def IsFirst (offsets : Set ℕ) : Option ℕ → Prop
  | none => offsets = ∅
  | some o => IsLeast offsets o

theorem IsFirst.exists {offsets : Set ℕ} {found : Option ℕ} (h : IsFirst offsets found) {o : ℕ}
    (ho : o ∈ offsets) : ∃ first ∈ found, first ≤ o := by
  cases found with
  | none =>
    obtain rfl : offsets = ∅ := h
    exact absurd ho (Set.notMem_empty o)
  | some first => exact ⟨first, rfl, h.2 ho⟩

theorem IsFirst.eq {offsets : Set ℕ} {found found' : Option ℕ} (h : IsFirst offsets found)
    (h' : IsFirst offsets found') : found = found' := by
  cases found with
  | none =>
    cases found' with
    | none => rfl
    | some o =>
      obtain rfl : offsets = ∅ := h
      exact absurd h'.1 (Set.notMem_empty o)
  | some o =>
    obtain ⟨first, rfl, hle⟩ := h'.exists h.1
    exact congrArg some (Nat.le_antisymm (h.2 h'.1) hle)

theorem exists_isFirst (offsets : Set ℕ) : ∃ found, IsFirst offsets found := by
  rcases offsets.eq_empty_or_nonempty with rfl | hne
  · exact ⟨none, rfl⟩
  · classical
    exact ⟨some (Nat.find hne), Nat.find_spec hne, fun _ ho => Nat.find_min' hne ho⟩

theorem IsFirst.iff_mem {offsets others : Set ℕ} {found : Option ℕ} (h : IsFirst offsets found) :
    IsFirst others found ↔
      (∀ o, IsLeast others o → o ∈ offsets) ∧ ∀ o, IsLeast offsets o → o ∈ others := by
  constructor
  · intro h'
    refine ⟨fun o ho => ?_, fun o ho => ?_⟩
    · obtain rfl := h'.eq (show IsFirst others (some o) from ho)
      exact h.1
    · obtain rfl := h.eq (show IsFirst offsets (some o) from ho)
      exact h'.1
  · rintro ⟨hothers, hoffsets⟩
    obtain ⟨found', h'⟩ := exists_isFirst others
    suffices found = found' from this ▸ h'
    cases found' with
    | none =>
      cases found with
      | none => rfl
      | some o =>
        obtain rfl : others = ∅ := h'
        exact absurd (hoffsets o h) (Set.notMem_empty o)
    | some o' =>
      obtain ⟨o, rfl, hle⟩ := h.exists (hothers o' h')
      exact congrArg some (Nat.le_antisymm hle (h'.2 (hoffsets o h)))

end Marker

end TopicHub
