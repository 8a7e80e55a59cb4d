import TopicHub.Marker
import TopicHub.Proofs.Splitting

/-!
What a read marker looks like in its text: it starts with a letter, ends in a parenthesis or a
bracket, and what is left of the text stands behind it.
-/

namespace TopicHub

namespace Marker

open Text

theorem argument?_eq {depth : Nat} {quote : Option Char} {s arg rest : List Char}
    (h : argument? depth quote s = some (arg, rest)) : s = arg ++ ')' :: rest := by
  induction s generalizing depth quote arg with
  | nil => cases h
  | cons c s ih =>
    have go : ∀ {d : Nat} {q : Option Char},
        (argument? d q s).map (fun found => (c :: found.1, found.2)) = some (arg, rest) →
          c :: s = arg ++ ')' :: rest := by
      intro d q hg
      obtain ⟨⟨a, r⟩, ha, he⟩ := Option.map_eq_some_iff.mp hg
      cases he
      rw [ih ha, List.cons_append]
    unfold argument? at h
    cases quote with
    | some q => exact go h
    | none =>
      dsimp only at h
      split at h
      · exact go h
      · split at h
        · exact go h
        · split at h
          · rename_i hc
            split at h
            · cases h
              rw [hc]
              rfl
            · exact go h
          · exact go h

theorem parenthesized?_eq {s arg rest : List Char} (h : parenthesized? s = some (arg, rest)) :
    s = '(' :: arg ++ ')' :: rest := by
  unfold parenthesized? at h
  split at h
  · rw [argument?_eq h]
    rfl
  · cases h

theorem key?_eq {s key rest : List Char} (h : key? s = some (key, rest)) :
    s = '[' :: key ++ ']' :: rest := by
  unfold key? at h
  split at h
  · split at h
    · rename_i hk
      cases h
      rw [cut?_eq hk]
      simp
    · cases h
  · cases h

theorem key?_of_notMem {key : List Char} (h : ']' ∉ key) (rest : List Char) :
    key? ('[' :: key ++ ']' :: rest) = some (key, rest) := by
  rw [List.cons_append, key?, cut?_of_notMem h]

inductive Written : List Char → Prop where
  | mk (middle : List Char) {close : Char} (h : isNamePart close = false) :
      Written ('R' :: middle ++ [close])

theorem readAfter?_eq {keyword s rest : List Char} {marker : ReadMarker}
    (h : readAfter? keyword s = some (marker, rest)) :
    ∃ middle close, s = keyword ++ middle ++ close :: rest ∧ isNamePart close = false := by
  unfold readAfter? at h
  split at h
  · cases h
  · rename_i t ht
    split at h
    · cases h
    · rename_i arg u hu
      have hs : s = keyword ++ (t.takeWhile isAsciiBlank ++ '(' :: arg) ++ ')' :: u := calc
        s = keyword ++ t := after?_eq ht
        _ = keyword ++ (t.takeWhile isAsciiBlank ++ t.dropWhile isAsciiBlank) := by
          rw [List.takeWhile_append_dropWhile]
        _ = keyword ++ (t.takeWhile isAsciiBlank ++ '(' :: arg) ++ ')' :: u := by
          rw [parenthesized?_eq hu]
          simp
      split at h
      · rename_i key v hv
        cases h
        refine ⟨t.takeWhile isAsciiBlank ++ '(' :: arg ++ ')' :: '[' :: key, ']', ?_, by decide⟩
        rw [hs, key?_eq hv]
        simp
      · cases h
        exact ⟨_, ')', hs, by decide⟩

theorem readAt?_eq {s rest : List Char} {marker : ReadMarker}
    (h : readAt? s = some (marker, rest)) : ∃ w, Written w ∧ s = w ++ rest := by
  obtain ⟨keyword, hk, h⟩ := List.exists_of_findSome?_eq_some h
  obtain ⟨middle, close, hs, hc⟩ := readAfter?_eq h
  have hr : ∃ letters, keyword = 'R' :: letters := by
    rcases List.mem_cons.mp hk with rfl | hk
    · exact ⟨_, rfl⟩
    · rw [List.mem_singleton.mp hk]
      exact ⟨_, rfl⟩
  obtain ⟨letters, rfl⟩ := hr
  refine ⟨_, Written.mk (letters ++ middle) hc, ?_⟩
  rw [hs]
  simp

theorem consumed_append (w rest : List Char) : consumed (w ++ rest) rest = w := by
  unfold consumed
  rw [List.length_append, Nat.add_sub_cancel]
  exact List.take_left

end Marker

end TopicHub
