import TopicHub.Proofs.Address
import TopicHub.Router.Handlers

/-!
Which addresses the hub takes for its own. Reserved names stand at the end of a topic, so its last
character tells that a topic is none of them, in any letter case. An address with a namespace and a
project is never one of a lost device.
-/

namespace TopicHub

open Text

namespace Text

theorem length_splitOn (sep : Char) (s : List Char) : (splitOn sep s).length = s.count sep + 1 := by
  induction s with
  | nil => rfl
  | cons c s ih =>
    rw [splitOn]
    by_cases h : c = sep
    · rw [if_pos h, List.length_cons, ih, h, List.count_cons_self]
    · rw [if_neg h, List.count_cons_of_ne h, ← ih]
      cases hs : splitOn sep s with
      | nil =>
        rw [hs] at ih
        cases ih
      | cons piece pieces => rfl

theorem lowerAfter_concat {c : Char} (h : c ≠ '\u03A3') (before s : List Char) :
    ∃ front, lowerAfter before (s ++ [c]) = front ++ lowerChar c := by
  induction s generalizing before with
  | nil =>
    refine ⟨[], ?_⟩
    rw [List.nil_append, lowerAfter, if_neg h, lowerAfter, List.append_nil]
    rfl
  | cons d s ih =>
    obtain ⟨front, hf⟩ := ih (d :: before)
    rw [List.cons_append, lowerAfter, hf]
    exact ⟨_, (List.append_assoc ..).symm⟩

end Text

def EndsWith (s : String) (c : Char) : Prop := ∃ front, s.toList = front ++ [c]

theorem exists_endsWith {s : String} (h : s.isEmpty = false) : ∃ c, EndsWith s c := by
  rcases List.eq_nil_or_concat' s.toList with hs | ⟨front, c, hs⟩
  · have he : s = "" := String.toList_injective hs
    rw [he] at h
    cases h
  · exact ⟨c, front, hs⟩

theorem endsWith_append (s : String) {t : String} {c : Char} (h : EndsWith t c) :
    EndsWith (s ++ t) c := by
  obtain ⟨front, ht⟩ := h
  refine ⟨s.toList ++ front, ?_⟩
  rw [String.toList_append, ht, List.append_assoc]

theorem EndsWith.reverse {s : String} {c : Char} (h : EndsWith s c) :
    ∃ rest, s.toList.reverse = c :: rest := by
  obtain ⟨front, hs⟩ := h
  exact ⟨front.reverse, by rw [hs, List.reverse_concat]⟩

theorem EndsWith.unique {s : String} {c d : Char} (hc : EndsWith s c) (hd : EndsWith s d) : c = d := by
  obtain ⟨_, hc⟩ := hc.reverse
  obtain ⟨_, hd⟩ := hd.reverse
  exact (List.cons.inj (hc.symm.trans hd)).1

theorem endsWith_registerTopicName : EndsWith registerTopicName 'c' :=
  ⟨"register_known_topi".toList, by decide⟩

theorem endsWith_registerDeviceName : EndsWith registerDeviceName 'r' :=
  ⟨"register_microcontrolle".toList, by decide⟩

theorem isReserved_of_endsWith {topic name : String} {c d : Char} (ht : EndsWith topic c)
    (hn : EndsWith name d) (hne : c ≠ d) : isReserved topic name = false := by
  obtain ⟨rest, ht⟩ := ht.reverse
  obtain ⟨front, hn⟩ := hn.reverse
  have hname : topic ≠ name := by
    rintro rfl
    exact hne (List.cons.inj (ht.symm.trans hn)).1
  unfold isReserved
  rw [ht, hn, List.cons_append, after?, if_neg hne.symm]
  simpa using hname

theorem isHeartbeat_of_endsWith {topic : String} {c : Char} (h : EndsWith topic c)
    (hs : c ≠ '\u03A3') (hl : lowerChar c = [c]) (hne : c ≠ 'e') :
    Router.isHeartbeat topic = false := by
  obtain ⟨front, ht⟩ := h
  obtain ⟨low, hlow⟩ := lowerAfter_concat hs [] front
  have hr : (lower topic.toList).reverse = c :: low.reverse := by
    rw [ht, lower, hlow, hl, List.reverse_concat]
  have ha : aliveName.toList.reverse = 'e' :: "vila".toList := by decide
  unfold Router.isHeartbeat
  rw [hr, ha, after?, if_neg hne.symm]
  rfl

theorem isLost_of_slashes {path : String} (h : 2 ≤ path.toList.count '/') : isLost path = false := by
  have hs : ¬ segmentCount path < 3 := by
    rw [segmentCount, length_splitOn]
    omega
  simp [isLost, hs]

theorem slashes_of_text (p : TopicPath) : 2 ≤ p.text.toList.count '/' := by
  rw [toList_text, List.count_append, List.count_cons_self, List.count_append,
    List.count_cons_self]
  omega

theorem isLost_text (p : TopicPath) : isLost p.text = false := isLost_of_slashes (slashes_of_text p)

end TopicHub
