import TopicHub.Proofs.ReservedNames

/-!
Reading and writing addresses are inverse to each other. An address has a namespace and a project that are
not empty and have no slash, and a topic that is not empty; it is written in one way only, whoever writes
it. What a lost device reports to has too few segments to be an address.
-/

namespace TopicHub

open Text

theorem cut?_char_eq_none_iff {c : Char} {s : List Char} : cut? [c] s = none ↔ c ∉ s := by
  induction s with
  | nil => exact iff_of_true rfl List.not_mem_nil
  | cons d s ih =>
    rw [cut?_char, List.mem_cons]
    by_cases h : c = d
    · rw [if_pos h]
      exact iff_of_false nofun (not_not_intro (Or.inl h))
    · rw [if_neg h, Option.map_eq_none_iff, ih, not_or]
      exact (and_iff_right h).symm

theorem segmentCount_eq (s : String) : segmentCount s = s.toList.count '/' + 1 :=
  length_splitOn '/' s.toList

namespace TopicPath

/-- The parts stand apart when they are joined by slashes. -/
structure Proper (p : TopicPath) : Prop where
  namespaceName : IsSegment p.namespaceName
  project : IsSegment p.project
  topic : p.topic.isEmpty = false

theorem fullTopic_eq_text {p : TopicPath} (h : p.Proper) :
    fullTopic p.namespaceName p.project p.topic = p.text := by
  rw [fullTopic_eq h.namespaceName]
  simp only [text, String.append_assoc]

theorem proper_of_parse {s : String} {p : TopicPath} (h : parse s = .ok p) : p.Proper := by
  obtain ⟨hspace, hproject⟩ := segments_of_parse h
  refine ⟨hspace, hproject, ?_⟩
  rw [Bool.eq_false_iff]
  intro hempty
  have htopic : p.topic.toList = [] := congrArg String.toList (String.isEmpty_iff.mp hempty)
  rw [text_of_parse h] at h
  unfold parse at h
  rw [toList_text, cut?_of_notMem hspace.plain] at h
  dsimp only at h
  rw [cut?_of_notMem hproject.plain, htopic] at h
  dsimp only at h
  split at h
  · cases h
  · split at h
    · cases h
    · cases h

theorem parse_eq_ok_iff {s : String} {p : TopicPath} : parse s = .ok p ↔ p.Proper ∧ p.text = s := by
  constructor
  · intro h
    exact ⟨proper_of_parse h, (text_of_parse h).symm⟩
  · rintro ⟨h, rfl⟩
    exact parse_address h.namespaceName h.project h.topic

theorem parse_of_segmentCount_lt {s : String} (h : segmentCount s < 3) :
    parse s = .error (.tooFewSegments (segmentCount s)) := by
  rw [segmentCount_eq] at h ⊢
  unfold parse
  cases hspace : cut? ['/'] s.toList with
  | none =>
    have hnone := List.count_eq_zero_of_not_mem (cut?_char_eq_none_iff.mp hspace)
    rw [hnone]
  | some cut =>
    obtain ⟨space, rest⟩ := cut
    have hcount : s.toList.count '/' = rest.count '/' + 1 := by
      rw [cut?_eq hspace, List.append_assoc, List.count_append,
        List.count_eq_zero_of_not_mem (notMem_of_cut? hspace), List.singleton_append,
        List.count_cons_self, Nat.zero_add]
    have hrest : '/' ∉ rest := by
      rw [← List.count_eq_zero]
      omega
    rw [hcount, List.count_eq_zero_of_not_mem hrest]
    dsimp only
    rw [cut?_char_eq_none_iff.mpr hrest]

end TopicPath

theorem segmentCount_of_isLost {s : String} (h : isLost s = true) : segmentCount s < 3 :=
  of_decide_eq_true (Bool.and_eq_true_iff.mp h).1

theorem withoutAddress_fullTopic {space : String} (h : IsSegment space) (project topic : String) :
    withoutAddress (fullTopic space project topic) space project = topic := by
  have hfull : (fullTopic space project topic).toList =
      (space ++ "/" ++ project ++ "/").toList ++ topic.toList := by
    rw [fullTopic_eq h]
    simp only [String.toList_append, List.append_assoc]
  unfold withoutAddress
  rw [hfull, after?_append]
  exact String.ofList_toList

/-- A text is an address exactly if it is put together from three parts that stand apart. It is then
written again by all who write addresses, the parts are read back from what is written, and the topic is
what is left of it without the other two. Control addresses of lost devices are refused. -/
theorem addresses_lossless (s : String) :
    ((∃ path, TopicPath.parse s = .ok path) ↔ ∃ space project topic, IsSegment space ∧
      IsSegment project ∧ topic.isEmpty = false ∧ s = space ++ "/" ++ project ++ "/" ++ topic) ∧
    (∀ path, TopicPath.parse s = .ok path → path.text = s ∧
      fullTopic path.namespaceName path.project path.topic = s ∧
      ∀ message now, (Entry.ofMessage path message now).address = s) ∧
    (∀ space project topic, IsSegment space → IsSegment project → topic.isEmpty = false →
      TopicPath.parse (TopicPath.mk space project topic).text = .ok ⟨space, project, topic⟩ ∧
      withoutAddress (fullTopic space project topic) space project = topic) ∧
    (isLost s = true → TopicPath.parse s = .error (.tooFewSegments (segmentCount s))) := by
  refine ⟨⟨?_, ?_⟩, ?_, ?_, ?_⟩
  · rintro ⟨path, h⟩
    obtain ⟨hproper, rfl⟩ := TopicPath.parse_eq_ok_iff.mp h
    exact ⟨_, _, _, hproper.namespaceName, hproper.project, hproper.topic, rfl⟩
  · rintro ⟨space, project, topic, hspace, hproject, htopic, rfl⟩
    exact ⟨⟨space, project, topic⟩, parse_address hspace hproject htopic⟩
  · intro path h
    obtain ⟨hproper, rfl⟩ := TopicPath.parse_eq_ok_iff.mp h
    have hfull := TopicPath.fullTopic_eq_text hproper
    exact ⟨rfl, hfull, fun _ _ => hfull⟩
  · intro space project topic hspace hproject htopic
    exact ⟨parse_address hspace hproject htopic, withoutAddress_fullTopic hspace project topic⟩
  · intro h
    exact TopicPath.parse_of_segmentCount_lt (segmentCount_of_isLost h)

end TopicHub
