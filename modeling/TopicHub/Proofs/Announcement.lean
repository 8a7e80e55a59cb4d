import TopicHub.Proofs.RecordForm

/-!
What a device is told about itself is what it reports. Its settings are an object of texts on one
line, and reading them as an announcement yields the announcement that they were written for.
-/

namespace TopicHub

open Json

namespace Json

theorem compactFields_later (f : String × Value) (fs : List (String × Value)) :
    compactFields false (f :: fs) = ',' :: compactFields true (f :: fs) := by
  rw [compactFields, compactFields]
  rfl

theorem compactFields_first (key s : String) (fs : List (String × Value)) (rest : List Char) :
    compactFields true ((key, .string s) :: fs) ++ rest =
      quoted key ++ ':' :: (quoted s ++ (compactFields false fs ++ rest)) := by
  rw [compactFields, writeCompact, if_pos rfl, List.nil_append]
  simp only [List.append_assoc, List.cons_append]

def AllTexts (fields : List (String × Value)) : Prop := ∀ f ∈ fields, ∃ s, f.2 = .string s

theorem readFields_texts {key : String} {v : Value} {fs : List (String × Value)}
    (h : AllTexts ((key, v) :: fs)) {fuel : Nat} (hf : fs.length + 1 < fuel) (rest : List Char) :
    readFields fuel (compactFields true ((key, v) :: fs) ++ '}' :: rest) =
      some (rawFields ((key, v) :: fs), rest) := by
  obtain ⟨s, hs⟩ := h (key, v) (List.mem_cons_self ..)
  obtain rfl : v = .string s := hs
  -- A step for the member, and one for its value.
  obtain ⟨fuel, rfl⟩ : ∃ m, fuel = m + 2 := ⟨fuel - 2, by omega⟩
  rw [compactFields_first, readFields_member key (readValue_string s fuel _)]
  cases fs with
  | nil =>
    rw [compactFields, List.nil_append, skipBlank_of_head (by decide)]
    rfl
  | cons f fs =>
    obtain ⟨later, w⟩ := f
    have ht : AllTexts ((later, w) :: fs) := fun g hg => h g (List.mem_cons_of_mem _ hg)
    have hr : readFields (fuel + 1) (compactFields true ((later, w) :: fs) ++ '}' :: rest) = _ :=
      readFields_texts ht (by rw [List.length_cons] at hf; omega) rest
    rw [compactFields_later, List.cons_append, skipBlank_of_head (by decide)]
    simp only [hr, Option.map_some]
    rfl

theorem length_le_compactFields (first : Bool) (fs : List (String × Value)) :
    fs.length ≤ (compactFields first fs).length := by
  induction fs generalizing first with
  | nil => exact Nat.zero_le _
  | cons f fs ih =>
    have hl := ih false
    rw [compactFields]
    simp only [List.length_append, List.length_cons]
    omega

theorem read?_compact {fields : List (String × Value)} (h : AllTexts fields) :
    Raw.read? (Value.object fields).compact = some (Raw.ofValue (.object fields)) := by
  cases fields with
  | nil => rfl
  | cons f fs =>
    obtain ⟨key, v⟩ := f
    obtain ⟨s, hs⟩ := h (key, v) (List.mem_cons_self ..)
    obtain rfl : v = .string s := hs
    let body := compactFields true ((key, .string s) :: fs)
    have ht : writeCompact (.object ((key, .string s) :: fs)) = '{' :: (body ++ ['}']) := by
      rw [writeCompact]
      rfl
    have hl : fs.length + 1 ≤ body.length := length_le_compactFields true ((key, .string s) :: fs)
    have hb : skipBlank (body ++ ['}']) = body ++ ['}'] := by
      rw [compactFields_first, quoted_append, skipBlank_of_head (by decide)]
    have hq : ∃ t, skipBlank (body ++ ['}']) = '"' :: t := by
      rw [hb, compactFields_first, quoted_append]
      exact ⟨_, rfl⟩
    obtain ⟨t, hq⟩ := hq
    unfold Raw.read? Value.compact
    rw [String.toList_ofList, ht]
    dsimp only
    rw [readValue_brace _ hq, readFields_texts h (by simp only [List.length_cons, List.length_append]; omega)]
    rfl

theorem allTexts_present {fields : List (String × Option Value)}
    (h : ∀ f ∈ fields, ∀ v ∈ f.2, ∃ s, v = .string s) : AllTexts (present fields) := by
  rintro ⟨name, v⟩ hf
  obtain ⟨⟨k, w⟩, hm, hv⟩ := List.mem_filterMap.mp hf
  cases w with
  | none => cases hv
  | some w =>
    cases hv
    exact h _ hm v rfl

end Json

namespace DeviceAnnouncement

theorem allTexts_ofDevice (d : Device) :
    ∃ fields, (ofDevice d).toJson = .object fields ∧ AllTexts fields := by
  refine ⟨_, rfl, allTexts_present ?_⟩
  simp [ofDevice]

theorem read?_ofDevice (d : Device) :
    read? (ofDevice d).toJson.compact = some (ofDevice d) := by
  obtain ⟨fields, hj, ht⟩ := allTexts_ofDevice d
  have hr : Raw.read? (ofDevice d).toJson.compact = some (Raw.ofValue (ofDevice d).toJson) := by
    rw [hj]
    exact read?_compact ht
  obtain ⟨s, hs, hg⟩ := slots_of_object (ofDevice d).toJson fieldNames rfl rfl (by decide)
  unfold read? ofRaw?
  rw [hr]
  simp only [Option.bind_some]
  simp only [hs, some_bind,
    withDefault?_member (readsBack_text d.macAddress) "" (hg "MacAddress"),
    optional?_text d.ipAddress (hg "IpAddress"),
    optional?_text d.ipMqttBroker (hg "IpMqttBroker"),
    withDefault?_member (readsBack_text d.namespaceName) "" (hg "NamespaceName"),
    withDefault?_member (readsBack_text d.project) "" (hg "ProjectName"),
    withDefault?_member (readsBack_text d.boardType) "" (hg "BoardType"),
    optional?_text d.firmwareVersion (hg "FirmwareVersion"),
    optional?_text d.description (hg "Description")]
  rw [Slots.optional?, hg "KnownTopics"]
  rfl

end DeviceAnnouncement

end TopicHub
