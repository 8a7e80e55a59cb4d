import TopicHub.Proofs.RecentCache
import TopicHub.Proofs.Splitting

/-!
Addresses tell messages apart, topics alone do not. A cached topic is found under the address of the
message with which it came in, and has the payload of its last message, which may have come from
another project.
-/

namespace TopicHub

open Text

structure IsSegment (s : String) : Prop where
  nonempty : s.isEmpty = false
  plain : '/' ∉ s.toList

instance (s : String) : Decidable (IsSegment s) :=
  decidable_of_iff (s.isEmpty = false ∧ '/' ∉ s.toList)
    ⟨fun h => ⟨h.1, h.2⟩, fun h => ⟨h.nonempty, h.plain⟩⟩

theorem fullTopic_eq {space : String} (h : IsSegment space) (project topic : String) :
    fullTopic space project topic = space ++ "/" ++ (project ++ "/" ++ topic) := by
  unfold fullTopic
  rw [h.nonempty]
  simp only [String.append_assoc]
  rfl

theorem fullTopic_inj {space project topic space' project' topic' : String}
    (hs : IsSegment space) (hp : IsSegment project) (hs' : IsSegment space')
    (hp' : IsSegment project') :
    fullTopic space project topic = fullTopic space' project' topic' ↔
      space = space' ∧ project = project' ∧ topic = topic' := by
  rw [fullTopic_eq hs, fullTopic_eq hs', joined_inj hs.plain hs'.plain,
    joined_inj hp.plain hp'.plain]

theorem segments_of_parse {text : String} {path : TopicPath}
    (h : TopicPath.parse text = .ok path) :
    IsSegment path.namespaceName ∧ IsSegment path.project := by
  unfold TopicPath.parse at h
  split at h
  · cases h
  · rename_i space rest hs
    split at h
    · cases h
    · rename_i project topic hp
      split at h
      · cases h
      · rename_i hse
        split at h
        · cases h
        · rename_i hpe
          split at h
          · cases h
          · cases h
            have hsegment {s : List Char} (he : ¬ s.isEmpty = true) (hm : '/' ∉ s) :
                IsSegment (String.ofList s) := by
              refine ⟨?_, ?_⟩
              · rw [Bool.eq_false_iff]
                intro hc
                have hnil := congrArg String.toList (String.isEmpty_iff.mp hc)
                rw [String.toList_ofList] at hnil
                exact he (List.isEmpty_iff.mpr hnil)
              · rw [String.toList_ofList]
                exact hm
            exact ⟨hsegment hse (notMem_of_cut? hs), hsegment hpe (notMem_of_cut? hp)⟩

theorem toList_text (p : TopicPath) : p.text.toList =
    p.namespaceName.toList ++ '/' :: (p.project.toList ++ '/' :: p.topic.toList) := by
  simp [TopicPath.text]

theorem text_of_parse {text : String} {path : TopicPath} (h : TopicPath.parse text = .ok path) :
    text = path.text := by
  unfold TopicPath.parse at h
  split at h
  · cases h
  · rename_i space rest hs
    split at h
    · cases h
    · rename_i project topic hp
      split at h
      · cases h
      · split at h
        · cases h
        · split at h
          · cases h
          · cases h
            apply String.toList_injective
            rw [toList_text, cut?_eq hs, cut?_eq hp]
            simp

theorem parse_address {space project topic : String} (hs : IsSegment space) (hp : IsSegment project)
    (ht : topic.isEmpty = false) :
    TopicPath.parse (TopicPath.mk space project topic).text = .ok ⟨space, project, topic⟩ := by
  have hne {s : String} (h : s.isEmpty = false) : ¬ s.toList.isEmpty = true := by
    intro he
    rw [String.isEmpty_iff.mpr (String.toList_injective (List.isEmpty_iff.mp he))] at h
    cases h
  unfold TopicPath.parse
  rw [toList_text, cut?_of_notMem hs.plain]
  dsimp only
  rw [cut?_of_notMem hp.plain]
  dsimp only
  rw [if_neg (hne hs.nonempty), if_neg (hne hp.nonempty), if_neg (hne ht), String.ofList_toList,
    String.ofList_toList, String.ofList_toList]

namespace Entry

/-- Namespace and project are as in an address. -/
structure Addressed (e : Entry) : Prop where
  namespaceName : IsSegment e.namespaceName
  project : IsSegment e.project

instance (e : Entry) : Decidable e.Addressed :=
  decidable_of_iff (IsSegment e.namespaceName ∧ IsSegment e.project)
    ⟨fun h => ⟨h.1, h.2⟩, fun h => ⟨h.namespaceName, h.project⟩⟩

theorem topic_of_address {a b : Entry} (ha : a.Addressed) (hb : b.Addressed)
    (h : a.address = b.address) : a.topic = b.topic :=
  ((fullTopic_inj ha.namespaceName ha.project hb.namespaceName hb.project).mp h).2.2

end Entry

namespace RecentCache

open Ends

/-- The last message of a topic, if it has that address, is the last one with the address. -/
theorem last_at_address {puts : List Entry} (hp : ∀ e ∈ puts, e.Addressed) {latest : Entry}
    (hl : puts.findRev? (·.topic = latest.topic) = some latest) :
    puts.findRev? (·.address = latest.address) = some latest := by
  have hm := (of_findRev? hl).1
  refine findRev?_of_imp ?_ hl (decide_eq_true rfl)
  intro e he ha
  exact decide_eq_true (Entry.topic_of_address (hp e he) (hp latest hm) (of_decide_eq_true ha))

/-- What is found under an address came in with it. Its payload is that of the last message of its
topic, wherever that came from, and so that of the last message with the address whenever this is the
last message of the topic. -/
theorem address_finds_last_of_topic {capacity : Nat} {puts : List Entry}
    (hp : ∀ e ∈ puts, e.Addressed) {name : String} {x : Entry}
    (h : ((new capacity).putAll puts).byAddress? name = some x) :
    ∃ latest own, puts.findRev? (·.topic = x.topic) = some latest ∧
      puts.findRev? (·.address = name) = some own ∧ own.topic = x.topic ∧
      x.payload = latest.payload ∧ (latest.address = name ↔ latest = own) := by
  obtain ⟨answers, hi⟩ := exists_invariant capacity puts
  unfold byAddress? at h
  have hfound := List.find?_some h
  have hname : x.address = name := of_decide_eq_true hfound
  obtain ⟨latest, earlier, hs, hl, hk⟩ := hi.kept x (List.mem_of_find?_eq_some h)
  have hlast : latest.topic = x.topic := of_decide_eq_true (of_findRev? hl).2
  -- The message with which the topic came in is one with that address.
  obtain ⟨first, hfirst, hf⟩ := Entry.exists_kept_address latest earlier
  obtain ⟨htopic, a, ha, rfl⟩ := of_mem_stay (hs ▸ hfirst)
  have hm := hi.logged a ha
  have hat : a.1.address = name := by rw [← hf, ← hk, hname]
  cases ho : puts.findRev? (·.address = name) with
  | none => exact absurd (decide_eq_true hat) (findRev?_eq_none.mp ho a.1 hm)
  | some own =>
    obtain ⟨hmo, hao⟩ := of_findRev? ho
    have hown : own.address = name := of_decide_eq_true hao
    refine ⟨latest, own, hl, rfl, ?_, ?_, ?_, ?_⟩
    · rw [← htopic]
      exact Entry.topic_of_address (hp own hmo) (hp a.1 hm) (hown.trans hat.symm)
    · rw [hk, Entry.kept_payload]
    · intro hc
      rw [← hlast] at hl
      have hw := last_at_address hp hl
      rw [hc, ho] at hw
      exact (Option.some.inj hw).symm
    · rintro rfl
      exact hown

def lamp (project payload : String) : Entry :=
  Entry.ofMessage ⟨"home", project, "lamp"⟩ ⟨"home/" ++ project ++ "/lamp", payload, 0, false⟩
    (.ofMillis 0)

/-- The lamp in the garden was the last one to be heard of. -/
theorem garden_heard_last :
    let puts := [lamp "garden" "on", lamp "kitchen" "off", lamp "garden" "dim"]
    (∀ e ∈ puts, e.Addressed) ∧
      ∃ x, ((new 8).putAll puts).byAddress? "home/garden/lamp" = some x ∧ x.payload = "dim" := by
  intro puts
  have hp : ∀ e ∈ puts, e.Addressed := by decide
  let x := Entry.kept (lamp "garden" "dim") [lamp "kitchen" "off", lamp "garden" "on"]
  have h : ((new 8).putAll puts).byAddress? "home/garden/lamp" = some x := by decide
  refine ⟨hp, x, h, ?_⟩
  obtain ⟨latest, own, hl, -, -, hx, -⟩ := address_finds_last_of_topic hp h
  have hd : puts.findRev? (·.topic = x.topic) = some (lamp "garden" "dim") := by decide
  rw [hx, ← Option.some.inj (hd.symm.trans hl)]
  rfl

/-- The message from the kitchen renews the lamp that came in from the garden. -/
theorem kitchen_renews_garden :
    let puts := [lamp "garden" "on", lamp "kitchen" "off"]
    (∀ e ∈ puts, e.Addressed) ∧
      ∃ x own, ((new 8).putAll puts).byAddress? "home/garden/lamp" = some x ∧
        puts.findRev? (·.address = "home/garden/lamp") = some own ∧
        x.payload = "off" ∧ own.payload = "on" :=
  ⟨by decide, .kept (lamp "kitchen" "off") [lamp "garden" "on"], lamp "garden" "on", by decide,
    by decide, rfl, rfl⟩

end RecentCache

end TopicHub
