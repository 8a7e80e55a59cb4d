import Mathlib.Data.List.Nodup
import TopicHub.Store.RecordFile
import TopicHub.Proofs.Json.Document
import TopicHub.Proofs.Timestamp

/-!
The written form of records. Every record whose numbers and instants are within their bounds is read
back from what is written for it, each field as it was.
-/

open TopicHub.Number

namespace TopicHub.Json

variable {α : Type}

/-- What is written has no fractions and is read as what it was written for. -/
structure ReadsBack (write : α → Value) (read : Raw → Option α) (a : α) : Prop where
  whole : (write a).isWhole = true
  reads : read (Raw.ofValue (write a)) = some a

def member? (name : String) (fields : List (String × Option α)) : Option α :=
  (lookup? name fields).bind id

theorem lookup?_eq_none {name : String} {fields : List (String × α)}
    (h : name ∉ fields.map Prod.fst) : lookup? name fields = none := by
  induction fields with
  | nil => rfl
  | cons field fields ih =>
    rw [List.map_cons, List.mem_cons, not_or] at h
    rw [lookup?, if_neg (Ne.symm h.1), ih h.2]

def present (fields : List (String × Option α)) : List (String × α) :=
  fields.filterMap fun (k, v) => v.map (k, ·)

theorem present_names (fields : List (String × Option α)) :
    ((present fields).map Prod.fst).Sublist (fields.map Prod.fst) := by
  induction fields with
  | nil => exact List.Sublist.slnil
  | cons field fields ih =>
    obtain ⟨k, v⟩ := field
    cases v with
    | none => exact ih.cons k
    | some v => exact ih.cons_cons k

theorem lookup?_present (name : String) {fields : List (String × Option α)}
    (h : (fields.map Prod.fst).Nodup) : lookup? name (present fields) = member? name fields := by
  induction fields with
  | nil => rfl
  | cons field fields ih =>
    obtain ⟨k, v⟩ := field
    obtain ⟨hk, hr⟩ := List.nodup_cons.mp h
    by_cases hn : k = name
    · subst hn
      cases v with
      | none =>
        have hp : k ∉ (present fields).map Prod.fst := fun hm =>
          hk ((present_names fields).subset hm)
        rw [member?, lookup?, if_pos rfl]
        exact lookup?_eq_none hp
      | some v =>
        rw [member?, lookup?, if_pos rfl]
        exact if_pos rfl
    · rw [member?, lookup?, if_neg hn]
      refine Eq.trans ?_ (ih hr)
      cases v with
      | none => rfl
      | some v => exact if_neg hn

theorem rawMembers?_rawFields (fields : List (String × Value)) :
    rawMembers? (rawFields fields) = some (fields.map fun (k, v) => (k, Raw.ofValue v)) := by
  induction fields with
  | nil => rfl
  | cons field fields ih =>
    unfold rawMembers? at ih ⊢
    rw [rawFields, List.mapM_cons, ih]
    rfl

theorem lookup?_map {β : Type} (f : α → β) (name : String) (fields : List (String × α)) :
    lookup? name (fields.map fun (k, v) => (k, f v)) = (lookup? name fields).map f := by
  induction fields with
  | nil => rfl
  | cons field fields ih =>
    obtain ⟨k, v⟩ := field
    rw [List.map_cons, lookup?, lookup?, ih]
    by_cases hk : k = name
    · rw [if_pos hk, if_pos hk]
      rfl
    · rw [if_neg hk, if_neg hk]

theorem repeats_of_nodup (names : List String) {members : List (String × α)}
    (h : (members.map Prod.fst).Nodup) : Slots.repeats names members = false := by
  rw [Slots.repeats, List.any_eq_false]
  intro n _
  have hc := List.nodup_iff_count_le_one.mp h n
  rw [List.count_eq_countP, List.countP_map, List.countP_eq_length_filter] at hc
  simp only [decide_eq_true_eq, Nat.not_lt]
  exact hc

theorem slots_of_nodup (names : List String) {fields : List (String × Value)}
    (h : (fields.map Prod.fst).Nodup) :
    ∃ s, Slots.ofDocument? names (Raw.ofValue (.object fields)) = some s ∧
      ∀ name, s.get? name = (lookup? name fields).map Raw.ofValue := by
  have hm : Document.members? (Raw.ofValue (.object fields)) =
      some (fields.map fun (k, v) => (k, Raw.ofValue v)) := rawMembers?_rawFields fields
  have hk : (fields.map fun (k, v) => (k, Raw.ofValue v)).map Prod.fst = fields.map Prod.fst := by
    rw [List.map_map]
    rfl
  have hr := repeats_of_nodup names (hk ▸ h)
  refine ⟨⟨fields.map fun (k, v) => (k, Raw.ofValue v), false⟩, ?_, ?_⟩
  · rw [Slots.ofDocument?, hm]
    simp only [hr, Bool.false_eq_true, if_false]
  · intro name
    exact lookup?_map Raw.ofValue name fields

theorem slots_of_members (v : Value) (names : List String) {fields : List (String × Value)}
    (hv : v = .object fields) (hn : fields.map Prod.fst = names) (hd : names.Nodup) :
    ∃ s, Slots.ofDocument? names (Raw.ofValue v) = some s ∧
      ∀ name, s.get? name = (lookup? name fields).map Raw.ofValue := by
  rw [hv]
  exact slots_of_nodup names (hn ▸ hd)

theorem slots_of_object (v : Value) (names : List String) {fields : List (String × Option Value)}
    (hv : v = objectOf fields) (hn : fields.map Prod.fst = names) (hd : names.Nodup) :
    ∃ s, Slots.ofDocument? names (Raw.ofValue v) = some s ∧
      ∀ name, s.get? name = (member? name fields).map Raw.ofValue := by
  rw [← hn] at hd
  obtain ⟨s, hs, hg⟩ := slots_of_nodup names (hd.sublist (present_names fields))
  refine ⟨s, hv ▸ hs, ?_⟩
  intro name
  rw [hg, lookup?_present name hd]

theorem isWhole_objectOf (fields : List (String × Option Value)) :
    (objectOf fields).isWhole = fields.all fun f => f.2.all Value.isWhole := by
  change wholeFields (present fields) = _
  induction fields with
  | nil => rfl
  | cons field fields ih =>
    obtain ⟨k, v⟩ := field
    rw [List.all_cons, ← ih]
    cases v with
    | none => rfl
    | some v => rw [present, List.filterMap_cons]; rfl

theorem isWhole_map {write : α → Value} {x : Option α} (h : ∀ a ∈ x, (write a).isWhole = true) :
    (x.map write).all Value.isWhole = true := by
  cases x with
  | none => rfl
  | some a => exact h a rfl

variable {s : Slots Raw} {name : String} {read : Raw → Option α} {write : α → Value}

theorem required?_member {a : α} (h : ReadsBack write read a)
    (hg : s.get? name = some (Raw.ofValue (write a))) : s.required? name read = some a := by
  rw [Slots.required?, hg]
  exact h.reads

theorem withDefault?_member {a : α} (h : ReadsBack write read a) (fallback : α)
    (hg : s.get? name = some (Raw.ofValue (write a))) :
    s.withDefault? name fallback read = some a := by
  rw [Slots.withDefault?, hg]
  exact h.reads

theorem optional?_member {x : Option α} (h : ∀ a ∈ x, ReadsBack write read a)
    (hn : ∀ a ∈ x, Document.isNull (Raw.ofValue (write a)) = false)
    (hg : s.get? name = (x.map write).map Raw.ofValue) : s.optional? name read = some x := by
  cases x with
  | none =>
    rw [Slots.optional?, hg]
    rfl
  | some a =>
    rw [Slots.optional?, hg]
    simp only [Option.map_some, hn a rfl, (h a rfl).reads, Bool.false_eq_true, if_false]

theorem readsBack_text (s : String) : ReadsBack .string (Document.text? : Raw → _) s := ⟨rfl, rfl⟩

theorem readsBack_bool (b : Bool) : ReadsBack .bool (Document.bool? : Raw → _) b := ⟨rfl, rfl⟩

theorem readsBack_instant {t : Instant} (h : t.Proper) : ReadsBack (fun t => .string t.text)
    (fun d : Raw => (Document.text? d).bind Instant.read?) t := by
  refine ⟨rfl, ?_⟩
  simp only [(readsBack_text t.text).reads, Option.bind_some, Instant.read?_text h]

theorem readsBack_integerIn {low high n : Int} (hl : low ≤ n) (hh : n ≤ high)
    (hb : -(span63 : Int) ≤ n) (ht : n < span64) :
    ReadsBack int (Document.integerIn? low high : Raw → _) n := by
  refine ⟨rfl, ?_⟩
  have hi : Document.integer? (Raw.ofValue (int n)) = some n := integer?_ofInt hb ht
  rw [Document.integerIn?, hi, Option.bind_some]
  simp only [hl, hh, decide_true, Bool.and_self, if_true]

theorem readsBack_natBelow {bound n : Nat} (hn : n < bound) (hb : bound ≤ span64) :
    ReadsBack (fun n : Nat => int n) (Document.natBelow? bound : Raw → _) n := by
  refine ⟨rfl, ?_⟩
  have hi : Document.integer? (Raw.ofValue (int n)) = some (n : Int) :=
    integer?_ofInt (by omega) (by omega)
  rw [Document.natBelow?, hi, Option.bind_some]
  have h0 : (0 : Int) ≤ n := by omega
  have h1 : (n : Int) < bound := by omega
  simp only [h0, h1, decide_true, Bool.and_self, if_true, Int.toNat_natCast]

theorem readsBack_list {write : α → Value} {read : Raw → Option α} {as : List α}
    (h : ∀ a ∈ as, ReadsBack write read a) :
    ReadsBack (fun as => .array (as.map write)) (Document.listOf? read) as := by
  have hr : wholeItems (as.map write) = true ∧ (rawItems (as.map write)).mapM read = some as := by
    induction as with
    | nil => exact ⟨rfl, rfl⟩
    | cons a as ih =>
      obtain ⟨hw, hr⟩ := ih fun b hb => h b (List.mem_cons_of_mem _ hb)
      have ha := h a (List.mem_cons_self ..)
      rw [List.map_cons, wholeItems, rawItems, List.mapM_cons, ha.whole, ha.reads, hw, hr]
      exact ⟨rfl, rfl⟩
  exact ⟨hr.1, hr.2⟩

theorem optional?_text (x : Option String) (hg : s.get? name = (x.map .string).map Raw.ofValue) :
    s.optional? name Document.text? = some x :=
  optional?_member (fun a _ => readsBack_text a) (fun _ _ => rfl) hg

theorem optional?_bool (x : Option Bool) (hg : s.get? name = (x.map .bool).map Raw.ofValue) :
    s.optional? name Document.bool? = some x :=
  optional?_member (fun b _ => readsBack_bool b) (fun _ _ => rfl) hg

theorem optional?_instant {x : Option Instant} (h : ∀ t ∈ x, t.Proper)
    (hg : s.get? name = (x.map fun t => .string t.text).map Raw.ofValue) :
    s.optional? name (fun d => (Document.text? d).bind Instant.read?) = some x :=
  optional?_member (fun t ht => readsBack_instant (h t ht)) (fun _ _ => rfl) hg

theorem optional?_ofOption (x : Option String)
    (hg : s.get? name = some (Raw.ofValue (ofOption x))) :
    s.optional? name Document.text? = some x := by
  rw [Slots.optional?, hg]
  cases x <;> rfl

theorem whole_text (x : Option String) : (x.map Value.string).all Value.isWhole = true :=
  isWhole_map fun _ _ => rfl

theorem whole_bool (x : Option Bool) : (x.map Value.bool).all Value.isWhole = true :=
  isWhole_map fun _ _ => rfl

theorem whole_instant (x : Option Instant) :
    (x.map fun t => Value.string t.text).all Value.isWhole = true :=
  isWhole_map fun _ _ => rfl

end TopicHub.Json

namespace TopicHub

open Json

theorem Direction.readsBack (d : Direction) :
    ReadsBack (fun d => .string d.name) (Direction.ofDocument? : Raw → _) d := by
  cases d <;> exact ⟨rfl, rfl⟩

theorem TriggerCondition.readsBack (c : TriggerCondition) :
    ReadsBack (fun c => .string c.name) (TriggerCondition.ofDocument? : Raw → _) c := by
  cases c <;> exact ⟨rfl, rfl⟩

def KnownTopic.Fits (k : KnownTopic) : Prop := ∀ t ∈ k.payloadUpdatedAt, t.Proper

theorem KnownTopic.readsBack {k : KnownTopic} (h : k.Fits) :
    ReadsBack KnownTopic.toJson KnownTopic.ofDocument? k := by
  refine ⟨?_, ?_⟩
  · rw [KnownTopic.toJson, isWhole_objectOf]
    simp only [List.all_cons, whole_text, whole_bool, whole_instant]
    rfl
  · obtain ⟨s, hs, hg⟩ := slots_of_object k.toJson KnownTopic.fieldNames rfl rfl (by decide)
    unfold KnownTopic.ofDocument?
    simp only [hs, some_bind,
      withDefault?_member (readsBack_text k.namespaceName) "" (hg "namespace_name"),
      required?_member (readsBack_text k.project) (hg "project_name"),
      required?_member (readsBack_text k.topic) (hg "topic"),
      optional?_text k.description (hg "description"),
      withDefault?_member (Direction.readsBack k.direction) .unknown (hg "message_direction"),
      withDefault?_member (readsBack_bool k.keepHistory) false (hg "keep_history"),
      optional?_text k.lastPayload (hg "last_payload"),
      optional?_instant h (hg "payload_updated_at"),
      optional?_text k.sender (hg "sender"),
      optional?_bool k.retained (hg "retained"),
      optional?_bool k.allowEdit (hg "allow_edit"),
      optional?_bool k.allowDelete (hg "allow_delete"),
      optional?_text k.parentTopic (hg "parent_topic")]
    rfl

def HistoryEntry.Fits (e : HistoryEntry) : Prop := e.received.Proper

theorem HistoryEntry.readsBack {e : HistoryEntry} (h : e.Fits) :
    ReadsBack HistoryEntry.toJson HistoryEntry.ofDocument? e := by
  refine ⟨?_, ?_⟩
  · obtain ⟨_, _, payload, _⟩ := e
    cases payload <;> rfl
  · obtain ⟨s, hs, hg⟩ := slots_of_members e.toJson HistoryEntry.fieldNames rfl rfl (by decide)
    unfold HistoryEntry.ofDocument?
    simp only [hs, some_bind,
      required?_member (readsBack_text e.project) (hg "project_name"),
      required?_member (readsBack_text e.topic) (hg "topic"),
      optional?_ofOption e.payload (hg "payload"),
      required?_member (readsBack_instant h) (hg "date_received")]
    rfl

structure Rule.Fits (r : Rule) : Prop where
  priority_ge : -(span31 : Int) ≤ r.priority
  priority_le : r.priority ≤ span31 - 1
  delay_lt : r.delayMs < span64
  trigger : ∀ t ∈ r.lastTrigger, t.Proper

theorem Rule.readsBack {r : Rule} (h : r.Fits) : ReadsBack Rule.toJson Rule.ofDocument? r := by
  have h31 : span31 ≤ span63 := by decide
  have h64 : span31 ≤ span64 := by decide
  have hpl := h.priority_ge
  have hpu := h.priority_le
  have hp := readsBack_integerIn hpl hpu (by omega) (by omega)
  refine ⟨?_, ?_⟩
  · rw [Rule.toJson, isWhole_objectOf]
    simp only [List.all_cons, whole_text, whole_instant]
    rfl
  · obtain ⟨s, hs, hg⟩ := slots_of_object r.toJson Rule.fieldNames rfl rfl (by decide)
    unfold Rule.ofDocument?
    simp only [hs, some_bind,
      required?_member (readsBack_text r.id) (hg "id"),
      withDefault?_member (readsBack_text r.namespaceName) "" (hg "namespace_name"),
      required?_member (readsBack_text r.project) (hg "project_name"),
      required?_member (readsBack_text r.sourceTopic) (hg "source_topic"),
      required?_member (readsBack_text r.targetTopic) (hg "target_topic"),
      optional?_text r.expression (hg "expression"),
      optional?_text r.targetPayload (hg "target_payload"),
      withDefault?_member (TriggerCondition.readsBack r.triggerCondition) .always
        (hg "trigger_condition"),
      withDefault?_member hp defaultPriority (hg "priority"),
      withDefault?_member (readsBack_bool r.enabled) true (hg "enabled"),
      withDefault?_member (readsBack_natBelow h.delay_lt (Nat.le_refl _)) 0 (hg "delay_ms"),
      optional?_instant h.trigger (hg "last_trigger_date_time"),
      withDefault?_member (readsBack_bool r.evaluationResult) false
        (hg "expression_evaluation_result"),
      optional?_text r.evaluationProtocol (hg "expression_evaluation_protocol")]
    rfl

structure Device.Fits (m : Device) : Prop where
  boot : ∀ t ∈ m.bootTime, t.Proper
  topics : ∀ k ∈ m.knownTopics, k.Fits

theorem Device.topics_readBack {s : Slots Raw} {m : Device} (h : m.Fits)
    (hg : s.get? "known_topics" = (if m.knownTopics.isEmpty then none
      else some (.array (m.knownTopics.map KnownTopic.toJson))).map Raw.ofValue) :
    s.withDefault? "known_topics" [] (Document.listOf? KnownTopic.ofDocument?) =
      some m.knownTopics := by
  rw [Slots.withDefault?, hg]
  cases hk : m.knownTopics with
  | nil => rfl
  | cons k ks =>
    have hl := readsBack_list fun k hk => KnownTopic.readsBack (h.topics k hk)
    rw [hk] at hl
    exact hl.reads

theorem Device.readsBack {m : Device} (h : m.Fits) :
    ReadsBack Device.toJson Device.ofDocument? m := by
  have hk := readsBack_list fun k hk => KnownTopic.readsBack (h.topics k hk)
  have ht : (if m.knownTopics.isEmpty then none
      else some (.array (m.knownTopics.map KnownTopic.toJson))).all Value.isWhole = true := by
    split
    · rfl
    · exact hk.whole
  refine ⟨?_, ?_⟩
  · rw [Device.toJson, isWhole_objectOf]
    simp only [List.all_cons, whole_text, whole_bool, whole_instant, ht]
    rfl
  · obtain ⟨s, hs, hg⟩ := slots_of_object m.toJson Device.fieldNames rfl rfl (by decide)
    unfold Device.ofDocument?
    simp only [hs, some_bind,
      required?_member (readsBack_text m.macAddress) (hg "mac_address"),
      optional?_text m.ipAddress (hg "ip_address"),
      optional?_text m.ipMqttBroker (hg "ip_mqtt_broker"),
      withDefault?_member (readsBack_text m.namespaceName) "" (hg "namespace_name"),
      withDefault?_member (readsBack_text m.project) "" (hg "project_name"),
      withDefault?_member (readsBack_text m.boardType) "" (hg "board_type"),
      optional?_text m.firmwareVersion (hg "firmware_version"),
      optional?_text m.description (hg "description"),
      optional?_bool m.online (hg "online"),
      optional?_instant h.boot (hg "boot_date_time"),
      Device.topics_readBack h (hg "known_topics")]
    rfl

namespace Json

variable {α : Type} {s : Slots Raw} {name : String} {read : Raw → Option α}

theorem of_withDefault? (P : α → Prop) {fallback a : α}
    (h : s.withDefault? name fallback read = some a) (hf : P fallback)
    (hr : ∀ d a, read d = some a → P a) : P a := by
  rw [Slots.withDefault?] at h
  cases hg : s.get? name with
  | none =>
    rw [hg] at h
    exact Option.some.inj h ▸ hf
  | some d =>
    rw [hg] at h
    exact hr d a h

theorem of_optional? {x : Option α} {P : α → Prop} (h : s.optional? name read = some x)
    (hr : ∀ d a, read d = some a → P a) : ∀ a ∈ x, P a := by
  intro a ha
  subst ha
  rw [Slots.optional?] at h
  cases hg : s.get? name with
  | none =>
    rw [hg] at h
    cases h
  | some d =>
    rw [hg] at h
    dsimp only at h
    split at h
    · cases h
    · obtain ⟨b, hb, he⟩ := Option.map_eq_some_iff.mp h
      exact hr d a (Option.some.inj he ▸ hb)

theorem of_mapM {ds : List Raw} {as : List α} {P : α → Prop} (h : ds.mapM read = some as)
    (hr : ∀ d a, read d = some a → P a) : ∀ a ∈ as, P a := by
  induction ds generalizing as with
  | nil =>
    cases h
    intro a ha
    cases ha
  | cons d ds ih =>
    rw [List.mapM_cons] at h
    simp only [bind_eq_some] at h
    obtain ⟨b, hb, bs, hbs, h⟩ := h
    cases h
    intro a ha
    rcases List.mem_cons.mp ha with rfl | ha
    · exact hr d a hb
    · exact ih hbs a ha

theorem of_listOf? {d : Raw} {as : List α} {P : α → Prop}
    (h : Document.listOf? read d = some as) (hr : ∀ d a, read d = some a → P a) :
    ∀ a ∈ as, P a := by
  obtain ⟨ds, -, h⟩ := Option.bind_eq_some_iff.mp h
  exact of_mapM h hr

theorem proper_of_text (d : Raw) (t : Instant)
    (h : (Document.text? d).bind Instant.read? = some t) : t.Proper := by
  obtain ⟨text, -, ht⟩ := Option.bind_eq_some_iff.mp h
  exact Instant.proper_of_read? ht

end Json

theorem KnownTopic.fits_of_read (d : Raw) (k : KnownTopic)
    (h : KnownTopic.ofDocument? d = some k) : k.Fits := by
  unfold KnownTopic.ofDocument? at h
  simp only [bind_eq_some] at h
  obtain ⟨s, -, _, -, _, -, _, -, _, -, _, -, _, -, _, -, updated, hu, _, -, _, -, _, -, _, -, _, -, h⟩ := h
  cases h
  exact of_optional? hu proper_of_text

theorem HistoryEntry.fits_of_read (d : Raw) (e : HistoryEntry)
    (h : HistoryEntry.ofDocument? d = some e) : e.Fits := by
  unfold HistoryEntry.ofDocument? at h
  simp only [bind_eq_some] at h
  obtain ⟨s, -, _, -, _, -, _, -, received, hr, h⟩ := h
  cases h
  obtain ⟨d, -, ht⟩ := Option.bind_eq_some_iff.mp hr
  exact proper_of_text d received ht

theorem Rule.fits_of_read (d : Raw) (r : Rule) (h : Rule.ofDocument? d = some r) : r.Fits := by
  unfold Rule.ofDocument? at h
  simp only [bind_eq_some] at h
  obtain ⟨s, -, _, -, _, -, _, -, _, -, _, -, _, -, _, -, _, -, priority, hp, _, -, delay, hd,
    trigger, ht, _, -, _, -, h⟩ := h
  cases h
  have hpr : -(span31 : Int) ≤ priority ∧ priority ≤ span31 - 1 := by
    refine of_withDefault? (fun n => -(span31 : Int) ≤ n ∧ n ≤ span31 - 1) hp (by decide) ?_
    intro d n hn
    obtain ⟨m, -, hm⟩ := Option.bind_eq_some_iff.mp hn
    obtain ⟨hb, he⟩ := Option.ite_none_right_eq_some.mp hm
    cases he
    simpa using hb
  have hdl : delay < span64 := by
    refine of_withDefault? (· < span64) hd (by decide) ?_
    intro d n hn
    obtain ⟨m, -, hm⟩ := Option.bind_eq_some_iff.mp hn
    obtain ⟨hb, he⟩ := Option.ite_none_right_eq_some.mp hm
    cases he
    simp only [Bool.and_eq_true, decide_eq_true_eq] at hb
    omega
  exact ⟨hpr.1, hpr.2, hdl, of_optional? ht proper_of_text⟩

theorem Device.fits_of_read (d : Raw) (m : Device) (h : Device.ofDocument? d = some m) :
    m.Fits := by
  unfold Device.ofDocument? at h
  simp only [bind_eq_some] at h
  obtain ⟨s, -, _, -, _, -, _, -, _, -, _, -, _, -, _, -, _, -, _, -, boot, hb, topics, ht, h⟩ := h
  cases h
  refine ⟨of_optional? hb proper_of_text, of_withDefault? (∀ k ∈ ·, k.Fits) ht ?_ ?_⟩
  · intro k hk
    cases hk
  · intro d ks hks
    exact of_listOf? hks KnownTopic.fits_of_read

def RecordFile.document {α : Type} (f : RecordFile α) (records : List α) : Value :=
  .object [
    ("version", int version),
    ("minor_version", int minorVersion),
    ("key", .string f.name),
    ("data", .object [(f.listName, .array (records.map f.toJson))])]

/-- A file of records says again what was written into it. -/
theorem RecordFile.read_text {α : Type} (f : RecordFile α) {records : List α}
    (h : ∀ a ∈ records, ReadsBack f.toJson f.ofRaw? a) : f.read (f.text records) = .ok records := by
  have hl := readsBack_list h
  have hw : (f.document records).isWhole = true := by
    have hi : wholeItems (records.map f.toJson) = true := hl.whole
    simp only [document, Value.isWhole, wholeFields, hi, int, Bool.and_self]
  have hr : Raw.read? (f.text records) = some (Raw.ofValue (f.document records)) := read?_pretty hw
  obtain ⟨s, hs, hg⟩ := slots_of_members (f.document records)
    ["version", "minor_version", "key", "data"] rfl rfl (by decide)
  obtain ⟨t, ht, hd⟩ := slots_of_members (.object [(f.listName, .array (records.map f.toJson))])
    [f.listName] rfl rfl (List.nodup_singleton _)
  have hlist : t.required? f.listName (Document.listOf? f.ofRaw?) = some records := by
    apply required?_member hl
    rw [hd, lookup?, if_pos rfl]
    rfl
  have hv : s.required? "version" (Document.natBelow? span32) = some version :=
    required?_member (readsBack_natBelow (by decide) (by decide)) (hg "version")
  have hm : s.required? "minor_version" (Document.natBelow? span32) = some minorVersion :=
    required?_member (readsBack_natBelow (by decide) (by decide)) (hg "minor_version")
  have hk : s.required? "key" Document.text? = some f.name :=
    required?_member (readsBack_text f.name) (hg "key")
  have hdata : (s.required? "data" fun data => do
      let t ← Slots.ofDocument? [f.listName] data
      t.required? f.listName (Document.listOf? f.ofRaw?)) = some records := by
    rw [Slots.required?, hg "data"]
    refine (congrArg (Option.bind · _) ht).trans ?_
    rw [Option.bind_some, hlist]
  have hc : f.content? (f.text records) = some (version, records) := by
    unfold content?
    simp only [hr, hs, some_bind, hv, hm, hk, hdata]
    rfl
  rw [read, hc]
  rfl

theorem RecordFile.of_read {α : Type} {f : RecordFile α} {text : String} {records : List α}
    {P : α → Prop} (h : f.read text = .ok records) (hr : ∀ d a, f.ofRaw? d = some a → P a) :
    ∀ a ∈ records, P a := by
  unfold read at h
  split at h
  · cases h
  · rename_i found rs hc
    split at h
    · cases h
      unfold content? at hc
      simp only [bind_eq_some] at hc
      obtain ⟨_, -, s, -, _, -, _, -, _, -, rs, hd, hc⟩ := hc
      cases hc
      obtain ⟨data, -, hd⟩ := Option.bind_eq_some_iff.mp hd
      obtain ⟨t, -, hl⟩ := bind_eq_some.mp hd
      obtain ⟨d, -, hl⟩ := Option.bind_eq_some_iff.mp hl
      exact of_listOf? hl hr
    · cases h

end TopicHub
