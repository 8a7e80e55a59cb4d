import TopicHub.Proofs.Router.Tracking

/-!
The known topics stand in for the memory. They have the last payload of every topic that messages were
routed to, so that it makes no difference to a name whether the memory still has its topic. The names of
the message whose rules have their turns are an exception: the known topics have noticed it already, and
the memory has not.
-/

namespace TopicHub

def KnownTopic.names (k : KnownTopic) : List String := [k.topic, k.address]

def KnownTopic.Apart (a b : KnownTopic) : Prop := ∀ name ∈ a.names, name ∉ b.names

instance (a b : KnownTopic) : Decidable (a.Apart b) :=
  inferInstanceAs (Decidable (∀ name ∈ a.names, name ∉ b.names))

instance : Std.Symm KnownTopic.Apart := ⟨fun _ _ h name hb ha => h name ha hb⟩

/-- No name is one of two known topics. -/
def Unambiguous (known : List KnownTopic) : Prop := known.Pairwise KnownTopic.Apart

instance (known : List KnownTopic) : Decidable (Unambiguous known) :=
  inferInstanceAs (Decidable (known.Pairwise KnownTopic.Apart))

theorem Unambiguous.eq_of_name {known : List KnownTopic} (h : Unambiguous known) {a b : KnownTopic}
    (ha : a ∈ known) (hb : b ∈ known) {name : String} (hna : name ∈ a.names) (hnb : name ∈ b.names) :
    a = b := by
  by_contra hne
  exact List.Pairwise.forall h ha hb hne name hna hnb

theorem Store.findKnownTopic?_name {s : Store} (h : Unambiguous s.knownTopics.values) {k : KnownTopic}
    (hk : k ∈ s.knownTopics.values) {name : String} (hn : name ∈ k.names) :
    s.findKnownTopic? name = some k := by
  unfold findKnownTopic?
  cases hf : s.knownTopics.values.find? fun other => other.address = name with
  | some other =>
    have hfound := List.find?_some hf
    have ha : other.address = name := of_decide_eq_true hfound
    have hname : name ∈ other.names := by simp [KnownTopic.names, ha]
    exact congrArg some (h.eq_of_name (List.mem_of_find?_eq_some hf) hk hname hn)
  | none =>
    dsimp only
    cases hg : s.knownTopics.values.find? fun other => other.topic = name with
    | some other =>
      have hfound := List.find?_some hg
      have ht : other.topic = name := of_decide_eq_true hfound
      have hname : name ∈ other.names := by simp [KnownTopic.names, ht]
      exact congrArg some (h.eq_of_name (List.mem_of_find?_eq_some hg) hk hname hn)
    | none =>
      have ha := List.find?_eq_none.mp hf k hk
      have ht := List.find?_eq_none.mp hg k hk
      simp only [decide_eq_true_eq] at ha ht
      simp only [KnownTopic.names, List.mem_cons, List.not_mem_nil, or_false] at hn
      rcases hn with hn | hn
      · exact absurd hn.symm ht
      · exact absurd hn.symm ha

namespace RecentCache

theorem of_lookup? {c : RecentCache} {name payload : String} (h : c.lookup? name = some payload) :
    ∃ x ∈ c.entries, x.payload = payload ∧ (x.topic = name ∨ x.address = name) := by
  unfold lookup? at h
  cases ht : c.entry? name with
  | some x =>
    rw [ht] at h
    obtain ⟨hx, hn⟩ := of_entry? ht
    exact ⟨x, hx, Option.some.inj h, Or.inl hn⟩
  | none =>
    rw [ht] at h
    obtain ⟨x, hx, hp⟩ := Option.map_eq_some_iff.mp h
    unfold byAddress? at hx
    have hfound := List.find?_some hx
    exact ⟨x, List.mem_of_find?_eq_some hx, hp, Or.inr (of_decide_eq_true hfound)⟩

theorem of_mem_putAll {capacity : Nat} {puts : List Entry} {x : Entry}
    (hx : x ∈ ((new capacity).putAll puts).entries) :
    (∃ latest, puts.findRev? (·.topic = x.topic) = some latest ∧ x.payload = latest.payload) ∧
      ∃ first ∈ puts, first.topic = x.topic ∧ first.address = x.address := by
  obtain ⟨answers, hi⟩ := exists_invariant capacity puts
  obtain ⟨latest, earlier, hs, hl, hk⟩ := hi.kept x hx
  obtain ⟨first, hfirst, hf⟩ := Entry.exists_kept_address latest earlier
  obtain ⟨ht, a, ha, rfl⟩ := of_mem_stay (hs ▸ hfirst)
  refine ⟨⟨latest, hl, ?_⟩, a.1, hi.logged a ha, ht, ?_⟩
  · rw [hk, Entry.kept_payload]
  · rw [← hf, ← hk]

end RecentCache

namespace Router

/-- A message of that namespace and project, to a topic that is known. -/
structure OnKnown (known : List KnownTopic) (space project : String) (e : Entry) : Prop where
  space_eq : e.namespaceName = space
  project_eq : e.project = project
  known : ∃ k ∈ known, k.project = project ∧ k.topic = e.topic

/-- Names whose payload may depend on what the memory holds while the rules of a message have their
turns: the two names of the message, and the addresses of messages whose topics are known in another
namespace. -/
def Unsettled (known : List KnownTopic) (space project topic name : String) : Prop :=
  name = topic ∨ name = fullTopic space project topic ∨
    ∃ k ∈ known, k.project = project ∧ k.namespaceName ≠ space ∧ name = fullTopic space project k.topic

theorem names_tracked (routed : List Entry) (k : KnownTopic) : (tracked routed k).names = k.names := by
  have h := likeness_tracked routed k
  unfold KnownTopic.names KnownTopic.address
  rw [h.namespaceName, h.project, h.topic]

theorem unambiguous_tracked {known : List KnownTopic} (h : Unambiguous known) (routed : List Entry) :
    Unambiguous (known.map (tracked routed)) := by
  apply List.pairwise_map.mpr
  simp only [KnownTopic.Apart, names_tracked]
  exact h

/-- Any other name is looked up as if the memory were empty. -/
theorem lastPayload?_settled {known : Table KnownTopic} {space project name : String}
    {routed : List Entry} {e : Entry} {s : Store} (hu : Unambiguous known.values)
    (hr : ∀ x ∈ routed, OnKnown known.values space project x) (hf : .findKnownTopic ∉ s.outages)
    (hs : s.knownTopics = known.map (tracked (routed ++ [e])))
    (hn : ¬ Unsettled known.values space project e.topic name) (capacity : Nat) :
    lastPayload? ((RecentCache.new capacity).putAll routed) s name = s.lastPayload? name := by
  unfold lastPayload?
  cases hl : ((RecentCache.new capacity).putAll routed).lookup? name with
  | none => rfl
  | some payload =>
    obtain ⟨x, hx, rfl, hname⟩ := RecentCache.of_lookup? hl
    obtain ⟨⟨latest, hlast, hpayload⟩, first, hfirst, htopic, haddress⟩ := RecentCache.of_mem_putAll hx
    obtain ⟨hspace, hproject, k, hk, hkp, hkt⟩ := hr first hfirst
    have hxt : k.topic = x.topic := hkt.trans htopic
    have hxa : x.address = fullTopic space project k.topic := by
      rw [← haddress, hkt, ← hspace, ← hproject]
      rfl
    -- The message itself goes to another topic.
    have hother : concerns k e ≠ true := by
      intro hc
      rw [hxa, ← hxt, (of_concerns hc).2] at hname
      exact hn (hname.imp Eq.symm fun ha => Or.inl ha.symm)
    have hnamed : name ∈ k.names := by
      rw [hxa, ← hxt] at hname
      simp only [KnownTopic.names, List.mem_cons, List.not_mem_nil, or_false]
      rcases hname with ht | ha
      · exact Or.inl ht.symm
      · right
        have hspace : k.namespaceName = space := by
          by_contra hne
          exact hn (Or.inr (Or.inr ⟨k, hk, hkp, hne, ha.symm⟩))
        rw [← ha, KnownTopic.address, hspace, hkp]
    have hvalues : s.knownTopics.values = known.values.map (tracked (routed ++ [e])) := by
      rw [hs, Table.values_map]
    have hfound : s.findKnownTopic? name = some (tracked (routed ++ [e]) k) := by
      apply Store.findKnownTopic?_name
      · rw [hvalues]
        exact unambiguous_tracked hu _
      · rw [hvalues]
        exact List.mem_map_of_mem hk
      · rw [names_tracked]
        exact hnamed
    have hown : routed.findRev? (concerns k) = some latest := by
      refine Ends.findRev?_of_imp ?_ hlast ?_
      · intro y _ hc
        exact decide_eq_true ((of_concerns hc).2.symm.trans hxt)
      · obtain ⟨hm, ht⟩ := Ends.of_findRev? hlast
        have hlt : latest.topic = x.topic := of_decide_eq_true ht
        simp [concerns, hkp, (hr latest hm).project_eq, hxt, hlt]
    unfold Store.lastPayload?
    rw [if_neg hf, hfound, Option.bind_some, lastPayload_tracked, Ends.findRev?_concat,
      if_neg hother, hown, hpayload]
    rfl

end Router

end TopicHub
