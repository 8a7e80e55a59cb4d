import TopicHub.Proofs.Configuration.RelativeInclusion

/-!
What loading leaves behind. Whatever comes of loading a file, the files that are being loaded are the same
as before, also when it fails deep within other files. A value that was loaded has no tag of the hub in it,
at any depth. All other tags stay, and so does everything around a tag that is replaced.
-/

namespace TopicHub

open Yaml (Value)

namespace Yaml.Value

/-- A tag in front of a value, or of something in it: an item, a key, or the value of a key. -/
inductive Carries (tag : String) : Value → Prop
  | here {v : Value} : Carries tag (.tagged tag v)
  | within {other : String} {v : Value} : Carries tag v → Carries tag (.tagged other v)
  | item {items : List Value} {v : Value} : v ∈ items → Carries tag v → Carries tag (.sequence items)
  | key {entries : List (Value × Value)} {e : Value × Value} :
    e ∈ entries → Carries tag e.1 → Carries tag (.mapping entries)
  | entry {entries : List (Value × Value)} {e : Value × Value} :
    e ∈ entries → Carries tag e.2 → Carries tag (.mapping entries)

/-- The tags that are replaced. -/
def hubTags : List String := ["include", "include_dir_merge_list", "secret", "env_var"]

/-- No tag of the hub is left in a value. -/
def Resolved (v : Value) : Prop := ∀ tag ∈ hubTags, ¬ Carries tag v

theorem resolved_tagged {tag : String} {v : Value} (ht : tag ∉ hubTags) (h : Resolved v) :
    Resolved (.tagged tag v) := by
  intro hub hm hc
  cases hc with
  | here => exact ht hm
  | within hc => exact h hub hm hc

theorem resolved_sequence {items : List Value} (h : ∀ v ∈ items, Resolved v) :
    Resolved (.sequence items) := by
  intro hub hm hc
  cases hc with
  | item hv hc => exact h _ hv hub hm hc

theorem Resolved.of_mem {items : List Value} (h : Resolved (.sequence items)) {v : Value}
    (hv : v ∈ items) : Resolved v := fun hub hm hc => h hub hm (.item hv hc)

theorem resolved_mapping {entries : List (Value × Value)}
    (h : ∀ e ∈ entries, Resolved e.1 ∧ Resolved e.2) : Resolved (.mapping entries) := by
  intro hub hm hc
  cases hc with
  | key he hc => exact (h _ he).1 hub hm hc
  | entry he hc => exact (h _ he).2 hub hm hc

theorem resolved_null : Resolved .null := fun _ _ => nofun

theorem resolved_string (s : String) : Resolved (.string s) := fun _ _ => nofun

theorem mem_setEntry {P Q : Value → Prop} {k v : Value} {entries : List (Value × Value)}
    (hk : P k) (hv : Q v) (h : ∀ e ∈ entries, P e.1 ∧ Q e.2) :
    ∀ e ∈ setEntry k v entries, P e.1 ∧ Q e.2 := by
  induction entries with
  | nil => exact List.forall_mem_singleton.mpr ⟨hk, hv⟩
  | cons first rest ih =>
    obtain ⟨hfirst, hrest⟩ := List.forall_mem_cons.mp h
    rw [setEntry]
    split
    · exact List.forall_mem_cons.mpr ⟨⟨hfirst.1, hv⟩, hrest⟩
    · exact List.forall_mem_cons.mpr ⟨hfirst, ih hrest⟩

def enter (done entries : List (Value × Value)) : List (Value × Value) :=
  entries.foldl (fun done e => setEntry e.1 e.2 done) done

mutual
/-- A value and one that it may become: something resolved stands for each tag of the hub, and all else
stays. Keys that become the same are one entry. -/
def Becomes : Value → Value → Prop
  | .tagged tag v, u => if tag ∈ hubTags then Resolved u else ∃ v', u = .tagged tag v' ∧ Becomes v v'
  | .sequence items, u => ∃ items', u = .sequence items' ∧ ItemsBecome items items'
  | .mapping entries, u =>
    ∃ entries', u = .mapping (enter [] entries') ∧ EntriesBecome entries entries'
  | v, u => u = v

def ItemsBecome : List Value → List Value → Prop
  | [], us => us = []
  | v :: rest, us => ∃ v' rest', us = v' :: rest' ∧ Becomes v v' ∧ ItemsBecome rest rest'

def EntriesBecome : List (Value × Value) → List (Value × Value) → Prop
  | [], es => es = []
  | (k, v) :: rest, es => ∃ k' v' rest', es = (k', v') :: rest' ∧ Becomes k k' ∧ Becomes v v' ∧
    EntriesBecome rest rest'
end

theorem becomes_hub {tag : String} {v u : Value} (ht : tag ∈ hubTags) (hu : Resolved u) :
    Becomes (.tagged tag v) u := by
  rw [Becomes, if_pos ht]
  exact hu

theorem becomes_kept {tag : String} {v u : Value} (ht : tag ∉ hubTags) (h : Becomes v u) :
    Becomes (.tagged tag v) (.tagged tag u) := by
  rw [Becomes, if_neg ht]
  exact ⟨u, rfl, h⟩

theorem enter_resolved {entries done : List (Value × Value)}
    (hd : ∀ e ∈ done, Resolved e.1 ∧ Resolved e.2) (h : ∀ e ∈ entries, Resolved e.1 ∧ Resolved e.2) :
    ∀ e ∈ enter done entries, Resolved e.1 ∧ Resolved e.2 := by
  induction entries generalizing done with
  | nil => exact hd
  | cons e entries ih =>
    obtain ⟨he, hrest⟩ := List.forall_mem_cons.mp h
    exact ih (mem_setEntry he.1 he.2 hd) hrest

mutual
theorem Becomes.resolved : ∀ {v u : Value}, Becomes v u → Resolved u
  | .tagged tag v, u, h => by
    rw [Becomes] at h
    split at h
    · exact h
    · rename_i ht
      obtain ⟨v', rfl, h⟩ := h
      exact resolved_tagged ht h.resolved
  | .sequence items, u, h => by
    obtain ⟨items', rfl, h⟩ := h
    exact resolved_sequence h.resolved
  | .mapping entries, u, h => by
    obtain ⟨entries', rfl, h⟩ := h
    exact resolved_mapping (enter_resolved nofun h.resolved)
  | .null, u, h => by
    cases h
    exact resolved_null
  | .bool _, u, h => by
    cases h
    exact fun _ _ => nofun
  | .number _, u, h => by
    cases h
    exact fun _ _ => nofun
  | .string s, u, h => by
    cases h
    exact resolved_string s

theorem ItemsBecome.resolved : ∀ {vs us : List Value}, ItemsBecome vs us → ∀ u ∈ us, Resolved u
  | [], us, h => by
    cases h
    exact nofun
  | v :: rest, us, h => by
    obtain ⟨v', rest', rfl, hv, hrest⟩ := h
    exact List.forall_mem_cons.mpr ⟨hv.resolved, hrest.resolved⟩

theorem EntriesBecome.resolved : ∀ {vs es : List (Value × Value)}, EntriesBecome vs es →
    ∀ e ∈ es, Resolved e.1 ∧ Resolved e.2
  | [], es, h => by
    cases h
    exact nofun
  | (k, v) :: rest, es, h => by
    obtain ⟨k', v', rest', rfl, hk, hv, hrest⟩ := h
    exact List.forall_mem_cons.mpr ⟨⟨hk.resolved, hv.resolved⟩, hrest.resolved⟩
end

end Yaml.Value

namespace LoadM

variable {α β : Type}

/-- Whatever comes of an action, the files that are being loaded are those from before, and a result has a
property. -/
structure Settles (x : LoadM α) (P : α → Prop) : Prop where
  restores : ∀ loading, (x.run loading).2 = loading
  result : ∀ loading a, x.answer loading = .ok a → P a

variable {x : LoadM α} {f : α → LoadM β} {P : α → Prop} {Q : β → Prop}

theorem settles_pure {a : α} (h : P a) : Settles (pure a) P where
  restores _ := rfl
  result _ b hb := by
    cases hb
    exact h

theorem settles_error (e : ConfigurationError) (P : α → Prop) : Settles (throw e : LoadM α) P where
  restores _ := rfl
  result _ _ := nofun

theorem settles_lift {r : Except ConfigurationError α} (h : ∀ a, r = .ok a → P a) :
    Settles (liftM r : LoadM α) P := by
  cases r with
  | error e => exact settles_error e P
  | ok a => exact settles_pure (h a rfl)

theorem Settles.bind (hx : Settles x P) (hf : ∀ a, P a → Settles (f a) Q) : Settles (x >>= f) Q := by
  have hcases : ∀ loading, (∃ e, (x >>= f).run loading = (.error e, loading)) ∨
      ∃ a, P a ∧ (x >>= f).run loading = (f a).run loading := by
    intro loading
    have hrun : x.run loading = (x.answer loading, loading) := Prod.ext rfl (hx.restores loading)
    cases ha : x.answer loading with
    | error e => exact Or.inl ⟨e, run_bind_error f (ha ▸ hrun)⟩
    | ok a => exact Or.inr ⟨a, hx.result loading a ha, run_bind_ok f (ha ▸ hrun)⟩
  refine ⟨fun loading => ?_, fun loading b hb => ?_⟩
  · rcases hcases loading with ⟨e, he⟩ | ⟨a, ha, hrun⟩
    · rw [he]
    · rw [hrun]
      exact (hf a ha).restores loading
  · rw [answer] at hb
    rcases hcases loading with ⟨e, he⟩ | ⟨a, ha, hrun⟩
    · rw [he] at hb
      cases hb
    · rw [hrun] at hb
      exact (hf a ha).result loading b hb

theorem Settles.mono {R : α → Prop} (hx : Settles x P) (h : ∀ a, P a → R a) : Settles x R :=
  ⟨hx.restores, fun loading a ha => h a (hx.result loading a ha)⟩

theorem Settles.map (hx : Settles x P) {g : α → β} (hg : ∀ a, P a → Q (g a)) :
    Settles (x >>= fun a => pure (g a)) Q := hx.bind fun a ha => settles_pure (hg a ha)

theorem settles_mapM {g : α → LoadM β} (h : ∀ a, Settles (g a) Q) (as : List α) :
    Settles (as.mapM g) fun bs => ∀ b ∈ bs, Q b := by
  induction as with
  | nil => exact settles_pure nofun
  | cons a as ih =>
    rw [List.mapM_cons]
    exact (h a).bind fun b hb => ih.map fun bs hbs => List.forall_mem_cons.mpr ⟨hb, hbs⟩

open Yaml.Value (hubTags Resolved Becomes ItemsBecome EntriesBecome becomes_hub becomes_kept)

structure Resolving (tags : Tags LoadM) : Prop where
  file : ∀ v, Settles (tags.file v) Resolved
  files : ∀ v, Settles (tags.files v) Resolved
  secret : ∀ v, Settles (tags.secret v) Resolved
  environment : ∀ v, Settles (tags.environment v) Resolved

theorem Settles.hub {tag : String} {v : Value} {y : LoadM Value} (h : Settles y Resolved)
    (ht : tag ∈ hubTags) : Settles y (Becomes (.tagged tag v)) :=
  h.mono fun _ hu => becomes_hub ht hu

mutual
theorem settles_replace {tags : Tags LoadM} (h : Resolving tags) :
    ∀ v, Settles (tags.replace v) (Becomes v)
  | .tagged tag v => by
    rw [Tags.replace]
    split
    · rename_i ht
      exact (h.file v).hub (ht ▸ by decide)
    · split
      · rename_i ht
        exact (h.files v).hub (ht ▸ by decide)
      · split
        · rename_i ht
          exact (h.secret v).hub (ht ▸ by decide)
        · split
          · rename_i ht
            exact (h.environment v).hub (ht ▸ by decide)
          · have hkept : tag ∉ hubTags := by
              simp only [hubTags, List.mem_cons, List.not_mem_nil, or_false]
              tauto
            exact (settles_replace h v).map fun u hu => becomes_kept hkept hu
  | .sequence items => by
    rw [Tags.replace]
    exact (settles_replaceItems h items).map fun us hus => ⟨us, rfl, hus⟩
  | .mapping entries => by
    rw [Tags.replace]
    refine (settles_replaceEntries h entries []).map fun es hes => ?_
    obtain ⟨es', rfl, hes⟩ := hes
    exact ⟨es', rfl, hes⟩
  | .null => settles_pure rfl
  | .bool _ => settles_pure rfl
  | .number _ => settles_pure rfl
  | .string _ => settles_pure rfl

theorem settles_replaceItems {tags : Tags LoadM} (h : Resolving tags) :
    ∀ items, Settles (tags.replaceItems items) (ItemsBecome items)
  | [] => settles_pure rfl
  | v :: rest => by
    rw [Tags.replaceItems]
    refine (settles_replace h v).bind fun u hu => ?_
    exact (settles_replaceItems h rest).map fun us hus => ⟨u, us, rfl, hu, hus⟩

theorem settles_replaceEntries {tags : Tags LoadM} (h : Resolving tags) :
    ∀ entries done, Settles (tags.replaceEntries entries done) fun out =>
      ∃ es, out = Value.enter done es ∧ EntriesBecome entries es
  | [], done => settles_pure ⟨[], rfl, rfl⟩
  | (k, v) :: rest, done => by
    rw [Tags.replaceEntries]
    refine (settles_replace h k).bind fun k' hk => ?_
    refine (settles_replace h v).bind fun v' hv => ?_
    refine (settles_replaceEntries h rest (Value.setEntry k' v' done)).mono fun out hout => ?_
    obtain ⟨es, rfl, hes⟩ := hout
    exact ⟨(k', v') :: es, rfl, k', v', es, rfl, hk, hv, hes⟩
end

end LoadM

namespace Workspace

open Yaml.Value (Resolved resolved_sequence resolved_string)
open LoadM

variable (w : Workspace)

theorem exists_of_bind_ok {ε α β : Type} {x : Except ε α} {f : α → Except ε β} {b : β}
    (h : (x >>= f) = .ok b) : ∃ a, f a = .ok b := by
  cases x with
  | error e => cases h
  | ok a => exact ⟨a, h⟩

theorem secretFor_resolved {v u : Value} (h : w.secretFor v = .ok u) : Resolved u := by
  rw [secretFor] at h
  obtain ⟨key, h⟩ := exists_of_bind_ok h
  obtain ⟨text, h⟩ := exists_of_bind_ok h
  cases h
  exact resolved_string text

theorem variableFor_resolved {v u : Value} (h : w.variableFor v = .ok u) : Resolved u := by
  rw [variableFor] at h
  obtain ⟨name, h⟩ := exists_of_bind_ok h
  split at h
  · cases h
    exact resolved_string _
  · cases h

theorem listed_resolved {v : Value} (h : Resolved v) : ∀ u ∈ listed v, Resolved u := by
  intro u hu
  cases v with
  | sequence items => exact h.of_mem hu
  | null => cases hu
  | _ => exact List.mem_singleton.mp hu ▸ h

variable {w} {load : FilePath → LoadM Value} (hl : ∀ q, Settles (load q) Resolved)

include hl

theorem settles_mergedList (directory : FilePath) : Settles (w.mergedList load directory) Resolved := by
  unfold mergedList
  refine (settles_lift fun _ _ => trivial).bind fun files _ => ?_
  refine (settles_mapM hl files).map fun contents hc => resolved_sequence fun u hu => ?_
  obtain ⟨v, hv, hu⟩ := List.mem_flatMap.mp hu
  exact listed_resolved (hc v hv) u hu

theorem resolving_loadedTags (source : FilePath) : Resolving (w.loadedTags load source) where
  file _ := (settles_lift fun _ _ => trivial).bind fun q _ => hl q
  files _ := (settles_lift fun _ _ => trivial).bind fun d _ => settles_mergedList hl d
  secret _ := settles_lift fun _ => w.secretFor_resolved
  environment _ := settles_lift fun _ => w.variableFor_resolved

theorem settles_resolve (source : FilePath) (v : Value) :
    Settles (w.resolve load source v) v.Becomes := by
  rw [resolve_eq]
  exact settles_replace (resolving_loadedTags hl source) v

theorem settles_loadText (source : FilePath) (content : String) :
    Settles (w.loadText load source content) fun u =>
      ∃ v, Value.ofText? content = some v ∧ v.Becomes u := by
  unfold loadText
  cases Value.ofText? content with
  | none => exact settles_error _ _
  | some v => exact (settles_resolve hl source v).mono fun u hu => ⟨v, rfl, hu⟩

omit hl

def Tells (w : Workspace) (p : FilePath) (u : Value) : Prop :=
  ∃ content v, w.tree.read? p = some content ∧ Value.ofText? content = some v ∧ v.Becomes u

theorem Tells.resolved {p : FilePath} {u : Value} (h : w.Tells p u) : Resolved u := by
  obtain ⟨content, v, -, -, hb⟩ := h
  exact hb.resolved

theorem settles_loadWithin (w : Workspace) (depth : Nat) (p : FilePath) :
    Settles (w.loadWithin depth p) (w.Tells (w.directory.join p)) := by
  -- A file that is opened is not yet among those being loaded, and it is taken out again whatever came
  -- of its tags.
  induction depth generalizing p with
  | zero =>
    rw [loadWithin]
    exact settles_error _ _
  | succ depth ih =>
    have hl (q : FilePath) : Settles (w.loadWithin depth q) Resolved := (ih q).mono fun _ => Tells.resolved
    refine ⟨fun loading => ?_, fun loading u hu => ?_⟩
    · rw [run_loadWithin]
      dsimp only
      split
      · rfl
      · rename_i hn
        split
        · rfl
        · rename_i content hr
          rw [run_whileLoading, (settles_loadText hl _ content).restores,
            release_cons (Bool.eq_false_iff.mpr hn)]
    · rcases w.answerWithin_cases depth loading p with ⟨-, he⟩ | he | he | ⟨content, v, hn, hr, hv⟩
      · cases he.symm.trans hu
      · cases he.symm.trans hu
      · cases he.symm.trans hu
      · have ha : w.answerWithin (depth + 1) loading p = _ := answerWithin_resolve hn hr hv
        exact ⟨content, v, hr, hv, (settles_resolve hl _ v).result _ u (ha.symm.trans hu)⟩

/-- A file is loaded while others are being loaded, with room for so many more. Whether that succeeds or
fails, the files being loaded are afterwards those from before. A value that is loaded has no tag of the
hub in it, and it is what the file says with all else in its place. -/
theorem load_restores_and_resolves (w : Workspace) (depth : Nat) (p : FilePath)
    (loading : List FilePath) :
    let run := (w.loadWithin depth p).run loading
    run.2 = loading ∧ ∀ u, run.1 = .ok u →
      (∀ tag ∈ Value.hubTags, ¬ u.Carries tag) ∧
      ∃ content v, w.tree.read? (w.directory.join p) = some content ∧
        Value.ofText? content = some v ∧ v.Becomes u := by
  have h := w.settles_loadWithin depth p
  refine ⟨h.restores loading, fun u hu => ?_⟩
  have ht := h.result loading u hu
  exact ⟨ht.resolved, ht⟩

def lampRoom (lamp : String) : Workspace where
  tree :=
    { files :=
        [(["hub", "configuration.yaml"], "!room [!include lamp.yaml, !secret key]\n"),
          (["hub", "lamp.yaml"], lamp)]
      directories := []
      workingDirectory := [] }
  directory := .ofText "/hub"
  secrets := Table.empty.insert "key" "1234"
  environment _ := none

/-- The room is loaded while a house is, and once more with a lamp that fails. -/
theorem room_kept_around_lamp :
    let house : FilePath := .ofText "/hub/house.yaml"
    let run (lamp : String) := ((lampRoom lamp).loadWithin 2 (.ofText "configuration.yaml")).run [house]
    let room : Value := .tagged "room" (.sequence [.string "on", .string "1234"])
    run "!env_var LAMP\n" = (.error (.variableNotFound "LAMP"), [house]) ∧
      ∃ u, run "on\n" = (.ok u, [house]) ∧ room.same u = true ∧
        ∀ tag ∈ Value.hubTags, ¬ u.Carries tag := by
  intro house run room
  have hload (lamp : String) : (run lamp).2 = [house] ∧ ∀ u, (run lamp).1 = .ok u →
      ∀ tag ∈ Value.hubTags, ¬ u.Carries tag := by
    obtain ⟨hrestored, hresolved⟩ :=
      load_restores_and_resolves (lampRoom lamp) 2 (.ofText "configuration.yaml") [house]
    exact ⟨hrestored, fun u hu => (hresolved u hu).1⟩
  have hfails : (run "!env_var LAMP\n").1 = .error (.variableNotFound "LAMP") := by
    apply error_of_failure?
    decide +kernel
  have hroom : (run "on\n").1.toOption.any room.same = true := by decide +kernel
  refine ⟨Prod.ext hfails (hload _).1, ?_⟩
  cases hu : (run "on\n").1 with
  | error e =>
    rw [hu] at hroom
    cases hroom
  | ok u =>
    rw [hu] at hroom
    exact ⟨u, Prod.ext hu (hload _).1, hroom, (hload _).2 u hu⟩

end Workspace

end TopicHub
