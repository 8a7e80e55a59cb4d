import Mathlib.Data.List.Forall2
import Mathlib.Data.List.Perm.Subperm
import TopicHub.Configuration.Inclusion
import TopicHub.Proofs.Configuration.Lookup

/-!
What a file asks for while it is loaded. The tags of a value are replaced in an order that does not
depend on what they are replaced by, so that two ways to replace them can be compared tag by tag. One
way only notes which files would be loaded: a file is loaded iff all of these are, and otherwise the
first that is not says why.
-/

namespace TopicHub

open Yaml (Value)

/-- What the tags of the hub are replaced by. -/
structure Tags (m : Type → Type) where
  file : Value → m Value
  files : Value → m Value
  secret : Value → m Value
  environment : Value → m Value

namespace Tags

variable {m n : Type → Type} [Monad m] [Monad n]

mutual
def replace (tags : Tags m) : Value → m Value
  | .tagged tag v =>
    if tag = "include" then tags.file v
    else if tag = "include_dir_merge_list" then tags.files v
    else if tag = "secret" then tags.secret v
    else if tag = "env_var" then tags.environment v
    else return .tagged tag (← replace tags v)
  | .sequence items => return .sequence (← replaceItems tags items)
  | .mapping entries => return .mapping (← replaceEntries tags entries [])
  | v => pure v

def replaceItems (tags : Tags m) : List Value → m (List Value)
  | [] => pure []
  | v :: rest => do
    let v ← replace tags v
    return v :: (← replaceItems tags rest)

def replaceEntries (tags : Tags m) :
    List (Value × Value) → (done : List (Value × Value)) → m (List (Value × Value))
  | [], done => pure done
  | (k, v) :: rest, done => do
    let k ← replace tags k
    let v ← replace tags v
    replaceEntries tags rest (Value.setEntry k v done)
end

end Tags

/-- A relation between two kinds of runs that sequences of steps keep. If it is exact, related runs
yield equal values. -/
structure Simulation (m n : Type → Type) [Monad m] [Monad n] where
  rel : {α : Type} → m α → n α → Prop
  exact : Prop
  pure_rel : ∀ {α : Type} {a b : α}, (exact → a = b) → rel (pure a) (pure b)
  bind_rel : ∀ {α β : Type} {x : m α} {y : n α} {f : α → m β} {g : α → n β},
    rel x y → (∀ a b, (exact → a = b) → rel (f a) (g b)) → rel (x >>= f) (y >>= g)

namespace Simulation

variable {m n : Type → Type} [Monad m] [Monad n] (r : Simulation m n)

structure OnTags (s : Tags m) (t : Tags n) : Prop where
  file : ∀ v, r.rel (s.file v) (t.file v)
  files : ∀ v, r.rel (s.files v) (t.files v)
  secret : ∀ v, r.rel (s.secret v) (t.secret v)
  environment : ∀ v, r.rel (s.environment v) (t.environment v)

variable {r} {s : Tags m} {t : Tags n}

theorem map_rel {α β : Type} {x : m α} {y : n α} (f : α → β) (h : r.rel x y) :
    r.rel (x >>= fun a => pure (f a)) (y >>= fun a => pure (f a)) :=
  r.bind_rel h fun a b hab => r.pure_rel fun he => by rw [hab he]

theorem mapM_rel {α β γ : Type} {f : α → m γ} {g : β → n γ} {as : List α} {bs : List β}
    (h : List.Forall₂ (fun a b => r.rel (f a) (g b)) as bs) : r.rel (as.mapM f) (bs.mapM g) := by
  have hloop : ∀ done made, (r.exact → done = made) →
      r.rel (List.mapM.loop f as done) (List.mapM.loop g bs made) := by
    induction h with
    | nil =>
      intro done made hd
      exact r.pure_rel fun he => by rw [hd he]
    | cons hab _ ih =>
      intro done made hd
      exact r.bind_rel hab fun c d hcd => ih _ _ fun he => by rw [hcd he, hd he]
  exact hloop [] [] fun _ => rfl

mutual
theorem replace_rel (h : r.OnTags s t) : ∀ v, r.rel (s.replace v) (t.replace v)
  | .tagged tag v => by
    rw [Tags.replace, Tags.replace]
    split
    · exact h.file v
    · split
      · exact h.files v
      · split
        · exact h.secret v
        · split
          · exact h.environment v
          · exact map_rel _ (replace_rel h v)
  | .sequence items => by
    rw [Tags.replace, Tags.replace]
    exact map_rel _ (replaceItems_rel h items)
  | .mapping entries => by
    rw [Tags.replace, Tags.replace]
    exact map_rel _ (replaceEntries_rel h entries [] [] fun _ => rfl)
  | .null => r.pure_rel fun _ => rfl
  | .bool _ => r.pure_rel fun _ => rfl
  | .number _ => r.pure_rel fun _ => rfl
  | .string _ => r.pure_rel fun _ => rfl

theorem replaceItems_rel (h : r.OnTags s t) : ∀ items, r.rel (s.replaceItems items) (t.replaceItems items)
  | [] => r.pure_rel fun _ => rfl
  | v :: rest => by
    rw [Tags.replaceItems, Tags.replaceItems]
    refine r.bind_rel (replace_rel h v) fun a b hab => ?_
    refine r.bind_rel (replaceItems_rel h rest) fun as bs habs => ?_
    exact r.pure_rel fun he => by rw [hab he, habs he]

theorem replaceEntries_rel (h : r.OnTags s t) : ∀ entries done made, (r.exact → done = made) →
    r.rel (s.replaceEntries entries done) (t.replaceEntries entries made)
  | [], done, made, hd => by
    rw [Tags.replaceEntries, Tags.replaceEntries]
    exact r.pure_rel hd
  | (k, v) :: rest, done, made, hd => by
    rw [Tags.replaceEntries, Tags.replaceEntries]
    refine r.bind_rel (replace_rel h k) fun a b hab => ?_
    refine r.bind_rel (replace_rel h v) fun c d hcd => ?_
    exact replaceEntries_rel h rest _ _ fun he => by rw [hab he, hcd he, hd he]
end

end Simulation

namespace Workspace

variable (w : Workspace)

def loadedTags (load : FilePath → LoadM Value) (source : FilePath) : Tags LoadM where
  file v := do load (← w.includedPath source v)
  files v := do w.mergedList load (← w.includedPath source v)
  secret v := liftM (w.secretFor v)
  environment v := liftM (w.variableFor v)

mutual
theorem resolve_eq (load : FilePath → LoadM Value) (source : FilePath) :
    ∀ v, w.resolve load source v = (w.loadedTags load source).replace v
  | .tagged tag v => by
    rw [resolve, Tags.replace, resolve_eq load source v]
    rfl
  | .sequence items => by
    rw [resolve, Tags.replace, resolveItems_eq load source items]
  | .mapping entries => by
    rw [resolve, Tags.replace, resolveEntries_eq load source entries []]
  | .null => rfl
  | .bool _ => rfl
  | .number _ => rfl
  | .string _ => rfl

theorem resolveItems_eq (load : FilePath → LoadM Value) (source : FilePath) :
    ∀ items, w.resolveItems load source items = (w.loadedTags load source).replaceItems items
  | [] => rfl
  | v :: rest => by
    rw [resolveItems, Tags.replaceItems, resolve_eq load source v, resolveItems_eq load source rest]

theorem resolveEntries_eq (load : FilePath → LoadM Value) (source : FilePath) :
    ∀ entries done, w.resolveEntries load source entries done =
      (w.loadedTags load source).replaceEntries entries done
  | [], _ => rfl
  | (k, v) :: rest, done => by
    rw [resolveEntries, Tags.replaceEntries, resolve_eq load source k, resolve_eq load source v]
    congr 1
    funext k
    congr 1
    funext v
    exact resolveEntries_eq load source rest _
end

end Workspace

/-- A value with notes that were taken on the way to it. -/
structure Noted (δ α : Type) where
  notes : List δ
  value : α

namespace Noted

variable {δ α β : Type}

instance : Monad (Noted δ) where
  pure a := ⟨[], a⟩
  bind x f := ⟨x.notes ++ (f x.value).notes, (f x.value).value⟩

/-- What stands for the value is of no account. -/
def note (d : δ) : Noted δ Value := ⟨[d], .null⟩

@[simp] theorem notes_pure (a : α) : (pure a : Noted δ α).notes = [] := rfl

@[simp] theorem notes_bind (x : Noted δ α) (f : α → Noted δ β) :
    (x >>= f).notes = x.notes ++ (f x.value).notes := rfl

@[simp] theorem notes_mapM (f : α → Noted δ β) (as : List α) :
    (as.mapM f).notes = as.flatMap fun a => (f a).notes := by
  have hloop : ∀ done, (List.mapM.loop f as done).notes = as.flatMap fun a => (f a).notes := by
    induction as with
    | nil => exact fun _ => rfl
    | cons a as ih =>
      intro done
      rw [List.mapM.loop, notes_bind, ih, List.flatMap_cons]
  exact hloop []

end Noted

abbrev Demand := Except ConfigurationError FilePath

namespace Demand

variable (load : FilePath → Except ConfigurationError Value)

def Met (d : Demand) : Prop := ∃ q v, d = .ok q ∧ load q = .ok v

def Fails (d : Demand) (e : ConfigurationError) : Prop :=
  d = .error e ∨ ∃ q, d = .ok q ∧ load q = .error e

def failure? : List Demand → Option ConfigurationError
  | [] => none
  | d :: ds =>
    match d.bind load with
    | .error e => some e
    | .ok _ => failure? ds

variable {load} {d : Demand} {ds : List Demand} {e : ConfigurationError}

theorem failure?_cons_met (h : Met load d) (ds : List Demand) :
    failure? load (d :: ds) = failure? load ds := by
  obtain ⟨q, v, rfl, hv⟩ := h
  rw [failure?]
  change (match load q with | .error e => some e | .ok _ => failure? load ds) = _
  rw [hv]

theorem failure?_cons_fails (h : Fails load d e) (ds : List Demand) :
    failure? load (d :: ds) = some e := by
  rcases h with rfl | ⟨q, rfl, he⟩
  · rfl
  · rw [failure?]
    change (match load q with | .error e => some e | .ok _ => failure? load ds) = _
    rw [he]

theorem met_or_fails (load : FilePath → Except ConfigurationError Value) (d : Demand) :
    Met load d ∨ ∃ e, Fails load d e := by
  cases d with
  | error e => exact Or.inr ⟨e, Or.inl rfl⟩
  | ok q =>
    cases h : load q with
    | error e => exact Or.inr ⟨e, Or.inr ⟨q, rfl, h⟩⟩
    | ok v => exact Or.inl ⟨q, v, rfl, h⟩

theorem not_met_of_fails (h : Fails load d e) : ¬ Met load d := by
  rintro ⟨q, v, hd, hv⟩
  rcases h with rfl | ⟨p, rfl, he⟩
  · cases hd
  · cases hd
    rw [hv] at he
    cases he

theorem failure?_append (ds es : List Demand) :
    failure? load (ds ++ es) = (failure? load ds).or (failure? load es) := by
  induction ds with
  | nil => rfl
  | cons d ds ih =>
    rcases met_or_fails load d with h | ⟨e, h⟩
    · rw [List.cons_append, failure?_cons_met h, failure?_cons_met h, ih]
    · rw [List.cons_append, failure?_cons_fails h, failure?_cons_fails h]
      rfl

theorem failure?_eq_none : failure? load ds = none ↔ ∀ d ∈ ds, Met load d := by
  induction ds with
  | nil => exact iff_of_true rfl nofun
  | cons d ds ih =>
    rw [List.forall_mem_cons]
    rcases met_or_fails load d with h | ⟨e, h⟩
    · rw [failure?_cons_met h, ih]
      exact (and_iff_right h).symm
    · rw [failure?_cons_fails h]
      exact iff_of_false nofun fun hm => not_met_of_fails h hm.1

theorem failure?_eq_some : failure? load ds = some e ↔
    ∃ before d after, ds = before ++ d :: after ∧ (∀ x ∈ before, Met load x) ∧ Fails load d e := by
  constructor
  · intro h
    induction ds with
    | nil => cases h
    | cons d ds ih =>
      rcases met_or_fails load d with hm | ⟨e', hf⟩
      · rw [failure?_cons_met hm] at h
        obtain ⟨before, x, after, rfl, hb, hx⟩ := ih h
        exact ⟨d :: before, x, after, rfl, List.forall_mem_cons.mpr ⟨hm, hb⟩, hx⟩
      · rw [failure?_cons_fails hf] at h
        exact ⟨[], d, ds, rfl, nofun, Option.some.inj h ▸ hf⟩
  · rintro ⟨before, d, after, rfl, hb, hd⟩
    rw [failure?_append, failure?_eq_none.mpr hb, failure?_cons_fails hd]
    rfl

end Demand

namespace LoadM

variable {α β : Type} {x : LoadM α} {loading after : List FilePath}

/-- What comes of an action while files are being loaded. -/
def answer (x : LoadM α) (loading : List FilePath) : Except ConfigurationError α := (x.run loading).1

/-- Success leaves the files that are being loaded as they were. -/
def Restores (x : LoadM α) (loading : List FilePath) : Prop :=
  ∀ a after, x.run loading = (.ok a, after) → after = loading

theorem run_bind (x : LoadM α) (f : α → LoadM β) (loading : List FilePath) :
    (x >>= f).run loading = ExceptT.bindCont f (x.run loading).1 (x.run loading).2 := rfl

theorem run_bind_error {e : ConfigurationError} (f : α → LoadM β)
    (h : x.run loading = (.error e, after)) : (x >>= f).run loading = (.error e, after) := by
  rw [run_bind, h]
  rfl

theorem run_bind_ok {a : α} (f : α → LoadM β) (h : x.run loading = (.ok a, after)) :
    (x >>= f).run loading = (f a).run after := by
  rw [run_bind, h]
  rfl

def failure? : Except ConfigurationError α → Option ConfigurationError
  | .error e => some e
  | .ok _ => none

theorem error_of_failure? {r : Except ConfigurationError α} {e : ConfigurationError}
    (h : failure? r = some e) : r = .error e := by
  cases r with
  | error e' => rw [Option.some.inj h]
  | ok a => cases h

/-- An action fails as the first of the demands that were noted and are not met, and else succeeds. -/
def Explains (load : FilePath → Except ConfigurationError Value) (loading : List FilePath)
    (x : LoadM α) (y : Noted Demand β) : Prop :=
  Restores x loading ∧ failure? (answer x loading) = Demand.failure? load y.notes

theorem explains_bind {load : FilePath → Except ConfigurationError Value} {y : Noted Demand α}
    {f : α → LoadM β} {g : α → Noted Demand β} (hx : Explains load loading x y)
    (hf : ∀ a b, Explains load loading (f a) (g b)) :
    Explains load loading (x >>= f) (y >>= g) := by
  obtain ⟨hr, he⟩ := hx
  rw [Explains, Noted.notes_bind, Demand.failure?_append, ← he]
  cases hrun : x.run loading with
  | mk r after =>
    have ha : answer x loading = r := congrArg Prod.fst hrun
    rw [ha]
    cases r with
    | error e =>
      have hb := run_bind_error f hrun
      refine ⟨fun b s hs => ?_, ?_⟩
      · rw [hb] at hs
        cases hs
      · rw [answer, hb]
        rfl
    | ok a =>
      obtain rfl := hr a after hrun
      have hb := run_bind_ok f hrun
      obtain ⟨hfr, hfe⟩ := hf a y.value
      refine ⟨fun b s hs => hfr b s (hb ▸ hs), ?_⟩
      rw [answer, hb]
      exact hfe

def noting (load : FilePath → Except ConfigurationError Value) (loading : List FilePath) :
    Simulation LoadM (Noted Demand) where
  rel := Explains load loading
  exact := False
  pure_rel _ := by
    refine ⟨fun a after h => ?_, rfl⟩
    cases h
    rfl
  bind_rel hx hf := explains_bind hx fun a b => hf a b nofun

end LoadM

namespace Workspace

variable (w : Workspace)

def demandedValue : Except ConfigurationError Value → Noted Demand Value
  | .error e => .note (.error e)
  | .ok u => pure u

def demandedFiles : Except ConfigurationError (List FilePath) → Noted Demand Value
  | .error e => .note (.error e)
  | .ok files => do
    let contents ← files.mapM fun file => .note (.ok file)
    pure (.sequence (contents.flatMap listed))

def demandedTags (source : FilePath) : Tags (Noted Demand) where
  file v := .note (w.includedPath source v)
  files v := demandedFiles ((w.includedPath source v).bind w.yamlFiles)
  secret v := demandedValue (w.secretFor v)
  environment v := demandedValue (w.variableFor v)

@[simp] theorem notes_demandedFiles (files : List FilePath) :
    (demandedFiles (.ok files)).notes = files.map Except.ok := by
  rw [demandedFiles, Noted.notes_bind, Noted.notes_pure, List.append_nil, Noted.notes_mapM]
  exact List.flatMap_pure_eq_map ..

/-- The files that a value in a file asks for, in the order in which they are loaded. -/
def demands (source : FilePath) (v : Value) : List Demand :=
  ((w.demandedTags source).replace v).notes

section

variable {w} {load : FilePath → LoadM Value} {loading : List FilePath}
  (hl : ∀ q, (load q).Restores loading)

include hl

theorem explains_load (q : FilePath) :
    LoadM.Explains (fun q => (load q).answer loading) loading (load q) (.note (.ok q)) := by
  refine ⟨hl q, ?_⟩
  change LoadM.failure? ((load q).answer loading) =
    match (load q).answer loading with
    | .error e => some e
    | .ok _ => none
  cases (load q).answer loading <;> rfl

omit hl in
theorem explains_error {β : Type} (e : ConfigurationError) (f : β → LoadM Value) :
    LoadM.Explains (fun q => (load q).answer loading) loading
      (liftM (.error e : Except ConfigurationError β) >>= f) (.note (.error e)) :=
  ⟨nofun, rfl⟩

omit hl in
theorem explains_lift (r : Except ConfigurationError Value) :
    LoadM.Explains (fun q => (load q).answer loading) loading (liftM r : LoadM Value)
      (demandedValue r) := by
  cases r with
  | error e => exact ⟨nofun, rfl⟩
  | ok u => exact (LoadM.noting _ loading).pure_rel nofun

theorem explains_tags (source : FilePath) :
    (LoadM.noting (fun q => (load q).answer loading) loading).OnTags (w.loadedTags load source)
      (w.demandedTags source) where
  file v := by
    change LoadM.Explains _ _ (liftM (w.includedPath source v) >>= load)
      (.note (w.includedPath source v))
    cases w.includedPath source v with
    | error e => exact explains_error e load
    | ok q => exact explains_load hl q
  files v := by
    change LoadM.Explains _ _ (liftM (w.includedPath source v) >>= w.mergedList load)
      (demandedFiles ((w.includedPath source v).bind w.yamlFiles))
    cases w.includedPath source v with
    | error e => exact explains_error e _
    | ok d =>
      change LoadM.Explains _ _ (liftM (w.yamlFiles d) >>= fun files => files.mapM load >>= _)
        (demandedFiles (w.yamlFiles d))
      cases w.yamlFiles d with
      | error e => exact explains_error e _
      | ok files =>
        refine Simulation.map_rel _ (Simulation.mapM_rel (r := LoadM.noting _ loading) ?_)
        exact List.forall₂_same.mpr fun q _ => explains_load hl q
  secret v := explains_lift (w.secretFor v)
  environment v := explains_lift (w.variableFor v)

end

theorem isLoading_iff {p : FilePath} {loading : List FilePath} :
    isLoading p loading = true ↔ ∃ q ∈ loading, q.components = p.components := by
  simp [isLoading]

theorem release_cons {p : FilePath} {loading : List FilePath} (h : isLoading p loading = false) :
    release p (p :: loading) = loading := by
  rw [release, List.filter_cons_of_neg (by simp), List.filter_eq_self]
  intro q hq
  refine decide_eq_true fun hc => ?_
  rw [isLoading_iff.mpr ⟨q, hq, hc⟩] at h
  cases h

variable {w} {depth : Nat} {p : FilePath} {loading : List FilePath}

theorem run_loadWithin (w : Workspace) (depth : Nat) (p : FilePath) (loading : List FilePath) :
    (w.loadWithin (depth + 1) p).run loading =
      let q := w.directory.join p
      (if isLoading q loading then throw (.circularInclude q)
      else
        match w.tree.read? q with
        | none => throw (.unreadable q)
        | some content =>
          whileLoading q (w.loadText (w.loadWithin depth) q content) : LoadM Value).run loading := by
  rw [loadWithin]
  rfl

theorem run_whileLoading (x : LoadM Value) : (whileLoading p x).run loading =
    ((x.run (p :: loading)).1, release p (x.run (p :: loading)).2) := rfl

theorem explains_resolve {load : FilePath → LoadM Value} (hl : ∀ q, (load q).Restores loading)
    (source : FilePath) (v : Value) :
    LoadM.Explains (fun q => (load q).answer loading) loading (w.resolve load source v)
      ((w.demandedTags source).replace v) := by
  rw [resolve_eq]
  exact Simulation.replace_rel (explains_tags hl source) v

theorem restores_loadWithin (depth : Nat) (p : FilePath) (loading : List FilePath) :
    (w.loadWithin depth p).Restores loading := by
  induction depth generalizing p loading with
  | zero =>
    rw [loadWithin]
    exact nofun
  | succ depth ih =>
    intro u after h
    rw [run_loadWithin] at h
    dsimp only at h
    split at h
    · cases h
    · rename_i hn
      split at h
      · cases h
      · rename_i content hr
        rw [run_whileLoading, Prod.mk.injEq] at h
        obtain ⟨hu, rfl⟩ := h
        cases hv : Value.ofText? content with
        | none =>
          rw [loadText, hv] at hu
          cases hu
        | some v =>
          have ht : w.loadText (w.loadWithin depth) (w.directory.join p) content =
              w.resolve (w.loadWithin depth) (w.directory.join p) v := by
            rw [loadText, hv]
          rw [ht] at hu ⊢
          have hres := (explains_resolve (w := w) (fun q => ih q (w.directory.join p :: loading))
            (w.directory.join p) v).1 u _ (Prod.ext hu rfl)
          exact (congrArg (release _) hres).trans (release_cons (by simpa using hn))

/-- What comes of loading a file within others. -/
def answerWithin (w : Workspace) (depth : Nat) (loading : List FilePath) (p : FilePath) :
    Except ConfigurationError Value := (w.loadWithin depth p).answer loading

theorem answerWithin_zero (w : Workspace) (loading : List FilePath) (p : FilePath) :
    w.answerWithin 0 loading p = .error (.unreadable (w.directory.join p)) := by
  rw [answerWithin, loadWithin]
  rfl

theorem answerWithin_loading (h : isLoading (w.directory.join p) loading = true) :
    w.answerWithin (depth + 1) loading p = .error (.circularInclude (w.directory.join p)) := by
  rw [answerWithin, LoadM.answer, run_loadWithin]
  dsimp only
  rw [if_pos h]
  rfl

theorem answerWithin_unreadable (h : isLoading (w.directory.join p) loading = false)
    (hr : w.tree.read? (w.directory.join p) = none) :
    w.answerWithin (depth + 1) loading p = .error (.unreadable (w.directory.join p)) := by
  rw [answerWithin, LoadM.answer, run_loadWithin]
  dsimp only
  rw [h, if_neg Bool.false_ne_true, hr]
  rfl

theorem answerWithin_invalid {content : String}
    (h : isLoading (w.directory.join p) loading = false)
    (hr : w.tree.read? (w.directory.join p) = some content) (hv : Value.ofText? content = none) :
    w.answerWithin (depth + 1) loading p = .error (.invalidYaml (w.directory.join p)) := by
  rw [answerWithin, LoadM.answer, run_loadWithin]
  dsimp only
  rw [h, if_neg Bool.false_ne_true, hr]
  dsimp only
  rw [run_whileLoading, loadText, hv]
  rfl

theorem answerWithin_resolve {content : String} {v : Value}
    (h : isLoading (w.directory.join p) loading = false)
    (hr : w.tree.read? (w.directory.join p) = some content)
    (hv : Value.ofText? content = some v) :
    w.answerWithin (depth + 1) loading p =
      (w.resolve (w.loadWithin depth) (w.directory.join p) v).answer
        (w.directory.join p :: loading) := by
  rw [answerWithin, LoadM.answer, run_loadWithin]
  dsimp only
  rw [h, if_neg Bool.false_ne_true, hr]
  dsimp only
  rw [run_whileLoading, loadText, hv]
  rfl

theorem answerWithin_cases (w : Workspace) (depth : Nat) (loading : List FilePath) (p : FilePath) :
    isLoading (w.directory.join p) loading = true ∧
      w.answerWithin (depth + 1) loading p = .error (.circularInclude (w.directory.join p)) ∨
    w.answerWithin (depth + 1) loading p = .error (.unreadable (w.directory.join p)) ∨
    w.answerWithin (depth + 1) loading p = .error (.invalidYaml (w.directory.join p)) ∨
    ∃ content v, isLoading (w.directory.join p) loading = false ∧
      w.tree.read? (w.directory.join p) = some content ∧ Value.ofText? content = some v := by
  cases hl : isLoading (w.directory.join p) loading with
  | true => exact Or.inl ⟨rfl, answerWithin_loading hl⟩
  | false =>
    right
    cases hr : w.tree.read? (w.directory.join p) with
    | none => exact Or.inl (answerWithin_unreadable hl hr)
    | some content =>
      right
      cases hv : Value.ofText? content with
      | none => exact Or.inl (answerWithin_invalid hl hr hv)
      | some v => exact Or.inr ⟨content, v, rfl, rfl, hv⟩

/-- A file fails as the first of its demands that is not met while it is being loaded. -/
theorem failure?_answerWithin (depth : Nat) {content : String} {v : Value}
    (h : isLoading (w.directory.join p) loading = false)
    (hr : w.tree.read? (w.directory.join p) = some content)
    (hv : Value.ofText? content = some v) :
    LoadM.failure? (w.answerWithin (depth + 1) loading p) =
      Demand.failure? (w.answerWithin depth (w.directory.join p :: loading))
        (w.demands (w.directory.join p) v) := by
  rw [answerWithin_resolve h hr hv]
  exact (explains_resolve (fun q => restores_loadWithin depth q _) _ v).2

theorem load_answer (w : Workspace) (p : FilePath) :
    ((w.load p).run []).1 = w.answerWithin (depthLimit w.tree) [] p := rfl

structure Standing (t : FileTree) (loading : List FilePath) (places : List Place) : Prop where
  found : List.Forall₂ (fun s g => t.find? s = some g) loading places
  files : ∀ g ∈ places, (t.content? g).isSome = true

variable {t : FileTree} {places : List Place} {f : Place}

theorem standing_nil (t : FileTree) : Standing t [] [] := ⟨.nil, nofun⟩

theorem Standing.cons (h : Standing t loading places) (hp : t.find? p = some f)
    (hc : (t.content? f).isSome = true) : Standing t (p :: loading) (f :: places) :=
  ⟨.cons hp h.found, List.forall_mem_cons.mpr ⟨hc, h.files⟩⟩

theorem Standing.named_of_isLoading (h : Standing t loading places) (hl : isLoading p loading = true) :
    ∃ f ∈ places, t.named t.workingDirectory p = some f := by
  obtain ⟨hfound, -⟩ := h
  rw [isLoading_iff] at hl
  induction hfound with
  | nil =>
    obtain ⟨q, hq, -⟩ := hl
    cases hq
  | cons hs _ ih =>
    obtain ⟨q, hq, hc⟩ := hl
    rcases List.mem_cons.mp hq with rfl | hq
    · refine ⟨_, List.mem_cons_self .., ?_⟩
      rw [← FileTree.named_congr hc]
      exact FileTree.named_of_lookup (FileTree.find?_some hs).2.2
    · obtain ⟨f, hf, hn⟩ := ih ⟨q, hq, hc⟩
      exact ⟨f, List.mem_cons_of_mem _ hf, hn⟩

theorem Standing.mem_of_isLoading (h : Standing t loading places)
    (hp : t.lookup t.workingDirectory p = some f) (hl : isLoading p loading = true) : f ∈ places := by
  obtain ⟨g, hg, hn⟩ := h.named_of_isLoading hl
  rw [FileTree.named_of_lookup hp] at hn
  exact Option.some.inj hn ▸ hg

/-- Files that are being loaded, at different places. -/
structure Stacked (t : FileTree) (loading : List FilePath) (places : List Place) : Prop
    extends Standing t loading places where
  nodup : places.Nodup

theorem stacked_nil (t : FileTree) : Stacked t [] [] := ⟨standing_nil t, List.nodup_nil⟩

theorem Stacked.cons (h : Stacked t loading places) (hp : t.find? p = some f) (hf : f ∉ places)
    (hc : (t.content? f).isSome = true) : Stacked t (p :: loading) (f :: places) :=
  ⟨h.toStanding.cons hp hc, List.nodup_cons.mpr ⟨hf, h.nodup⟩⟩

theorem Stacked.length_le (h : Stacked t loading places) : loading.length ≤ t.files.length := by
  have hsub : places ⊆ t.files.map Prod.fst := fun g hg => FileTree.content?_isSome.mp (h.files g hg)
  have hle := (h.nodup.subperm hsub).length_le
  rw [List.length_map] at hle
  exact h.found.length_eq ▸ hle

theorem Stacked.depth_pos (h : Stacked t loading places) (hf : f ∉ places)
    (hc : (t.content? f).isSome = true) (hd : t.files.length ≤ depth + loading.length) :
    0 < depth := by
  have hsub : f :: places ⊆ t.files.map Prod.fst :=
    List.cons_subset.mpr ⟨FileTree.content?_isSome.mp hc,
      fun g hg => FileTree.content?_isSome.mp (h.files g hg)⟩
  have hle := ((List.nodup_cons.mpr ⟨hf, h.nodup⟩).subperm hsub).length_le
  rw [List.length_map, List.length_cons, ← h.found.length_eq] at hle
  omega

/-- Every file of a tree can be inside of the others, and one more. -/
theorem length_files_lt_depthLimit (t : FileTree) : t.files.length < depthLimit t := by
  have h : 1 ≤ FileTree.pathLimit + 1 := Nat.le_add_left ..
  calc t.files.length
    _ < t.files.length + 1 := Nat.lt_succ_self _
    _ ≤ (t.files.length + 1) * (FileTree.pathLimit + 1) := Nat.le_mul_of_pos_right _ h
    _ ≤ depthLimit t := Nat.le_mul_of_pos_right _ (Nat.succ_pos _)

end Workspace

end TopicHub
