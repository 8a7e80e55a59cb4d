import TopicHub.Proofs.Configuration.Loading

/-!
Inclusions from the directory of the file that they stand in. What a file says depends on its place
alone: its inclusions name files and directories from its own directory. Loading it by a path gives just
that as long as the directory of the configuration leads to the same place from where it leads to, which
absolute directories do. Other directories are followed a second time.
-/

namespace TopicHub

open Yaml (Value)

namespace Workspace

def yamlPlaces (t : FileTree) (directory : Place) : List Place :=
  (((t.entries directory).filter isYamlName).map fun name => directory ++ [name]).filter
    fun f => (t.content? f).isSome

def argumentPlace (t : FileTree) (here : Place) : Value → Option Place
  | .string s => t.lookup here.dropLast (.ofText s)
  | _ => none

variable (w : Workspace)

def filledTags (file : Place → Option Value) (here : Place) : Tags Option where
  file v := (argumentPlace w.tree here v).bind file
  files v :=
    (argumentPlace w.tree here v).bind fun directory =>
      if w.tree.isDirectory directory then do
        let contents ← (yamlPlaces w.tree directory).mapM file
        pure (.sequence (contents.flatMap listed))
      else none
  secret v := (w.secretFor v).toOption
  environment v := (w.variableFor v).toOption

/-- What a file says with at most so many files in each other. -/
def saidWithin : Nat → Place → Option Value
  | 0, _ => none
  | n + 1, f =>
    (w.tree.content? f).bind fun content =>
      (Value.ofText? content).bind (w.filledTags (saidWithin n) f).replace

/-- The file at a place says a value, with all tags of the hub replaced. -/
def Says (f : Place) (v : Value) : Prop := ∃ n, w.saidWithin n f = some v

variable {w} {n : Nat} {f : Place} {v : Value}

def growing : Simulation Option Option where
  rel x y := ∀ a, x = some a → y = some a
  exact := True
  pure_rel h := by
    intro a ha
    rw [← h trivial]
    exact ha
  bind_rel := by
    intro α β x y f g hx hf b hb
    obtain ⟨a, ha, hfa⟩ := Option.bind_eq_some_iff.mp hb
    rw [hx a ha]
    exact hf a a (fun _ => rfl) b hfa

theorem filledTags_growing {file more : Place → Option Value}
    (h : ∀ f v, file f = some v → more f = some v) (here : Place) :
    growing.OnTags (w.filledTags file here) (w.filledTags more here) where
  file v := by
    intro u hu
    obtain ⟨g, hg, hf⟩ := Option.bind_eq_some_iff.mp hu
    exact Option.bind_eq_some_iff.mpr ⟨g, hg, h g u hf⟩
  files v := by
    intro u hu
    obtain ⟨d, hd, hf⟩ := Option.bind_eq_some_iff.mp hu
    refine Option.bind_eq_some_iff.mpr ⟨d, hd, ?_⟩
    split at hf
    · rename_i hdir
      rw [if_pos hdir]
      refine Simulation.map_rel (r := growing) _ (Simulation.mapM_rel ?_) u hf
      exact List.forall₂_same.mpr fun g _ => h g
    · cases hf
  secret _ _ hu := hu
  environment _ _ hu := hu

theorem saidWithin_succ (h : w.saidWithin n f = some v) : w.saidWithin (n + 1) f = some v := by
  induction n generalizing f v with
  | zero => cases h
  | succ n ih =>
    rw [saidWithin] at h ⊢
    obtain ⟨content, hc, h⟩ := Option.bind_eq_some_iff.mp h
    obtain ⟨u, hu, h⟩ := Option.bind_eq_some_iff.mp h
    rw [hc, Option.bind_some, hu, Option.bind_some]
    exact Simulation.replace_rel (filledTags_growing (fun _ _ => ih) f) u v h

theorem saidWithin_none (h : w.saidWithin (n + 1) f = none) : w.saidWithin n f = none := by
  cases hn : w.saidWithin n f with
  | none => rfl
  | some u =>
    rw [saidWithin_succ hn] at h
    cases h

theorem saidWithin_mono {m : Nat} (h : w.saidWithin n f = some v) (hm : n ≤ m) :
    w.saidWithin m f = some v := by
  induction hm with
  | refl => exact h
  | step _ ih => exact saidWithin_succ ih

/-- A file says one value at most. -/
theorem Says.unique {u : Value} (hv : w.Says f v) (hu : w.Says f u) : v = u := by
  obtain ⟨n, hn⟩ := hv
  obtain ⟨m, hm⟩ := hu
  have h1 := saidWithin_mono hn (Nat.le_max_left n m)
  have h2 := saidWithin_mono hm (Nat.le_max_right n m)
  exact Option.some.inj (h1.symm.trans h2)

theorem content?_of_saidWithin (h : w.saidWithin n f = some v) : (w.tree.content? f).isSome = true := by
  cases n with
  | zero => cases h
  | succ n =>
    obtain ⟨content, hc, -⟩ := Option.bind_eq_some_iff.mp h
    rw [hc]
    rfl

/-- The directory of a configuration leads to `home`, and from there to `home` again. -/
structure Settled (t : FileTree) (directory : FilePath) (home : Place) : Prop where
  fromWorking : t.lookup t.workingDirectory directory = some home
  fromHome : t.lookup home directory = some home

theorem settled_of_absolute {t : FileTree} {directory : FilePath} {home : Place}
    (ha : directory.isAbsolute = true) (h : t.lookup [] directory = some home) :
    Settled t directory home :=
  ⟨(FileTree.lookup_absolute ha ..).trans h, (FileTree.lookup_absolute ha ..).trans h⟩

variable {home : Place} {p source : FilePath}

theorem join_parts_ne_nil (base : FilePath) (hp : p.parts ≠ []) : (base.join p).parts ≠ [] := by
  cases ha : p.isAbsolute with
  | true => rwa [FilePath.join_absolute base ha]
  | false =>
    rw [FilePath.parts_join base ha]
    exact List.append_ne_nil_of_right_ne_nil _ hp

theorem Settled.lookup_join {t : FileTree} {directory : FilePath} (hs : Settled t directory home)
    (hp : p.parts ≠ []) :
    t.lookup t.workingDirectory (directory.join p) = t.lookup home p ∧
      t.lookup home (directory.join p) = t.lookup home p := by
  cases ha : p.isAbsolute with
  | true =>
    rw [FilePath.join_absolute _ ha]
    exact ⟨FileTree.lookup_absolute ha .., rfl⟩
  | false =>
    rw [FileTree.lookup_join _ ha hp, FileTree.lookup_join _ ha hp, hs.fromWorking, hs.fromHome]
    exact ⟨rfl, rfl⟩

structure At (w : Workspace) (home : Place) (source : FilePath) (f : Place) : Prop where
  fromWorking : w.tree.lookup w.tree.workingDirectory source = some f
  fromHome : w.tree.lookup home source = some f
  nonempty : source.isEmpty = false
  isFile : w.tree.isDirectory f = false

theorem at_of_read (ht : w.tree.Proper) (hs : Settled w.tree w.directory home) (hp : p.parts ≠ [])
    {content : String} (hr : w.tree.read? (w.directory.join p) = some content) :
    ∃ f, w.tree.find? (w.directory.join p) = some f ∧ w.tree.content? f = some content ∧
      w.tree.lookup home p = some f ∧ w.At home (w.directory.join p) f := by
  obtain ⟨f, hf, hc⟩ := Option.bind_eq_some_iff.mp hr
  obtain ⟨hne, -, hw⟩ := FileTree.find?_some hf
  obtain ⟨h1, h2⟩ := hs.lookup_join hp
  have hhome : w.tree.lookup home p = some f := h1 ▸ hw
  exact ⟨f, hf, hc, hhome, hw, h2.trans hhome, hne, ht.not_isDirectory hc⟩

theorem At.included (h : w.At home source f) {q : FilePath} (hv : w.includedPath source v = .ok q) :
    q.parts ≠ [] ∧ w.tree.lookup home q = argumentPlace w.tree f v ∧
      w.tree.lookup w.tree.workingDirectory q = argumentPlace w.tree f v := by
  cases v with
  | string s =>
    have hs := FilePath.ofText_parts_ne_nil s
    cases hv
    refine ⟨join_parts_ne_nil _ hs, ?_, ?_⟩
    · exact FileTree.lookup_below_parent h.fromHome h.isFile h.nonempty hs _
    · exact FileTree.lookup_below_parent h.fromWorking h.isFile h.nonempty hs _
  | _ => cases hv

theorem yamlName_not_idle {name : String} (h : isYamlName name = true) :
    FilePath.isIdle name = false ∧ name ≠ ".." := by
  constructor
  · rw [Bool.eq_false_iff]
    intro hi
    simp only [FilePath.isIdle, Bool.or_eq_true, decide_eq_true_eq] at hi
    rcases hi with rfl | rfl
    · exact absurd h (by decide)
    · exact absurd h (by decide)
  · rintro rfl
    exact absurd h (by decide)

theorem yamlFiles_ok {directory : FilePath} {files : List FilePath}
    (h : w.yamlFiles directory = .ok files) : ∃ d, w.tree.find? directory = some d ∧
      w.tree.isDirectory d = true ∧
      files = ((w.tree.entries d).filter isYamlName).map fun name => directory.join ⟨[name]⟩ := by
  rw [yamlFiles] at h
  split at h
  · rename_i hd
    rw [FileTree.hasDirectory, Option.any_eq_true] at hd
    obtain ⟨d, hf, hdir⟩ := hd
    cases h
    exact ⟨d, hf, hdir, by rw [FileTree.names_eq hf]⟩
  · cases h

theorem lookup_entry_join {here d : Place} {directory : FilePath} {name : String}
    (h : w.tree.lookup here directory = some d) (hd : w.tree.isDirectory d = true)
    (hn : name ∈ (w.tree.entries d).filter isYamlName) :
    w.tree.lookup here (directory.join ⟨[name]⟩) = some (d ++ [name]) := by
  obtain ⟨hm, hy⟩ := List.mem_filter.mp hn
  obtain ⟨hi, hp⟩ := yamlName_not_idle hy
  rw [FileTree.lookup_join _ (FilePath.isAbsolute_single name) (List.cons_ne_nil _ _), h]
  exact FileTree.lookup_entry hd hm hi hp

def finding (loading : List FilePath) : Simulation LoadM Option where
  rel x y := LoadM.Restores x loading ∧ ∀ a, LoadM.answer x loading = .ok a → y = some a
  exact := True
  pure_rel h := by
    refine ⟨fun a after ha => ?_, fun a ha => ?_⟩
    · cases ha
      rfl
    · cases ha
      rw [h trivial]
      rfl
  bind_rel := by
    rintro α β x y f g ⟨hr, hx⟩ hf
    cases hrun : x.run loading with
    | mk r after =>
      cases r with
      | error e =>
        have hb := LoadM.run_bind_error f hrun
        refine ⟨fun b s hs => ?_, fun b hs => ?_⟩
        · rw [hb] at hs
          cases hs
        · rw [LoadM.answer, hb] at hs
          cases hs
      | ok a =>
        obtain rfl := hr a after hrun
        have hb := LoadM.run_bind_ok f hrun
        have hy : y = some a := hx a (congrArg Prod.fst hrun)
        obtain ⟨hfr, hfg⟩ := hf a a fun _ => rfl
        refine ⟨fun b s hs => hfr b s (hb ▸ hs), fun b hs => ?_⟩
        rw [LoadM.answer, hb] at hs
        rw [hy]
        exact hfg b hs

section

variable {load : FilePath → LoadM Value} {loading : List FilePath} {file : Place → Option Value}

structure Finds (w : Workspace) (home : Place) (load : FilePath → LoadM Value)
    (loading : List FilePath) (file : Place → Option Value) : Prop where
  restores : ∀ q, (load q).Restores loading
  found : ∀ q u, q.parts ≠ [] → (load q).answer loading = .ok u →
    ∃ g, w.tree.lookup home q = some g ∧ file g = some u
  isFile : ∀ g u, file g = some u → (w.tree.content? g).isSome = true

theorem finding_error {β : Type} (e : ConfigurationError) (f : β → LoadM Value) (y : Option Value) :
    (finding loading).rel (liftM (.error e : Except ConfigurationError β) >>= f) y :=
  ⟨nofun, nofun⟩

theorem finding_lift (r : Except ConfigurationError Value) :
    (finding loading).rel (liftM r : LoadM Value) r.toOption := by
  cases r with
  | error e => exact ⟨nofun, nofun⟩
  | ok u => exact (finding loading).pure_rel fun _ => rfl

theorem finding_load (hf : Finds w home load loading file) {q : FilePath} (hq : q.parts ≠ [])
    {g : Place} (hg : w.tree.lookup home q = some g) : (finding loading).rel (load q) (file g) := by
  refine ⟨hf.restores q, fun u hu => ?_⟩
  obtain ⟨g', hg', hv⟩ := hf.found q u hq hu
  rw [hg] at hg'
  cases hg'
  exact hv

theorem mem_of_mapM {places : List Place} {us : List Value}
    (h : places.mapM file = some us) : ∀ g ∈ places, ∃ u, file g = some u := by
  induction places generalizing us with
  | nil => exact nofun
  | cons g places ih =>
    rw [List.mapM_cons] at h
    obtain ⟨u, hu, h⟩ := Option.bind_eq_some_iff.mp h
    obtain ⟨rest, hr, -⟩ := Option.bind_eq_some_iff.mp h
    exact List.forall_mem_cons.mpr ⟨⟨u, hu⟩, ih hr⟩

theorem filter_of_mapM (hfile : ∀ g u, file g = some u → (w.tree.content? g).isSome = true)
    {places : List Place} {us : List Value} (h : places.mapM file = some us) :
    places.filter (fun g => (w.tree.content? g).isSome) = places := by
  rw [List.filter_eq_self]
  intro g hg
  obtain ⟨u, hu⟩ := mem_of_mapM h g hg
  exact hfile g u hu

theorem finding_tags (hf : Finds w home load loading file) (hs : w.At home source f) :
    (finding loading).OnTags (w.loadedTags load source) (w.filledTags file f) where
  file v := by
    change (finding loading).rel (liftM (w.includedPath source v) >>= load) _
    cases hv : w.includedPath source v with
    | error e => exact finding_error e load _
    | ok q =>
      obtain ⟨hq, hl, -⟩ := hs.included hv
      refine ⟨hf.restores q, fun u hu => ?_⟩
      obtain ⟨g, hg, hu⟩ := hf.found q u hq hu
      exact Option.bind_eq_some_iff.mpr ⟨g, hl ▸ hg, hu⟩
  files v := by
    change (finding loading).rel (liftM (w.includedPath source v) >>= w.mergedList load) _
    cases hv : w.includedPath source v with
    | error e => exact finding_error e _ _
    | ok directory =>
      obtain ⟨hq, hl, hc⟩ := hs.included hv
      change (finding loading).rel
        (liftM (w.yamlFiles directory) >>= fun files => files.mapM load >>= _) _
      cases hy : w.yamlFiles directory with
      | error e => exact finding_error e _ _
      | ok files =>
        obtain ⟨d, hd, hdir, rfl⟩ := yamlFiles_ok hy
        have hplace : argumentPlace w.tree f v = some d := by
          rw [← hc]
          exact (FileTree.find?_some hd).2.2
        have hhome : w.tree.lookup home directory = some d := hl.trans hplace
        let names := (w.tree.entries d).filter isYamlName
        let places := names.map fun name => d ++ [name]
        have hlist : (finding loading).rel
            ((names.map fun name => directory.join ⟨[name]⟩).mapM load >>=
              fun contents => pure (Value.sequence (contents.flatMap listed)))
            (places.mapM file >>= fun contents => pure (Value.sequence (contents.flatMap listed))) := by
          refine Simulation.map_rel _ (Simulation.mapM_rel ?_)
          rw [List.forall₂_map_left_iff, List.forall₂_map_right_iff, List.forall₂_same]
          intro name hn
          exact finding_load hf (join_parts_ne_nil _ (List.cons_ne_nil _ _))
            (lookup_entry_join hhome hdir hn)
        refine ⟨hlist.1, fun u hu => ?_⟩
        have hsome := hlist.2 u hu
        obtain ⟨us, hus, -⟩ := Option.bind_eq_some_iff.mp hsome
        have hall : yamlPlaces w.tree d = places := filter_of_mapM hf.isFile hus
        refine Option.bind_eq_some_iff.mpr ⟨d, hplace, ?_⟩
        rw [if_pos hdir, hall]
        exact hsome
  secret v := finding_lift (w.secretFor v)
  environment v := finding_lift (w.variableFor v)

end

theorem saidWithin_of_answer (ht : w.tree.Proper) (hs : Settled w.tree w.directory home) (depth : Nat)
    (loading : List FilePath) (p : FilePath) (v : Value) (hp : p.parts ≠ [])
    (h : w.answerWithin depth loading p = .ok v) :
    ∃ f, w.tree.lookup home p = some f ∧ w.saidWithin depth f = some v := by
  induction depth generalizing loading p v with
  | zero =>
    rw [answerWithin_zero] at h
    cases h
  | succ depth ih =>
    rcases w.answerWithin_cases depth loading p with
      ⟨-, he⟩ | he | he | ⟨content, u, hl, hr, hv⟩
    · cases he.symm.trans h
    · cases he.symm.trans h
    · cases he.symm.trans h
    · rw [answerWithin_resolve hl hr hv, resolve_eq] at h
      obtain ⟨f, -, hc, hhome, hat⟩ := at_of_read ht hs hp hr
      have hfinds : Finds w home (w.loadWithin depth) (w.directory.join p :: loading)
          (w.saidWithin depth) :=
        ⟨fun x => restores_loadWithin depth x _, fun x a hx ha => ih _ x a hx ha,
          fun _ _ hg => content?_of_saidWithin hg⟩
      have hsaid := (Simulation.replace_rel (finding_tags hfinds hat) u).2 v h
      refine ⟨f, hhome, ?_⟩
      rw [saidWithin, hc, Option.bind_some, hv, Option.bind_some]
      exact hsaid

/-- Nothing is found at a path that is empty or too long. -/
def Unreachable (q : FilePath) : Prop :=
  q.isEmpty = true ∨ FileTree.pathLimit < q.text.utf8ByteSize

theorem find?_eq_or (t : FileTree) (q : FilePath) :
    t.find? q = t.lookup t.workingDirectory q ∨ Unreachable q ∧ t.find? q = none := by
  cases he : q.isEmpty with
  | true =>
    right
    refine ⟨Or.inl he, ?_⟩
    rw [FileTree.find?, he]
    rfl
  | false =>
    by_cases hl : FileTree.pathLimit < q.text.utf8ByteSize
    · right
      refine ⟨Or.inr hl, ?_⟩
      rw [FileTree.find?, if_pos (by simp [hl])]
    · left
      exact FileTree.find?_eq he (Nat.not_lt.mp hl)

/-- Errors that are not about what files say: a path that cannot be followed, and a directory with the
name of a YAML file. -/
inductive OutOfReach (t : FileTree) : ConfigurationError → Prop
  | path {q : FilePath} (h : Unreachable q) : OutOfReach t (.unreadable q)
  | directory {q : FilePath} {d : Place} (h : t.lookup t.workingDirectory q = some d)
      (hd : t.isDirectory d = true) : OutOfReach t (.unreadable q)
  | absent {q : FilePath} (h : Unreachable q) : OutOfReach t (.directoryNotFound q)

inductive Granted (w : Workspace) (home : Place) (file : Place → Option Value) : Demand → Prop
  | file {q : FilePath} {g : Place} {u : Value} (hq : q.parts ≠ [])
      (hg : w.tree.lookup home q = some g) (hu : file g = some u) : Granted w home file (.ok q)
  | directory {q : FilePath} {d : Place} (hq : q.parts ≠ []) (hd : w.tree.lookup home q = some d)
      (hdir : w.tree.isDirectory d = true) : Granted w home file (.ok q)
  | absent {q : FilePath} (h : Unreachable q) : Granted w home file (.error (.directoryNotFound q))

def granting (granted : Demand → Prop) : Simulation Option (Noted Demand) where
  rel x y := ∀ a, x = some a → ∀ d ∈ y.notes, granted d
  exact := False
  pure_rel _ _ _ := nofun
  bind_rel := by
    intro α β x y f g hx hf b hb d hd
    obtain ⟨a, ha, hfa⟩ := Option.bind_eq_some_iff.mp hb
    rcases List.mem_append.mp hd with hd | hd
    · exact hx a ha d hd
    · exact hf a y.value nofun b hfa d hd

theorem granting_lift {granted : Demand → Prop} (r : Except ConfigurationError Value) :
    (granting granted).rel r.toOption (demandedValue r) := by
  cases r with
  | error e => exact nofun
  | ok u => exact fun _ _ => nofun

theorem absent_of_yamlFiles {q : FilePath} {d : Place} {e : ConfigurationError}
    {file : Place → Option Value} (hq : w.tree.lookup w.tree.workingDirectory q = some d)
    (hd : w.tree.isDirectory d = true) (h : w.yamlFiles q = .error e) :
    w.Granted home file (.error e) := by
  rw [yamlFiles] at h
  split at h
  · cases h
  · rename_i hn
    cases h
    rcases find?_eq_or w.tree q with hf | ⟨hu, -⟩
    · rw [FileTree.hasDirectory, hf, hq] at hn
      exact absurd hd hn
    · exact .absent hu

theorem granting_tags (hs : w.At home source f) (file : Place → Option Value) :
    (granting (w.Granted home file)).OnTags (w.filledTags file f) (w.demandedTags source) where
  file v := by
    intro u hu d hd
    obtain ⟨g, hg, hu⟩ := Option.bind_eq_some_iff.mp hu
    rw [List.mem_singleton.mp hd]
    cases hv : w.includedPath source v with
    | error e => cases v <;> cases hv <;> cases hg
    | ok q =>
      obtain ⟨hq, hl, -⟩ := hs.included hv
      exact .file hq (hl.trans hg) hu
  files v := by
    intro u hu d hd
    obtain ⟨place, hplace, hu⟩ := Option.bind_eq_some_iff.mp hu
    split at hu
    · rename_i hdir
      obtain ⟨us, hus, -⟩ := Option.bind_eq_some_iff.mp hu
      cases hv : w.includedPath source v with
      | error e => cases v <;> cases hv <;> cases hplace
      | ok q =>
        obtain ⟨hq, hl, hc⟩ := hs.included hv
        have hhome : w.tree.lookup home q = some place := hl.trans hplace
        change d ∈ (demandedFiles ((w.includedPath source v).bind w.yamlFiles)).notes at hd
        rw [hv] at hd
        change d ∈ (demandedFiles (w.yamlFiles q)).notes at hd
        cases hy : w.yamlFiles q with
        | error e =>
          rw [hy] at hd
          rw [List.mem_singleton.mp hd]
          exact absent_of_yamlFiles (hc.trans hplace) hdir hy
        | ok files =>
          obtain ⟨place', hf, -, rfl⟩ := yamlFiles_ok hy
          have hsame : place' = place :=
            Option.some.inj ((FileTree.find?_some hf).2.2.symm.trans (hc.trans hplace))
          rw [hy, hsame, notes_demandedFiles] at hd
          obtain ⟨p, hp, rfl⟩ := List.mem_map.mp hd
          obtain ⟨name, hn, rfl⟩ := List.mem_map.mp hp
          have hentry := lookup_entry_join hhome hdir hn
          have hparts : (q.join ⟨[name]⟩).parts ≠ [] := join_parts_ne_nil _ (List.cons_ne_nil _ _)
          have hholds := FileTree.holds_entry (List.mem_filter.mp hn).1
          rw [FileTree.holds, Bool.or_eq_true] at hholds
          rcases hholds with hdir' | hcontent
          · exact .directory hparts hentry hdir'
          · have hm : place ++ [name] ∈ yamlPlaces w.tree place :=
              List.mem_filter.mpr ⟨List.mem_map_of_mem hn, hcontent⟩
            obtain ⟨u, hu⟩ := mem_of_mapM hus _ hm
            exact .file hparts hentry hu
    · cases hu
  secret v := granting_lift (w.secretFor v)
  environment v := granting_lift (w.variableFor v)

theorem answer_of_directory (ht : w.tree.Proper) (hs : Settled w.tree w.directory home) (depth : Nat)
    {loading : List FilePath} {places : List Place} {d : Place} (hp : p.parts ≠ [])
    (hd : w.tree.lookup home p = some d) (hdir : w.tree.isDirectory d = true)
    (hstack : Stacked w.tree loading places) :
    w.answerWithin depth loading p = .error (.unreadable (w.directory.join p)) ∧
      OutOfReach w.tree (.unreadable (w.directory.join p)) := by
  have hw : w.tree.lookup w.tree.workingDirectory (w.directory.join p) = some d :=
    (hs.lookup_join hp).1.trans hd
  refine ⟨?_, .directory hw hdir⟩
  have hnone : w.tree.content? d = none := by
    cases hc : w.tree.content? d with
    | none => rfl
    | some content =>
      rw [ht.not_isDirectory hc] at hdir
      cases hdir
  cases depth with
  | zero => exact answerWithin_zero ..
  | succ depth =>
    refine answerWithin_unreadable ?_ ?_
    · rw [Bool.eq_false_iff]
      intro hl
      have hc := hstack.files d (hstack.mem_of_isLoading hw hl)
      rw [hnone] at hc
      cases hc
    · rw [FileTree.read?]
      rcases find?_eq_or w.tree (w.directory.join p) with hfind | ⟨-, hfind⟩
      · rw [hfind, hw]
        exact hnone
      · rw [hfind]
        rfl

/-- If a file that says something fails, one of its demands is out of reach. -/
theorem outOfReach_of_fails {load : FilePath → Except ConfigurationError Value}
    {file : Place → Option Value} {d : Demand} {e : ConfigurationError}
    (hd : w.Granted home file d) (he : Demand.Fails load d e)
    (hfile : ∀ q g u, q.parts ≠ [] → w.tree.lookup home q = some g → file g = some u →
      load q = .ok u ∨ ∃ e, load q = .error e ∧ OutOfReach w.tree e)
    (hdir : ∀ q g, q.parts ≠ [] → w.tree.lookup home q = some g → w.tree.isDirectory g = true →
      ∃ e, load q = .error e ∧ OutOfReach w.tree e) : OutOfReach w.tree e := by
  cases hd with
  | file hq hg hu =>
    rcases he with he | ⟨q, hq', he⟩
    · cases he
    · cases hq'
      rcases hfile _ _ _ hq hg hu with hok | ⟨e', he', hout⟩
      · rw [hok] at he
        cases he
      · rw [he'] at he
        cases he
        exact hout
  | directory hq hg hg' =>
    rcases he with he | ⟨q, hq', he⟩
    · cases he
    · cases hq'
      obtain ⟨e', he', hout⟩ := hdir _ _ hq hg hg'
      rw [he'] at he
      cases he
      exact hout
  | absent hu =>
    rcases he with he | ⟨q, hq', -⟩
    · cases he
      exact .absent hu
    · cases hq'

/-- What a file says comes of loading it, unless something is out of reach. The files around it say
nothing yet with the same number of files in each other, and so none of them is among its own. -/
theorem answer_of_saidWithin (ht : w.tree.Proper) (hs : Settled w.tree w.directory home) (n depth : Nat)
    (loading : List FilePath) (places : List Place) (p : FilePath) (f : Place) (v : Value)
    (hp : p.parts ≠ []) (hf : w.tree.lookup home p = some f) (hv : w.saidWithin n f = some v)
    (hstack : Stacked w.tree loading places) (hopen : ∀ g ∈ places, w.saidWithin n g = none)
    (hd : w.tree.files.length ≤ depth + loading.length) :
    w.answerWithin depth loading p = .ok v ∨
      ∃ e, w.answerWithin depth loading p = .error e ∧ OutOfReach w.tree e := by
  induction n generalizing depth loading places p f v with
  | zero => cases hv
  | succ n ih =>
    cases hless : w.saidWithin n f with
    | some u =>
      have huv : u = v := Option.some.inj ((saidWithin_succ hless).symm.trans hv)
      exact ih depth loading places p f v hp hf (huv ▸ hless) hstack
        (fun g hg => saidWithin_none (hopen g hg)) hd
    | none =>
      have hfresh : f ∉ places := by
        intro hm
        rw [hopen f hm] at hv
        cases hv
      have hcontent := content?_of_saidWithin hv
      cases depth with
      | zero => exact absurd (hstack.depth_pos hfresh hcontent hd) (Nat.lt_irrefl 0)
      | succ depth =>
        let q := w.directory.join p
        obtain ⟨h1, h2⟩ := hs.lookup_join hp
        have hw : w.tree.lookup w.tree.workingDirectory q = some f := h1.trans hf
        have hl : isLoading q loading = false := by
          rw [Bool.eq_false_iff]
          exact fun hl => hfresh (hstack.mem_of_isLoading hw hl)
        rcases find?_eq_or w.tree q with hfind | ⟨hu, hfind⟩
        · rw [hw] at hfind
          rw [saidWithin] at hv
          obtain ⟨content, hc, hv⟩ := Option.bind_eq_some_iff.mp hv
          obtain ⟨u, hu, hv⟩ := Option.bind_eq_some_iff.mp hv
          have hr : w.tree.read? q = some content := by
            rw [FileTree.read?, hfind]
            exact hc
          have hat : w.At home q f :=
            ⟨hw, h2.trans hf, (FileTree.find?_some hfind).1, ht.not_isDirectory hc⟩
          cases hans : w.answerWithin (depth + 1) loading p with
          | ok u' =>
            left
            obtain ⟨f', hf', hsaid⟩ := saidWithin_of_answer ht hs _ _ p u' hp hans
            rw [hf] at hf'
            cases hf'
            have hv' : w.saidWithin (n + 1) f = some v := by
              rw [saidWithin, hc, Option.bind_some, hu, Option.bind_some]
              exact hv
            rw [Says.unique ⟨_, hsaid⟩ ⟨_, hv'⟩]
          | error e =>
            right
            refine ⟨e, rfl, ?_⟩
            have hfail := failure?_answerWithin depth hl hr hu
            rw [hans] at hfail
            obtain ⟨before, d, after, hds, -, hd'⟩ := Demand.failure?_eq_some.mp hfail.symm
            have hstack' := hstack.cons hfind hfresh hcontent
            have hopen' : ∀ g ∈ f :: places, w.saidWithin n g = none :=
              List.forall_mem_cons.mpr ⟨hless, fun g hg => saidWithin_none (hopen g hg)⟩
            have hroom : w.tree.files.length ≤ depth + (q :: loading).length := by
              rw [List.length_cons]
              omega
            have hgranted := Simulation.replace_rel (granting_tags hat (w.saidWithin n)) u v hv d
              (by rw [← demands, hds]; simp)
            refine outOfReach_of_fails hgranted hd' ?_ ?_
            · intro q' g u' hq' hg hsaid
              exact ih depth _ _ q' g u' hq' hg hsaid hstack' hopen' hroom
            · intro q' g hq' hg hdir
              exact ⟨_, answer_of_directory ht hs depth hq' hg hdir hstack'⟩
        · right
          have hr : w.tree.read? q = none := by
            rw [FileTree.read?, hfind]
            rfl
          exact ⟨_, answerWithin_unreadable hl hr, .path hu⟩

instance (q : FilePath) : Decidable (Unreachable q) :=
  inferInstanceAs (Decidable (q.isEmpty = true ∨ FileTree.pathLimit < q.text.utf8ByteSize))

theorem saidWithin_directory (w : Workspace) (directory : FilePath) (n : Nat) :
    Workspace.saidWithin { w with directory := directory } n = w.saidWithin n := by
  induction n with
  | zero => rfl
  | succ n ih =>
    funext f
    rw [saidWithin, saidWithin, ih]
    rfl

def secretsPath (directory : FilePath) : FilePath := directory.join (.ofText Secrets.fileName)

section

variable {t : FileTree} {directory other : FilePath} {environment : String → Option String}
  {file : FilePath}

theorem find?_secretsPath (hs : Settled t directory home) (hr : ¬ Unreachable (secretsPath directory)) :
    t.find? (secretsPath directory) = t.lookup home (.ofText Secrets.fileName) := by
  rcases find?_eq_or t (secretsPath directory) with h | ⟨h, -⟩
  · rw [h]
    exact (hs.lookup_join (FilePath.ofText_parts_ne_nil _)).1
  · exact absurd h hr

theorem load_secrets_ok {s : Secrets} : Secrets.load t directory = .ok s ↔
    t.find? (secretsPath directory) = none ∧ s = Table.empty ∨
      (t.find? (secretsPath directory)).isSome = true ∧ ∃ content,
        t.read? (secretsPath directory) = some content ∧ Secrets.ofText? content = some s := by
  rw [Secrets.load]
  change (if (t.find? (secretsPath directory)).isNone then _ else _) = _ ↔ _
  cases hf : t.find? (secretsPath directory) with
  | none => simp [eq_comm]
  | some f =>
    rw [if_neg (by simp)]
    split
    · rename_i hr
      refine iff_of_false nofun ?_
      rintro (⟨h, -⟩ | ⟨-, content, hc, -⟩)
      · cases h
      · cases hr.symm.trans hc
    · rename_i content hr
      split
      · rename_i hv
        refine iff_of_false nofun ?_
        rintro (⟨h, -⟩ | ⟨-, content', hc, hs⟩)
        · cases h
        · cases hr.symm.trans hc
          cases hv.symm.trans hs
      · rename_i secrets hv
        constructor
        · intro h
          exact Or.inr ⟨rfl, content, hr, hv.trans (congrArg some (Except.ok.inj h))⟩
        · rintro (⟨h, -⟩ | ⟨-, content', hc, hs⟩)
          · cases h
          · cases hr.symm.trans hc
            rw [Option.some.inj (hv.symm.trans hs)]

theorem load_secrets_congr {s : Secrets} (h : Secrets.load t directory = .ok s)
    (hf : t.find? (secretsPath other) = t.find? (secretsPath directory)) :
    Secrets.load t other = .ok s := by
  have hr : t.read? (secretsPath other) = t.read? (secretsPath directory) := by
    rw [FileTree.read?, FileTree.read?, hf]
  rw [load_secrets_ok] at h ⊢
  rwa [hf, hr]

theorem ofDirectory_ok : ofDirectory t directory environment = .ok w ↔
    ∃ s, Secrets.load t directory = .ok s ∧ w = ⟨t, directory, s, environment⟩ := by
  rw [ofDirectory]
  cases Secrets.load t directory with
  | error e => exact ⟨nofun, nofun⟩
  | ok s =>
    constructor
    · intro h
      cases h
      exact ⟨s, rfl, rfl⟩
    · rintro ⟨_, h, rfl⟩
      cases h
      rfl

theorem loadYaml_of_ofDirectory (h : ofDirectory t directory environment = .ok w) (file : FilePath) :
    loadYaml t directory environment file = w.answerWithin (depthLimit w.tree) [] file := by
  rw [loadYaml, h]
  rfl

theorem loadYaml_ok (h : loadYaml t directory environment file = .ok v) :
    ∃ w, ofDirectory t directory environment = .ok w ∧
      w.answerWithin (depthLimit w.tree) [] file = .ok v := by
  cases hw : ofDirectory t directory environment with
  | error e =>
    rw [loadYaml, hw] at h
    cases h
  | ok w => exact ⟨w, rfl, loadYaml_of_ofDirectory hw file ▸ h⟩

end

/-- With a directory that leads to one place from the working directory and from itself, which every
absolute directory does, a file of it gives just what it says when every inclusion is taken from the
directory of the file that it stands in, unless a path cannot be followed or a directory has the name of
a YAML file. What is given does not depend on how the directory is written. -/
theorem inclusions_from_own_directory {t : FileTree} (ht : t.Proper) {directory : FilePath}
    {home : Place} (hs : Settled t directory home) (environment : String → Option String)
    (file : String) :
    (∀ v, loadYaml t directory environment (.ofText file) = .ok v →
      ∃ w f, ofDirectory t directory environment = .ok w ∧ t.lookup home (.ofText file) = some f ∧
        w.Says f v) ∧
    (∀ w f v, ofDirectory t directory environment = .ok w → t.lookup home (.ofText file) = some f →
      w.Says f v → loadYaml t directory environment (.ofText file) = .ok v ∨
        ∃ e, loadYaml t directory environment (.ofText file) = .error e ∧ OutOfReach t e) ∧
    ∀ other, Settled t other home → ¬ Unreachable (secretsPath directory) →
      ¬ Unreachable (secretsPath other) → ∀ v,
      loadYaml t directory environment (.ofText file) = .ok v →
      loadYaml t other environment (.ofText file) = .ok v ∨
        ∃ e, loadYaml t other environment (.ofText file) = .error e ∧ OutOfReach t e := by
  have hp := FilePath.ofText_parts_ne_nil file
  have hloaded : ∀ v, loadYaml t directory environment (.ofText file) = .ok v →
      ∃ w f, ofDirectory t directory environment = .ok w ∧ t.lookup home (.ofText file) = some f ∧
        w.Says f v := by
    intro v h
    obtain ⟨w, hw, h⟩ := loadYaml_ok h
    obtain ⟨s, -, rfl⟩ := ofDirectory_ok.mp hw
    obtain ⟨f, hf, hv⟩ := saidWithin_of_answer ht hs _ _ _ v hp h
    exact ⟨_, f, hw, hf, _, hv⟩
  have hsaid : ∀ d, Settled t d home → ∀ w f v, ofDirectory t d environment = .ok w →
      t.lookup home (.ofText file) = some f → w.Says f v →
      loadYaml t d environment (.ofText file) = .ok v ∨
        ∃ e, loadYaml t d environment (.ofText file) = .error e ∧ OutOfReach t e := by
    rintro d hd w f v hw hf ⟨n, hn⟩
    rw [loadYaml_of_ofDirectory hw]
    obtain ⟨s, -, rfl⟩ := ofDirectory_ok.mp hw
    exact answer_of_saidWithin ht hd n _ [] [] _ f v hp hf hn (stacked_nil t) nofun
      (Nat.le_of_lt (length_files_lt_depthLimit t))
  refine ⟨hloaded, hsaid directory hs, fun other ho hr hr' v h => ?_⟩
  obtain ⟨w, f, hw, hf, n, hn⟩ := hloaded v h
  obtain ⟨s, hsec, rfl⟩ := ofDirectory_ok.mp hw
  have hfind : t.find? (secretsPath other) = t.find? (secretsPath directory) :=
    (find?_secretsPath ho hr').trans (find?_secretsPath hs hr).symm
  have hw' : ofDirectory t other environment = .ok ⟨t, other, s, environment⟩ :=
    ofDirectory_ok.mpr ⟨s, load_secrets_congr hsec hfind, rfl⟩
  have hn' : saidWithin ⟨t, other, s, environment⟩ n f = some v := by
    rw [← hn, ← saidWithin_directory ⟨t, directory, s, environment⟩ other]
  exact hsaid other ho _ f v hw' hf ⟨n, hn'⟩

def hub (workingDirectory : Place) : FileTree where
  files := [(["hub", "config", "configuration.yaml"], "!include lamp.yaml\n"),
    (["hub", "config", "lamp.yaml"], "lamp\n"),
    (["hub", "config", "lists.yaml"], "!include_dir_merge_list rules\n"),
    (["hub", "config", "rules", "old.yaml", "b.yaml"], "- lamp\n")]
  directories := []
  workingDirectory := workingDirectory

theorem eq_string_of_same {s : String} (h : Value.same (.string s) v = true) : v = .string s := by
  cases v with
  | string u =>
    rw [Value.same, beq_iff_eq] at h
    rw [h]
  | _ => cases h

theorem eq_tagged_of_same {tag s : String} (h : Value.same (.tagged tag (.string s)) v = true) :
    v = .tagged tag (.string s) := by
  cases v with
  | tagged tag' u =>
    rw [Value.same, Bool.and_eq_true, beq_iff_eq] at h
    rw [h.1, eq_string_of_same h.2]
  | _ => cases h

theorem some_of_same {tag s : String} {r : Option Value}
    (h : r.any (Value.same (.tagged tag (.string s))) = true) : r = some (.tagged tag (.string s)) := by
  obtain ⟨v, rfl, hv⟩ := (Option.any_eq_true ..).mp h
  rw [eq_tagged_of_same hv]

theorem ok_of_same {s : String} {r : Except ConfigurationError Value}
    (h : r.toOption.any (Value.same (.string s)) = true) : r = .ok (.string s) := by
  cases r with
  | error e => cases h
  | ok v => rw [eq_string_of_same h]

/-- The configuration by its absolute path and by the path from the directory itself. -/
theorem lamp_from_working_directory :
    (hub ["hub", "config"]).Proper ∧
    Settled (hub ["hub", "config"]) (.ofText "/hub/config") ["hub", "config"] ∧
    Settled (hub ["hub", "config"]) (.ofText ".") ["hub", "config"] ∧
    loadYaml (hub ["hub", "config"]) (.ofText "/hub/config") (fun _ => none)
      (.ofText "configuration.yaml") = .ok (.string "lamp") ∧
    loadYaml (hub ["hub", "config"]) (.ofText ".") (fun _ => none) (.ofText "configuration.yaml") =
      .ok (.string "lamp") := by
  have ht : (hub ["hub", "config"]).Proper := by decide +kernel
  have hs : Settled (hub ["hub", "config"]) (.ofText "/hub/config") ["hub", "config"] :=
    settled_of_absolute (by decide +kernel) (by decide +kernel)
  have hd : Settled (hub ["hub", "config"]) (.ofText ".") ["hub", "config"] :=
    ⟨by decide +kernel, by decide +kernel⟩
  have hv : loadYaml (hub ["hub", "config"]) (.ofText "/hub/config") (fun _ => none)
      (.ofText "configuration.yaml") = .ok (.string "lamp") := by
    apply ok_of_same
    decide +kernel
  refine ⟨ht, hs, hd, hv, ?_⟩
  rcases (inclusions_from_own_directory ht hs (fun _ => none) "configuration.yaml").2.2 _ hd
    (by decide +kernel) (by decide +kernel) _ hv with h | ⟨e, he, -⟩
  · exact h
  · have hok : (loadYaml (hub ["hub", "config"]) (.ofText ".") (fun _ => none)
        (.ofText "configuration.yaml")).toOption.isSome = true := by decide +kernel
    rw [he] at hok
    cases hok

theorem failure?_mergedList {depth : Nat} {loading files : List FilePath} {content : String}
    (h : isLoading (w.directory.join p) loading = false)
    (hr : w.tree.read? (w.directory.join p) = some content)
    (hv : Value.ofText? content = some (.tagged "include_dir_merge_list" v))
    (hf : (w.includedPath (w.directory.join p) v).bind w.yamlFiles = .ok files) :
    LoadM.failure? (w.answerWithin (depth + 1) loading p) =
      Demand.failure? (w.answerWithin depth (w.directory.join p :: loading)) (files.map .ok) := by
  have hds : w.demands (w.directory.join p) (.tagged "include_dir_merge_list" v) =
      files.map Except.ok := by
    rw [← notes_demandedFiles, ← hf]
    rw [demands, Tags.replace, if_neg (by decide), if_pos rfl]
    rfl
  rw [failure?_answerWithin depth h hr hv, hds]

def hubWorkspace : Workspace := ⟨hub ["hub"], .ofText "/hub/config", Table.empty, fun _ => none⟩

theorem ofDirectory_hub : ofDirectory (hub ["hub"]) (.ofText "/hub/config") (fun _ => none) =
    .ok hubWorkspace := by
  have hs : Secrets.load (hub ["hub"]) (.ofText "/hub/config") = .ok Table.empty := by
    rw [Secrets.load]
    exact if_pos (by decide +kernel)
  exact ofDirectory_ok.mpr ⟨_, hs, rfl⟩

theorem yamlFiles_hub : hubWorkspace.yamlFiles (.ofText "/hub/config/rules") =
    .ok [.ofText "/hub/config/rules/old.yaml"] := by
  have hf : hubWorkspace.tree.find? (.ofText "/hub/config/rules") =
      some ["hub", "config", "rules"] := by decide +kernel
  have hd : hubWorkspace.tree.hasDirectory (.ofText "/hub/config/rules") = true := by decide +kernel
  have hn : hubWorkspace.tree.entries ["hub", "config", "rules"] = ["old.yaml"] := by
    rw [FileTree.entries]
    exact List.mergeSort_singleton ..
  rw [yamlFiles, if_pos hd, FileTree.names_eq hf, hn]
  decide +kernel

theorem lists_hub (depth : Nat) : LoadM.failure? (hubWorkspace.answerWithin (depth + 2) []
    (.ofText "lists.yaml")) = some (.unreadable (.ofText "/hub/config/rules/old.yaml")) := by
  have hv : Value.ofText? "!include_dir_merge_list rules\n" =
      some (.tagged "include_dir_merge_list" (.string "rules")) := by
    apply some_of_same
    decide +kernel
  have hp : hubWorkspace.includedPath (hubWorkspace.directory.join (.ofText "lists.yaml"))
      (.string "rules") = .ok (.ofText "/hub/config/rules") := by decide +kernel
  have hf : (hubWorkspace.includedPath (hubWorkspace.directory.join (.ofText "lists.yaml"))
      (.string "rules")).bind hubWorkspace.yamlFiles =
        .ok [.ofText "/hub/config/rules/old.yaml"] := by
    rw [hp]
    exact yamlFiles_hub
  rw [failure?_mergedList (by decide +kernel) (by decide +kernel) hv hf]
  refine Demand.failure?_cons_fails (Or.inr ⟨_, rfl, ?_⟩) []
  exact answerWithin_unreadable (by decide +kernel) (by decide +kernel)

/-- From the directory above, the configuration does not find the file next to it, and a directory with
the name of a file is read as one. -/
theorem directory_followed_twice :
    loadYaml (hub ["hub"]) (.ofText "/hub/config") (fun _ => none) (.ofText "configuration.yaml") =
      .ok (.string "lamp") ∧
    loadYaml (hub ["hub"]) (.ofText "config") (fun _ => none) (.ofText "configuration.yaml") =
      .error (.unreadable (.ofText "config/config/lamp.yaml")) ∧
    loadYaml (hub ["hub"]) (.ofText "/hub/config") (fun _ => none) (.ofText "lists.yaml") =
      .error (.unreadable (.ofText "/hub/config/rules/old.yaml")) := by
  refine ⟨?_, ?_, ?_⟩
  · apply ok_of_same
    decide +kernel
  · apply LoadM.error_of_failure?
    decide +kernel
  · obtain ⟨d, hd⟩ := Nat.exists_eq_add_of_le' (Nat.le_of_lt (length_files_lt_depthLimit (hub ["hub"])))
    rw [loadYaml_of_ofDirectory ofDirectory_hub]
    apply LoadM.error_of_failure?
    exact hd ▸ lists_hub (d + 2)

end Workspace

end TopicHub
