import Mathlib.Logic.Relation
import TopicHub.Proofs.Configuration.RelativeInclusion

/-!
Which files include which. A file mentions paths, and each of them is spelled from its directory when the
file is loaded. A file whose inclusions all come to an end is not on any cycle of files that include each
other.
-/

namespace TopicHub

open Yaml (Value)
open Relation (TransGen)

/-- A path that is written in a directory as it is spelled from there. -/
structure FilePath.Spelled (base written p : FilePath) : Prop where
  nonempty : p.parts ≠ []
  isAbsolute : p.isAbsolute = (written.isAbsolute || base.isAbsolute)
  names : p.names = if written.isAbsolute then written.names else base.names ++ written.names

namespace FilePath

variable {base written p : FilePath}

theorem spelled_join (base : FilePath) (h : written.parts ≠ []) :
    Spelled base written (base.join written) := by
  refine ⟨Workspace.join_parts_ne_nil base h, ?_, ?_⟩
  · cases ha : written.isAbsolute with
    | true => rw [join_absolute base ha, ha, Bool.true_or]
    | false => rw [isAbsolute_join base ha h, Bool.false_or]
  · cases ha : written.isAbsolute with
    | true => rw [join_absolute base ha, if_pos rfl]
    | false => rw [names_join base ha, if_neg Bool.false_ne_true]

theorem Spelled.entry (h : Spelled base written p) (name : String) :
    Spelled base (written.join ⟨[name]⟩) (p.join ⟨[name]⟩) := by
  have hn := isAbsolute_single name
  have hne : (⟨[name]⟩ : FilePath).parts ≠ [] := List.cons_ne_nil _ _
  refine ⟨Workspace.join_parts_ne_nil p hne, ?_, ?_⟩
  · rw [isAbsolute_join p hn hne, isAbsolute_join written hn hne, h.isAbsolute]
  · rw [names_join p hn, names_join written hn, isAbsolute_join written hn hne, h.names]
    split
    · rfl
    · rw [List.append_assoc]

end FilePath

namespace FileTree

variable {t : FileTree} {here place : Place}

theorem named_join (base : FilePath) {p : FilePath} (h : p.isAbsolute = false) (hp : p.parts ≠ [])
    (here : Place) :
    t.named here (base.join p) = (t.named here base).bind fun d => t.follow d p.names := by
  rw [named, FilePath.isAbsolute_join base h hp, FilePath.names_join base h, follow_append]
  rfl

theorem named_of_spelled {base written p : FilePath} (hb : t.named here base = some place)
    (h : FilePath.Spelled base written p) : t.named here p = t.named place written := by
  rw [named, h.isAbsolute, h.names]
  cases ha : written.isAbsolute with
  | true => rw [named_absolute ha, if_pos rfl, Bool.true_or, if_pos rfl]
  | false =>
    rw [named_relative ha, Bool.false_or, if_neg Bool.false_ne_true, follow_append]
    change (t.named here base).bind _ = _
    rw [hb]
    rfl

end FileTree

namespace Workspace

variable {w : Workspace} {home f g : Place} {p q source written : FilePath} {content : String}
  {v : Value}

def mentionedFiles (w : Workspace) (written : FilePath) : Option Place → Noted FilePath Value
  | some directory => do
    let _ ← ((w.tree.entries directory).filter isYamlName).mapM fun name =>
      Noted.note (written.join ⟨[name]⟩)
    pure .null
  | none => pure .null

@[simp] theorem notes_mentionedFiles (written : FilePath) (directory : Place) :
    (w.mentionedFiles written (some directory)).notes =
      ((w.tree.entries directory).filter isYamlName).map fun name => written.join ⟨[name]⟩ := by
  rw [mentionedFiles, Noted.notes_bind, Noted.notes_pure, List.append_nil, Noted.notes_mapM]
  exact List.flatMap_pure_eq_map ..

/-- The paths of the inclusions in the file at `here` as they are written, those of a directory one by
one. -/
def mentionedTags (w : Workspace) (here : Place) : Tags (Noted FilePath) where
  file
    | .string s => .note (.ofText s)
    | _ => pure .null
  files
    | .string s => w.mentionedFiles (.ofText s) (w.tree.named here.dropLast (.ofText s))
    | _ => pure .null
  secret _ := pure .null
  environment _ := pure .null

/-- The paths of the inclusions in a value of the file at `here`. -/
def mentions (w : Workspace) (here : Place) (v : Value) : List FilePath :=
  ((w.mentionedTags here).replace v).notes

/-- The file at a place holds a value. -/
def Holds (w : Workspace) (f : Place) (v : Value) : Prop :=
  ∃ content, w.tree.content? f = some content ∧ Value.ofText? content = some v

theorem Holds.isSome (h : w.Holds f v) : (w.tree.content? f).isSome = true := by
  obtain ⟨content, hc, -⟩ := h
  rw [hc]
  rfl

theorem Holds.unique {u : Value} (h : w.Holds f v) (k : w.Holds f u) : v = u := by
  obtain ⟨content, hc, hv⟩ := h
  obtain ⟨content', hc', hu⟩ := k
  rw [hc] at hc'
  cases hc'
  exact Option.some.inj (hv.symm.trans hu)

/-- The file at `f` includes the file at `g`. -/
def Includes (w : Workspace) (f g : Place) : Prop :=
  ∃ v, w.Holds f v ∧ ∃ written ∈ w.mentions f v, w.tree.named f.dropLast written = some g ∧
    (w.tree.content? g).isSome = true

/-- What a file asks for is what it mentions, one by one and spelled from a directory, up to the first
error. -/
inductive Spells (base : FilePath) : List FilePath → List Demand → Prop
  | nil : Spells base [] []
  | cons {written q : FilePath} {mentioned : List FilePath} {demanded : List Demand}
      (h : FilePath.Spelled base written q) (rest : Spells base mentioned demanded) :
      Spells base (written :: mentioned) (.ok q :: demanded)
  | error {e : ConfigurationError} (h : ∀ q, e ≠ .circularInclude q) (mentioned : List FilePath)
      (demanded : List Demand) : Spells base mentioned (.error e :: demanded)

namespace Spells

variable {base : FilePath} {mentioned mentioned' : List FilePath} {demanded demanded' : List Demand}

theorem append (h : Spells base mentioned demanded) (h' : Spells base mentioned' demanded') :
    Spells base (mentioned ++ mentioned') (demanded ++ demanded') := by
  induction h with
  | nil => exact h'
  | cons h _ ih => exact .cons h ih
  | error h _ _ => exact .error h _ _

theorem map {names : List String} {written spelled : String → FilePath}
    (h : ∀ name, FilePath.Spelled base (written name) (spelled name)) :
    Spells base (names.map written) (names.map (Except.ok ∘ spelled)) := by
  induction names with
  | nil => exact .nil
  | cons name names ih => exact .cons (h name) ih

/-- Behind demands without errors, a demand is for the path that is mentioned there. -/
theorem split {before after : List Demand} {d : Demand} (h : Spells base mentioned (before ++ d :: after))
    (hok : ∀ d ∈ before, ∃ x, d = .ok x) :
    (∃ first written last x, mentioned = first ++ written :: last ∧ d = .ok x ∧
      FilePath.Spelled base written x ∧
      ∀ r ∈ first, ∃ x, .ok x ∈ before ∧ FilePath.Spelled base r x) ∨
    ∃ e, d = .error e ∧ ∀ q, e ≠ .circularInclude q := by
  induction before generalizing mentioned with
  | nil =>
    cases h with
    | cons h rest => exact Or.inl ⟨[], _, _, _, rfl, rfl, h, nofun⟩
    | error h _ _ => exact Or.inr ⟨_, rfl, h⟩
  | cons d before ih =>
    rw [List.forall_mem_cons] at hok
    cases h with
    | cons h rest =>
      rcases ih rest hok.2 with ⟨first, r, last, x, rfl, hx, hr, hfirst⟩ | he
      · refine Or.inl ⟨_ :: first, r, last, x, rfl, hx, hr, List.forall_mem_cons.mpr
          ⟨⟨_, List.mem_cons_self .., h⟩, fun r' hr' => ?_⟩⟩
        obtain ⟨y, hy, hs⟩ := hfirst r' hr'
        exact ⟨y, List.mem_cons_of_mem _ hy, hs⟩
      · exact Or.inr he
    | error h _ _ =>
      obtain ⟨⟨x, hx⟩, -⟩ := hok
      cases hx

theorem all (h : Spells base mentioned demanded) (hok : ∀ d ∈ demanded, ∃ x, d = .ok x) :
    ∀ r ∈ mentioned, ∃ x, .ok x ∈ demanded ∧ FilePath.Spelled base r x := by
  induction h with
  | nil => exact nofun
  | cons h _ ih =>
    rw [List.forall_mem_cons] at hok ⊢
    refine ⟨⟨_, List.mem_cons_self .., h⟩, fun r hr => ?_⟩
    obtain ⟨x, hx, hs⟩ := ih hok.2 r hr
    exact ⟨x, List.mem_cons_of_mem _ hx, hs⟩
  | error h _ _ =>
    obtain ⟨x, hx⟩ := hok _ (List.mem_cons_self ..)
    cases hx

end Spells

variable {base : FilePath}

def spelling (base : FilePath) : Simulation (Noted FilePath) (Noted Demand) where
  rel x y := Spells base x.notes y.notes
  exact := False
  pure_rel _ := .nil
  bind_rel hx hf := hx.append (hf _ _ nofun)

theorem spelling_lift {r : Except ConfigurationError Value}
    (h : ∀ e, r = .error e → ∀ q, e ≠ .circularInclude q) :
    (spelling base).rel (pure .null) (demandedValue r) := by
  cases r with
  | error e => exact .error (h e rfl) _ _
  | ok u => exact .nil

theorem spells_invalid (base : FilePath) (mentioned : List FilePath) :
    Spells base mentioned [.error .invalidInclusion] := by
  refine .error (fun q hq => ?_) _ _
  cases hq

theorem textArgument_error {tag : String} {e : ConfigurationError} (h : textArgument tag v = .error e) :
    e = .invalidArgument tag := by
  rw [textArgument] at h
  split at h
  · cases h
  · exact (Except.error.inj h).symm

theorem secretFor_error {e : ConfigurationError} (h : w.secretFor v = .error e) (q : FilePath) :
    e ≠ .circularInclude q := by
  rintro rfl
  rw [secretFor] at h
  cases ha : textArgument "secret" v with
  | error e =>
    rw [ha] at h
    cases h
    cases textArgument_error ha
  | ok key =>
    rw [ha] at h
    change (w.secrets.find key >>= fun text => pure (Value.string text)) = _ at h
    rw [Secrets.find] at h
    split at h
    · cases h
    · cases h

theorem variableFor_error {e : ConfigurationError} (h : w.variableFor v = .error e) (q : FilePath) :
    e ≠ .circularInclude q := by
  rintro rfl
  rw [variableFor] at h
  cases ha : textArgument "env_var" v with
  | error e =>
    rw [ha] at h
    cases h
    cases textArgument_error ha
  | ok name =>
    rw [ha] at h
    dsimp only [bind, Except.bind] at h
    split at h
    · cases h
    · cases h

def directoryOf (w : Workspace) (source : FilePath) : FilePath := source.parent?.getD w.directory

theorem At.directoryOf_named (h : w.At home source f) :
    w.tree.named home (w.directoryOf source) = some f.dropLast := by
  obtain ⟨b, hb, hl⟩ := FileTree.lookup_parent h.fromHome h.isFile h.nonempty
  rw [directoryOf, hb]
  exact FileTree.named_of_lookup hl

theorem At.directoryOf_names (h : w.At home source f) :
    (w.directoryOf source).isAbsolute = source.isAbsolute ∧
      ∃ name, source.names = (w.directoryOf source).names ++ [name] ∧ f.getLast? = some name := by
  obtain ⟨b, name, hb, ha, hn, hl⟩ := FileTree.names_parent h.fromHome h.isFile h.nonempty
  rw [directoryOf, hb]
  exact ⟨ha, name, hn, hl⟩

theorem spelling_tags (h : w.At home source f) :
    (spelling (w.directoryOf source)).OnTags (w.mentionedTags f) (w.demandedTags source) where
  file v := by
    cases v with
    | string s => exact .cons (FilePath.spelled_join _ (FilePath.ofText_parts_ne_nil s)) .nil
    | null | bool _ | number _ | sequence _ | mapping _ | tagged _ _ => exact spells_invalid _ _
  files v := by
    cases v with
    | string s =>
      have hs := FilePath.spelled_join (w.directoryOf source) (FilePath.ofText_parts_ne_nil s)
      change Spells _ (w.mentionedFiles (.ofText s) (w.tree.named f.dropLast (.ofText s))).notes
        (demandedFiles (w.yamlFiles ((w.directoryOf source).join (.ofText s)))).notes
      cases hy : w.yamlFiles ((w.directoryOf source).join (.ofText s)) with
      | error e =>
        refine .error (fun q => ?_) _ _
        rintro rfl
        rw [yamlFiles] at hy
        split at hy <;> cases hy
      | ok files =>
        obtain ⟨d, hd, -, rfl⟩ := yamlFiles_ok hy
        have hnamed : w.tree.named f.dropLast (.ofText s) = some d := by
          obtain ⟨-, -, hl⟩ := h.included (v := .string s) rfl
          exact FileTree.named_of_lookup (hl.symm.trans (FileTree.find?_some hd).2.2)
        rw [hnamed, notes_mentionedFiles, notes_demandedFiles, List.map_map]
        exact Spells.map fun name => hs.entry name
    | null | bool _ | number _ | sequence _ | mapping _ | tagged _ _ => exact spells_invalid _ _
  secret v := spelling_lift fun e he => secretFor_error he
  environment v := spelling_lift fun e he => variableFor_error he

theorem Settled.named_join {t : FileTree} {directory : FilePath} (hs : Settled t directory home)
    (hp : p.parts ≠ []) : t.named t.workingDirectory (directory.join p) = t.named home p := by
  cases ha : p.isAbsolute with
  | true =>
    rw [FilePath.join_absolute _ ha, FileTree.named_absolute ha, FileTree.named_absolute ha]
  | false =>
    rw [FileTree.named_join _ ha hp, FileTree.named_of_lookup hs.fromWorking,
      FileTree.named_relative ha]
    rfl

/-- A file is opened by a path that is spelled below the directory of the configuration. -/
structure Opened (w : Workspace) (home : Place) (p : FilePath) (f : Place) (v : Value) : Prop where
  found : w.tree.find? (w.directory.join p) = some f
  fromHome : w.tree.lookup home p = some f
  at_place : w.At home (w.directory.join p) f
  holds : w.Holds f v

theorem opened_of_read (ht : w.tree.Proper) (hs : Settled w.tree w.directory home) (hp : p.parts ≠ [])
    (hr : w.tree.read? (w.directory.join p) = some content) (hv : Value.ofText? content = some v) :
    ∃ f, w.Opened home p f v := by
  obtain ⟨f, hfind, hc, hl, hat⟩ := at_of_read ht hs hp hr
  exact ⟨f, hfind, hl, hat, content, hc, hv⟩

/-- A path that the file at `f` asks for; a file that it leads to is included. -/
structure Asks (w : Workspace) (home f : Place) (q : FilePath) : Prop where
  nonempty : q.parts ≠ []
  includes : ∀ g, w.tree.named home q = some g → (w.tree.content? g).isSome = true → w.Includes f g

section

variable (h : w.Opened home p f v)

include h

theorem Opened.named : w.tree.named home p = some f := FileTree.named_of_lookup h.fromHome

theorem Opened.spells :
    Spells (w.directoryOf (w.directory.join p)) (w.mentions f v) (w.demands (w.directory.join p) v) :=
  Simulation.replace_rel (spelling_tags h.at_place) v

theorem Opened.named_of_spelled {written : FilePath}
    (hw : FilePath.Spelled (w.directoryOf (w.directory.join p)) written q) :
    w.tree.named home q = w.tree.named f.dropLast written :=
  FileTree.named_of_spelled h.at_place.directoryOf_named hw

theorem Opened.asks {before after : List Demand}
    (hds : w.demands (w.directory.join p) v = before ++ .ok q :: after)
    (hok : ∀ d ∈ before, ∃ x, d = .ok x) : w.Asks home f q := by
  rcases (hds ▸ h.spells).split hok with ⟨first, written, last, x, hm, hx, hw, -⟩ | ⟨e, he, -⟩
  · cases hx
    refine ⟨hw.nonempty, fun g hg hfile => ⟨v, h.holds, written, ?_, ?_, hfile⟩⟩
    · rw [hm]
      exact List.mem_append_right _ (List.mem_cons_self ..)
    · rw [← h.named_of_spelled hw, hg]
  · cases he

theorem Opened.asks_of_mem {demanded after : List Demand}
    (hds : w.demands (w.directory.join p) v = demanded ++ after)
    (hok : ∀ d ∈ demanded, ∃ x, d = .ok x) (hq : .ok q ∈ demanded) : w.Asks home f q := by
  obtain ⟨before, rest, rfl⟩ := List.append_of_mem hq
  rw [List.append_assoc, List.cons_append] at hds
  exact h.asks hds fun d hd => hok d (List.mem_append_left _ hd)

theorem Opened.demands_of_includes
    (hok : ∀ d ∈ w.demands (w.directory.join p) v, ∃ x, d = .ok x) (hg : w.Includes f g) :
    ∃ q, .ok q ∈ w.demands (w.directory.join p) v ∧ w.tree.named home q = some g := by
  obtain ⟨u, hu, written, hm, hg, -⟩ := hg
  rw [hu.unique h.holds] at hm
  obtain ⟨q, hq, hw⟩ := h.spells.all hok written hm
  exact ⟨q, hq, (h.named_of_spelled hw).trans hg⟩

end

/-- A file can be read, and so can all the files that it asks for, down to the last. -/
inductive Completes (w : Workspace) : FilePath → Prop
  | file {p : FilePath} {content : String} {v : Value}
      (hr : w.tree.read? (w.directory.join p) = some content) (hv : Value.ofText? content = some v)
      (hok : ∀ d ∈ w.demands (w.directory.join p) v, ∃ q, d = .ok q)
      (hall : ∀ q, .ok q ∈ w.demands (w.directory.join p) v → Completes w q) : Completes w p

def Ends (w : Workspace) (f : Place) : Prop := Acc (fun g f => w.Includes f g) f

theorem Ends.not_cycle (h : w.Ends f) : ¬ TransGen w.Includes f f := by
  induction h with
  | intro f _ ih =>
    intro hcycle
    obtain ⟨g, hfg, hgf⟩ := TransGen.head'_iff.mp hcycle
    exact ih g hfg (TransGen.tail' hgf hfg)

theorem Ends.of_transGen (h : w.Ends f) (hg : TransGen w.Includes f g) : w.Ends g := by
  induction hg with
  | single hi => exact h.inv hi
  | tail _ hi ih => exact ih.inv hi

def Leading (w : Workspace) (home : Place) (places : List Place) (p : FilePath) : Prop :=
  ∀ f, w.tree.named home p = some f → (w.tree.content? f).isSome = true →
    ∀ g ∈ places, TransGen w.Includes g f

variable {depth : Nat} {loading : List FilePath} {places : List Place}

theorem Asks.leading (h : w.Asks home f q) (hplaces : ∀ g ∈ places, TransGen w.Includes g f) :
    w.Leading home (f :: places) q := by
  intro g hg hfile
  have hi := h.includes g hg hfile
  exact List.forall_mem_cons.mpr ⟨.single hi, fun x hx => (hplaces x hx).tail hi⟩

section

variable (ht : w.tree.Proper) (hs : Settled w.tree w.directory home)

include ht hs

theorem Completes.ends (h : w.Completes p) (hp : p.parts ≠ []) (hf : w.tree.named home p = some f) :
    w.Ends f := by
  induction h generalizing f with
  | file hr hv hok _ ih =>
    obtain ⟨f', hopen⟩ := opened_of_read ht hs hp hr hv
    obtain rfl : f' = f := Option.some.inj (hopen.named.symm.trans hf)
    refine Acc.intro _ fun g hg => ?_
    obtain ⟨q, hq, hn⟩ := hopen.demands_of_includes hok hg
    exact ih q hq (hopen.asks_of_mem (List.append_nil _).symm hok hq).nonempty hn

theorem Completes.named (h : w.Completes p) (hp : p.parts ≠ []) :
    ∃ f, w.tree.named home p = some f ∧ w.Ends f := by
  obtain ⟨f, hopen⟩ : ∃ f v, w.Opened home p f v := by
    cases h with
    | @file _ _ v hr hv _ _ =>
      obtain ⟨f, hopen⟩ := opened_of_read ht hs hp hr hv
      exact ⟨f, v, hopen⟩
  obtain ⟨v, hopen⟩ := hopen
  exact ⟨f, hopen.named, h.ends ht hs hp hopen.named⟩

theorem Completes.answer (h : w.Completes p) (hp : p.parts ≠ []) (hstack : Stacked w.tree loading places)
    (hlead : w.Leading home places p) (hd : w.tree.files.length ≤ depth + loading.length) :
    ∃ v, w.answerWithin depth loading p = .ok v := by
  induction h generalizing depth loading places with
  | @file p content v hr hv hok hall ih =>
    obtain ⟨f, hopen⟩ := opened_of_read ht hs hp hr hv
    have hfile := hopen.holds.isSome
    have hplaces := hlead f hopen.named hfile
    have hends := (Completes.file hr hv hok hall).ends ht hs hp hopen.named
    have hfresh : f ∉ places := fun hm => hends.not_cycle (hplaces f hm)
    cases depth with
    | zero => exact absurd (hstack.depth_pos hfresh hfile hd) (Nat.lt_irrefl 0)
    | succ depth =>
      have hnot : isLoading (w.directory.join p) loading = false := by
        rw [Bool.eq_false_iff]
        exact fun hi => hfresh (hstack.mem_of_isLoading hopen.at_place.fromWorking hi)
      have hroom : w.tree.files.length ≤ depth + (w.directory.join p :: loading).length := by
        rw [List.length_cons]
        omega
      have hmet : ∀ d ∈ w.demands (w.directory.join p) v,
          Demand.Met (w.answerWithin depth (w.directory.join p :: loading)) d := by
        intro d hd'
        obtain ⟨q, rfl⟩ := hok d hd'
        have hasks := hopen.asks_of_mem (List.append_nil _).symm hok hd'
        obtain ⟨u, hu⟩ := ih q hd' hasks.nonempty (hstack.cons hopen.found hfresh hfile)
          (hasks.leading hplaces) hroom
        exact ⟨q, u, rfl, hu⟩
      have hfail := failure?_answerWithin depth hnot hr hv
      rw [Demand.failure?_eq_none.mpr hmet] at hfail
      cases hans : w.answerWithin (depth + 1) loading p with
      | ok u => exact ⟨u, rfl⟩
      | error e =>
        rw [hans] at hfail
        cases hfail

end

/-- What is loaded has come to an end. -/
theorem completes_of_answer {u : Value} (h : w.answerWithin depth loading p = .ok u) : w.Completes p := by
  induction depth generalizing p loading u with
  | zero =>
    rw [answerWithin_zero] at h
    cases h
  | succ depth ih =>
    rcases w.answerWithin_cases depth loading p with
      ⟨-, he⟩ | he | he | ⟨content, v, hl, hr, hv⟩
    · cases he.symm.trans h
    · cases he.symm.trans h
    · cases he.symm.trans h
    · have hfail := failure?_answerWithin depth hl hr hv
      rw [h] at hfail
      have hmet := Demand.failure?_eq_none.mp hfail.symm
      refine .file hr hv (fun d hd => ?_) fun q hq => ?_
      · obtain ⟨q, -, rfl, -⟩ := hmet d hd
        exact ⟨q, rfl⟩
      · obtain ⟨q', u', hq', hu'⟩ := hmet _ hq
        cases hq'
        exact ih hu'

end Workspace

end TopicHub
