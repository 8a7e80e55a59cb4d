import Mathlib.Data.List.Basic
import Mathlib.Data.List.Induction
import TopicHub.Configuration.FileTree

/-!
Where paths lead. A path below another is followed from where the other leads, and the directory of a
file is where the path without its last component leads, however either of them is written.
-/

namespace TopicHub

namespace FilePath

theorem isAbsolute_cons (a : String) (s : List String) :
    isAbsolute ⟨a :: s⟩ = (a = "" && !s.isEmpty) := by
  cases s with
  | nil => simp [isAbsolute]
  | cons b s => by_cases h : a = "" <;> simp [isAbsolute, h]

theorem isAbsolute_single (a : String) : isAbsolute ⟨[a]⟩ = false := by simp [isAbsolute_cons]

theorem isEmpty_cons (a : String) (s : List String) :
    isEmpty ⟨a :: s⟩ = (a = "" && s.isEmpty) := by
  cases s with
  | nil => simp [isEmpty]
  | cons b s => simp [isEmpty]

theorem not_isAbsolute_of_isEmpty {p : FilePath} (h : p.isEmpty = true) : p.isAbsolute = false := by
  obtain ⟨parts⟩ := p
  cases parts with
  | nil => rfl
  | cons a s =>
    rw [isEmpty_cons, Bool.and_eq_true] at h
    rw [isAbsolute_cons, h.2]
    exact Bool.and_false _

theorem join_absolute (base : FilePath) {p : FilePath} (h : p.isAbsolute = true) :
    base.join p = p := by
  rw [join, h]
  rfl

/-- What a joined path keeps of the path in front: all but a slash at its end. -/
def stem (p : FilePath) : List String :=
  if p.isEmpty then [] else if p.parts.getLast? = some "" then p.parts.dropLast else p.parts

theorem parts_join (base : FilePath) {p : FilePath} (h : p.isAbsolute = false) :
    (base.join p).parts = base.stem ++ p.parts := by
  rw [join, h, stem, Bool.false_or]
  by_cases he : base.isEmpty = true
  · rw [if_pos he, if_pos he]
    rfl
  · rw [if_neg he, if_neg he]
    split <;> rfl

theorem isAbsolute_join (base : FilePath) {p : FilePath} (h : p.isAbsolute = false)
    (hp : p.parts ≠ []) : (base.join p).isAbsolute = base.isAbsolute := by
  obtain ⟨parts⟩ := base
  have hj : (join ⟨parts⟩ p).isAbsolute = isAbsolute ⟨stem ⟨parts⟩ ++ p.parts⟩ := by
    rw [← parts_join _ h]
  rw [hj, stem]
  split
  · rename_i he
    rw [not_isAbsolute_of_isEmpty he]
    exact h
  · rename_i he
    cases parts with
    | nil => exact absurd rfl he
    | cons a s =>
      rw [isEmpty_cons] at he
      split
      · rename_i hl
        cases s with
        | nil =>
          have ha : a = "" := Option.some.inj hl
          exact absurd (by simp [ha]) he
        | cons b s =>
          rw [List.dropLast_cons_of_ne_nil (List.cons_ne_nil b s), List.cons_append,
            isAbsolute_cons, isAbsolute_cons]
          simp [hp]
      · rw [List.cons_append, isAbsolute_cons, isAbsolute_cons]
        cases s with
        | nil =>
          have ha : a ≠ "" := fun ha => he (by simp [ha])
          simp [ha]
        | cons b s => rfl

def names (p : FilePath) : List String := p.parts.filter fun part => !isIdle part

theorem components_absolute {p : FilePath} (h : p.isAbsolute = true) :
    p.components = "" :: p.names := by
  obtain ⟨parts⟩ := p
  cases parts with
  | nil => cases h
  | cons a s =>
    have ha : a = "" := by
      rw [isAbsolute_cons, Bool.and_eq_true, decide_eq_true_eq] at h
      exact h.1
    subst ha
    rw [components, body, anchor, if_pos h]
    rfl

theorem anchor_append_body (p : FilePath) : p.anchor ++ p.body = p.parts := by
  obtain ⟨parts⟩ := p
  rw [body, anchor]
  split
  · rename_i h
    cases parts with
    | nil => cases h
    | cons a s =>
      rw [isAbsolute_cons, Bool.and_eq_true, decide_eq_true_eq] at h
      rw [h.1]
      rfl
  · split
    · rename_i s hs
      cases hs
      rfl
    · rfl

theorem isIdle_anchor (p : FilePath) : ∀ part ∈ p.anchor, isIdle part = true := by
  rw [anchor]
  split
  · decide
  · split <;> decide

theorem dropIdleEnd_concat {part : String} (h : isIdle part = false) (parts : List String) :
    dropIdleEnd (parts ++ [part]) = parts ++ [part] := by
  rw [dropIdleEnd, List.reverse_concat, List.dropWhile_cons_of_neg (by simp [h]), List.reverse_cons,
    List.reverse_reverse]

theorem dropIdleEnd_concat_idle {part : String} (h : isIdle part = true) (parts : List String) :
    dropIdleEnd (parts ++ [part]) = dropIdleEnd parts := by
  rw [dropIdleEnd, List.reverse_concat, List.dropWhile_cons_of_pos h, dropIdleEnd]

theorem dropIdleEnd_prefix (parts : List String) : dropIdleEnd parts <+: parts := by
  have h := List.dropWhile_suffix isIdle (l := parts.reverse)
  rw [dropIdleEnd, ← List.reverse_suffix, List.reverse_reverse]
  exact h

theorem body_of_name {p : FilePath} {before : List String} {name : String}
    (h : p.parts = before ++ [name]) (hn : isIdle name = false) :
    ∃ s, p.body = s ++ [name] ∧ before = p.anchor ++ s := by
  have hp := p.anchor_append_body
  rw [h] at hp
  rcases List.eq_nil_or_concat' p.body with hb | ⟨s, x, hb⟩
  · rw [hb, List.append_nil] at hp
    have hm : name ∈ p.anchor := by simp [hp]
    rw [isIdle_anchor p name hm] at hn
    cases hn
  · rw [hb, ← List.append_assoc] at hp
    obtain ⟨hs, hx⟩ := List.append_inj' hp rfl
    cases hx
    exact ⟨s, hb, hs.symm⟩

def above (p : FilePath) (s : List String) : FilePath :=
  if (dropIdleEnd s).isEmpty then
    if p.isAbsolute then root else if p.anchor.isEmpty then ⟨[""]⟩ else ⟨p.anchor⟩
  else ⟨p.anchor ++ dropIdleEnd s⟩

theorem parent?_of_name {p : FilePath} {s : List String} {name : String}
    (h : p.body = s ++ [name]) (hn : isIdle name = false) : p.parent? = some (p.above s) := by
  have hne : s ++ [name] ≠ [] := by simp
  rw [parent?, h, dropIdleEnd_concat hn, above]
  split
  · rename_i hs
    exact absurd hs hne
  · rw [List.dropLast_concat]
    dsimp only
    cases (dropIdleEnd s).isEmpty with
    | false => rfl
    | true =>
      cases p.isAbsolute with
      | true => rfl
      | false => cases p.anchor.isEmpty <;> rfl

theorem anchor_of_absolute {p : FilePath} (h : p.isAbsolute = true) : p.anchor = [""] := by
  rw [anchor, if_pos h]

theorem anchor_of_relative {p : FilePath} (h : p.isAbsolute = false) :
    p.anchor = [] ∨ p.anchor = ["."] := by
  rw [anchor, h, if_neg Bool.false_ne_true]
  split
  · exact Or.inr rfl
  · exact Or.inl rfl

theorem isAbsolute_anchor_append {p : FilePath} {s : List String} (name : String)
    (h : p.parts = p.anchor ++ s ++ [name]) (hs : dropIdleEnd s ≠ []) :
    isAbsolute ⟨p.anchor ++ dropIdleEnd s⟩ = p.isAbsolute := by
  obtain ⟨a, u, hu⟩ := List.exists_cons_of_ne_nil hs
  cases ha : p.isAbsolute with
  | true =>
    rw [anchor_of_absolute ha, hu]
    rfl
  | false =>
    rcases anchor_of_relative ha with hn | hn
    · obtain ⟨v, hv⟩ := dropIdleEnd_prefix s
      rw [hn, ← hv, hu] at h
      rw [isAbsolute, h] at ha
      rw [hn, hu, List.nil_append, isAbsolute_cons]
      have hne : a ≠ "" := by
        rintro rfl
        cases hw : u ++ v ++ [name] with
        | nil => simp at hw
        | cons b w =>
          simp only [List.nil_append, List.cons_append] at ha
          rw [hw] at ha
          cases ha
      simp [hne]
    · rw [hn]
      rfl

theorem isAbsolute_above {p : FilePath} {s : List String} (name : String)
    (h : p.parts = p.anchor ++ s ++ [name]) : (p.above s).isAbsolute = p.isAbsolute := by
  rw [above]
  by_cases hn : dropIdleEnd s = []
  · rw [hn, List.isEmpty_nil, if_pos rfl]
    cases ha : p.isAbsolute with
    | true => rfl
    | false =>
      rcases anchor_of_relative ha with hn | hn
      · rw [hn]
        rfl
      · rw [hn]
        rfl
  · have hi : (dropIdleEnd s).isEmpty = false := by simpa using hn
    rw [hi, if_neg Bool.false_ne_true, isAbsolute_anchor_append name h hn]

theorem filter_dropIdleEnd (parts : List String) :
    (dropIdleEnd parts).filter (fun part => !isIdle part) =
      parts.filter fun part => !isIdle part := by
  induction parts using List.reverseRecOn with
  | nil => rfl
  | append_singleton parts part ih =>
    cases h : isIdle part with
    | false => rw [dropIdleEnd_concat h]
    | true =>
      rw [dropIdleEnd_concat_idle h, ih]
      simp [h]

theorem filter_stem (p : FilePath) : p.stem.filter (fun part => !isIdle part) = p.names := by
  obtain ⟨parts⟩ := p
  rw [stem, names]
  split
  · rename_i h
    cases parts with
    | nil => rfl
    | cons a s =>
      rw [isEmpty_cons, Bool.and_eq_true, decide_eq_true_eq, List.isEmpty_iff] at h
      obtain ⟨rfl, rfl⟩ := h
      rfl
  · split
    · rename_i hl
      obtain ⟨s, rfl⟩ := List.getLast?_eq_some_iff.mp hl
      rw [List.dropLast_concat, List.filter_append]
      exact (List.append_nil _).symm
    · rfl

theorem names_join (base : FilePath) {p : FilePath} (h : p.isAbsolute = false) :
    (base.join p).names = base.names ++ p.names := by
  rw [names, parts_join base h, List.filter_append, filter_stem]
  rfl

theorem names_anchor (p : FilePath) : p.anchor.filter (fun part => !isIdle part) = [] := by
  rw [List.filter_eq_nil_iff]
  intro part hp
  simp [isIdle_anchor p part hp]

theorem names_above (p : FilePath) (s : List String) :
    (p.above s).names = s.filter fun part => !isIdle part := by
  rw [above]
  split
  · rename_i h
    rw [← filter_dropIdleEnd s, List.isEmpty_iff.mp h]
    split
    · rfl
    · split
      · rfl
      · exact names_anchor p
  · rw [names, List.filter_append, names_anchor, filter_dropIdleEnd]
    rfl

theorem names_components (p : FilePath) :
    p.components.filter (fun part => !isIdle part) = p.names := by
  rw [components, List.filter_append, names_anchor, List.nil_append, List.filter_filter, names,
    ← anchor_append_body p, List.filter_append, names_anchor]
  simp [body]

theorem mem_components_iff {p : FilePath} : "" ∈ p.components ↔ p.isAbsolute = true := by
  cases h : p.isAbsolute with
  | true =>
    rw [components_absolute h]
    exact iff_of_true (List.mem_cons_self ..) rfl
  | false =>
    refine iff_of_false (fun hm => ?_) Bool.false_ne_true
    rcases List.mem_append.mp hm with hm | hm
    · rcases anchor_of_relative h with ha | ha
      · rw [ha] at hm
        cases hm
      · rw [ha] at hm
        exact absurd hm (by decide)
    · exact absurd (List.mem_filter.mp hm).2 (by decide)

theorem of_components_eq {p q : FilePath} (h : p.components = q.components) :
    p.isAbsolute = q.isAbsolute ∧ p.names = q.names := by
  constructor
  · rw [Bool.eq_iff_iff, ← mem_components_iff, ← mem_components_iff, h]
  · rw [← names_components, ← names_components, h]

end FilePath

namespace FileTree

variable (t : FileTree)

def follow (here : Place) (parts : List String) : Option Place := parts.foldlM t.step? here

/-- Where a path leads from a directory, however long it is. -/
def lookup (here : Place) (p : FilePath) : Option Place :=
  t.follow (if p.isAbsolute then [] else here) p.parts

/-- No file stands where a directory does. -/
def Proper : Prop := ∀ f ∈ t.files, t.isDirectory f.1 = false

instance : Decidable t.Proper := inferInstanceAs (Decidable (∀ f ∈ t.files, t.isDirectory f.1 = false))

variable {t} {here place : Place} {p : FilePath} {parts : List String}

theorem find?_eq (h : p.isEmpty = false) (hl : p.text.utf8ByteSize ≤ pathLimit) :
    t.find? p = t.lookup t.workingDirectory p := by
  rw [find?, h, if_neg (by simpa using hl)]
  rfl

theorem find?_some (h : t.find? p = some place) : p.isEmpty = false ∧
    p.text.utf8ByteSize ≤ pathLimit ∧ t.lookup t.workingDirectory p = some place := by
  rw [find?] at h
  split at h
  · cases h
  · rename_i hn
    simp only [Bool.or_eq_true, decide_eq_true_eq, not_or, Nat.not_lt, Bool.not_eq_true] at hn
    exact ⟨hn.1, hn.2, h⟩

theorem lookup_absolute (h : p.isAbsolute = true) (here there : Place) :
    t.lookup here p = t.lookup there p := by
  rw [lookup, lookup, if_pos h, if_pos h]

theorem lookup_relative (h : p.isAbsolute = false) (here : Place) :
    t.lookup here p = t.follow here p.parts := by
  rw [lookup, h]
  rfl

theorem follow_cons (here : Place) (part : String) (parts : List String) :
    t.follow here (part :: parts) = (t.step? here part).bind fun next => t.follow next parts := rfl

theorem follow_append (here : Place) (as bs : List String) :
    t.follow here (as ++ bs) = (t.follow here as).bind fun next => t.follow next bs :=
  List.foldlM_append

theorem follow_concat (here : Place) (parts : List String) (part : String) :
    t.follow here (parts ++ [part]) = (t.follow here parts).bind fun next => t.step? next part := by
  rw [follow_append]
  congr 1
  funext next
  exact bind_pure _

theorem step?_idle {part : String} (h : FilePath.isIdle part = true) (here : Place) :
    t.step? here part = if t.isDirectory here then some here else none := by
  rw [step?, h]
  cases t.isDirectory here <;> rfl

theorem step?_of_not_isDirectory (h : t.isDirectory here = false) (part : String) :
    t.step? here part = none := by
  rw [step?, h]
  rfl

theorem isDirectory_of_lookup (h : t.lookup here p = some place) (ha : p.isAbsolute = false)
    (hp : p.parts ≠ []) : t.isDirectory here = true := by
  obtain ⟨part, parts, hparts⟩ := List.exists_cons_of_ne_nil hp
  rw [lookup_relative ha, hparts, follow_cons] at h
  cases hd : t.isDirectory here with
  | true => rfl
  | false =>
    rw [step?_of_not_isDirectory hd] at h
    cases h

/-- What one part of a path does. -/
theorem step?_cases {part : String} (h : t.step? here part = some place) :
    t.isDirectory here = true ∧
      ((FilePath.isIdle part = true ∧ place = here) ∨ (part = ".." ∧ place = here.dropLast) ∨
        (FilePath.isIdle part = false ∧ part ≠ ".." ∧ place = here ++ [part])) := by
  rw [step?] at h
  cases hd : t.isDirectory here with
  | false => simp [hd] at h
  | true =>
    refine ⟨rfl, ?_⟩
    simp only [hd, Bool.not_true, Bool.false_eq_true, if_false] at h
    split at h
    · rename_i hi
      exact Or.inl ⟨hi, (Option.some.inj h).symm⟩
    · rename_i hi
      split at h
      · rename_i hp
        exact Or.inr (Or.inl ⟨hp, (Option.some.inj h).symm⟩)
      · rename_i hp
        split at h
        · exact Or.inr (Or.inr ⟨by simpa using hi, hp, (Option.some.inj h).symm⟩)
        · cases h

theorem isDirectory_dropLast (h : t.isDirectory place = true) : t.isDirectory place.dropLast = true := by
  have hp := List.dropLast_prefix place
  simp only [isDirectory, Bool.or_eq_true, List.any_eq_true, Bool.and_eq_true, decide_eq_true_eq,
    List.isPrefixOf_iff_prefix] at h ⊢
  rcases h with (h | ⟨d, hd, hpre⟩) | ⟨f, hf, hpre, hl⟩
  · left; left
    simp [List.isEmpty_iff.mp h]
  · left; right
    exact ⟨d, hd, hp.trans hpre⟩
  · right
    refine ⟨f, hf, hp.trans hpre, ?_⟩
    rw [List.length_dropLast]
    omega

theorem bind_follow_cons (part : String) (parts : List String) (here : Place) :
    ((if t.isDirectory here then some here else none).bind fun d => t.follow d (part :: parts)) =
      t.follow here (part :: parts) := by
  cases hd : t.isDirectory here with
  | true => rfl
  | false =>
    rw [follow_cons, step?_of_not_isDirectory hd]
    rfl

theorem follow_stem (base : FilePath) (part : String) (parts : List String) (here : Place) :
    t.follow here (base.stem ++ part :: parts) =
      (t.follow here base.parts).bind fun d => t.follow d (part :: parts) := by
  obtain ⟨bs⟩ := base
  have hidle (d : Place) : t.follow d [""] = if t.isDirectory d then some d else none := by
    rw [follow_cons, step?_idle rfl]
    cases t.isDirectory d <;> rfl
  rw [FilePath.stem]
  split
  · rename_i he
    cases bs with
    | nil => rfl
    | cons a s =>
      rw [FilePath.isEmpty_cons, Bool.and_eq_true, decide_eq_true_eq, List.isEmpty_iff] at he
      obtain ⟨rfl, rfl⟩ := he
      rw [hidle, bind_follow_cons]
      rfl
  · split
    · rename_i hl
      obtain ⟨s, hs⟩ := List.getLast?_eq_some_iff.mp hl
      change bs = s ++ [""] at hs
      change t.follow here (bs.dropLast ++ part :: parts) = (t.follow here bs).bind _
      rw [hs, List.dropLast_concat, follow_append, follow_append, Option.bind_assoc]
      congr 1
      funext d
      rw [hidle, bind_follow_cons]
    · exact follow_append ..

theorem lookup_join (base : FilePath) (h : p.isAbsolute = false) (hp : p.parts ≠ [])
    (here : Place) :
    t.lookup here (base.join p) = (t.lookup here base).bind fun d => t.lookup d p := by
  obtain ⟨a, s, hs⟩ := List.exists_cons_of_ne_nil hp
  rw [lookup, FilePath.isAbsolute_join base h hp, FilePath.parts_join base h, hs, follow_stem, lookup]
  congr 1
  funext d
  rw [lookup_relative h, hs]

theorem follow_dropIdleEnd (h : t.follow here parts = some place) :
    t.follow here (FilePath.dropIdleEnd parts) = some place := by
  induction parts using List.reverseRecOn generalizing place with
  | nil => exact h
  | append_singleton parts part ih =>
    cases hi : FilePath.isIdle part with
    | false =>
      rw [FilePath.dropIdleEnd_concat hi]
      exact h
    | true =>
      rw [FilePath.dropIdleEnd_concat_idle hi]
      rw [follow_concat] at h
      obtain ⟨d, hd, hs⟩ := Option.bind_eq_some_iff.mp h
      rw [step?_idle hi] at hs
      split at hs
      · rw [← Option.some.inj hs]
        exact ih hd
      · cases hs

theorem lookup_file (h : t.lookup here p = some place) (hf : t.isDirectory place = false)
    (hp : p.isEmpty = false) :
    ∃ before name, p.parts = before ++ [name] ∧ FilePath.isIdle name = false ∧
      place.getLast? = some name ∧ t.isDirectory place.dropLast = true ∧
      t.follow (if p.isAbsolute then [] else here) before = some place.dropLast := by
  rcases List.eq_nil_or_concat' p.parts with hn | ⟨before, name, hb⟩
  · have he : p.isEmpty = true := by rw [FilePath.isEmpty, hn]
    rw [he] at hp
    cases hp
  · rw [lookup, hb, follow_concat] at h
    obtain ⟨d, hd, hs⟩ := Option.bind_eq_some_iff.mp h
    obtain ⟨hdir, ⟨-, rfl⟩ | ⟨-, rfl⟩ | ⟨hi, -, rfl⟩⟩ := step?_cases hs
    · rw [hdir] at hf
      cases hf
    · rw [isDirectory_dropLast hdir] at hf
      cases hf
    · refine ⟨before, name, hb, hi, List.getLast?_concat, ?_, ?_⟩
      · rw [List.dropLast_concat]
        exact hdir
      · rw [List.dropLast_concat]
        exact hd

theorem lookup_above {s : List String} (name : String) (hb : p.parts = p.anchor ++ s ++ [name])
    (h : t.follow (if p.isAbsolute then [] else here) (p.anchor ++ s) = some place)
    (hd : t.isDirectory place = true) : t.lookup here (p.above s) = some place := by
  rw [follow_append] at h
  obtain ⟨e, he, hs⟩ := Option.bind_eq_some_iff.mp h
  have hfollow := follow_dropIdleEnd hs
  rw [FilePath.above]
  by_cases hn : FilePath.dropIdleEnd s = []
  · rw [hn, List.isEmpty_nil, if_pos rfl]
    rw [hn] at hfollow
    obtain rfl : e = place := Option.some.inj hfollow
    cases ha : p.isAbsolute with
    | true =>
      rw [ha, FilePath.anchor_of_absolute ha] at he
      rw [if_pos rfl, ← he]
      rfl
    | false =>
      rw [ha, if_neg Bool.false_ne_true] at he
      rcases FilePath.anchor_of_relative ha with hn | hn
      · rw [hn] at he ⊢
        obtain rfl : here = e := Option.some.inj he
        rw [lookup_relative rfl, if_neg Bool.false_ne_true]
        change t.follow here [""] = some here
        rw [follow_cons, step?_idle rfl, if_pos hd]
        rfl
      · rw [hn] at he ⊢
        exact he
  · have hi : (FilePath.dropIdleEnd s).isEmpty = false := by simpa using hn
    rw [hi, if_neg Bool.false_ne_true, lookup, FilePath.isAbsolute_anchor_append name hb hn,
      follow_append, he]
    exact hfollow

theorem lookup_parent (h : t.lookup here p = some place) (hf : t.isDirectory place = false)
    (hp : p.isEmpty = false) : ∃ b, p.parent? = some b ∧ t.lookup here b = some place.dropLast := by
  obtain ⟨before, name, hb, hi, -, hdir, hd⟩ := lookup_file h hf hp
  obtain ⟨s, hs, rfl⟩ := FilePath.body_of_name hb hi
  exact ⟨p.above s, FilePath.parent?_of_name hs hi, lookup_above name hb hd hdir⟩

/-- What a file names from its own directory. -/
theorem lookup_below_parent {q : FilePath} (h : t.lookup here p = some place)
    (hf : t.isDirectory place = false) (hp : p.isEmpty = false) (hq : q.parts ≠ [])
    (fallback : FilePath) :
    t.lookup here ((p.parent?.getD fallback).join q) = t.lookup place.dropLast q := by
  obtain ⟨b, hb, hl⟩ := lookup_parent h hf hp
  rw [hb, Option.getD_some]
  cases ha : q.isAbsolute with
  | true => rw [FilePath.join_absolute b ha, lookup_absolute ha here place.dropLast]
  | false =>
    rw [lookup_join b ha hq, hl]
    rfl

theorem follow_names (h : t.follow here parts = some place) :
    t.follow here (parts.filter fun part => !FilePath.isIdle part) = some place := by
  induction parts generalizing here with
  | nil => exact h
  | cons part parts ih =>
    rw [follow_cons] at h
    obtain ⟨d, hd, hs⟩ := Option.bind_eq_some_iff.mp h
    cases hi : FilePath.isIdle part with
    | false =>
      rw [List.filter_cons_of_pos (by simp [hi]), follow_cons, hd]
      exact ih hs
    | true =>
      rw [List.filter_cons_of_neg (by simp [hi])]
      rw [step?_idle hi] at hd
      split at hd
      · rw [Option.some.inj hd]
        exact ih hs
      · cases hd

/-- The place that the components of a path lead to, whatever dots and slashes stand between them. -/
def named (t : FileTree) (here : Place) (p : FilePath) : Option Place :=
  t.follow (if p.isAbsolute then [] else here) p.names

theorem named_of_lookup (h : t.lookup here p = some place) : t.named here p = some place :=
  follow_names h

theorem named_congr {q : FilePath} (h : p.components = q.components) (here : Place) :
    t.named here p = t.named here q := by
  obtain ⟨ha, hn⟩ := FilePath.of_components_eq h
  rw [named, named, ha, hn]

theorem named_relative (h : p.isAbsolute = false) (here : Place) :
    t.named here p = t.follow here p.names := by
  rw [named, h, if_neg Bool.false_ne_true]

theorem named_absolute (h : p.isAbsolute = true) (here : Place) :
    t.named here p = t.follow [] p.names := by
  rw [named, if_pos h]

theorem follow_down (h : t.follow here parts = some place)
    (hparts : ∀ part ∈ parts, FilePath.isIdle part = false ∧ part ≠ "..") : place = here ++ parts := by
  induction parts generalizing here with
  | nil =>
    rw [List.append_nil]
    exact (Option.some.inj h).symm
  | cons part parts ih =>
    rw [List.forall_mem_cons] at hparts
    obtain ⟨⟨hi, hb⟩, hparts⟩ := hparts
    rw [follow_cons] at h
    obtain ⟨d, hd, h⟩ := Option.bind_eq_some_iff.mp h
    rw [ih h hparts]
    obtain ⟨-, ⟨hi', -⟩ | ⟨hb', -⟩ | ⟨-, -, rfl⟩⟩ := step?_cases hd
    · rw [hi] at hi'
      cases hi'
    · exact absurd hb' hb
    · rw [List.append_assoc, List.singleton_append]

theorem names_parent (h : t.lookup here p = some place) (hf : t.isDirectory place = false)
    (hp : p.isEmpty = false) :
    ∃ b name, p.parent? = some b ∧ b.isAbsolute = p.isAbsolute ∧ p.names = b.names ++ [name] ∧
      place.getLast? = some name := by
  obtain ⟨before, name, hb, hi, hl, -, -⟩ := lookup_file h hf hp
  obtain ⟨s, hs, rfl⟩ := FilePath.body_of_name hb hi
  refine ⟨p.above s, name, FilePath.parent?_of_name hs hi, FilePath.isAbsolute_above name hb, ?_, hl⟩
  rw [FilePath.names, hb, List.filter_append, List.filter_append, FilePath.names_anchor,
    FilePath.names_above]
  simp [hi]

def entries (t : FileTree) (directory : Place) : List String :=
  ((t.files.map Prod.fst ++ t.directories).filterMap (nameWithin? directory)).eraseDups.mergeSort
    fun a b => a ≤ b

theorem names_eq (h : t.find? p = some place) : t.names p = t.entries place := by
  rw [names, h]
  rfl

theorem nameWithin?_eq {directory : Place} {name : String} (h : nameWithin? directory place = some name) :
    ∃ rest, place = directory ++ name :: rest := by
  rw [nameWithin?] at h
  split at h
  · rename_i hp
    obtain ⟨rest, rfl⟩ := List.isPrefixOf_iff_prefix.mp hp
    rw [List.drop_left] at h
    cases rest with
    | nil => cases h
    | cons a rest =>
      cases h
      exact ⟨rest, rfl⟩
  · cases h

theorem holds_entry {name : String} (h : name ∈ t.entries place) : t.holds (place ++ [name]) = true := by
  rw [entries, List.mem_mergeSort, List.mem_eraseDups, List.mem_filterMap] at h
  obtain ⟨q, hq, hn⟩ := h
  obtain ⟨rest, rfl⟩ := nameWithin?_eq hn
  have hpre : place ++ [name] <+: place ++ name :: rest := ⟨rest, by simp⟩
  rw [holds, Bool.or_eq_true]
  rcases List.mem_append.mp hq with hq | hq
  · obtain ⟨f, hf, hfq⟩ := List.mem_map.mp hq
    cases rest with
    | nil =>
      right
      rw [content?, Option.isSome_map, List.find?_isSome]
      exact ⟨f, hf, decide_eq_true hfq⟩
    | cons a rest =>
      left
      simp only [isDirectory, Bool.or_eq_true, List.any_eq_true, Bool.and_eq_true,
        decide_eq_true_eq, List.isPrefixOf_iff_prefix]
      right
      refine ⟨f, hf, ?_, ?_⟩
      · rw [hfq]
        exact hpre
      · rw [hfq]
        simp
  · left
    simp only [isDirectory, Bool.or_eq_true, List.any_eq_true, List.isPrefixOf_iff_prefix]
    left; right
    exact ⟨_, hq, hpre⟩

theorem lookup_entry {name : String} (hd : t.isDirectory place = true)
    (h : name ∈ t.entries place) (hi : FilePath.isIdle name = false) (hp : name ≠ "..") :
    t.lookup place ⟨[name]⟩ = some (place ++ [name]) := by
  have hs : t.step? place name = some (place ++ [name]) := by
    rw [step?, hd, hi, holds_entry h]
    simp [hp]
  rw [lookup_relative (FilePath.isAbsolute_single name), follow_cons, hs]
  rfl

theorem content?_isSome : (t.content? place).isSome = true ↔ place ∈ t.files.map Prod.fst := by
  rw [content?, Option.isSome_map, List.find?_isSome, List.mem_map]
  constructor
  · rintro ⟨f, hf, he⟩
    exact ⟨f, hf, of_decide_eq_true he⟩
  · rintro ⟨f, hf, rfl⟩
    exact ⟨f, hf, decide_eq_true rfl⟩

theorem Proper.not_isDirectory (ht : t.Proper) {content : String} (h : t.content? place = some content) :
    t.isDirectory place = false := by
  have hm : place ∈ t.files.map Prod.fst := content?_isSome.mp (by rw [h]; rfl)
  obtain ⟨f, hf, rfl⟩ := List.mem_map.mp hm
  exact ht f hf

end FileTree

theorem FilePath.ofText_parts_ne_nil (s : String) : (FilePath.ofText s).parts ≠ [] := by
  have hs : ∀ cs, Text.splitOn '/' cs ≠ [] := by
    intro cs
    cases cs with
    | nil => exact nofun
    | cons c cs =>
      rw [Text.splitOn]
      split
      · exact nofun
      · split <;> exact nofun
  simp [FilePath.ofText, hs]

end TopicHub
