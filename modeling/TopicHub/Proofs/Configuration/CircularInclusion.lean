import TopicHub.Proofs.Configuration.Mention

/-!
Circular inclusions. Files that are opened inside each other in the order of loading make a trail, and an
inclusion is reported as circular iff the trail first comes back to a file by a path with the same
components as the one that the file was opened by. A file that is left through another directory is
opened by longer and longer paths instead. Without a cycle nothing is reported as circular, and without
parts that lead back every cycle is.
-/

namespace TopicHub

open Yaml (Value)
open Relation (TransGen)

theorem first_unique {α : Type} {P : α → Prop} {before before' after after' : List α} {a a' : α}
    (h : before ++ a :: after = before' ++ a' :: after') (hbefore : ∀ x ∈ before, P x)
    (hbefore' : ∀ x ∈ before', P x) (ha : ¬ P a) (ha' : ¬ P a') : a = a' := by
  rcases List.append_eq_append_iff.mp h with ⟨as, rfl, has⟩ | ⟨as, rfl, has⟩
  · cases as with
    | nil => exact (List.cons.inj has).1
    | cons b as =>
      obtain ⟨rfl, -⟩ := List.cons.inj has
      exact absurd (hbefore' a (by simp)) ha
  · cases as with
    | nil => exact (List.cons.inj has).1.symm
    | cons b as =>
      obtain ⟨rfl, -⟩ := List.cons.inj has
      exact absurd (hbefore a' (by simp)) ha'

section

variable {α : Type} {f : Nat → α} {len : Nat → Nat} {n : Nat}

/-- What follows depends on the element alone, and so does what it adds to the length. -/
def Determined (f : Nat → α) (len : Nat → Nat) (n : Nat) : Prop :=
  ∀ i k, i ≤ n → k ≤ n → f i = f k → f (i + 1) = f (k + 1) ∧ len (i + 1) + len k = len (k + 1) + len i

theorem Determined.stays (h : Determined f len n) {lo hi i : Nat} (hlo : lo < hi) (hhi : hi ≤ n + 1)
    (hround : f hi = f lo) (hi0 : ∃ k, lo ≤ k ∧ k < hi ∧ f i = f k) (m : Nat) (hm : i + m ≤ n + 1) :
    ∃ k, lo ≤ k ∧ k < hi ∧ f (i + m) = f k := by
  induction m with
  | zero => exact hi0
  | succ m ih =>
    obtain ⟨k, hk, hk', hf⟩ := ih (by omega)
    obtain ⟨hnext, -⟩ := h (i + m) k (by omega) (by omega) hf
    rcases Nat.lt_or_eq_of_le (Nat.succ_le_of_lt hk') with hlt | heq
    · exact ⟨k + 1, by omega, hlt, hnext⟩
    · exact ⟨lo, Nat.le_refl lo, hlo, by rw [← Nat.add_assoc, hnext, ← hround, ← heq]⟩

/-- If a sequence whose length does not shrink comes back with the same length, its length stays the same
on every round before. -/
theorem Determined.flat (h : Determined f len n) (hmono : ∀ i ≤ n, len i ≤ len (i + 1)) {j a b : Nat}
    (hj : j ≤ n) (hf : f (n + 1) = f j) (hlen : len (n + 1) = len j) (hab : a < b) (hb : b ≤ n)
    (hfab : f b = f a) : ∀ i, a ≤ i → i < b → len (i + 1) = len i := by
  have hle : ∀ i m, i + m ≤ n + 1 → len i ≤ len (i + m) := by
    intro i m
    induction m with
    | zero => exact fun _ => Nat.le_refl _
    | succ m ih => exact fun hm => Nat.le_trans (ih (by omega)) (hmono (i + m) (by omega))
  have hlast : ∀ k, j ≤ k → k ≤ n → len (k + 1) = len k := by
    intro k hjk hkn
    have h1 := hle j (k - j) (by omega)
    have h2 := hle (k + 1) (n - k) (by omega)
    have h3 := hmono k hkn
    rw [show j + (k - j) = k by omega] at h1
    rw [show k + 1 + (n - k) = n + 1 by omega] at h2
    omega
  -- the last round is among the elements of the first, and so the first is among those of the last
  have hin : ∃ k, j ≤ k ∧ k < n + 1 ∧ f a = f k := by
    by_cases hja : j ≤ a
    · exact ⟨a, hja, by omega, rfl⟩
    · obtain ⟨c, hac, hcb, hc⟩ := h.stays (i := a) hab (by omega) hfab ⟨a, Nat.le_refl a, hab, rfl⟩
        (j - a) (by omega)
      rw [show a + (j - a) = j by omega] at hc
      obtain ⟨k, hjk, hk, hfk⟩ := h.stays (i := c) (by omega) (Nat.le_refl _) hf
        ⟨j, Nat.le_refl j, by omega, hc.symm⟩ (b - c) (by omega)
      rw [show c + (b - c) = b by omega, hfab] at hfk
      exact ⟨k, hjk, hk, hfk⟩
  intro i hai hib
  obtain ⟨k, hjk, hk, hfk⟩ := h.stays (i := a) (by omega) (Nat.le_refl _) hf hin (i - a) (by omega)
  rw [show a + (i - a) = i by omega] at hfk
  have hsame := (h i k (by omega) (by omega) hfk).2
  have hflat := hlast k hjk (by omega)
  omega

end

namespace Workspace

variable {w : Workspace} {home f g : Place} {p q c : FilePath} {v : Value} {depth n : Nat}
  {loading : List FilePath} {places : List Place} {path : Nat → FilePath}

def fileOf (w : Workspace) (p : FilePath) : Option Place :=
  w.tree.named w.tree.workingDirectory (w.directory.join p)

/-- The file at a path asks for another one behind files that all come to an end. -/
def Leads (w : Workspace) (p q : FilePath) : Prop :=
  ∃ content v before after, w.tree.read? (w.directory.join p) = some content ∧
    Value.ofText? content = some v ∧ w.demands (w.directory.join p) v = before ++ .ok q :: after ∧
    ∀ d ∈ before, ∃ x, d = .ok x ∧ w.Completes x

/-- Files are opened inside each other, in the order of loading. -/
structure Trail (w : Workspace) (p : FilePath) (n : Nat) (path : Nat → FilePath) : Prop where
  entry : path 0 = p
  leads : ∀ i < n, w.Leads (path i) (path (i + 1))

def around (w : Workspace) (path : Nat → FilePath) : Nat → List FilePath
  | 0 => []
  | i + 1 => w.directory.join (path i) :: w.around path i

/-- A trail first comes back to a file: from the `n`-th file to the `j`-th. -/
structure ComesBack (w : Workspace) (p : FilePath) (path : Nat → FilePath) (j n : Nat) : Prop where
  trail : w.Trail p (n + 1) path
  fresh : ∀ a b, a < b → b ≤ n → w.fileOf (path b) ≠ w.fileOf (path a)
  le : j ≤ n
  back : w.fileOf (path (n + 1)) = w.fileOf (path j)

theorem mem_around {s : FilePath} {i : Nat} :
    s ∈ w.around path i ↔ ∃ k < i, s = w.directory.join (path k) := by
  induction i with
  | zero => exact ⟨nofun, fun ⟨_, hk, _⟩ => absurd hk (Nat.not_lt_zero _)⟩
  | succ i ih =>
    rw [around, List.mem_cons, ih]
    constructor
    · rintro (rfl | ⟨k, hk, rfl⟩)
      · exact ⟨i, Nat.lt_succ_self i, rfl⟩
      · exact ⟨k, Nat.lt_succ_of_lt hk, rfl⟩
    · rintro ⟨k, hk, rfl⟩
      rcases Nat.lt_succ_iff_lt_or_eq.mp hk with hk | rfl
      · exact Or.inr ⟨k, hk, rfl⟩
      · exact Or.inl rfl

theorem length_around (path : Nat → FilePath) (i : Nat) : (w.around path i).length = i := by
  induction i with
  | zero => rfl
  | succ i ih => rw [around, List.length_cons, ih]

theorem around_congr {path' : Nat → FilePath} {i : Nat} (h : ∀ k < i, path' k = path k) :
    w.around path' i = w.around path i := by
  induction i with
  | zero => rfl
  | succ i ih =>
    rw [around, around, h i (Nat.lt_succ_self i), ih fun k hk => h k (Nat.lt_succ_of_lt hk)]

theorem isLoading_around {i : Nat} : isLoading q (w.around path i) = true ↔
    ∃ k < i, (w.directory.join (path k)).components = q.components := by
  rw [isLoading_iff]
  constructor
  · rintro ⟨s, hs, hc⟩
    obtain ⟨k, hk, rfl⟩ := mem_around.mp hs
    exact ⟨k, hk, hc⟩
  · rintro ⟨k, hk, hc⟩
    exact ⟨_, mem_around.mpr ⟨k, hk, rfl⟩, hc⟩

theorem Opened.fileOf (h : w.Opened home p f v) : w.fileOf p = some f :=
  FileTree.named_of_lookup h.at_place.fromWorking

theorem ok_of_completes {before : List Demand} (h : ∀ d ∈ before, ∃ x, d = .ok x ∧ w.Completes x) :
    ∀ d ∈ before, ∃ x, d = .ok x := by
  intro d hd
  obtain ⟨x, hx, -⟩ := h d hd
  exact ⟨x, hx⟩

section

variable (ht : w.tree.Proper) (hs : Settled w.tree w.directory home)

include ht hs

theorem Leads.opened (h : w.Leads p q) (hp : p.parts ≠ []) : ∃ f v before after, w.Opened home p f v ∧
    w.demands (w.directory.join p) v = before ++ .ok q :: after ∧
    ∀ d ∈ before, ∃ x, d = .ok x ∧ w.Completes x := by
  obtain ⟨content, v, before, after, hr, hv, hds, hbefore⟩ := h
  obtain ⟨f, hf⟩ := opened_of_read ht hs hp hr hv
  exact ⟨f, v, before, after, hf, hds, hbefore⟩

theorem Leads.parts_ne_nil (h : w.Leads p q) (hp : p.parts ≠ []) : q.parts ≠ [] := by
  obtain ⟨f, v, before, after, hf, hds, hbefore⟩ := h.opened ht hs hp
  exact (hf.asks hds (ok_of_completes hbefore)).nonempty

theorem Leads.includes (h : w.Leads p q) (hp : p.parts ≠ []) (hf : w.fileOf p = some f)
    (hg : w.fileOf q = some g) (hfile : (w.tree.content? g).isSome = true) : w.Includes f g := by
  obtain ⟨f', v, before, after, hf', hds, hbefore⟩ := h.opened ht hs hp
  obtain rfl : f' = f := Option.some.inj (hf'.fileOf.symm.trans hf)
  have hasks := hf'.asks hds (ok_of_completes hbefore)
  exact hasks.includes g ((hs.named_join hasks.nonempty).symm.trans hg) hfile

section

variable (h : w.Trail p n path) (hp : p.parts ≠ [])

include h hp

theorem Trail.parts_ne_nil {i : Nat} (hi : i ≤ n) : (path i).parts ≠ [] := by
  induction i with
  | zero =>
    rw [h.entry]
    exact hp
  | succ i ih => exact (h.leads i (by omega)).parts_ne_nil ht hs (ih (by omega))

theorem Trail.fileOf {i : Nat} (hi : i < n) : ∃ f, w.fileOf (path i) = some f ∧
    (w.tree.content? f).isSome = true := by
  obtain ⟨f, v, -, -, hf, -⟩ := (h.leads i hi).opened ht hs (h.parts_ne_nil ht hs hp (by omega))
  exact ⟨f, hf.fileOf, hf.holds.isSome⟩

theorem Trail.transGen {i k : Nat} (hik : i < k) (hk : k ≤ n) (hf : w.fileOf (path i) = some f)
    (hg : w.fileOf (path k) = some g) (hfile : (w.tree.content? g).isSome = true) :
    TransGen w.Includes f g := by
  induction k generalizing g with
  | zero => exact absurd hik (Nat.not_lt_zero i)
  | succ k ih =>
    have hkn : k < n := hk
    have hlead := h.leads k hkn
    have hparts := h.parts_ne_nil ht hs hp (Nat.le_of_lt hkn)
    rcases Nat.lt_succ_iff_lt_or_eq.mp hik with hlt | rfl
    · obtain ⟨g', hg', hfile'⟩ := h.fileOf ht hs hp hkn
      exact (ih hlt (by omega) hg' hfile').tail (hlead.includes ht hs hparts hg' hg hfile)
    · exact .single (hlead.includes ht hs hparts hf hg hfile)

theorem Trail.stacked (hfresh : ∀ a b, a < b → b < n → w.fileOf (path b) ≠ w.fileOf (path a)) {i : Nat}
    (hi : i ≤ n) : ∃ places, Stacked w.tree (w.around path i) places ∧
      ∀ g ∈ places, ∃ k < i, w.fileOf (path k) = some g := by
  induction i with
  | zero => exact ⟨[], stacked_nil w.tree, nofun⟩
  | succ i ih =>
    obtain ⟨places, hstack, hplaces⟩ := ih (by omega)
    obtain ⟨f, v, -, -, hf, -⟩ :=
      (h.leads i hi).opened ht hs (h.parts_ne_nil ht hs hp (by omega))
    have hnew : f ∉ places := by
      intro hm
      obtain ⟨k, hk, hkf⟩ := hplaces f hm
      exact hfresh k i hk hi (hf.fileOf.trans hkf.symm)
    refine ⟨f :: places, hstack.cons hf.found hnew hf.holds.isSome,
      List.forall_mem_cons.mpr ⟨⟨i, Nat.lt_succ_self i, hf.fileOf⟩, fun g hg => ?_⟩⟩
    obtain ⟨k, hk, hkg⟩ := hplaces g hg
    exact ⟨k, Nat.lt_succ_of_lt hk, hkg⟩

theorem Trail.leading {i : Nat} (hi : i ≤ n)
    (hplaces : ∀ g ∈ places, ∃ k < i, w.fileOf (path k) = some g) : w.Leading home places (path i) := by
  intro f hf hfile g hg
  obtain ⟨k, hk, hkg⟩ := hplaces g hg
  have hf' : w.fileOf (path i) = some f := (hs.named_join (h.parts_ne_nil ht hs hp hi)).trans hf
  exact h.transGen ht hs hp hk hi hkg hf' hfile

end

theorem Leads.error {e : ConfigurationError} (h : w.Leads p q) (hp : p.parts ≠ [])
    (hstack : Stacked w.tree loading places) (hlead : w.Leading home places p)
    (hnew : ∀ f, w.fileOf p = some f → f ∉ places)
    (hd : w.tree.files.length ≤ depth + 1 + loading.length)
    (he : w.answerWithin depth (w.directory.join p :: loading) q = .error e) :
    w.answerWithin (depth + 1) loading p = .error e := by
  obtain ⟨content, v, before, after, hr, hv, hds, hbefore⟩ := h
  obtain ⟨f, hf⟩ := opened_of_read ht hs hp hr hv
  have hfile := hf.holds.isSome
  have hfresh := hnew f hf.fileOf
  have hnot : isLoading (w.directory.join p) loading = false := by
    rw [Bool.eq_false_iff]
    exact fun hi => hfresh (hstack.mem_of_isLoading hf.at_place.fromWorking hi)
  have hroom : w.tree.files.length ≤ depth + (w.directory.join p :: loading).length := by
    rw [List.length_cons]
    omega
  have hmet : ∀ d ∈ before, Demand.Met (w.answerWithin depth (w.directory.join p :: loading)) d := by
    intro d hd'
    obtain ⟨x, rfl, hx⟩ := hbefore d hd'
    have hasks := hf.asks_of_mem hds (ok_of_completes hbefore) hd'
    obtain ⟨u, hu⟩ := hx.answer ht hs hasks.nonempty (hstack.cons hf.found hfresh hfile)
      (hasks.leading (hlead f hf.named hfile)) hroom
    exact ⟨x, u, rfl, hu⟩
  apply LoadM.error_of_failure?
  rw [failure?_answerWithin depth hnot hr hv, hds]
  exact Demand.failure?_eq_some.mpr ⟨before, _, after, rfl, hmet, Or.inr ⟨q, rfl, he⟩⟩

/-- A file is circular because it is being loaded, or because the first file that it asks for and that
does not come to an end is. -/
theorem circular_cases (hp : p.parts ≠ [])
    (h : w.answerWithin depth loading p = .error (.circularInclude c)) : ∃ d, depth = d + 1 ∧
      (isLoading (w.directory.join p) loading = true ∧ c = w.directory.join p ∨
        isLoading (w.directory.join p) loading = false ∧ ∃ q, w.Leads p q ∧
          w.answerWithin d (w.directory.join p :: loading) q = .error (.circularInclude c)) := by
  cases depth with
  | zero =>
    rw [answerWithin_zero] at h
    cases h
  | succ d =>
    refine ⟨d, rfl, ?_⟩
    rcases w.answerWithin_cases d loading p with ⟨hl, he⟩ | he | he | ⟨content, v, hl, hr, hv⟩
    · cases he.symm.trans h
      exact Or.inl ⟨hl, rfl⟩
    · cases he.symm.trans h
    · cases he.symm.trans h
    · obtain ⟨f, hf⟩ := opened_of_read ht hs hp hr hv
      have hfail := failure?_answerWithin d hl hr hv
      rw [h] at hfail
      obtain ⟨before, x, after, hds, hmet, hx⟩ := Demand.failure?_eq_some.mp hfail.symm
      have hbefore : ∀ d ∈ before, ∃ y, d = .ok y ∧ w.Completes y := by
        intro y hy
        obtain ⟨y', u, rfl, hu⟩ := hmet y hy
        exact ⟨y', rfl, completes_of_answer hu⟩
      rcases hx with rfl | ⟨q, rfl, hq⟩
      · rcases (hds ▸ hf.spells).split (ok_of_completes hbefore) with
          ⟨_, _, _, _, -, hx, -⟩ | ⟨e, he, hne⟩
        · cases hx
        · cases he
          exact absurd rfl (hne c)
      · exact Or.inr ⟨hl, q, ⟨content, v, before, after, hr, hv, hds, hbefore⟩, hq⟩

theorem ComesBack.circular {j : Nat} (h : w.ComesBack p path j n) (hp : p.parts ≠ [])
    (hc : (w.directory.join (path (n + 1))).components = (w.directory.join (path j)).components) :
    w.answerWithin (depthLimit w.tree) [] p =
      .error (.circularInclude (w.directory.join (path (n + 1)))) := by
  have hfresh : ∀ a b, a < b → b < n + 1 → w.fileOf (path b) ≠ w.fileOf (path a) :=
    fun a b hab hb => h.fresh a b hab (Nat.le_of_lt_succ hb)
  have hstacked : ∀ i ≤ n + 1, ∃ places d, Stacked w.tree (w.around path i) places ∧
      (∀ g ∈ places, ∃ k < i, w.fileOf (path k) = some g) ∧ depthLimit w.tree = i + d + 1 := by
    intro i hi
    obtain ⟨places, hstack, hplaces⟩ := h.trail.stacked ht hs hp hfresh hi
    have hle := hstack.length_le
    rw [length_around] at hle
    obtain ⟨d, hd⟩ := Nat.exists_eq_add_of_lt (Nat.lt_of_le_of_lt hle (length_files_lt_depthLimit _))
    exact ⟨places, d, hstack, hplaces, hd⟩
  -- the error is passed on from the file that comes back to the first
  have hback : ∀ m i, i + m = n + 1 →
      w.answerWithin (depthLimit w.tree - i) (w.around path i) (path i) =
        .error (.circularInclude (w.directory.join (path (n + 1)))) := by
    intro m
    induction m with
    | zero =>
      intro i hi
      obtain rfl : i = n + 1 := hi
      obtain ⟨places, d, -, -, hd⟩ := hstacked (n + 1) (Nat.le_refl _)
      rw [show depthLimit w.tree - (n + 1) = d + 1 by omega]
      exact answerWithin_loading (isLoading_around.mpr ⟨j, Nat.lt_succ_of_le h.le, hc.symm⟩)
    | succ m ih =>
      intro i hi
      have hin : i < n + 1 := by omega
      obtain ⟨places, d, hstack, hplaces, hd⟩ := hstacked i (Nat.le_of_lt hin)
      have hnew : ∀ f, w.fileOf (path i) = some f → f ∉ places := by
        intro f hf hm
        obtain ⟨k, hk, hkf⟩ := hplaces f hm
        exact hfresh k i hk hin (hf.trans hkf.symm)
      have hroom : w.tree.files.length ≤ d + 1 + (w.around path i).length := by
        have hlt := length_files_lt_depthLimit w.tree
        rw [length_around]
        omega
      have hi' := ih (i + 1) (by omega)
      rw [show depthLimit w.tree - (i + 1) = d by omega] at hi'
      rw [show depthLimit w.tree - i = d + 1 by omega]
      exact (h.trail.leads i hin).error ht hs (h.trail.parts_ne_nil ht hs hp (Nat.le_of_lt hin)) hstack
        (h.trail.leading ht hs hp (Nat.le_of_lt hin) hplaces) hnew hroom hi'
  have hfirst := hback (n + 1) 0 (by omega)
  rw [h.trail.entry] at hfirst
  exact hfirst

/-- What is circular has been reached by a trail of paths with different components. -/
theorem exists_trail (hp : p.parts ≠ []) (depth i : Nat) (path : Nat → FilePath)
    (h : w.Trail p i path)
    (hnot : ∀ b < i, isLoading (w.directory.join (path b)) (w.around path b) = false)
    (hc : w.answerWithin depth (w.around path i) (path i) = .error (.circularInclude c)) :
    ∃ n path, w.Trail p n path ∧
      (∀ b < n, isLoading (w.directory.join (path b)) (w.around path b) = false) ∧
      isLoading (w.directory.join (path n)) (w.around path n) = true ∧
      c = w.directory.join (path n) := by
  induction depth generalizing i path with
  | zero =>
    obtain ⟨d, hd, -⟩ := circular_cases ht hs (h.parts_ne_nil ht hs hp (Nat.le_refl i)) hc
    cases hd
  | succ depth ih =>
    obtain ⟨d, hd, ⟨hl, rfl⟩ | ⟨hl, q, hq, hc⟩⟩ :=
      circular_cases ht hs (h.parts_ne_nil ht hs hp (Nat.le_refl i)) hc
    · exact ⟨i, path, h, hnot, hl, rfl⟩
    · cases hd
      let further := Function.update path (i + 1) q
      have hsame : ∀ k ≤ i, further k = path k := fun k hk =>
        Function.update_of_ne (by omega) ..
      have hnext : further (i + 1) = q := Function.update_self ..
      have haround : ∀ k ≤ i + 1, w.around further k = w.around path k := fun k hk =>
        around_congr fun m hm => hsame m (by omega)
      refine ih (i + 1) further ⟨?_, fun k hk => ?_⟩ (fun b hb => ?_) ?_
      · rw [hsame 0 (Nat.zero_le i), h.entry]
      · rw [hsame k (by omega)]
        rcases Nat.lt_succ_iff_lt_or_eq.mp hk with hk | rfl
        · rw [hsame (k + 1) (by omega)]
          exact h.leads k hk
        · rw [hnext]
          exact hq
      · rw [hsame b (by omega), haround b (by omega)]
        rcases Nat.lt_succ_iff_lt_or_eq.mp hb with hb | rfl
        · exact hnot b hb
        · exact hl
      · rw [haround (i + 1) (Nat.le_refl _), hnext]
        exact hc

theorem cycle_of_circular (hp : p.parts ≠ [])
    (h : w.answerWithin depth [] p = .error (.circularInclude c)) : ∃ f, TransGen w.Includes f f := by
  obtain ⟨n, path, htrail, -, hl, -⟩ := exists_trail ht hs hp depth 0 (fun _ => p) ⟨rfl, nofun⟩
    nofun h
  obtain ⟨j, hj, hcomp⟩ := isLoading_around.mp hl
  obtain ⟨f, hf, hfile⟩ := htrail.fileOf ht hs hp hj
  have hn : w.fileOf (path n) = some f := by
    rw [← hf]
    exact (FileTree.named_congr hcomp _).symm
  exact ⟨f, htrail.transGen ht hs hp hj (Nat.le_refl n) hf hn hfile⟩

end

def GoesOn (w : Workspace) (f : Place) (written : FilePath) : Prop :=
  ∃ v, w.Holds f v ∧ ∃ first last, w.mentions f v = first ++ written :: last ∧
    ∀ r ∈ first, ∃ g, w.tree.named f.dropLast r = some g ∧ w.Ends g

theorem GoesOn.unique {r r' : FilePath} (h : w.GoesOn f r) (h' : w.GoesOn f r')
    (hr : ∀ g, w.tree.named f.dropLast r = some g → ¬ w.Ends g)
    (hr' : ∀ g, w.tree.named f.dropLast r' = some g → ¬ w.Ends g) : r = r' := by
  obtain ⟨v, hv, first, last, hm, hfirst⟩ := h
  obtain ⟨v', hv', first', last', hm', hfirst'⟩ := h'
  obtain rfl := hv.unique hv'
  exact first_unique (hm.symm.trans hm') hfirst hfirst' (fun ⟨g, hg, hends⟩ => hr g hg hends)
    fun ⟨g, hg, hends⟩ => hr' g hg hends

/-- The first file that is asked for and does not come to an end is one. -/
theorem Leads.unique {q' : FilePath} (h : w.Leads p q) (h' : w.Leads p q') (hq : ¬ w.Completes q)
    (hq' : ¬ w.Completes q') : q = q' := by
  obtain ⟨content, v, before, after, hr, hv, hds, hbefore⟩ := h
  obtain ⟨content', v', before', after', hr', hv', hds', hbefore'⟩ := h'
  obtain rfl := Option.some.inj (hr.symm.trans hr')
  obtain rfl := Option.some.inj (hv.symm.trans hv')
  refine Except.ok.inj (first_unique (hds.symm.trans hds') hbefore hbefore' ?_ ?_)
  · rintro ⟨x, hx, hcompletes⟩
    exact hq (Except.ok.inj hx ▸ hcompletes)
  · rintro ⟨x, hx, hcompletes⟩
    exact hq' (Except.ok.inj hx ▸ hcompletes)

/-- All inclusions are written as relative paths. -/
def Relative (w : Workspace) : Prop :=
  ∀ f v, w.Holds f v → ∀ written ∈ w.mentions f v, written.isAbsolute = false

/-- From one file of a trail to the next the name of the first is replaced by the names that are
written. -/
structure Turn (w : Workspace) (f : Place) (p q : FilePath) (base : List String) (name : String)
    (written : FilePath) : Prop where
  goesOn : w.GoesOn f written
  relative : written.isAbsolute = false
  names : (w.directory.join p).names = base ++ [name]
  next : (w.directory.join q).names = base ++ written.names
  last : f.getLast? = some name
  isDirectory : w.tree.isDirectory f.dropLast = true
  fileOf : w.fileOf q = w.tree.named f.dropLast written

theorem isAbsolute_opened (ha : w.directory.isAbsolute = true) (hp : p.parts ≠ []) :
    (w.directory.join p).isAbsolute = true := by
  cases hp' : p.isAbsolute with
  | true => rwa [FilePath.join_absolute _ hp']
  | false => rwa [FilePath.isAbsolute_join _ hp' hp]

theorem components_opened (ha : w.directory.isAbsolute = true) (hp : p.parts ≠ []) :
    (w.directory.join p).components = "" :: (w.directory.join p).names :=
  FilePath.components_absolute (isAbsolute_opened ha hp)

theorem fileOf_below (hs : Settled w.tree w.directory home) (ha : w.directory.isAbsolute = true)
    (hp : p.parts ≠ []) {below : List String}
    (hn : (w.directory.join p).names = w.directory.names ++ below) :
    w.fileOf p = w.tree.follow home below := by
  have hhome : w.tree.follow [] w.directory.names = some home := by
    rw [← FileTree.named_absolute ha w.tree.workingDirectory]
    exact FileTree.named_of_lookup hs.fromWorking
  rw [Workspace.fileOf, FileTree.named_absolute (isAbsolute_opened ha hp), hn, FileTree.follow_append,
    hhome]
  rfl

section

variable (ht : w.tree.Proper) (hs : Settled w.tree w.directory home)

include ht hs

theorem Leads.goesOn (h : w.Leads p q) (hp : p.parts ≠ []) (hf : w.fileOf p = some f) :
    ∃ written, w.GoesOn f written ∧
      FilePath.Spelled (w.directoryOf (w.directory.join p)) written q := by
  obtain ⟨f', v, before, after, hf', hds, hbefore⟩ := h.opened ht hs hp
  obtain rfl : f' = f := Option.some.inj (hf'.fileOf.symm.trans hf)
  rcases (hds ▸ hf'.spells).split (ok_of_completes hbefore) with
    ⟨first, written, last, x, hm, hx, hw, hfirst⟩ | ⟨e, he, -⟩
  · cases hx
    refine ⟨written, ⟨v, hf'.holds, first, last, hm, fun r hr => ?_⟩, hw⟩
    obtain ⟨y, hd, hy⟩ := hfirst r hr
    obtain ⟨y', hy', hcompletes⟩ := hbefore _ hd
    cases hy'
    obtain ⟨g, hg, hends⟩ := hcompletes.named ht hs hy.nonempty
    exact ⟨g, (hf'.named_of_spelled hy).symm.trans hg, hends⟩
  · cases he

theorem Leads.turn (ha : w.directory.isAbsolute = true) (hrel : w.Relative) (h : w.Leads p q)
    (hp : p.parts ≠ []) (hf : w.fileOf p = some f) :
    ∃ base name written, w.Turn f p q base name written := by
  obtain ⟨written, hgoes, hw⟩ := h.goesOn ht hs hp hf
  obtain ⟨f', v, -, -, hf', -⟩ := h.opened ht hs hp
  obtain rfl : f' = f := Option.some.inj (hf'.fileOf.symm.trans hf)
  obtain ⟨hbase, name, hnames, hlast⟩ := hf'.at_place.directoryOf_names
  obtain ⟨-, -, -, -, -, hdir, -⟩ := FileTree.lookup_file hf'.at_place.fromHome hf'.at_place.isFile
    hf'.at_place.nonempty
  have hwritten : written.isAbsolute = false := by
    obtain ⟨u, hu, first, last, hm, -⟩ := hgoes
    exact hrel f' u hu written (by simp [hm])
  have hq : w.directory.join q = q := by
    refine FilePath.join_absolute _ ?_
    rw [hw.isAbsolute, hwritten, hbase]
    exact isAbsolute_opened ha hp
  refine ⟨_, name, written, hgoes, hwritten, hnames, ?_, hlast, hdir, ?_⟩
  · rw [hq, hw.names, hwritten, if_neg Bool.false_ne_true]
  · rw [Workspace.fileOf, hs.named_join hw.nonempty]
    exact hf'.named_of_spelled hw

section

variable (ha : w.directory.isAbsolute = true) (hrel : w.Relative) (h : w.Trail p (n + 1) path)
  (hp : p.parts ≠ []) {j : Nat} (hj : j ≤ n) (hback : w.fileOf (path (n + 1)) = w.fileOf (path j))

include h hp

include ha hrel in
theorem Trail.turn {i : Nat} (hi : i ≤ n) : ∃ f base name written, w.fileOf (path i) = some f ∧
    w.Turn f (path i) (path (i + 1)) base name written := by
  obtain ⟨f, hf, -⟩ := h.fileOf ht hs hp (Nat.lt_succ_of_le hi)
  have hparts := h.parts_ne_nil ht hs hp (Nat.le_succ_of_le hi)
  obtain ⟨base, name, written, hturn⟩ :=
    (h.leads i (Nat.lt_succ_of_le hi)).turn ht hs ha hrel hparts hf
  exact ⟨f, base, name, written, hf, hturn⟩

include ha hrel in
/-- Paths of one length to one file on a trail have the same components. -/
theorem Trail.components_eq {a b : Nat} (hab : a ≤ b) (hb : b ≤ n)
    (hflat : ∀ i, a ≤ i → i < b → (w.directory.join (path (i + 1))).names.length =
      (w.directory.join (path i)).names.length)
    (hfile : w.fileOf (path b) = w.fileOf (path a)) :
    (w.directory.join (path a)).components = (w.directory.join (path b)).components := by
  have hbase : ∀ m, a + m ≤ b → (w.directory.join (path (a + m))).names.dropLast =
      (w.directory.join (path a)).names.dropLast := by
    intro m
    induction m with
    | zero => exact fun _ => rfl
    | succ m ih =>
      intro hm
      rw [← ih (by omega)]
      obtain ⟨f, base, name, r, -, hturn⟩ := h.turn ht hs ha hrel hp (i := a + m) (by omega)
      have hlen := hflat (a + m) (by omega) (by omega)
      rw [hturn.names, hturn.next, List.length_append, List.length_append] at hlen
      obtain ⟨part, hr⟩ := List.length_eq_one_iff.mp (Nat.add_left_cancel hlen)
      rw [← Nat.add_assoc, hturn.next, hturn.names, hr, List.dropLast_concat, List.dropLast_concat]
  have hdrop := hbase (b - a) (by omega)
  rw [show a + (b - a) = b by omega] at hdrop
  obtain ⟨f, base, name, r, hf, hturn⟩ := h.turn ht hs ha hrel hp (i := a) (by omega)
  obtain ⟨f', base', name', r', hf', hturn'⟩ := h.turn ht hs ha hrel hp hb
  obtain rfl : f = f' := Option.some.inj (hf.symm.trans (hfile.symm.trans hf'))
  have hname : name = name' := Option.some.inj (hturn.last.symm.trans hturn'.last)
  rw [hturn.names, hturn'.names, List.dropLast_concat, List.dropLast_concat] at hdrop
  rw [components_opened ha (h.parts_ne_nil ht hs hp (by omega)),
    components_opened ha (h.parts_ne_nil ht hs hp (by omega)), hturn.names, hturn'.names, hdrop, hname]

include hj hback

theorem Trail.isFile {i : Nat} (hi : i ≤ n + 1) : ∃ f, w.fileOf (path i) = some f ∧
    (w.tree.content? f).isSome = true := by
  rcases Nat.lt_succ_iff_lt_or_eq.mp (Nat.lt_succ_of_le hi) with hi | rfl
  · exact h.fileOf ht hs hp hi
  · rw [hback]
    exact h.fileOf ht hs hp (Nat.lt_succ_of_le hj)

theorem Trail.not_ends {i : Nat} (hi : i ≤ n + 1) (hg : w.fileOf (path i) = some g) : ¬ w.Ends g := by
  obtain ⟨f, hf, hfile⟩ := h.fileOf ht hs hp (Nat.lt_succ_of_le hj)
  have hlast : w.fileOf (path (n + 1)) = some f := hback.trans hf
  have hcycle := h.transGen ht hs hp (Nat.lt_succ_of_le hj) (Nat.le_refl _) hf hlast hfile
  rcases Nat.lt_succ_iff_lt_or_eq.mp (Nat.lt_succ_of_le hi) with hi | rfl
  · have hgf := h.transGen ht hs hp hi (Nat.le_refl _) hg hlast hfile
    exact fun hends => (hends.of_transGen hgf).not_cycle hcycle
  · obtain rfl : g = f := Option.some.inj (hg.symm.trans hlast)
    exact fun hends => hends.not_cycle hcycle

include ha hrel

theorem Trail.determined : Determined (fun i => w.fileOf (path i))
    (fun i => (w.directory.join (path i)).names.length) n := by
  intro i k hi hk hik
  obtain ⟨f, base, name, r, hf, hturn⟩ := h.turn ht hs ha hrel hp hi
  obtain ⟨f', base', name', r', hf', hturn'⟩ := h.turn ht hs ha hrel hp hk
  obtain rfl : f = f' := Option.some.inj (hf.symm.trans (hik.trans hf'))
  have hsame : r = r' := by
    refine hturn.goesOn.unique hturn'.goesOn (fun g hg => ?_) fun g hg => ?_
    · exact h.not_ends ht hs hp hj hback (Nat.succ_le_succ hi) (hturn.fileOf.trans hg)
    · exact h.not_ends ht hs hp hj hback (Nat.succ_le_succ hk) (hturn'.fileOf.trans hg)
  subst hsame
  refine ⟨hturn.fileOf.trans hturn'.fileOf.symm, ?_⟩
  simp only [hturn.names, hturn.next, hturn'.names, hturn'.next, List.length_append,
    List.length_singleton]
  omega

theorem Trail.length_le {i : Nat} (hi : i ≤ n) : (w.directory.join (path i)).names.length ≤
    (w.directory.join (path (i + 1))).names.length := by
  obtain ⟨f, base, name, r, -, hturn⟩ := h.turn ht hs ha hrel hp hi
  obtain ⟨g, hg, hfile⟩ := h.isFile ht hs hp hj hback (Nat.succ_le_succ hi)
  have hr : r.names ≠ [] := by
    intro hr
    have hdir := hturn.fileOf
    rw [hg, FileTree.named_relative hturn.relative, hr] at hdir
    obtain rfl : g = f.dropLast := Option.some.inj hdir
    obtain ⟨content, hc⟩ := Option.isSome_iff_exists.mp hfile
    have hdir' := hturn.isDirectory
    rw [ht.not_isDirectory hc] at hdir'
    cases hdir'
  have hpos := List.length_pos_of_ne_nil hr
  rw [hturn.names, hturn.next, List.length_append, List.length_append, List.length_singleton]
  omega

/-- A trail of paths with different components that comes back with the components of a path before has
only different files. -/
theorem Trail.fresh
    (hnot : ∀ b ≤ n, isLoading (w.directory.join (path b)) (w.around path b) = false)
    (hc : (w.directory.join (path (n + 1))).components = (w.directory.join (path j)).components)
    (a b : Nat) (hab : a < b) (hb : b ≤ n) : w.fileOf (path b) ≠ w.fileOf (path a) := by
  intro hfile
  have hlen : (w.directory.join (path (n + 1))).names.length =
      (w.directory.join (path j)).names.length := by
    rw [(FilePath.of_components_eq hc).2]
  have hflat := (h.determined ht hs ha hrel hp hj hback).flat
    (fun i hi => h.length_le ht hs ha hrel hp hj hback hi) hj hback hlen hab hb hfile
  have hsame := h.components_eq ht hs ha hrel hp (Nat.le_of_lt hab) hb hflat hfile
  have hloading := isLoading_around.mpr ⟨a, hab, hsame⟩
  rw [hnot b hb] at hloading
  cases hloading

end

theorem comesBack_of_circular (ha : w.directory.isAbsolute = true) (hrel : w.Relative)
    (hp : p.parts ≠ []) (h : w.answerWithin depth [] p = .error (.circularInclude c)) :
    ∃ path j n, w.ComesBack p path j n ∧ c = w.directory.join (path (n + 1)) ∧
      (w.directory.join (path (n + 1))).components = (w.directory.join (path j)).components := by
  obtain ⟨m, path, htrail, hnot, hl, rfl⟩ := exists_trail ht hs hp depth 0 (fun _ => p) ⟨rfl, nofun⟩
    nofun h
  obtain ⟨j, hj, hc⟩ := isLoading_around.mp hl
  cases m with
  | zero => exact absurd hj (Nat.not_lt_zero j)
  | succ n =>
    have hback : w.fileOf (path (n + 1)) = w.fileOf (path j) := (FileTree.named_congr hc _).symm
    refine ⟨path, j, n, ⟨htrail, ?_, Nat.le_of_lt_succ hj, hback⟩, rfl, hc.symm⟩
    exact htrail.fresh ht hs ha hrel hp (Nat.le_of_lt_succ hj) hback
      (fun b hb => hnot b (Nat.lt_succ_of_le hb)) hc.symm

theorem ComesBack.not_completes {j i : Nat} (h : w.ComesBack p path j n) (hp : p.parts ≠ [])
    (hi : i ≤ n + 1) : ¬ w.Completes (path i) := by
  intro hcompletes
  have hparts := h.trail.parts_ne_nil ht hs hp hi
  obtain ⟨g, hg, hends⟩ := hcompletes.named ht hs hparts
  exact h.trail.not_ends ht hs hp h.le h.back hi ((hs.named_join hparts).trans hg) hends

theorem ComesBack.path_eq {j j' n' : Nat} {path' : Nat → FilePath} (h : w.ComesBack p path j n)
    (h' : w.ComesBack p path' j' n') (hp : p.parts ≠ []) (i : Nat) (hi : i ≤ n + 1) (hi' : i ≤ n' + 1) :
    path' i = path i := by
  induction i with
  | zero => rw [h.trail.entry, h'.trail.entry]
  | succ i ih =>
    have hlead := h.trail.leads i hi
    rw [← ih (by omega) (by omega)] at hlead
    exact (h'.trail.leads i hi').unique hlead (h'.not_completes ht hs hp hi')
      (h.not_completes ht hs hp hi)

theorem ComesBack.length_le {j j' n' : Nat} {path' : Nat → FilePath} (h : w.ComesBack p path j n)
    (h' : w.ComesBack p path' j' n') (hp : p.parts ≠ []) : n' ≤ n := by
  by_contra hlt
  have hsame := h.path_eq ht hs h' hp
  have hj := h.le
  have hback := h.back
  rw [← hsame (n + 1) (Nat.le_refl _) (by omega), ← hsame j (by omega) (by omega)] at hback
  exact h'.fresh j (n + 1) (by omega) (by omega) hback

theorem ComesBack.components_eq {j j' n' : Nat} {path' : Nat → FilePath} (h : w.ComesBack p path j n)
    (h' : w.ComesBack p path' j' n') (hp : p.parts ≠ [])
    (hc : (w.directory.join (path' (n' + 1))).components = (w.directory.join (path' j')).components) :
    (w.directory.join (path (n + 1))).components = (w.directory.join (path j)).components := by
  obtain rfl : n' = n := Nat.le_antisymm (h.length_le ht hs h' hp) (h'.length_le ht hs h hp)
  have hsame := h.path_eq ht hs h' hp
  have hj := h.le
  have hj' := h'.le
  have hback : w.fileOf (path j') = w.fileOf (path j) := by
    rw [← h.back, ← hsame j' (by omega) (by omega), ← hsame (n' + 1) (Nat.le_refl _) (Nat.le_refl _)]
    exact h'.back.symm
  have hjj : j' = j := by
    rcases Nat.lt_trichotomy j' j with hlt | heq | hlt
    · exact absurd hback.symm (h.fresh j' j hlt hj)
    · exact heq
    · exact absurd hback (h.fresh j j' hlt hj')
  rw [hsame (n' + 1) (Nat.le_refl _) (Nat.le_refl _), hsame j' (by omega) (by omega), hjj] at hc
  exact hc

theorem ComesBack.names_below {j : Nat} (h : w.ComesBack p path j n) (ha : w.directory.isAbsolute = true)
    (hrel : w.Relative) (hdown : ∀ f v, w.Holds f v → ∀ written ∈ w.mentions f v, ".." ∉ written.parts)
    (hp : p.parts ≠ []) (hpa : p.isAbsolute = false) (hpd : ".." ∉ p.parts) (i : Nat) (hi : i ≤ n + 1) :
    ∃ below, (w.directory.join (path i)).names = w.directory.names ++ below ∧ ".." ∉ below := by
  induction i with
  | zero =>
    refine ⟨p.names, ?_, fun hm => hpd (List.mem_of_mem_filter hm)⟩
    rw [h.trail.entry, FilePath.names_join _ hpa]
  | succ i ih =>
    obtain ⟨below, hbelow, hno⟩ := ih (by omega)
    obtain ⟨f, base, name, r, hf, hturn⟩ := h.trail.turn ht hs ha hrel hp (i := i) (by omega)
    rcases List.eq_nil_or_concat' below with rfl | ⟨front, last, rfl⟩
    · -- the directory of the configuration is no file
      obtain ⟨e, v, -, -, he, -⟩ := (h.trail.leads 0 (Nat.succ_pos n)).opened ht hs
        (h.trail.parts_ne_nil ht hs hp (Nat.zero_le _))
      have hhome := he.fromHome
      rw [h.trail.entry] at hhome
      have hdir := FileTree.isDirectory_of_lookup hhome hpa hp
      have hplace := fileOf_below hs ha (h.trail.parts_ne_nil ht hs hp (by omega)) hbelow
      obtain ⟨g, hg, hfile⟩ := h.trail.fileOf ht hs hp (i := i) (by omega)
      obtain rfl : home = g := Option.some.inj (hplace.symm.trans hg)
      obtain ⟨content, hc⟩ := Option.isSome_iff_exists.mp hfile
      rw [ht.not_isDirectory hc] at hdir
      cases hdir
    · have hbase : base = w.directory.names ++ front := by
        rw [hturn.names, ← List.append_assoc] at hbelow
        exact (List.append_inj' hbelow rfl).1
      obtain ⟨u, hu, first, rest, hm, -⟩ := hturn.goesOn
      have hr : ".." ∉ r.parts := hdown f u hu r (by simp [hm])
      refine ⟨front ++ r.names, ?_, fun hmem => ?_⟩
      · rw [hturn.next, hbase, List.append_assoc]
      · rcases List.mem_append.mp hmem with hmem | hmem
        · exact hno (List.mem_append_left _ hmem)
        · exact hr (List.mem_of_mem_filter hmem)

theorem ComesBack.components_of_down {j : Nat} (h : w.ComesBack p path j n)
    (ha : w.directory.isAbsolute = true) (hrel : w.Relative)
    (hdown : ∀ f v, w.Holds f v → ∀ written ∈ w.mentions f v, ".." ∉ written.parts)
    (hp : p.parts ≠ []) (hpa : p.isAbsolute = false) (hpd : ".." ∉ p.parts) :
    (w.directory.join (path (n + 1))).components = (w.directory.join (path j)).components := by
  obtain ⟨f, hf, -⟩ := h.trail.fileOf ht hs hp (Nat.lt_succ_of_le h.le)
  have hnames : ∀ i ≤ n + 1, w.fileOf (path i) = some f → ∃ below,
      (w.directory.join (path i)).names = w.directory.names ++ below ∧ f = home ++ below := by
    intro i hi hfi
    obtain ⟨below, hbelow, hno⟩ := h.names_below ht hs ha hrel hdown hp hpa hpd i hi
    rw [fileOf_below hs ha (h.trail.parts_ne_nil ht hs hp hi) hbelow] at hfi
    refine ⟨below, hbelow, FileTree.follow_down hfi fun part hpart => ⟨?_, ?_⟩⟩
    · have hmem : part ∈ (w.directory.join (path i)).names := hbelow ▸ List.mem_append_right _ hpart
      simpa using (List.mem_filter.mp hmem).2
    · exact ne_of_mem_of_not_mem hpart hno
  have hle := h.le
  obtain ⟨below, hbelow, hj⟩ := hnames j (by omega) hf
  obtain ⟨below', hbelow', hn⟩ := hnames (n + 1) (Nat.le_refl _) (h.back.trans hf)
  obtain rfl : below = below' := List.append_cancel_left (hj.symm.trans hn)
  rw [components_opened ha (h.trail.parts_ne_nil ht hs hp (by omega)),
    components_opened ha (h.trail.parts_ne_nil ht hs hp (by omega)), hbelow, hbelow']

end

/-- Loading reports no inclusion as circular if no file includes itself. With relative inclusions below an
absolute directory it reports one iff the files that are opened inside each other first come back to one
of them there, by the components of the path that it was opened by; coming back by other components is
never reported. Without parts that lead back, coming back always is. -/
theorem circular_iff_comes_back (ht : w.tree.Proper) (hs : Settled w.tree w.directory home)
    (hp : p.parts ≠ []) :
    ((∀ f, ¬ TransGen w.Includes f f) → ∀ c, ((w.load p).run []).1 ≠ .error (.circularInclude c)) ∧
    (w.directory.isAbsolute = true → w.Relative →
      (∀ c, ((w.load p).run []).1 = .error (.circularInclude c) ↔
        ∃ path j n, w.ComesBack p path j n ∧ c = w.directory.join (path (n + 1)) ∧
          (w.directory.join (path (n + 1))).components = (w.directory.join (path j)).components) ∧
      (∀ path j n, w.ComesBack p path j n →
        (w.directory.join (path (n + 1))).components ≠ (w.directory.join (path j)).components →
        ∀ c, ((w.load p).run []).1 ≠ .error (.circularInclude c)) ∧
      (p.isAbsolute = false → ".." ∉ p.parts →
        (∀ f v, w.Holds f v → ∀ written ∈ w.mentions f v, ".." ∉ written.parts) →
        ∀ path j n, w.ComesBack p path j n →
          ((w.load p).run []).1 = .error (.circularInclude (w.directory.join (path (n + 1)))))) := by
  rw [load_answer]
  refine ⟨fun hno c hc => ?_, fun ha hrel => ⟨fun c => ⟨fun h => ?_, ?_⟩,
    fun path j n h hne c hc => ?_, fun hpa hpd hdown path j n h => ?_⟩⟩
  · obtain ⟨f, hf⟩ := cycle_of_circular ht hs hp hc
    exact hno f hf
  · exact comesBack_of_circular ht hs ha hrel hp h
  · rintro ⟨path, j, n, h, rfl, hc⟩
    exact h.circular ht hs hp hc
  · obtain ⟨path', j', n', h', -, hc'⟩ := comesBack_of_circular ht hs ha hrel hp hc
    exact hne (h.components_eq ht hs h' hp hc')
  · exact h.circular ht hs hp (h.components_of_down ht hs ha hrel hdown hp hpa hpd)

def knot (written : String) : Workspace where
  tree :=
    { files := [(["hub", "configuration.yaml"], "!include " ++ written ++ "\n")]
      directories := [["hub", "sub"]]
      workingDirectory := [] }
  directory := .ofText "/hub"
  secrets := Table.empty
  environment _ := none

section

variable (written : String)
  (hv : Value.ofText? ("!include " ++ written ++ "\n") = some (.tagged "include" (.string written)))

include hv

theorem knot_relative (hw : (FilePath.ofText written).isAbsolute = false) : (knot written).Relative := by
  rintro f v ⟨content, hc, hcv⟩ r hr
  obtain ⟨e, he, rfl⟩ := Option.map_eq_some_iff.mp hc
  have hmem := List.mem_of_find?_eq_some he
  obtain rfl := List.mem_singleton.mp hmem
  rw [hv] at hcv
  cases hcv
  rw [mentions, Tags.replace, if_pos rfl] at hr
  obtain rfl := List.mem_singleton.mp hr
  exact hw

theorem knot_comesBack {q : FilePath}
    (hr : (knot written).tree.read? ((knot written).directory.join (.ofText "configuration.yaml")) =
      some ("!include " ++ written ++ "\n"))
    (hq : (knot written).includedPath ((knot written).directory.join (.ofText "configuration.yaml"))
      (.string written) = .ok q)
    (hback : (knot written).fileOf q = (knot written).fileOf (.ofText "configuration.yaml")) :
    (knot written).ComesBack (.ofText "configuration.yaml")
      (fun i => if i = 0 then .ofText "configuration.yaml" else q) 0 0 := by
  have hds : (knot written).demands ((knot written).directory.join (.ofText "configuration.yaml"))
      (.tagged "include" (.string written)) = [.ok q] := by
    rw [demands, Tags.replace, if_pos rfl, ← hq]
    rfl
  refine ⟨⟨rfl, fun i hi => ?_⟩, fun a b hab hb => ?_, Nat.le_refl 0, hback⟩
  · obtain rfl : i = 0 := Nat.lt_one_iff.mp hi
    exact ⟨_, _, [], [], hr, hv, hds, List.forall_mem_nil _⟩
  · exact absurd (Nat.lt_of_lt_of_le hab hb) (Nat.not_lt_zero a)

end

theorem configuration_includes_itself :
    (((knot "configuration.yaml").load (.ofText "configuration.yaml")).run []).1 =
      .error (.circularInclude (.ofText "/hub/configuration.yaml")) := by
  have hv : Value.ofText? ("!include " ++ "configuration.yaml" ++ "\n") =
      some (.tagged "include" (.string "configuration.yaml")) := by
    apply some_of_same
    decide +kernel
  have ht : (knot "configuration.yaml").tree.Proper := by decide +kernel
  have hs : Settled (knot "configuration.yaml").tree (knot "configuration.yaml").directory ["hub"] :=
    settled_of_absolute (by decide +kernel) (by decide +kernel)
  have hrel : (knot "configuration.yaml").Relative :=
    knot_relative "configuration.yaml" hv (by decide +kernel)
  have hback := knot_comesBack "configuration.yaml" hv (q := .ofText "/hub/configuration.yaml")
    (by decide +kernel) (by decide +kernel) (by decide +kernel)
  have hp := FilePath.ofText_parts_ne_nil "configuration.yaml"
  obtain ⟨-, habsolute⟩ := circular_iff_comes_back ht hs hp
  obtain ⟨hiff, -, -⟩ := habsolute (by decide +kernel) hrel
  refine (hiff _).mpr ⟨_, 0, 0, hback, ?_, ?_⟩
  · decide +kernel
  · decide +kernel

/-- A configuration that includes itself through another directory comes back to itself, and that is not
reported as circular. -/
theorem circle_through_directory_lost :
    (∃ path j n, (knot "sub/../configuration.yaml").ComesBack (.ofText "configuration.yaml") path j n) ∧
    ∀ c, (((knot "sub/../configuration.yaml").load (.ofText "configuration.yaml")).run []).1 ≠
      .error (.circularInclude c) := by
  have hv : Value.ofText? ("!include " ++ "sub/../configuration.yaml" ++ "\n") =
      some (.tagged "include" (.string "sub/../configuration.yaml")) := by
    apply some_of_same
    decide +kernel
  have ht : (knot "sub/../configuration.yaml").tree.Proper := by decide +kernel
  have hs : Settled (knot "sub/../configuration.yaml").tree
      (knot "sub/../configuration.yaml").directory ["hub"] :=
    settled_of_absolute (by decide +kernel) (by decide +kernel)
  have hrel : (knot "sub/../configuration.yaml").Relative :=
    knot_relative "sub/../configuration.yaml" hv (by decide +kernel)
  have hback := knot_comesBack "sub/../configuration.yaml" hv
    (q := .ofText "/hub/sub/../configuration.yaml") (by decide +kernel) (by decide +kernel)
    (by decide +kernel)
  have hp := FilePath.ofText_parts_ne_nil "configuration.yaml"
  refine ⟨⟨_, 0, 0, hback⟩, fun c hc => ?_⟩
  rw [load_answer] at hc
  obtain ⟨path, j, n, h, -, hcomp⟩ := comesBack_of_circular ht hs (by decide +kernel) hrel hp hc
  have hne : ((knot "sub/../configuration.yaml").directory.join
      (.ofText "/hub/sub/../configuration.yaml")).components ≠
      ((knot "sub/../configuration.yaml").directory.join (.ofText "configuration.yaml")).components := by
    decide +kernel
  exact hne (hback.components_eq ht hs h hp hcomp)

end Workspace

end TopicHub
