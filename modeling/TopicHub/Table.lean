import TopicHub.Json.Value

/-!
Tables: values by text keys. Keys are kept in ascending order, so a table is determined by what its
keys hold, and listing it needs no sorting. Main statements: what a key holds after an insertion and
after a removal.
-/

namespace TopicHub

/-- Values by key, in ascending order of the keys. -/
structure Table (α : Type) where
  entries : List (String × α)
  ordered : entries.Pairwise fun a b => a.1 < b.1

namespace Table

open Json

variable {α : Type}

def insertInto (key : String) (value : α) : List (String × α) → List (String × α)
  | [] => [(key, value)]
  | e :: rest =>
    if key < e.1 then (key, value) :: e :: rest
    else if key = e.1 then (key, value) :: rest
    else e :: insertInto key value rest

theorem eq_or_mem_of_mem_insertInto {key : String} {value : α} {x : String × α}
    {entries : List (String × α)} (h : x ∈ insertInto key value entries) :
    x = (key, value) ∨ x ∈ entries := by
  induction entries with
  | nil => simpa [insertInto] using h
  | cons e rest ih => grind [insertInto]

theorem lt_of_ne_of_not_lt {a b : String} (h : ¬ a < b) (ne : a ≠ b) : b < a := by
  rcases String.le_total a b with le | le
  · exact absurd (String.le_antisymm le (String.not_lt.1 h)) ne
  · exact Decidable.byContradiction fun k => ne (String.le_antisymm (String.not_lt.1 k) le)

theorem ordered_insertInto {key : String} {value : α} {entries : List (String × α)}
    (h : entries.Pairwise fun a b => a.1 < b.1) :
    (insertInto key value entries).Pairwise fun a b => a.1 < b.1 := by
  induction entries with
  | nil => simp [insertInto]
  | cons e rest ih =>
    obtain ⟨first, later⟩ := List.pairwise_cons.1 h
    unfold insertInto
    split
    · rename_i lt
      refine List.pairwise_cons.2 ⟨fun x mem => ?_, h⟩
      rcases List.mem_cons.1 mem with rfl | mem
      · exact lt
      · exact String.lt_trans lt (first x mem)
    · split
      · rename_i eq
        exact List.pairwise_cons.2 ⟨fun x mem => eq ▸ first x mem, later⟩
      · rename_i notLt ne
        refine List.pairwise_cons.2 ⟨fun x mem => ?_, ih later⟩
        rcases eq_or_mem_of_mem_insertInto mem with rfl | mem
        · exact lt_of_ne_of_not_lt notLt ne
        · exact first x mem

def empty : Table α := ⟨[], List.Pairwise.nil⟩

def insert (t : Table α) (key : String) (value : α) : Table α :=
  ⟨insertInto key value t.entries, ordered_insertInto t.ordered⟩

def erase (t : Table α) (key : String) : Table α :=
  ⟨t.entries.filter fun e => e.1 ≠ key, t.ordered.filter _⟩

def get? (t : Table α) (key : String) : Option α := lookup? key t.entries

def contains (t : Table α) (key : String) : Bool := (t.get? key).isSome

def keys (t : Table α) : List String := t.entries.map Prod.fst

def values (t : Table α) : List α := t.entries.map Prod.snd

def size (t : Table α) : Nat := t.entries.length

def isEmpty (t : Table α) : Bool := t.entries.isEmpty

def insertAll (t : Table α) (key : α → String) (values : List α) : Table α :=
  values.foldl (fun t v => t.insert (key v) v) t

theorem lookup?_insertInto (key k : String) (value : α) (entries : List (String × α)) :
    lookup? k (insertInto key value entries) =
      if k = key then some value else lookup? k entries := by
  induction entries with
  | nil => simp [insertInto, lookup?, eq_comm]
  | cons e rest ih =>
    unfold insertInto
    split
    · simp [lookup?, eq_comm]
    · split
      · rename_i eq
        by_cases h : key = k <;> simp [lookup?, ← eq, h, eq_comm (a := k)]
      · rename_i ne
        by_cases h : e.1 = k
        · have other : k ≠ key := fun eq => ne (eq.symm.trans h.symm)
          simp [lookup?, h, other]
        · simp [lookup?, h, ih]

@[simp] theorem get?_empty (k : String) : (empty : Table α).get? k = none := rfl

theorem get?_insert (t : Table α) (key k : String) (value : α) :
    (t.insert key value).get? k = if k = key then some value else t.get? k :=
  lookup?_insertInto key k value t.entries

theorem get?_erase (t : Table α) (key k : String) :
    (t.erase key).get? k = if k = key then none else t.get? k := by
  simp only [erase, get?]
  induction t.entries with
  | nil => simp [lookup?]
  | cons e rest ih => grind [lookup?]

end Table

end TopicHub
