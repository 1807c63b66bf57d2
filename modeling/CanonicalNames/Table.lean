/-!
# Tables in insertion order

A `Table` is an association list with at most one entry per key. Inserting under a key
that is present replaces the value and keeps both the position and the spelling of the
key; a new key goes to the end. `appendNew` is the same discipline for a list used as an
ordered set.
-/

namespace CanonicalNames

/-- Entries in the order in which their keys were first inserted. -/
structure Table (κ : Type) (α : Type) where
  entries : List (κ × α) := []
  deriving DecidableEq

namespace Table

variable {κ α : Type} [BEq κ]

/-- The value stored under a key. -/
def find? (table : Table κ α) (key : κ) : Option α :=
  (table.entries.find? (fun entry => entry.1 == key)).map Prod.snd

/-- Whether some value is stored under a key. -/
def contains (table : Table κ α) (key : κ) : Bool :=
  table.entries.any (fun entry => entry.1 == key)

/-- Replaces the value of the first entry with the key, or adds an entry at the end. -/
def insertEntry (key : κ) (value : α) : List (κ × α) → List (κ × α)
  | [] => [(key, value)]
  | entry :: rest =>
    if entry.1 == key then (entry.1, value) :: rest else entry :: insertEntry key value rest

/-- Stores a value under a key. -/
def insert (table : Table κ α) (key : κ) (value : α) : Table κ α :=
  ⟨insertEntry key value table.entries⟩

/-- Drops whatever is stored under a key. -/
def erase (table : Table κ α) (key : κ) : Table κ α :=
  ⟨table.entries.filter (fun entry => !(entry.1 == key))⟩

/-- The keys in insertion order. -/
def keys (table : Table κ α) : List κ :=
  table.entries.map Prod.fst

/-- The number of entries. -/
def size (table : Table κ α) : Nat :=
  table.entries.length

/-! ## What lookups see of an operation -/

/-- Nothing is stored in an empty table. -/
@[simp] theorem find?_empty (key : κ) : ({} : Table κ α).find? key = none := rfl

/-- A key is present exactly when a value is found under it. -/
theorem contains_eq_is_some_find? (table : Table κ α) (key : κ) :
    table.contains key = (table.find? key).isSome := by
  simp [contains, find?, List.isSome_find?]

/-- A lookup under an equal key finds the value just stored. -/
theorem find?_insert_of_beq [PartialEquivBEq κ] (table : Table κ α) {key other : κ} (value : α)
    (h : (key == other) = true) : (table.insert key value).find? other = some value := by
  obtain ⟨entries⟩ := table
  simp only [find?, insert]
  induction entries with
  | nil => simp [insertEntry, h]
  | cons entry rest ih =>
      simp only [insertEntry]
      split
      · next he => simp [PartialEquivBEq.trans he h]
      · next he =>
          have hne : (entry.1 == other) = false := by
            cases hb : entry.1 == other with
            | false => rfl
            | true => exact absurd (PartialEquivBEq.trans hb (PartialEquivBEq.symm h)) he
          simpa [hne] using ih

/-- A lookup under another key finds what it found before. -/
theorem find?_insert_of_not_beq [PartialEquivBEq κ] (table : Table κ α) {key other : κ}
    (value : α) (h : (key == other) = false) :
    (table.insert key value).find? other = table.find? other := by
  obtain ⟨entries⟩ := table
  simp only [find?, insert]
  induction entries with
  | nil => simp [insertEntry, h]
  | cons entry rest ih =>
      simp only [insertEntry]
      split
      · next he =>
          have hne : (entry.1 == other) = false := by
            cases hb : entry.1 == other with
            | false => rfl
            | true =>
                have hk := PartialEquivBEq.trans (PartialEquivBEq.symm he) hb
                simp [h] at hk
          simp [hne]
      · simp only [List.find?_cons]
        split
        · rfl
        · exact ih

/-- Nothing is found under a key that was just dropped. -/
theorem find?_erase_of_beq [PartialEquivBEq κ] (table : Table κ α) {key other : κ}
    (h : (key == other) = true) : (table.erase key).find? other = none := by
  simp only [find?, erase, Option.map_eq_none_iff, List.find?_eq_none, List.mem_filter,
    Bool.not_eq_true', and_imp]
  intro entry _ hk ho
  have := PartialEquivBEq.trans ho (PartialEquivBEq.symm h)
  simp [hk] at this

/-- Dropping a key leaves what is found under other keys. -/
theorem find?_erase_of_not_beq [PartialEquivBEq κ] (table : Table κ α) {key other : κ}
    (h : (key == other) = false) : (table.erase key).find? other = table.find? other := by
  obtain ⟨entries⟩ := table
  simp only [find?, erase, List.find?_filter]
  congr 2
  funext entry
  cases ho : entry.1 == other with
  | false => simp
  | true =>
      cases hk : entry.1 == key with
      | false => rfl
      | true =>
          have := PartialEquivBEq.trans (PartialEquivBEq.symm hk) ho
          simp [h] at this

end Table

/-- Adds an element at the end unless an equal one is present. -/
def appendNew {α : Type} [BEq α] (elements : List α) (new : α) : List α :=
  if elements.contains new then elements else elements ++ [new]

/-- Drops every element equal to the given one. -/
def without {α : Type} [BEq α] (elements : List α) (old : α) : List α :=
  elements.filter (fun element => !(element == old))

end CanonicalNames
