import CanonicalNames.Table

/-!
# Tables with one entry per key

Insertion and removal keep the keys of a table apart (`Table.Unique`). In such a table an
entry is found under every spelling of its key, wherever it stands in the list. Lists used as
ordered sets are seen through `List.contains` in the same way.
-/

namespace CanonicalNames.Table

variable {κ α : Type} [BEq κ]

/-- No two entries have equal keys. -/
def Unique (table : Table κ α) : Prop :=
  table.entries.Pairwise (fun entry other => (entry.1 == other.1) = false)

/-- The empty table holds no key twice. -/
theorem unique_empty : Unique ({} : Table κ α) := List.Pairwise.nil

/-- Whatever `insertEntry` puts into a list has the new key or was there with the same key. -/
theorem exists_key_of_mem_insert_entry {key : κ} {value : α} {entries : List (κ × α)}
    {entry : κ × α} (h : entry ∈ insertEntry key value entries) :
    entry.1 = key ∨ ∃ other ∈ entries, other.1 = entry.1 := by
  induction entries with
  | nil =>
      simp only [insertEntry, List.mem_singleton] at h
      exact Or.inl (by rw [h])
  | cons first rest ih =>
      rw [insertEntry] at h
      split at h
      · rcases List.mem_cons.1 h with h | h
        · exact Or.inr ⟨first, List.mem_cons_self .., by rw [h]⟩
        · exact Or.inr ⟨entry, List.mem_cons_of_mem _ h, rfl⟩
      · rcases List.mem_cons.1 h with h | h
        · exact Or.inr ⟨first, List.mem_cons_self .., by rw [h]⟩
        · rcases ih h with h | ⟨other, hother, hkey⟩
          · exact Or.inl h
          · exact Or.inr ⟨other, List.mem_cons_of_mem _ hother, hkey⟩

/-- Insertion keeps keys apart. -/
theorem Unique.insert {table : Table κ α} (h : table.Unique) (key : κ) (value : α) :
    (table.insert key value).Unique := by
  obtain ⟨entries⟩ := table
  simp only [Unique, Table.insert] at h ⊢
  induction entries with
  | nil => exact List.pairwise_singleton ..
  | cons first rest ih =>
      obtain ⟨hfirst, hrest⟩ := List.pairwise_cons.1 h
      rw [insertEntry]
      split
      · exact List.pairwise_cons.2 ⟨hfirst, hrest⟩
      · next hne =>
          refine List.pairwise_cons.2 ⟨?_, ih hrest⟩
          intro entry hentry
          rcases exists_key_of_mem_insert_entry hentry with hkey | ⟨other, hother, hkey⟩
          · rw [hkey]
            simpa using hne
          · rw [← hkey]
            exact hfirst other hother

/-- Removal keeps keys apart. -/
theorem Unique.erase {table : Table κ α} (h : table.Unique) (key : κ) :
    (table.erase key).Unique :=
  List.Pairwise.filter _ h

/-- In a table with keys apart an entry is found under every key equal to its own. -/
theorem Unique.find?_eq_some_iff [PartialEquivBEq κ] {table : Table κ α} (h : table.Unique)
    {key : κ} {value : α} :
    table.find? key = some value ↔ ∃ entry ∈ table.entries, (entry.1 == key) = true ∧ entry.2 = value := by
  obtain ⟨entries⟩ := table
  simp only [Unique, find?] at h ⊢
  induction entries with
  | nil => simp
  | cons first rest ih =>
      obtain ⟨hfirst, hrest⟩ := List.pairwise_cons.1 h
      cases hkey : first.1 == key with
      | true =>
          rw [List.find?_cons_of_pos (by simpa using hkey)]
          constructor
          · intro hvalue
            exact ⟨first, List.mem_cons_self .., hkey, by simpa using hvalue⟩
          · rintro ⟨entry, hentry, hentryKey, hvalue⟩
            rcases List.mem_cons.1 hentry with rfl | hentry
            · simp [hvalue]
            · have := PartialEquivBEq.trans hkey (PartialEquivBEq.symm hentryKey)
              rw [hfirst entry hentry] at this
              cases this
      | false =>
          rw [List.find?_cons_of_neg (by simp [hkey]), ih hrest]
          simp [hkey]

/-! ## Lookups after an operation -/

section Lookups

variable [PartialEquivBEq κ]

theorem find?_insert (table : Table κ α) (key other : κ) (value : α) :
    (table.insert key value).find? other =
      if key == other then some value else table.find? other := by
  split
  · next h => exact find?_insert_of_beq table value h
  · next h => exact find?_insert_of_not_beq table value (by simpa using h)

theorem find?_erase (table : Table κ α) (key other : κ) :
    (table.erase key).find? other = if key == other then none else table.find? other := by
  split
  · next h => exact find?_erase_of_beq table h
  · next h => exact find?_erase_of_not_beq table (by simpa using h)

/-- Equal keys find the same value. -/
theorem find?_congr (table : Table κ α) {key other : κ} (h : (key == other) = true) :
    table.find? key = table.find? other := by
  unfold find?
  congr 2
  funext entry
  exact BEq.congr_right h

/-- Something is found under a key exactly if some key equals it. -/
theorem is_some_find? (table : Table κ α) (key : κ) :
    (table.find? key).isSome = table.keys.contains key := by
  rw [← contains_eq_is_some_find?, contains, keys, List.contains_eq_any_beq, List.any_map]
  congr 1
  funext entry
  exact BEq.comm

/-- Insertion treats the keys as an ordered set. -/
theorem keys_insert (table : Table κ α) (key : κ) (value : α) :
    (table.insert key value).keys = appendNew table.keys key := by
  obtain ⟨entries⟩ := table
  change (insertEntry key value entries).map Prod.fst = appendNew (entries.map Prod.fst) key
  induction entries with
  | nil => rfl
  | cons first rest ih =>
      simp only [appendNew] at ih ⊢
      rw [insertEntry, List.map_cons, List.contains_cons, @BEq.comm _ _ _ key first.1]
      cases hkey : first.1 == key with
      | true => simp
      | false =>
          rw [if_neg Bool.false_ne_true, List.map_cons, ih, Bool.false_or]
          split <;> rfl

end Lookups

/-- An entry after an insertion was there before, or it holds the new value: under the new key if
there was none equal to it, and else under the key that is replaced. -/
theorem mem_entries_insert {table : Table κ α} {key : κ} {value : α} {entry : κ × α}
    (h : entry ∈ (table.insert key value).entries) :
    entry ∈ table.entries ∨ (entry = (key, value) ∧ table.find? key = none) ∨
      entry.2 = value ∧ ∃ old, table.find? key = some old ∧ (entry.1, old) ∈ table.entries := by
  obtain ⟨entries⟩ := table
  simp only [insert, find?] at h ⊢
  induction entries with
  | nil => exact Or.inr (Or.inl ⟨List.mem_singleton.1 h, rfl⟩)
  | cons first rest ih =>
      rw [insertEntry] at h
      rw [List.find?_cons]
      split at h
      · next hkey =>
          rcases List.mem_cons.1 h with rfl | hrest
          · refine Or.inr (Or.inr ⟨rfl, first.2, ?_, List.mem_cons_self ..⟩)
            simp [hkey]
          · exact Or.inl (List.mem_cons_of_mem _ hrest)
      · next hkey =>
          rw [Bool.not_eq_true] at hkey
          rw [hkey]
          rcases List.mem_cons.1 h with rfl | hrest
          · exact Or.inl (List.mem_cons_self ..)
          · rcases ih hrest with hold | hnew | ⟨hvalue, old, hfound, hold⟩
            · exact Or.inl (List.mem_cons_of_mem _ hold)
            · exact Or.inr (Or.inl hnew)
            · exact Or.inr (Or.inr ⟨hvalue, old, hfound, List.mem_cons_of_mem _ hold⟩)

end CanonicalNames.Table

namespace CanonicalNames

variable {α : Type} [BEq α]

/-- No two elements of a list are equal. -/
def Distinct (elements : List α) : Prop :=
  elements.Pairwise (fun first second => (first == second) = false)

theorem distinct_cons {first : α} {rest : List α} :
    Distinct (first :: rest) ↔ (∀ other ∈ rest, (first == other) = false) ∧ Distinct rest :=
  List.pairwise_cons

/-- The keys of a table are apart. -/
theorem Table.Unique.distinct_keys {β : Type} {table : Table α β} (h : table.Unique) :
    Distinct table.keys :=
  List.pairwise_map.2 h

theorem Distinct.nodup [ReflBEq α] {elements : List α} (h : Distinct elements) :
    elements.Nodup := by
  refine h.imp (fun {first second} hne hsame => ?_)
  rw [hsame, BEq.refl] at hne
  cases hne

theorem Distinct.without {elements : List α} (h : Distinct elements) (old : α) :
    Distinct (without elements old) :=
  List.Pairwise.filter _ h

/-- Elements that are added one after the other go to the end, each when it is first seen. -/
theorem foldl_append_new_eq_append (elements new : List α) :
    new.foldl appendNew elements =
      elements ++ (new.filter (fun other => !elements.contains other)).eraseDups := by
  induction new generalizing elements with
  | nil => simp
  | cons first rest ih =>
      rw [List.foldl_cons, ih, appendNew]
      cases hfirst : elements.contains first with
      | true => simp [hfirst]
      | false =>
          simp only [Bool.false_eq_true, ↓reduceIte, List.contains_append, List.contains_cons,
            List.contains_nil, Bool.or_false, Bool.not_or, List.append_assoc, List.cons_append,
            List.nil_append, hfirst, Bool.not_false, List.filter_cons_of_pos, List.eraseDups_cons,
            List.filter_filter]
          congr 3
          exact List.filter_congr (fun other _ => Bool.and_comm ..)

/-- Adding elements to nothing keeps each where it is first seen. -/
theorem foldl_append_new_nil (new : List α) : new.foldl appendNew [] = new.eraseDups := by
  have hall : new.filter (fun other => !([] : List α).contains other) = new :=
    List.filter_eq_self.2 (fun _ _ => rfl)
  rw [foldl_append_new_eq_append, hall, List.nil_append]

variable [PartialEquivBEq α]

theorem contains_append_new (elements : List α) (new other : α) :
    (appendNew elements new).contains other = (elements.contains other || new == other) := by
  unfold appendNew
  split
  · next h =>
      cases hother : new == other with
      | false => simp
      | true => simpa [hother] using (List.contains_congr hother).symm.trans h
  · simp [BEq.comm]

theorem contains_without (elements : List α) (old other : α) :
    (without elements old).contains other = (elements.contains other && !(old == other)) := by
  rw [Bool.eq_iff_iff]
  simp only [without, List.contains_iff_exists_mem_beq, List.mem_filter, Bool.and_eq_true,
    Bool.not_eq_true']
  constructor
  · rintro ⟨element, ⟨hmem, hold⟩, hother⟩
    refine ⟨⟨element, hmem, hother⟩, ?_⟩
    cases h : old == other with
    | false => rfl
    | true =>
        rw [BEq.symm (PartialEquivBEq.trans h hother)] at hold
        cases hold
  · rintro ⟨⟨element, hmem, hother⟩, hold⟩
    refine ⟨element, ⟨hmem, ?_⟩, hother⟩
    cases h : element == old with
    | false => rfl
    | true =>
        rw [BEq.symm (PartialEquivBEq.trans hother h)] at hold
        cases hold

/-- Adding elements one after the other. -/
theorem contains_foldl_append_new (elements new : List α) (other : α) :
    (new.foldl appendNew elements).contains other =
      (elements.contains other || new.contains other) := by
  induction new generalizing elements with
  | nil => simp
  | cons first rest ih =>
      rw [List.foldl_cons, ih, contains_append_new, List.contains_cons, Bool.or_assoc,
        @BEq.comm _ _ _ first other]

namespace Distinct

variable {elements : List α}

theorem append_new (h : Distinct elements) (new : α) : Distinct (appendNew elements new) := by
  unfold appendNew
  split
  · exact h
  · next hnew =>
      refine List.pairwise_append.2 ⟨h, List.pairwise_singleton .., fun first hfirst last hlast => ?_⟩
      rw [List.mem_singleton.1 hlast]
      cases heq : first == new with
      | false => rfl
      | true => exact absurd (List.contains_iff_exists_mem_beq.2 ⟨first, hfirst, BEq.symm heq⟩) hnew

theorem foldl_append_new (h : Distinct elements) (new : List α) :
    Distinct (new.foldl appendNew elements) := by
  induction new generalizing elements with
  | nil => exact h
  | cons first rest ih => exact ih (h.append_new first)

/-- An element stands at one place of a list. -/
theorem exists_split (h : Distinct elements) {element : α} (hmem : elements.contains element = true) :
    ∃ front found back, elements = front ++ found :: back ∧ (found == element) = true ∧
      front.contains element = false ∧ back.contains element = false := by
  obtain ⟨found, hfound, heq⟩ := List.contains_iff_exists_mem_beq.1 hmem
  obtain ⟨front, back, rfl⟩ := List.append_of_mem hfound
  obtain ⟨_, hback, hfront⟩ := List.pairwise_append.1 h
  refine ⟨front, found, back, rfl, BEq.symm heq, ?_, ?_⟩
  · rw [← Bool.not_eq_true, List.contains_iff_exists_mem_beq]
    rintro ⟨first, hfirst, hsame⟩
    have hne := hfront first hfirst found (List.mem_cons_self ..)
    rw [PartialEquivBEq.trans (BEq.symm hsame) heq] at hne
    cases hne
  · rw [← Bool.not_eq_true, List.contains_iff_exists_mem_beq]
    rintro ⟨last, hlast, hsame⟩
    have hne := (List.pairwise_cons.1 hback).1 last hlast
    rw [PartialEquivBEq.trans (BEq.symm heq) hsame] at hne
    cases hne

/-- In a list without equal elements, a search for an element finds the one that equals it. -/
theorem find?_eq_some_iff (h : Distinct elements) {target found : α} :
    elements.find? (· == target) = some found ↔ found ∈ elements ∧ (found == target) = true := by
  constructor
  · intro hfound
    refine ⟨List.mem_of_find?_eq_some hfound, ?_⟩
    simpa using List.find?_some hfound
  · intro ⟨hmem, heq⟩
    obtain ⟨front, back, rfl⟩ := List.append_of_mem hmem
    obtain ⟨-, -, hapart⟩ := List.pairwise_append.1 h
    refine List.find?_eq_some_iff_append.2 ⟨heq, front, back, rfl, fun other hother => ?_⟩
    -- An earlier element that is also equal would equal the one that is searched for.
    have hne := hapart other hother found (List.mem_cons_self ..)
    rw [Bool.not_eq_true']
    cases hsame : other == target with
    | false => rfl
    | true =>
        rw [PartialEquivBEq.trans hsame (BEq.symm heq)] at hne
        cases hne

theorem perm (h : Distinct elements) {others : List α} (hperm : elements.Perm others) :
    Distinct others :=
  (hperm.pairwise_iff (fun {first second} hne => by rwa [BEq.comm])).1 h

/-- What a search finds does not depend on the order. -/
theorem find?_eq_of_perm (h : Distinct elements) {others : List α} (hperm : elements.Perm others)
    (target : α) : elements.find? (· == target) = others.find? (· == target) := by
  refine Option.ext (fun found => ?_)
  rw [h.find?_eq_some_iff, (h.perm hperm).find?_eq_some_iff, hperm.mem_iff]

/-- Elements that are equal are one element. -/
theorem eq_of_beq [ReflBEq α] (h : Distinct elements) {first second : α} (hfirst : first ∈ elements)
    (hsecond : second ∈ elements) (hsame : (first == second) = true) : first = second := by
  have hfound := h.find?_eq_some_iff.2 ⟨hfirst, hsame⟩
  rw [h.find?_eq_some_iff.2 ⟨hsecond, BEq.refl second⟩, Option.some.injEq] at hfound
  exact hfound.symm

/-- Elements that are not there yet are added at the end. -/
theorem foldl_append_new_eq {new : List α} (h : Distinct (elements ++ new)) :
    new.foldl appendNew elements = elements ++ new := by
  induction new generalizing elements with
  | nil => rw [List.foldl_nil, List.append_nil]
  | cons first rest ih =>
      obtain ⟨-, -, hapart⟩ := List.pairwise_append.1 h
      have hnew : elements.contains first = false := by
        rw [← Bool.not_eq_true, List.contains_iff_exists_mem_beq]
        intro ⟨other, hother, hsame⟩
        have hne := hapart other hother first (List.mem_cons_self ..)
        rw [BEq.comm, hsame] at hne
        cases hne
      have hfirst : appendNew elements first = elements ++ [first] := by
        rw [appendNew, if_neg (by rw [hnew]; exact Bool.false_ne_true)]
      rw [List.append_cons] at h ⊢
      rw [List.foldl_cons, hfirst, ih h]

/-- Elements that are taken by their keys, one key after the other, are all taken once. -/
theorem flat_map_filter_perm {β : Type} (h : Distinct elements) {items : List β} {key : β → α}
    (hkeys : ∀ item ∈ items, elements.contains (key item) = true) :
    (elements.flatMap (fun element => items.filter (key · == element))).Perm items := by
  induction items with
  | nil => simp
  | cons item rest ih =>
      obtain ⟨hitem, hrest⟩ := List.forall_mem_cons.1 hkeys
      -- The first item is taken where its key stands and nowhere else.
      have hnot : ∀ part : List α, part.contains (key item) = false →
          part.flatMap (fun element => (item :: rest).filter (key · == element)) =
            part.flatMap (fun element => rest.filter (key · == element)) := by
        intro part hpart
        rw [← Bool.not_eq_true, List.contains_iff_exists_mem_beq] at hpart
        rw [List.flatMap_def, List.flatMap_def]
        refine congrArg List.flatten (List.map_congr_left (fun element helement => ?_))
        exact List.filter_cons_of_neg (fun heq => hpart ⟨element, helement, heq⟩)
      obtain ⟨front, found, back, rfl, hfound, hfront, hback⟩ := h.exists_split hitem
      have hrest := ih hrest
      rw [List.flatMap_append, List.flatMap_cons] at hrest ⊢
      have hself : (item :: rest).filter (key · == found) = item :: rest.filter (key · == found) :=
        List.filter_cons_of_pos (BEq.symm hfound)
      rw [hnot front hfront, hnot back hback, hself, List.cons_append]
      exact List.perm_middle.trans (hrest.cons item)

end Distinct

end CanonicalNames
