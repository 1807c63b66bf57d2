import CanonicalNames.Listing
import CanonicalNames.Proofs.Dotted
import CanonicalNames.Proofs.SourcePath
import CanonicalNames.Proofs.Table
import Mathlib.Data.List.Induction

/-!
# Gathering listed types

The entries of a listing come in any order, a nested class before the one around it and a class
in several parts. Gathering them loses nothing and repeats nothing (`files_gather_entries`): each
file is made up of the entries that have its path, in their order, and so is each of its classes
of the entries that have its name. `ListedType.place` says which path an entry has.

An entry is put into a file by a change of the class at its place. What a class declares after the
change is said by a lookup by place (`own_at_change_at`), of which the file of a whole list of
entries is an iteration (`own_at_file_of`).
-/

namespace CanonicalNames

namespace ClassDecl

/-! ## Changing a class of a list -/

section ChangeNamed

variable {change : ClassDecl → ClassDecl} {name : String} {classes : List ClassDecl}

/-- The first class with the name is changed in its place, or a new one at the end if there is
none. -/
theorem change_named_cases (name : String) (change : ClassDecl → ClassDecl)
    (classes : List ClassDecl) :
    (∃ front decl back, classes = front ++ decl :: back ∧ decl.name = name ∧
      (∀ other ∈ front, other.name ≠ name) ∧
      changeNamed name change classes = front ++ change decl :: back) ∨
    ((∀ other ∈ classes, other.name ≠ name) ∧
      changeNamed name change classes = classes ++ [change { name }]) := by
  induction classes with
  | nil => exact Or.inr ⟨nofun, rfl⟩
  | cons first rest ih =>
      rw [changeNamed]
      split
      · next hfirst => exact Or.inl ⟨[], first, rest, rfl, eq_of_beq hfirst, nofun, rfl⟩
      · next hfirst =>
          have hne : first.name ≠ name := by simpa using hfirst
          rcases ih with ⟨front, decl, back, hrest, hname, hfront, hchanged⟩ | ⟨hnone, hchanged⟩
          · exact Or.inl ⟨first :: front, decl, back, by rw [hrest]; rfl, hname,
              List.forall_mem_cons.2 ⟨hne, hfront⟩, by rw [hchanged]; rfl⟩
          · exact Or.inr ⟨List.forall_mem_cons.2 ⟨hne, hnone⟩, by rw [hchanged]; rfl⟩

/-- A class after a change was there before, or it is the one that is changed. -/
theorem mem_change_named {decl : ClassDecl} (h : decl ∈ changeNamed name change classes) :
    decl ∈ classes ∨ ∃ old, (old ∈ classes ∨ old = { name }) ∧ decl = change old := by
  rcases change_named_cases name change classes with
    ⟨front, old, back, rfl, -, -, hchanged⟩ | ⟨-, hchanged⟩
  · rw [hchanged] at h
    rcases List.mem_append.1 h with hfront | h
    · exact Or.inl (List.mem_append_left _ hfront)
    · rcases List.mem_cons.1 h with hdecl | hback
      · exact Or.inr ⟨old, Or.inl (by simp), hdecl⟩
      · exact Or.inl (List.mem_append_right _ (List.mem_cons_of_mem _ hback))
  · rw [hchanged] at h
    rcases List.mem_append.1 h with hold | hnew
    · exact Or.inl hold
    · exact Or.inr ⟨{ name }, Or.inr rfl, List.mem_singleton.1 hnew⟩

/-- A change that keeps names treats them as an ordered set. -/
theorem map_name_change_named (hname : ∀ decl, (change decl).name = decl.name) :
    (changeNamed name change classes).map ClassDecl.name =
      appendNew (classes.map ClassDecl.name) name := by
  rcases change_named_cases name change classes with
    ⟨front, decl, back, rfl, rfl, -, hchanged⟩ | ⟨hnone, hchanged⟩
  · simp [hchanged, hname, appendNew]
  · have hnew : name ∉ classes.map ClassDecl.name := by simpa using hnone
    simp [hchanged, hname, appendNew, hnew]

/-- The class with the name is found changed, made anew if there was none, and other classes are
found as before. -/
theorem find?_change_named (hname : ∀ decl, (change decl).name = decl.name) (other : String) :
    (changeNamed name change classes).find? (·.name == other) =
      if name = other then some (change ((classes.find? (·.name == name)).getD { name }))
      else classes.find? (·.name == other) := by
  have hskip : ∀ part : List ClassDecl, (∀ decl ∈ part, decl.name ≠ name) →
      part.find? (·.name == name) = none := by
    intro part hpart
    simpa using hpart
  rcases change_named_cases name change classes with
    ⟨front, decl, back, rfl, hdecl, hfront, hchanged⟩ | ⟨hnone, hchanged⟩
  · by_cases hother : name = other
    · subst hother
      simp [hchanged, List.find?_append, hskip front hfront, hname, hdecl]
    · simp [hchanged, List.find?_append, hname, hdecl, hother]
  · by_cases hother : name = other
    · subst hother
      simp [hchanged, List.find?_append, hskip classes hnone, hname]
    · simp [hchanged, List.find?_append, hname, hother]

end ChangeNamed

/-! ## Changing a class at its place -/

/-- The change that the class at the end of some segments goes through, seen from a class. -/
def changeFrom (change : ClassDecl → ClassDecl) (rest : List String) (decl : ClassDecl) :
    ClassDecl :=
  if rest.isEmpty then change decl else { decl with classes := changeAt change rest decl.classes }

theorem change_at_cons (change : ClassDecl → ClassDecl) (segment : String) (rest : List String)
    (classes : List ClassDecl) : changeAt change (segment :: rest) classes =
      changeNamed segment (changeFrom change rest) classes := rfl

/-- The change of a class keeps the name of every class around it. -/
theorem change_from_name {change : ClassDecl → ClassDecl}
    (hname : ∀ decl, (change decl).name = decl.name) (rest : List String) (decl : ClassDecl) :
    (changeFrom change rest decl).name = decl.name := by
  unfold changeFrom
  split
  · exact hname decl
  · rfl

/-- The classes of a list have names of their own, and so have those inside each, at any depth. -/
inductive Apart : List ClassDecl → Prop
  | mk {classes : List ClassDecl} (names : (classes.map ClassDecl.name).Nodup)
      (inside : ∀ decl ∈ classes, Apart decl.classes) : Apart classes

/-- A change of one class keeps names apart. -/
theorem Apart.change_at {change : ClassDecl → ClassDecl}
    (hname : ∀ decl, (change decl).name = decl.name)
    (hclasses : ∀ decl, (change decl).classes = decl.classes) {segments : List String}
    {classes : List ClassDecl} (h : Apart classes) : Apart (changeAt change segments classes) := by
  induction segments generalizing classes with
  | nil => exact h
  | cons segment rest ih =>
      obtain ⟨hnames, hinside⟩ := h
      rw [change_at_cons]
      refine ⟨?_, fun decl hdecl => ?_⟩
      · rw [map_name_change_named (change_from_name hname rest)]
        exact (Distinct.append_new (hnames.imp (fun hne => by simpa using hne)) segment).nodup
      · rcases mem_change_named hdecl with hold | ⟨old, hold, rfl⟩
        · exact hinside decl hold
        · have hbefore : Apart old.classes := by
            rcases hold with hold | rfl
            · exact hinside old hold
            · exact ⟨List.nodup_nil, by simp⟩
          unfold changeFrom
          split
          · rwa [hclasses]
          · exact ih hbefore

/-! ## Classes by place -/

/-- The class that is reached through some names, from outside in. -/
def at? : List String → List ClassDecl → Option ClassDecl
  | [], _ => none
  | name :: rest, classes =>
    (classes.find? (·.name == name)).bind (fun decl =>
      if rest.isEmpty then some decl else at? rest decl.classes)

/-- What a class declares itself, apart from its name and the classes inside it. -/
def own (decl : ClassDecl) : ClassDecl :=
  { decl with name := "", classes := [] }

@[simp] theorem at?_no_classes (path : List String) : at? path [] = none := by
  cases path <;> rfl

section AddTo

variable {entry : ListedType}

theorem name_add_to (decl : ClassDecl) : (entry.addTo decl).name = decl.name := rfl

@[simp] theorem classes_add_to (decl : ClassDecl) : (entry.addTo decl).classes = decl.classes := rfl

end AddTo

/-- Adding an entry to the class at its place changes what that class declares, makes the classes
around it if they are missing, and leaves everything else. -/
theorem own_at_change_at (entry : ListedType) (path segments : List String)
    (classes : List ClassDecl) :
    (at? path (changeAt entry.addTo segments classes)).map own =
      if path ≠ [] ∧ path <+: segments then
        let before := ((at? path classes).map own).getD { name := "" }
        some (if path = segments then entry.addTo before else before)
      else (at? path classes).map own := by
  induction segments generalizing path classes with
  | nil =>
      have hnot : ¬(path ≠ [] ∧ path <+: []) := fun h => h.1 (List.prefix_nil.1 h.2)
      rw [if_neg hnot]
      rfl
  | cons segment rest ih =>
      cases path with
      | nil => rfl
      | cons name inner =>
          have hkeep : ∀ decl, (changeFrom entry.addTo rest decl).name = decl.name :=
            change_from_name name_add_to rest
          rw [change_at_cons, at?, at?, find?_change_named hkeep]
          by_cases hname : segment = name
          · subst hname
            -- A class that is made has nothing inside, where nothing is found either.
            cases classes.find? (·.name == segment) <;>
              cases inner with
              | nil => cases rest <;> simp [changeFrom, own, ListedType.addTo]
              | cons next inner => cases rest <;> simp [changeFrom, ih]
          · simp [hname, Ne.symm hname]

/-- The class has the dotted name below the given classes: its own name, after the names of the
classes around it. -/
inductive Named : List ClassDecl → String → ClassDecl → Prop
  | outer {classes : List ClassDecl} {decl : ClassDecl} (mem : decl ∈ classes) :
      Named classes decl.name decl
  | inner {classes : List ClassDecl} {around decl : ClassDecl} {name : String}
      (mem : around ∈ classes) (inside : Named around.classes name decl) :
      Named classes (Dotted.join around.name name) decl

/-- If names are apart, a class is found by its name. -/
theorem find?_of_nodup {classes : List ClassDecl} (hnames : (classes.map ClassDecl.name).Nodup)
    {decl : ClassDecl} (hdecl : decl ∈ classes) :
    classes.find? (·.name == decl.name) = some decl := by
  induction classes with
  | nil => cases hdecl
  | cons first rest ih =>
      obtain ⟨hfirst, hrest⟩ := List.nodup_cons.1 hnames
      rcases List.mem_cons.1 hdecl with rfl | hdecl
      · simp
      · have hne : first.name ≠ decl.name := fun heq =>
          hfirst (heq ▸ List.mem_map_of_mem hdecl)
        rw [List.find?_cons_of_neg (by simpa using hne), ih hrest hdecl]

/-- If names are apart, the classes that have a dotted name are those found at a place of which it
is put together. -/
theorem Apart.named_iff {classes : List ClassDecl} (h : Apart classes) {name : String}
    {decl : ClassDecl} : Named classes name decl ↔
      ∃ path, at? path classes = some decl ∧ path.foldl Dotted.join "" = name := by
  constructor
  · intro hnamed
    induction hnamed with
    | @outer classes decl hmem =>
        obtain ⟨hnames, -⟩ := h
        exact ⟨[decl.name], by simp [at?, find?_of_nodup hnames hmem], by simp⟩
    | @inner classes around decl name hmem _ ih =>
        obtain ⟨hnames, hinside⟩ := h
        obtain ⟨path, hpath, rfl⟩ := ih (hinside around hmem)
        have hne : path.isEmpty = false := by
          cases path with
          | nil => cases hpath
          | cons => rfl
        refine ⟨around.name :: path, by simp [at?, find?_of_nodup hnames hmem, hne, hpath], ?_⟩
        rw [List.foldl_cons, Dotted.join_empty_left, Dotted.foldl_join_eq]
  · rintro ⟨path, hpath, rfl⟩
    clear h
    induction path generalizing classes with
    | nil => cases hpath
    | cons name rest ih =>
        obtain ⟨around, haround, hrest⟩ := Option.bind_eq_some_iff.1 hpath
        have hmem := List.mem_of_find?_eq_some haround
        obtain rfl : around.name = name := by simpa using List.find?_some haround
        rw [List.foldl_cons, Dotted.join_empty_left]
        cases rest with
        | nil =>
            cases hrest
            exact .outer hmem
        | cons next rest =>
            rw [Dotted.foldl_join_eq]
            exact .inner hmem (ih hrest)

end ClassDecl

/-! ## The path of a file -/

namespace ListedType

/-- The file that a type goes into, by its components: that of the file it names, or else of the one
that is named after its outermost class, in the folders of its package. -/
def place (entry : ListedType) : List Component :=
  match entry.file with
  | some file => file.components
  | none =>
    (Dotted.segments entry.package ++ [Dotted.first entry.name ++ ".java"]).foldl
      SourcePath.below []

/-- The path of an entry leads to its place. -/
theorem components_file_key (entry : ListedType) : entry.fileKey.components = entry.place := by
  unfold fileKey place
  cases entry.file with
  | some file => rfl
  | none =>
      have hsegments : ∀ segment ∈ Dotted.segments entry.package, SourcePath.IsNamed segment := by
        intro segment hsegment
        have hnamed := SourcePath.is_named_append (Dotted.dot_not_mem_of_mem_segments hsegment)
          List.not_mem_nil (Or.inl rfl)
        rwa [String.append_empty] at hnamed
      have hclass : SourcePath.IsNamed (Dotted.first entry.name ++ ".java") :=
        SourcePath.is_named_append (Dotted.dot_not_mem_first entry.name) (by decide)
          (Or.inr (by decide))
      show (SourcePath.push _ _).components = _
      rw [List.foldl_append, List.foldl_cons, List.foldl_nil, SourcePath.components_push _ hclass,
        SourcePath.components_foldl_push hsegments]
      rfl

end ListedType

/-! ## The file of some entries -/

namespace Listing

/-- The source file that some entries make up. -/
def fileOf (path : SourcePath) (package : String) (entries : List ListedType) : FileDecl :=
  entries.foldl addEntry { path, package }

/-- What the entries at a place declare together. -/
def declaredAt (place : List String) (entries : List ListedType) : ClassDecl :=
  let parts := entries.filter (Dotted.segments ·.name = place)
  { name := ""
    supertypes := parts.flatMap ListedType.supertypes
    typeParams := parts.flatMap ListedType.typeParams
    methods := parts.flatMap ListedType.methods }

theorem declared_at_concat (place : List String) (entries : List ListedType) (entry : ListedType) :
    declaredAt place (entries ++ [entry]) =
      if place = Dotted.segments entry.name then entry.addTo (declaredAt place entries)
      else declaredAt place entries := by
  by_cases hplace : place = Dotted.segments entry.name
  · simp [declaredAt, ListedType.addTo, hplace]
  · simp [declaredAt, hplace, Ne.symm hplace]

/-- Where no entry lies at a place or below it, nothing is declared. -/
theorem declared_at_of_no_entry {place : List String} {entries : List ListedType}
    (h : ¬∃ entry ∈ entries, place <+: Dotted.segments entry.name) :
    declaredAt place entries = { name := "" } := by
  have hnone : entries.filter (Dotted.segments ·.name = place) = [] := by
    refine List.filter_eq_nil_iff.2 (fun entry hentry hplace => h ⟨entry, hentry, ?_⟩)
    exact (of_decide_eq_true hplace) ▸ List.prefix_rfl
  simp [declaredAt, hnone]

section FileOf

variable (path : SourcePath) (package : String) (entries : List ListedType)

theorem file_of_concat (entry : ListedType) :
    fileOf path package (entries ++ [entry]) = addEntry (fileOf path package entries) entry :=
  List.foldl_append

@[simp] theorem path_file_of : (fileOf path package entries).path = path := by
  induction entries using List.reverseRecOn with
  | nil => rfl
  | append_singleton entries entry ih => rwa [file_of_concat]

@[simp] theorem package_file_of : (fileOf path package entries).package = package := by
  induction entries using List.reverseRecOn with
  | nil => rfl
  | append_singleton entries entry ih => rwa [file_of_concat]

theorem imports_file_of :
    (fileOf path package entries).imports = (entries.flatMap ListedType.imports).eraseDups := by
  rw [← foldl_append_new_nil, List.foldl_flatMap]
  induction entries using List.reverseRecOn with
  | nil => rfl
  | append_singleton entries entry ih =>
      rw [file_of_concat, List.foldl_append, ← ih]
      rfl

theorem apart_file_of : ClassDecl.Apart (fileOf path package entries).classes := by
  induction entries using List.reverseRecOn with
  | nil => exact ⟨List.nodup_nil, by simp [fileOf]⟩
  | append_singleton entries entry ih =>
      rw [file_of_concat]
      exact ih.change_at ClassDecl.name_add_to ClassDecl.classes_add_to

/-- A class is in the file exactly if it is at the place of an entry or around it, and it declares
what the entries at its place add up to. -/
theorem own_at_file_of (place : List String) :
    (ClassDecl.at? place (fileOf path package entries).classes).map ClassDecl.own =
      if place ≠ [] ∧ ∃ entry ∈ entries, place <+: Dotted.segments entry.name then
        some (declaredAt place entries)
      else none := by
  induction entries using List.reverseRecOn with
  | nil => simp [fileOf]
  | append_singleton entries entry ih =>
      rw [file_of_concat, addEntry]
      simp only [ClassDecl.own_at_change_at, ih]
      by_cases hplace : place = []
      · simp [hplace]
      · have hbefore : (if ∃ entry ∈ entries, place <+: Dotted.segments entry.name then
            some (declaredAt place entries) else none).getD { name := "" } =
              declaredAt place entries := by
          split
          · rfl
          · next hnone => exact (declared_at_of_no_entry hnone).symm
        simp only [ne_eq, hplace, not_false_eq_true, true_and, hbefore, declared_at_concat,
          List.mem_append, List.mem_singleton, or_and_right, exists_or, exists_eq_left]
        by_cases hentry : place <+: Dotted.segments entry.name
        · simp [hentry]
        · have hne : place ≠ Dotted.segments entry.name := fun heq => hentry (heq ▸ List.prefix_rfl)
          simp [hentry, hne]

end FileOf

/-- A source file is made up of some entries. -/
structure Gathers (file : FileDecl) (entries : List ListedType) : Prop where
  package : ∀ entry ∈ entries, entry.package = file.package
  /-- Imports are listed when they are first seen. -/
  imports : file.imports = (entries.flatMap ListedType.imports).eraseDups
  apart : ClassDecl.Apart file.classes
  /-- The classes are those of the entries and the ones around them. -/
  exists_iff : ∀ name, (∃ decl, ClassDecl.Named file.classes name decl) ↔
    name ≠ "" ∧ ∃ entry ∈ entries, ∃ inner, Dotted.join name inner = entry.name
  /-- A class is put together from its own entries, in order. -/
  parts : ∀ name decl, ClassDecl.Named file.classes name decl →
    let parts := entries.filter (·.name = name)
    decl.methods = parts.flatMap ListedType.methods ∧
      decl.supertypes = parts.flatMap ListedType.supertypes ∧
      decl.typeParams = parts.flatMap ListedType.typeParams

section Gathers

variable {path : SourcePath} {package : String} {entries : List ListedType}

/-- A class of a file stands at a place of segments, at the place of an entry or around it. -/
theorem exists_at_iff_file_of (place : List String) :
    (∃ decl, ClassDecl.at? place (fileOf path package entries).classes = some decl) ↔
      place ≠ [] ∧ ∃ entry ∈ entries, place <+: Dotted.segments entry.name := by
  have hown := congrArg Option.isSome (own_at_file_of path package entries place)
  rw [Option.isSome_map, apply_ite Option.isSome] at hown
  rw [← Option.isSome_iff_exists, hown]
  simp

/-- The dotted name of a class has the names on the way to it for its segments. -/
theorem segments_of_at {place : List String} {decl : ClassDecl}
    (hat : ClassDecl.at? place (fileOf path package entries).classes = some decl) :
    Dotted.segments (place.foldl Dotted.join "") = place := by
  obtain ⟨-, entry, -, hbefore⟩ := (exists_at_iff_file_of place).1 ⟨decl, hat⟩
  refine (Dotted.segments_foldl_join "" (fun segment hsegment => ?_)).trans (List.nil_append _)
  have hmem := hbefore.subset hsegment
  exact ⟨Dotted.ne_empty_of_mem_segments hmem, Dotted.dot_not_mem_of_mem_segments hmem⟩

/-- Entries with valid names and one package make up their file. -/
theorem gathers_file_of (hvalid : ∀ entry ∈ entries, Dotted.isValid entry.name = true)
    (hpackage : ∀ entry ∈ entries, entry.package = package) :
    Gathers (fileOf path package entries) entries where
  package := by simpa using hpackage
  imports := imports_file_of path package entries
  apart := apart_file_of path package entries
  exists_iff name := by
    simp only [(apart_file_of path package entries).named_iff]
    constructor
    · rintro ⟨decl, place, hat, rfl⟩
      obtain ⟨hplace, entry, hentry, rest, hrest⟩ := (exists_at_iff_file_of place).1 ⟨decl, hat⟩
      obtain ⟨outer, inner, hjoin, houter, hsegments, -⟩ :=
        Dotted.exists_join_of_segments (hvalid entry hentry) hrest.symm
      have hname : place.foldl Dotted.join "" = outer := by
        rw [← hsegments, Dotted.foldl_join_segments houter]
      refine ⟨fun hempty => hplace ?_, entry, hentry, inner, hname ▸ hjoin⟩
      rw [← segments_of_at hat, hempty]
      rfl
    · rintro ⟨hname, entry, hentry, inner, hjoin⟩
      have hboth := hvalid entry hentry
      rw [← hjoin, Dotted.is_valid_join, Bool.and_eq_true] at hboth
      obtain ⟨decl, hat⟩ := (@exists_at_iff_file_of path package entries _).2
        ⟨Dotted.segments_ne_nil hboth.1 hname, entry, hentry, Dotted.segments inner,
          by rw [← hjoin, Dotted.segments_join]⟩
      exact ⟨decl, Dotted.segments name, hat, Dotted.foldl_join_segments hboth.1⟩
  parts name decl hnamed := by
    obtain ⟨place, hat, rfl⟩ := (apart_file_of path package entries).named_iff.1 hnamed
    have hown := own_at_file_of path package entries place
    rw [if_pos ((exists_at_iff_file_of place).1 ⟨decl, hat⟩), hat, Option.map_some,
      Option.some.injEq] at hown
    have hsame : entries.filter (·.name = place.foldl Dotted.join "") =
        entries.filter (Dotted.segments ·.name = place) := by
      refine List.filter_congr (fun entry hentry =>
        decide_eq_decide.2 ⟨fun heq => ?_, fun heq => ?_⟩)
      · rw [heq, segments_of_at hat]
      · rw [← heq, Dotted.foldl_join_segments (hvalid entry hentry)]
    rw [hsame]
    exact ⟨congrArg ClassDecl.methods hown, congrArg ClassDecl.supertypes hown,
      congrArg ClassDecl.typeParams hown⟩

end Gathers

/-! ## The files of a listing -/

/-- The state of gathering after some entries. -/
structure Gathered (entries : List ListedType) (files : Table SourcePath FileDecl) : Prop where
  unique : files.Unique
  keys : files.keys = (entries.map ListedType.fileKey).eraseDups
  path : ∀ pair ∈ files.entries, pair.2.path = pair.1
  found : ∀ {path file}, files.find? path = some file →
    file = fileOf file.path file.package (entries.filter (·.fileKey == path))
  package : ∀ {path file}, files.find? path = some file →
    ∀ entry ∈ entries, (entry.fileKey == path) = true → entry.package = file.package

/-- When an entry is accepted next to the files that are there, and what it adds. -/
theorem gather_eq_ok_iff {files after : Table SourcePath FileDecl} {entry : ListedType} :
    gather files entry = .ok after ↔
      (entry.name ≠ "" ∧ Dotted.isValid entry.name = true) ∧
      (∀ file ∈ files.find? entry.fileKey, file.package = entry.package) ∧
      files.insert entry.fileKey (addEntry ((files.find? entry.fileKey).getD
        { path := entry.fileKey, package := entry.package }) entry) = after := by
  have hpackage : ((files.find? entry.fileKey).getD
      { path := entry.fileKey, package := entry.package }).package = entry.package ↔
      ∀ file ∈ files.find? entry.fileKey, file.package = entry.package := by
    cases files.find? entry.fileKey <;> simp
  rw [gather]
  split
  · next hname =>
      refine ⟨nofun, fun ⟨hvalid, _⟩ => ?_⟩
      simp [hvalid] at hname
  · next hname =>
      have hvalid : entry.name ≠ "" ∧ Dotted.isValid entry.name = true := by simpa using hname
      simp only [hpackage]
      split
      · next hsame =>
          rw [Except.ok.injEq]
          exact ⟨fun hafter => ⟨hvalid, hsame, hafter⟩, fun hall => hall.2.2⟩
      · next hother => exact ⟨nofun, fun hall => absurd hall.2.1 hother⟩

namespace Gathered

variable {entries : List ListedType} {files : Table SourcePath FileDecl}

theorem empty : Gathered [] {} where
  unique := Table.unique_empty
  keys := rfl
  path := by simp
  found := by simp
  package := by simp

/-- A file is found under the paths of the entries. -/
theorem is_some_find? (h : Gathered entries files) (path : SourcePath) :
    (files.find? path).isSome = entries.any (·.fileKey == path) := by
  rw [Table.is_some_find?, h.keys, ← foldl_append_new_nil, contains_foldl_append_new,
    List.contains_nil, Bool.false_or, List.contains_eq_any_beq, List.any_map]
  congr 1
  funext entry
  exact BEq.comm

/-- What is there before an entry is added is the file of the entries with its path. -/
theorem found_or_new (h : Gathered entries files) (entry : ListedType) :
    let before := (files.find? entry.fileKey).getD
      { path := entry.fileKey, package := entry.package }
    before = fileOf before.path before.package (entries.filter (·.fileKey == entry.fileKey)) ∧
      ∀ other ∈ entries, (other.fileKey == entry.fileKey) = true →
        other.package = before.package := by
  cases hfound : files.find? entry.fileKey with
  | some file => exact ⟨h.found hfound, h.package hfound⟩
  | none =>
      have hnone := h.is_some_find? entry.fileKey
      rw [hfound, Option.isSome_none, eq_comm, List.any_eq_false] at hnone
      rw [List.filter_eq_nil_iff.2 hnone]
      exact ⟨rfl, fun other hother hkey => absurd hkey (hnone other hother)⟩

/-- An entry that is accepted keeps the files those of the entries. -/
theorem step (h : Gathered entries files) {entry : ListedType} {after : Table SourcePath FileDecl}
    (hstep : gather files entry = .ok after) : Gathered (entries ++ [entry]) after := by
  obtain ⟨-, hpackage, rfl⟩ := gather_eq_ok_iff.1 hstep
  obtain ⟨hbefore, hothers⟩ := h.found_or_new entry
  have hentry : entry.package = ((files.find? entry.fileKey).getD
      { path := entry.fileKey, package := entry.package }).package := by
    cases hfound : files.find? entry.fileKey with
    | none => rfl
    | some file => exact (hpackage file hfound).symm
  refine ⟨h.unique.insert _ _, ?_, fun pair hpair => ?_, fun {path file} hfound => ?_,
    fun {path file} hfound other hother hkey => ?_⟩
  · rw [Table.keys_insert, h.keys, List.map_append, ← foldl_append_new_nil, ← foldl_append_new_nil,
      List.foldl_append]
    rfl
  · rcases Table.mem_entries_insert hpair with hold | ⟨rfl, hnone⟩ | ⟨hvalue, old, hfound, hold⟩
    · exact h.path pair hold
    · rw [hnone]
      rfl
    · rw [hvalue, hfound]
      exact h.path _ hold
  · rw [List.filter_append]
    rw [Table.find?_insert] at hfound
    split at hfound
    · next hkey =>
        obtain rfl := Option.some.inj hfound
        simp only [← BEq.congr_right hkey, List.filter_cons, List.filter_nil, BEq.rfl, ↓reduceIte,
          file_of_concat]
        exact congrArg (addEntry · entry) hbefore
    · next hkey =>
        rw [List.filter_cons, if_neg hkey, List.filter_nil, List.append_nil]
        exact h.found hfound
  · rw [Table.find?_insert] at hfound
    split at hfound
    · next hsame =>
        obtain rfl := Option.some.inj hfound
        rcases List.mem_append.1 hother with hother | hother
        · exact hothers other hother (PartialEquivBEq.trans hkey (BEq.symm hsame))
        · rw [List.mem_singleton.1 hother]
          exact hentry
    · next hsame =>
        rcases List.mem_append.1 hother with hother | hother
        · exact h.package hfound other hother hkey
        · exact absurd (List.mem_singleton.1 hother ▸ hkey) hsame

/-- A run over one more entry. -/
theorem run_concat_iff {entry : ListedType} :
    (entries ++ [entry]).foldlM gather {} = .ok files ↔
      ∃ before, entries.foldlM gather {} = .ok before ∧ gather before entry = .ok files := by
  simp only [List.foldlM_append, List.foldlM_cons, List.foldlM_nil, bind_pure]
  cases entries.foldlM gather {} <;> simp [bind, Except.bind]

/-- The state after a whole run. -/
theorem of_run (hrun : entries.foldlM gather {} = .ok files) : Gathered entries files := by
  induction entries using List.reverseRecOn generalizing files with
  | nil =>
      cases hrun
      exact empty
  | append_singleton entries entry ih =>
      obtain ⟨before, hbefore, hstep⟩ := run_concat_iff.1 hrun
      exact (ih hbefore).step hstep

/-- A run accepts exactly the entries with valid names that agree on the package of each file. -/
theorem exists_run_iff : (∃ files, entries.foldlM gather {} = .ok files) ↔
    (∀ entry ∈ entries, entry.name ≠ "" ∧ Dotted.isValid entry.name = true) ∧
      ∀ entry ∈ entries, ∀ other ∈ entries, (entry.fileKey == other.fileKey) = true →
        entry.package = other.package := by
  induction entries using List.reverseRecOn with
  | nil => exact ⟨fun _ => by simp, fun _ => ⟨{}, rfl⟩⟩
  | append_singleton entries entry ih =>
      constructor
      · rintro ⟨files, hrun⟩
        have hall := of_run hrun
        obtain ⟨before, hbefore, hstep⟩ := run_concat_iff.1 hrun
        refine ⟨fun other hother => ?_, fun first hfirst second hsecond hsame => ?_⟩
        · rcases List.mem_append.1 hother with hother | hother
          · exact (ih.1 ⟨before, hbefore⟩).1 other hother
          · exact List.mem_singleton.1 hother ▸ (gather_eq_ok_iff.1 hstep).1
        · obtain ⟨file, hfile⟩ := Option.isSome_iff_exists.1
            ((hall.is_some_find? second.fileKey).trans
              (List.any_eq_true.2 ⟨second, hsecond, BEq.rfl⟩))
          rw [hall.package hfile first hfirst hsame, hall.package hfile second hsecond BEq.rfl]
      · rintro ⟨hnames, hpackages⟩
        have hmem : entry ∈ entries ++ [entry] := by simp
        obtain ⟨before, hbefore⟩ := ih.2
          ⟨fun other hother => hnames other (List.mem_append_left _ hother),
            fun first hfirst second hsecond =>
              hpackages first (List.mem_append_left _ hfirst) second
                (List.mem_append_left _ hsecond)⟩
        refine ⟨_, run_concat_iff.2 ⟨before, hbefore,
          gather_eq_ok_iff.2 ⟨hnames entry hmem, ?_, rfl⟩⟩⟩
        intro file hfile
        -- A file that is there has an entry, which has the package of the file and of the new one.
        have hsome := (of_run hbefore).is_some_find? entry.fileKey
        rw [Option.mem_def.1 hfile, Option.isSome_some, eq_comm, List.any_eq_true] at hsome
        obtain ⟨other, hother, hsame⟩ := hsome
        rw [← (of_run hbefore).package hfile other hother hsame]
        exact hpackages other (List.mem_append_left _ hother) entry hmem hsame

end Gathered

variable {listing : Listing} {files : List FileDecl}

theorem to_files_eq_ok_iff : listing.toFiles = .ok files ↔
    ∃ table, listing.types.foldlM gather {} = .ok table ∧ table.entries.map Prod.snd = files := by
  rw [toFiles]
  cases listing.types.foldlM gather {} <;> simp [Except.map]

/-- A listing is gathered exactly if its entries have valid names and agree on the package of each
file. -/
theorem exists_to_files_iff : (∃ files, listing.toFiles = .ok files) ↔
    (∀ entry ∈ listing.types, entry.name ≠ "" ∧ Dotted.isValid entry.name = true) ∧
      ∀ entry ∈ listing.types, ∀ other ∈ listing.types,
        (entry.fileKey == other.fileKey) = true → entry.package = other.package := by
  simp only [← Gathered.exists_run_iff, to_files_eq_ok_iff]
  exact ⟨fun ⟨_, table, hrun, _⟩ => ⟨table, hrun⟩, fun ⟨table, hrun⟩ => ⟨_, table, hrun, rfl⟩⟩

/-- The files of a listing have the paths of the entries, in the order in which they are first
seen, and each is the file of the entries with its path. -/
theorem files_of_to_files (h : listing.toFiles = .ok files) :
    Distinct (files.map FileDecl.path) ∧
      files.map FileDecl.path = (listing.types.map ListedType.fileKey).eraseDups ∧
      ∀ file ∈ files,
        file = fileOf file.path file.package (listing.types.filter (·.fileKey == file.path)) ∧
        ∀ entry ∈ listing.types, (entry.fileKey == file.path) = true →
          entry.package = file.package := by
  obtain ⟨table, hrun, rfl⟩ := to_files_eq_ok_iff.1 h
  have hall := Gathered.of_run hrun
  have hpaths : (table.entries.map Prod.snd).map FileDecl.path = table.keys := by
    rw [List.map_map]
    exact List.map_congr_left hall.path
  refine ⟨hpaths ▸ hall.unique.distinct_keys, hpaths.trans hall.keys, fun file hfile => ?_⟩
  obtain ⟨pair, hpair, rfl⟩ := List.mem_map.1 hfile
  have hfound : table.find? pair.2.path = some pair.2 :=
    hall.unique.find?_eq_some_iff.2 ⟨pair, hpair, by rw [hall.path pair hpair]; exact BEq.rfl, rfl⟩
  exact ⟨hall.found hfound, hall.package hfound⟩

/-- Gathering a listing loses nothing and repeats nothing. The files have different paths, in the
order in which the entries first name them, and each is made up of the entries that name it. -/
theorem files_gather_entries (h : listing.toFiles = .ok files) :
    Distinct (files.map FileDecl.path) ∧
      files.map FileDecl.path = (listing.types.map ListedType.fileKey).eraseDups ∧
      ∀ file ∈ files, Gathers file (listing.types.filter (·.fileKey == file.path)) := by
  obtain ⟨hnames, -⟩ := exists_to_files_iff.1 ⟨files, h⟩
  obtain ⟨hdistinct, hpaths, hfiles⟩ := files_of_to_files h
  refine ⟨hdistinct, hpaths, fun file hfile => ?_⟩
  obtain ⟨hmade, hpackage⟩ := hfiles file hfile
  rw [hmade, path_file_of]
  exact gathers_file_of (fun entry hentry => (hnames entry (List.mem_filter.1 hentry).1).2)
    (fun entry hentry => hpackage entry (List.mem_filter.1 hentry).1 (List.mem_filter.1 hentry).2)

/-- A nested class in two parts before and after the class around it, a class that names their file
by another spelling, and a class of another file. -/
def scatteredListing : Listing where
  types :=
    [{ package := "p"
       name := "Outer.Inner"
       imports := ["a.B"]
       methods := [{ name := "m", returnType := .text "B" }] },
     { package := "q", name := "Third" },
     { package := "p", name := "Outer", imports := ["c.D", "a.B"], supertypes := [.text "D"] },
     { package := "p", name := "Other", file := some ⟨"p//Outer.java"⟩ },
     { package := "p"
       name := "Outer.Inner"
       typeParams := [{ name := "T" }]
       methods := [{ name := "n", returnType := .text "T" }] }]

/-- The nested class has the methods of both parts, in a file with the imports of all four
entries. -/
theorem scattered_listing_gathers :
    ∃ files, scatteredListing.toFiles = .ok files ∧
      files.map FileDecl.path = [⟨"p/Outer.java"⟩, ⟨"q/Third.java"⟩] ∧
      ∃ file ∈ files, file.imports = ["a.B", "c.D"] ∧
        ∃ decl, ClassDecl.Named file.classes "Outer.Inner" decl ∧
          decl.methods.map MethodDecl.name = ["m", "n"] := by
  obtain ⟨files, hfiles⟩ : ∃ files, scatteredListing.toFiles = .ok files := by
    have hok : scatteredListing.toFiles.isOk = true := by decide +kernel
    cases hfiles : scatteredListing.toFiles with
    | ok files => exact ⟨files, rfl⟩
    | error fault => simp [hfiles, Except.isOk, Except.toBool] at hok
  obtain ⟨-, hpaths, hgather⟩ := files_gather_entries hfiles
  have hkeys : (scatteredListing.types.map ListedType.fileKey).eraseDups =
      [⟨"p/Outer.java"⟩, ⟨"q/Third.java"⟩] := by decide +kernel
  rw [hkeys] at hpaths
  obtain ⟨file, hfile, hpath⟩ := List.mem_map.1 (hpaths ▸ List.mem_cons_self ..)
  have hall := hgather file hfile
  rw [hpath] at hall
  obtain ⟨decl, hdecl⟩ := (hall.exists_iff "Outer.Inner").2
    ⟨by decide, _, List.mem_cons_self .., "", by decide +kernel⟩
  refine ⟨files, hfiles, hpaths, file, hfile, hall.imports.trans (by decide +kernel), decl, hdecl,
    ?_⟩
  rw [(hall.parts _ _ hdecl).1]
  decide +kernel

end Listing

end CanonicalNames
