import CanonicalNames.Proofs.Listing.Gathering
import CanonicalNames.Proofs.Report.Order

/-!
# Loading a listing

A listing is loaded in two layers, each with checks of its own: its entries are gathered into
files, and the files are inserted one after the other. Together they accept exactly the listings
in which names and packages are valid, the entries of a file agree on its package, and nothing that
is declared lacks a name; every entry of such a listing is then indexed as a class of its file
(`loads_iff_and_indexes`). Gathered files never meet in the table of files, since their paths are
apart, and a class that is made for a nested one has a segment for a name, so that nothing else can
go wrong (`ClassDecl.all_of_change_at`).
-/

namespace CanonicalNames

/-- Everything that an entry declares in its class has a name. -/
def ListedType.isPlain (entry : ListedType) : Bool :=
  Branch.allOf Branch.isPlain (entry.typeParams.map TypeParamDecl.toBranch) &&
    Branch.allOf Branch.isPlain (entry.methods.map MethodDecl.toBranch)

theorem all_of_is_plain_type_params {params : List TypeParamDecl} :
    Branch.allOf Branch.isPlain (params.map TypeParamDecl.toBranch) = true ↔
      ∀ param ∈ params, param.name ≠ "" := by
  simp [Branch.all_of_iff, TypeParamDecl.toBranch, Branch.all, Branch.allOf, Branch.isPlain,
    Branch.isInner, TypeParamDecl.toElement, Element.segment, Element.kind]

theorem ListedType.is_plain_iff {entry : ListedType} : entry.isPlain = true ↔
    (∀ method ∈ entry.methods, method.name ≠ "" ∧ ∀ param ∈ method.typeParams, param.name ≠ "") ∧
      ∀ param ∈ entry.typeParams, param.name ≠ "" := by
  rw [isPlain, Bool.and_eq_true, all_of_is_plain_type_params, and_comm, Branch.all_of_iff,
    List.forall_mem_map]
  simp [MethodDecl.toBranch, Branch.all, all_of_is_plain_type_params, Branch.isPlain,
    Branch.isInner, MethodDecl.toElement, Element.segment, Element.kind]

namespace ClassDecl

theorem to_branches_eq_map (classes : List ClassDecl) :
    toBranches classes = classes.map toBranch := by
  induction classes with
  | nil => rfl
  | cons first rest ih => rw [toBranches, ih, List.map_cons]

theorem all_is_plain_class (decl : ClassDecl) : decl.toBranch.all Branch.isPlain =
    (!decl.name.isEmpty &&
      (Branch.allOf Branch.isPlain (decl.typeParams.map TypeParamDecl.toBranch) &&
      Branch.allOf Branch.isPlain (toBranches decl.classes) &&
      Branch.allOf Branch.isPlain (decl.methods.map MethodDecl.toBranch))) := by
  cases decl
  simp only [toBranch, Branch.all, Branch.all_of_append]
  rfl

/-- If a change adds something to any class, so does changing a class of a list. -/
theorem all_of_change_named {change : ClassDecl → ClassDecl} {added : Bool} {name : String}
    (hname : name ≠ "")
    (hchange : ∀ decl, (change decl).toBranch.all Branch.isPlain =
      (decl.toBranch.all Branch.isPlain && added)) (classes : List ClassDecl) :
    Branch.allOf Branch.isPlain (toBranches (changeNamed name change classes)) =
      (Branch.allOf Branch.isPlain (toBranches classes) && added) := by
  rcases change_named_cases name change classes with
    ⟨front, decl, back, rfl, -, -, hchanged⟩ | ⟨-, hchanged⟩
  · simp only [hchanged, to_branches_eq_map, List.map_append, List.map_cons, Branch.all_of_append,
      Branch.allOf, hchange]
    ac_rfl
  · have hmade : name.isEmpty = false := by simpa using hname
    simp [hchanged, to_branches_eq_map, Branch.all_of_append, Branch.allOf, hchange,
      all_is_plain_class, hmade]

/-- Everything in some classes has a name after an entry is added, if it had one before and so has
everything in the entry. -/
theorem all_of_change_at (entry : ListedType) {segments : List String} (hne : segments ≠ [])
    (hsegments : ∀ segment ∈ segments, segment ≠ "") (classes : List ClassDecl) :
    Branch.allOf Branch.isPlain (toBranches (changeAt entry.addTo segments classes)) =
      (Branch.allOf Branch.isPlain (toBranches classes) && entry.isPlain) := by
  induction segments generalizing classes with
  | nil => exact absurd rfl hne
  | cons segment rest ih =>
      obtain ⟨hsegment, hrest⟩ := List.forall_mem_cons.1 hsegments
      rw [change_at_cons]
      refine all_of_change_named hsegment (fun decl => ?_) classes
      cases rest with
      | nil =>
          simp only [changeFrom, List.isEmpty_nil, ↓reduceIte, ListedType.addTo, ListedType.isPlain,
            all_is_plain_class, List.map_append, Branch.all_of_append]
          ac_rfl
      | cons next rest =>
          simp only [changeFrom, List.isEmpty_cons, Bool.false_eq_true, ↓reduceIte,
            all_is_plain_class, ih (List.cons_ne_nil next rest) hrest]
          ac_rfl

theorem to_branch_mem_children {decl inside : ClassDecl} (h : inside ∈ decl.classes) :
    inside.toBranch ∈ decl.toBranch.children := by
  cases decl
  simp only [toBranch, Branch.children, to_branches_eq_map]
  exact List.mem_append_left _ (List.mem_append_right _ (List.mem_map_of_mem h))

/-- Where a class is found at a place, its branch is found. -/
theorem to_branch_mem_foldl_follow {place : List String} {classes : List ClassDecl}
    {decl : ClassDecl} (hat : at? place classes = some decl) {above : Branch}
    (habove : ∀ inside ∈ classes, inside.toBranch ∈ above.children) {tops : List Branch}
    (htop : above ∈ tops) : decl.toBranch ∈ place.foldl Branch.follow tops := by
  induction place generalizing classes above tops with
  | nil => cases hat
  | cons name rest ih =>
      obtain ⟨around, haround, hrest⟩ := Option.bind_eq_some_iff.1 hat
      have hfollow : around.toBranch ∈ Branch.follow tops name := by
        refine List.mem_flatMap.2 ⟨above, htop, List.mem_filter.2
          ⟨habove around (List.mem_of_find?_eq_some haround), ?_⟩⟩
        have hname := List.find?_some haround
        cases around
        exact hname
      cases rest with
      | nil =>
          cases hrest
          exact hfollow
      | cons next rest => exact ih hrest (fun _ => to_branch_mem_children) hfollow

end ClassDecl

namespace Listing

variable {listing : Listing} {index : Index}

/-- The classes of a file have names for everything exactly if its entries have. -/
theorem all_of_file_of (path : SourcePath) (package : String) {entries : List ListedType}
    (hnames : ∀ entry ∈ entries, entry.name ≠ "" ∧ Dotted.isValid entry.name = true) :
    Branch.allOf Branch.isPlain (ClassDecl.toBranches (fileOf path package entries).classes) =
      entries.all ListedType.isPlain := by
  induction entries using List.reverseRecOn with
  | nil => rfl
  | append_singleton entries entry ih =>
      obtain ⟨hentries, hentry⟩ := List.forall_mem_append.1 hnames
      obtain ⟨hname, hvalid⟩ := hentry entry (List.mem_singleton_self _)
      rw [file_of_concat, addEntry,
        ClassDecl.all_of_change_at entry (Dotted.segments_ne_nil hvalid hname)
          (fun segment => Dotted.ne_empty_of_mem_segments), ih hentries, List.all_append]
      simp

theorem load_eq_ok_iff : listing.load = .ok index ↔
    ∃ files, listing.toFiles = .ok files ∧ insertFiles files {} = .ok () index := by
  rw [load]
  cases listing.toFiles with
  | error fault => simp
  | ok files => cases hrun : insertFiles files {} <;> simp [hrun]

/-- There is a file with a path exactly if there is an entry with it. -/
theorem exists_file_iff_of_to_files {files : List FileDecl} (h : listing.toFiles = .ok files)
    (path : SourcePath) : (∃ file ∈ files, (file.path == path) = true) ↔
      ∃ entry ∈ listing.types, (entry.fileKey == path) = true := by
  have hsame : (files.map FileDecl.path).contains path =
      (listing.types.map ListedType.fileKey).contains path := by
    rw [(files_of_to_files h).2.1, ← foldl_append_new_nil, contains_foldl_append_new,
      List.contains_nil, Bool.false_or]
  simpa [List.contains_iff_exists_mem_beq, @BEq.comm _ _ _ path] using Bool.eq_iff_iff.1 hsame

/-- The files of a listing can be inserted exactly if the packages of its entries are valid and
everything that they declare has a name. -/
theorem insertable_iff_of_to_files {files : List FileDecl} (h : listing.toFiles = .ok files) :
    (∀ file ∈ files, file.isInsertable = true) ↔
      ∀ entry ∈ listing.types, Dotted.isValid entry.package = true ∧ entry.isPlain = true := by
  obtain ⟨hnames, -⟩ := exists_to_files_iff.1 ⟨files, h⟩
  have hinsertable : ∀ file ∈ files, file.isInsertable = (Dotted.isValid file.package &&
      (listing.types.filter (·.fileKey == file.path)).all ListedType.isPlain) := by
    intro file hfile
    rw [FileDecl.isInsertable, ((files_of_to_files h).2.2 file hfile).1, package_file_of,
      path_file_of, all_of_file_of]
    exact fun entry hentry => hnames entry (List.mem_filter.1 hentry).1
  have hpackage := fun file hfile => ((files_of_to_files h).2.2 file hfile).2
  constructor
  · intro hall entry hentry
    obtain ⟨file, hfile, hpath⟩ := (exists_file_iff_of_to_files h _).2 ⟨entry, hentry, BEq.rfl⟩
    have hfile' := hall file hfile
    rw [hinsertable file hfile, Bool.and_eq_true, List.all_eq_true] at hfile'
    rw [hpackage file hfile entry hentry (BEq.symm hpath)]
    exact ⟨hfile'.1, hfile'.2 entry (List.mem_filter.2 ⟨hentry, BEq.symm hpath⟩)⟩
  · intro hall file hfile
    obtain ⟨entry, hentry, hpath⟩ := (exists_file_iff_of_to_files h _).1 ⟨file, hfile, BEq.rfl⟩
    rw [hinsertable file hfile, Bool.and_eq_true, List.all_eq_true,
      ← hpackage file hfile entry hentry hpath]
    exact ⟨(hall entry hentry).1, fun other hother => (hall other (List.mem_filter.1 hother).1).2⟩

/-- A listing that is gathered is loaded exactly if its files can be inserted. -/
theorem exists_load_iff_of_to_files {files : List FileDecl} (h : listing.toFiles = .ok files) :
    (∃ index, listing.load = .ok index) ↔ ∀ file ∈ files, file.isInsertable = true := by
  have hload : (∃ index, listing.load = .ok index) ↔
      ∃ index, insertFiles files {} = .ok () index := by
    simp only [load_eq_ok_iff, h, Except.ok.injEq, exists_eq_left']
  rw [hload, exists_insert_files_iff Outline.filing_empty]
  exact ⟨fun hall file hfile => (hall.1 file hfile).1,
    fun hall => ⟨fun file hfile => ⟨hall file hfile, rfl⟩, (files_of_to_files h).1⟩⟩

/-- Every entry of a listing that is loaded is a class of its file. -/
theorem exists_class_of_load (h : listing.load = .ok index) {entry : ListedType}
    (hentry : entry ∈ listing.types) :
    ∃ file, index.outline.fileAt? entry.fileKey = some file ∧
      ∃ id ∈ index.outline.lookupAll (Dotted.join entry.package entry.name),
        index.outline.kind? id = some .classDecl ∧ index.outline.fileOf? id = some file := by
  obtain ⟨files, hfiles, hrun⟩ := load_eq_ok_iff.1 h
  obtain ⟨hname, hvalid⟩ := (exists_to_files_iff.1 ⟨files, hfiles⟩).1 entry hentry
  obtain ⟨source?, hfiling, hmade⟩ := exists_filing_of_insert_all hrun
  obtain ⟨decl, hdecl, hpath⟩ := (exists_file_iff_of_to_files hfiles _).2 ⟨entry, hentry, BEq.rfl⟩
  obtain ⟨hgathered, hpackage⟩ := (files_of_to_files hfiles).2.2 decl hdecl
  have hpackage := hpackage entry hentry (BEq.symm hpath)
  have hsource := (hmade entry.fileKey decl).2 ⟨hdecl, hpath⟩
  obtain ⟨hinsertable, -, file, hfile⟩ := hfiling.indexed hsource
  simp only [FileDecl.isInsertable, Bool.and_eq_true] at hinsertable
  have hsegments := Dotted.segments_ne_nil hvalid hname
  -- The class stands in the declaration of the file, where the entry was put, and so in the file.
  obtain ⟨listed, hlisted⟩ : ∃ listed,
      ClassDecl.at? (Dotted.segments entry.name) decl.classes = some listed := by
    rw [hgathered]
    exact (exists_at_iff_file_of _).2 ⟨hsegments, entry,
      List.mem_filter.2 ⟨hentry, BEq.symm hpath⟩, List.prefix_rfl⟩
  obtain ⟨id, hid, hkind⟩ := (hfiling.exists_class_iff hfile hsource (Dotted.segments entry.name)).2
    ⟨listed.toBranch, ClassDecl.to_branch_mem_foldl_follow hlisted
      (fun inside hinside => by
        rw [FileDecl.toBranch, Branch.children, ClassDecl.to_branches_eq_map]
        exact List.mem_map_of_mem hinside) (List.mem_singleton_self _), by cases listed; rfl⟩
  refine ⟨file, hfile, id, ?_, hkind, ?_⟩
  · have hfound := hfiling.mem_foldl_follow_of_file hfile hsource hsegments hid
    rw [Outline.lookup_all_eq, if_neg, Dotted.segments_join, hpackage]
    · exact hfound
    · rw [Dotted.join_eq_empty_iff, Dotted.is_valid_join, hpackage, hinsertable.1, hvalid]
      simp [hname]
  · obtain ⟨top, htop, hbelow⟩ := hfiling.ground.well.below_of_mem_foldl_follow _ hid
    obtain rfl := List.mem_singleton.1 htop
    exact hfiling.ground.file_of?_of_below (hfiling.ground.well.is_file_of_file_at hfile) hbelow

/-- A listing is loaded exactly if names and packages are valid, the entries of a file agree on its
package and nothing that is declared lacks a name; and then every entry is indexed as a class of
the file that has its path. -/
theorem loads_iff_and_indexes (listing : Listing) :
    ((∃ index, listing.load = .ok index) ↔
      (∀ entry ∈ listing.types, entry.name ≠ "" ∧ Dotted.isValid entry.name = true) ∧
      (∀ entry ∈ listing.types, ∀ other ∈ listing.types,
        (entry.fileKey == other.fileKey) = true → entry.package = other.package) ∧
      (∀ entry ∈ listing.types, Dotted.isValid entry.package = true) ∧
      ∀ entry ∈ listing.types,
        (∀ method ∈ entry.methods,
          method.name ≠ "" ∧ ∀ param ∈ method.typeParams, param.name ≠ "") ∧
        ∀ param ∈ entry.typeParams, param.name ≠ "") ∧
    ∀ index, listing.load = .ok index → ∀ entry ∈ listing.types,
      ∃ file, index.outline.fileAt? entry.fileKey = some file ∧
        (∃ id ∈ index.outline.lookupAll (Dotted.join entry.package entry.name),
          index.outline.kind? id = some .classDecl ∧ index.outline.fileOf? id = some file) ∧
        (index.outline.lookupType? (Dotted.join entry.package entry.name)).isSome = true := by
  refine ⟨?_, fun index hload entry hentry => ?_⟩
  · simp only [← ListedType.is_plain_iff]
    rw [← and_assoc, ← exists_to_files_iff, ← forall₂_and]
    constructor
    · rintro ⟨index, hload⟩
      obtain ⟨files, hfiles, -⟩ := load_eq_ok_iff.1 hload
      exact ⟨⟨files, hfiles⟩, (insertable_iff_of_to_files hfiles).1
        ((exists_load_iff_of_to_files hfiles).1 ⟨index, hload⟩)⟩
    · rintro ⟨⟨files, hfiles⟩, hall⟩
      exact (exists_load_iff_of_to_files hfiles).2 ((insertable_iff_of_to_files hfiles).2 hall)
  · obtain ⟨file, hfile, id, hid, hkind, hof⟩ := exists_class_of_load hload hentry
    refine ⟨file, hfile, ⟨id, hid, hkind, hof⟩, ?_⟩
    exact List.find?_isSome.2 ⟨id, hid, by simp [hkind]⟩

/-- The two classes that name their file by different spellings are indexed in one file. -/
theorem scattered_listing_loads :
    ∃ index, scatteredListing.load = .ok index ∧
      ∃ file, index.outline.fileAt? ⟨"p/Outer.java"⟩ = some file ∧
        (∃ id ∈ index.outline.lookupAll "p.Outer.Inner",
          index.outline.kind? id = some .classDecl ∧ index.outline.fileOf? id = some file) ∧
        ∃ id ∈ index.outline.lookupAll "p.Other",
          index.outline.kind? id = some .classDecl ∧ index.outline.fileOf? id = some file := by
  obtain ⟨hiff, hindexed⟩ := loads_iff_and_indexes scatteredListing
  obtain ⟨index, hload⟩ := hiff.2 (by decide +kernel)
  obtain ⟨file, hfile, hinner, -⟩ := hindexed index hload _ (List.mem_cons_self ..)
  obtain ⟨other, hother, hclass, -⟩ := hindexed index hload
    { package := "p", name := "Other", file := some ⟨"p//Outer.java"⟩ } (by simp [scatteredListing])
  have hsame : other = file := by
    obtain ⟨files, -, hrun⟩ := load_eq_ok_iff.1 hload
    obtain ⟨source?, hfiling, -⟩ := exists_filing_of_insert_all hrun
    have hpath : ((⟨"p//Outer.java"⟩ : SourcePath) == ⟨"p/Outer.java"⟩) = true := by decide +kernel
    rw [← Option.some.injEq, ← hother, ← hfile]
    exact hfiling.ground.well.file_at_congr hpath
  exact ⟨index, hload, file, hfile, hinner, hsame ▸ hclass⟩

end Listing

end CanonicalNames
