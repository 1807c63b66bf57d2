import CanonicalNames.Proofs.Report.Schedule
import CanonicalNames.Proofs.SourcePath

/-!
# Files inserted in any order

Which files can be inserted into an index, and what is then indexed, does not depend on the
order in which they are inserted (`Listing.exists_insert_files_iff`,
`Listing.exists_filing_of_insert_files`). Their nodes have other numbers and stand in another
order, but a report takes files in the order of their paths, and two lists with the same paths
are sorted alike (`Report.map_fst_sorted_files`). A report then goes through both indexes side by
side: the files that it has not come to are untouched (`Report.Ahead`), so that each file is
resolved from nothing on both sides and gives the same records and counts
(`Report.records_of_eq`).
-/

namespace CanonicalNames

/-! ## Insertion -/

namespace Index

variable {index after : Index} {decl : FileDecl} {id : NodeId} {path : SourcePath}
  {source? : SourcePath → Option FileDecl}

/-- A path is free after an insertion if it was free before and the file does not take it. -/
theorem FileAdded.file_at_eq_none_iff (h : FileAdded index after decl id) :
    after.outline.fileAt? path = none ↔
      (decl.path == path) = false ∧ index.outline.fileAt? path = none := by
  simp only [Option.eq_none_iff_forall_ne_some, ne_eq, h.fileAt]
  constructor
  · intro hnone
    have hpath : (decl.path == path) = false := by
      cases hpath : decl.path == path with
      | false => rfl
      | true => exact absurd (Or.inl ⟨hpath, rfl⟩) (hnone id)
    exact ⟨hpath, fun file hfile => hnone file (Or.inr ⟨hpath, hfile⟩)⟩
  · intro ⟨hpath, hnone⟩ file hfile
    rcases hfile with ⟨hself, -⟩ | ⟨-, hold⟩
    · rw [hpath] at hself
      cases hself
    · exact hnone file hold

/-- The sources of an outline and one more at a free path. -/
theorem source?_with_file_iff (hfiling : index.outline.Filing source?)
    (hfree : index.outline.fileAt? decl.path = none) {other : FileDecl} :
    (if decl.path == path then some decl else source? path) = some other ↔
      (other = decl ∧ (other.path == path) = true) ∨ source? path = some other := by
  cases hpath : decl.path == path with
  | true =>
      -- The path was free, so that nothing was known under it.
      have hnone : source? path = none := by
        rw [Option.eq_none_iff_forall_ne_some]
        intro found hfound
        obtain ⟨-, -, file, hfile⟩ := hfiling.indexed hfound
        rw [← hfiling.ground.well.file_at_congr hpath, hfree] at hfile
        cases hfile
      rw [if_pos rfl, hnone, Option.some.injEq]
      constructor
      · intro hsame
        exact Or.inl ⟨hsame.symm, hsame ▸ hpath⟩
      · intro hcases
        rcases hcases with ⟨hsame, -⟩ | hnone
        · exact hsame.symm
        · cases hnone
  | false =>
      rw [if_neg Bool.false_ne_true, or_iff_right]
      intro ⟨hsame, hother⟩
      rw [hsame, hpath] at hother
      cases hother

/-- A node that is attached is listed only if it is a file, under its own path. -/
theorem Attachment.mem_keys (new : index.Attachment) (h : path ∈ new.outline.files.keys) :
    path ∈ index.outline.files.keys ∨
      ∃ package imports, new.content = .declared (.file path package imports) := by
  rw [new.files_outline] at h
  split at h
  · next source package imports hcontent =>
      obtain ⟨entry, hentry, rfl⟩ := List.mem_map.1 h
      rcases Table.exists_key_of_mem_insert_entry hentry with hkey | ⟨old, hold, hkey⟩
      · exact Or.inr ⟨package, imports, by rw [hcontent, hkey]⟩
      · exact Or.inl (List.mem_map.2 ⟨old, hold, hkey⟩)
  · exact Or.inl h

/-- Inserting a file lists no other path than its own. -/
theorem mem_keys_of_insert_file (hrun : insertFile decl index = .ok id after)
    (h : path ∈ after.outline.files.keys) :
    path ∈ index.outline.files.keys ∨ path = decl.path := by
  have hgrows : ∀ {Admits : NodeId → Content → Prop} {first last : Index},
      Grows Admits first last →
      (∀ {parent package imports}, Admits parent (.declared (.file path package imports)) →
        path = decl.path) →
      path ∈ last.outline.files.keys → path ∈ first.outline.files.keys ∨ path = decl.path := by
    intro Admits first last hgrows hown
    refine hgrows.preserves (motive := fun middle => path ∈ middle.outline.files.keys →
      path ∈ first.outline.files.keys ∨ path = decl.path)
      (fun middle new hadmits ih hmem => ?_) Or.inl
    rcases new.mem_keys hmem with hold | ⟨package, imports, hcontent⟩
    · exact ih hold
    · rw [hcontent] at hadmits
      exact Or.inr (hown hadmits)
  obtain ⟨middle, -, hfirst, hlast⟩ := grows_insert_file decl index
  simp only [reached, hrun] at hlast
  have hmiddle : path ∈ middle.outline.files.keys ∨ path = decl.path := by
    rcases hlast with rfl | ⟨_, -, -, hinside⟩
    · exact Or.inl h
    · refine hgrows hinside (fun hadmits => ?_) h
      -- What stands inside a file is not a file.
      cases hadmits.2
  rcases hmiddle with hmiddle | hpath
  · refine hgrows hfirst (fun hadmits => ?_) hmiddle
    rcases hadmits with hpackage | hfile
    · cases hpackage
    · injection hfile with hfile
      injection hfile
  · exact Or.inr hpath

end Index

namespace Listing

open Index

variable {files others : List FileDecl} {index after : Index} {path : SourcePath}
  {source? : SourcePath → Option FileDecl}

/-- Files can be inserted exactly when they have names for everything, their paths are free and
no two of these are equal. -/
theorem exists_insert_files_iff (h : index.outline.Filing source?) :
    (∃ after, insertFiles files index = .ok () after) ↔
      (∀ decl ∈ files, decl.isInsertable = true ∧ index.outline.fileAt? decl.path = none) ∧
        Distinct (files.map FileDecl.path) := by
  induction files generalizing index source? with
  | nil => simp [insertFiles, pure, EStateM.pure, Distinct]
  | cons decl rest ih =>
      rw [List.forall_mem_cons, List.map_cons, distinct_cons, List.forall_mem_map]
      constructor
      · rintro ⟨after, hrun⟩
        obtain ⟨id, middle, hfirst, hrest⟩ := insert_files_cons_iff.1 hrun
        obtain ⟨hinsertable, hfree, hadded⟩ := added_of_insert_file h.ground hfirst
        obtain ⟨hall, hdistinct⟩ := (ih (hadded.filing h hinsertable)).1 ⟨after, hrest⟩
        simp only [hadded.file_at_eq_none_iff] at hall
        exact ⟨⟨⟨hinsertable, hfree⟩, fun other hother => ⟨(hall other hother).1,
          (hall other hother).2.2⟩⟩, fun other hother => (hall other hother).2.1, hdistinct⟩
      · rintro ⟨⟨⟨hinsertable, hfree⟩, hall⟩, hapart, hdistinct⟩
        obtain ⟨id, middle, hfirst, hadded⟩ := insert_file_of_insertable h.ground hfree hinsertable
        obtain ⟨after, hrest⟩ := (ih (hadded.filing h hinsertable)).2
          ⟨fun other hother => ⟨(hall other hother).1, hadded.file_at_eq_none_iff.2
            ⟨hapart other hother, (hall other hother).2⟩⟩, hdistinct⟩
        exact ⟨after, insert_files_cons_iff.2 ⟨id, middle, hfirst, hrest⟩⟩

/-- Files that were inserted have different paths. -/
theorem distinct_of_insert_files (hrun : insertFiles files {} = .ok () index) :
    Distinct (files.map FileDecl.path) :=
  ((exists_insert_files_iff Outline.filing_empty).1 ⟨index, hrun⟩).2

/-- Whether files can be inserted into an empty index does not depend on their order. -/
theorem exists_insert_files_of_perm (hperm : files.Perm others)
    (hrun : insertFiles files {} = .ok () index) :
    ∃ other, insertFiles others {} = .ok () other := by
  obtain ⟨hall, hdistinct⟩ := (exists_insert_files_iff Outline.filing_empty).1 ⟨index, hrun⟩
  exact (exists_insert_files_iff Outline.filing_empty).2
    ⟨fun decl hdecl => hall decl (hperm.mem_iff.2 hdecl), hdistinct.perm (hperm.map FileDecl.path)⟩

/-- An index is made of the files that were inserted and those that it was made of before. -/
theorem exists_filing_of_insert_files (h : index.outline.Filing source?)
    (hrun : insertFiles files index = .ok () after) :
    ∃ made?, after.outline.Filing made? ∧ ∀ path decl, made? path = some decl ↔
      (decl ∈ files ∧ (decl.path == path) = true) ∨ source? path = some decl := by
  induction files generalizing index source? with
  | nil =>
      cases hrun
      exact ⟨source?, h, by simp⟩
  | cons first rest ih =>
      obtain ⟨id, middle, hfirst, hrest⟩ := insert_files_cons_iff.1 hrun
      obtain ⟨hinsertable, hfree, hadded⟩ := added_of_insert_file h.ground hfirst
      obtain ⟨made?, hfiling, hmade⟩ := ih (hadded.filing h hinsertable) hrest
      refine ⟨made?, hfiling, fun path decl => ?_⟩
      rw [hmade, source?_with_file_iff h hfree, List.mem_cons, or_and_right, ← or_assoc,
        or_comm (a := decl ∈ rest ∧ _)]

/-- The declarations of files by their paths, when an index was made of these files alone. -/
def Made (files : List FileDecl) (source? : SourcePath → Option FileDecl) : Prop :=
  ∀ path decl, source? path = some decl ↔ decl ∈ files ∧ (decl.path == path) = true

theorem exists_filing_of_insert_all (hrun : insertFiles files {} = .ok () index) :
    ∃ source?, index.outline.Filing source? ∧ Made files source? := by
  obtain ⟨made?, hfiling, hmade⟩ := exists_filing_of_insert_files Outline.filing_empty hrun
  refine ⟨made?, hfiling, fun path decl => ?_⟩
  rw [hmade, or_iff_left nofun]

/-- The same files have the same declarations by their paths. -/
theorem Made.eq_of_perm {other? : SourcePath → Option FileDecl} (h : Made files source?)
    (h' : Made others other?) (hperm : files.Perm others) : source? = other? := by
  funext path
  refine Option.ext (fun decl => ?_)
  rw [h, h', hperm.mem_iff]

/-- Inserting files lists no other paths than theirs. -/
theorem mem_keys_of_insert_files (hrun : insertFiles files index = .ok () after)
    (hpath : path ∈ after.outline.files.keys) :
    path ∈ index.outline.files.keys ∨ path ∈ files.map FileDecl.path := by
  induction files generalizing index with
  | nil =>
      cases hrun
      exact Or.inl hpath
  | cons decl rest ih =>
      obtain ⟨id, middle, hfirst, hrest⟩ := insert_files_cons_iff.1 hrun
      rw [List.map_cons, List.mem_cons]
      rcases ih hrest with hmiddle | hlater
      · rcases mem_keys_of_insert_file hfirst hmiddle with hold | hself
        · exact Or.inl hold
        · exact Or.inr (Or.inl hself)
      · exact Or.inr (Or.inr hlater)

/-- The paths that are listed in an index are those of the files that were inserted. -/
theorem mem_keys_iff_of_insert_files (hrun : insertFiles files {} = .ok () index) :
    path ∈ index.outline.files.keys ↔ path ∈ files.map FileDecl.path := by
  have hlisted : ∀ {path}, path ∈ index.outline.files.keys → path ∈ files.map FileDecl.path :=
    fun hpath => (mem_keys_of_insert_files hrun hpath).resolve_left nofun
  refine ⟨hlisted, fun hpath => ?_⟩
  obtain ⟨decl, hdecl, rfl⟩ := List.mem_map.1 hpath
  obtain ⟨source?, hfiling, hmade⟩ := exists_filing_of_insert_all hrun
  have hsource := (hmade decl.path decl).2 ⟨hdecl, BEq.refl _⟩
  obtain ⟨-, -, file, hfile⟩ := hfiling.indexed hsource
  obtain ⟨entry, hentry, hkey, -⟩ :=
    (loaded_of_insert_files loaded_empty hrun).unique.find?_eq_some_iff.1 hfile
  -- The path is listed as it is spelled in one of the files, and no other has an equal path.
  have hkeys : entry.1 ∈ index.outline.files.keys := List.mem_map_of_mem hentry
  obtain ⟨other, hother, hsame⟩ := List.mem_map.1 (hlisted hkeys)
  rw [← hsame] at hkey
  have hfound := (hmade decl.path other).2 ⟨hother, hkey⟩
  rw [hsource, Option.some.injEq] at hfound
  rw [hfound, hsame]
  exact hkeys

end Listing

/-! ## Records -/

namespace Report

open Outline (Mirror Twins)

variable {left right outline : Outline} {source? : SourcePath → Option FileDecl}
  {pass seen : Pass} {entry : SourcePath × NodeId}
  {entries others rest : List (SourcePath × NodeId)}

/-- Different files of an outline whose references have not been attempted. -/
structure Ahead (outline : Outline) (pass : Pass) (entries : List (SourcePath × NodeId)) :
    Prop where
  file : ∀ entry ∈ entries, outline.fileAt? entry.1 = some entry.2
  nodup : (entries.map Prod.snd).Nodup
  blank : ∀ entry ∈ entries, ∀ ref, outline.Below ref.owner entry.2 →
    (pass.standing ref).status = .unresolved

/-- Resolving a file leaves those that come after it. -/
theorem Ahead.resolve_under (h : Ahead outline pass (entry :: rest))
    (hfiling : outline.Filing source?) (mode : Mode) :
    Ahead outline (outline.resolveUnder mode entry.2 pass).2 rest := by
  have hground : Outline.Grounded (Index.outline { outline }) := hfiling.ground
  have hwell := hfiling.ground.well
  obtain ⟨hfile, hfiles⟩ := List.forall_mem_cons.1 h.file
  obtain ⟨hnew, hnodup⟩ := List.nodup_cons.1 h.nodup
  refine ⟨hfiles, hnodup, fun other hother ref hbelow => ?_⟩
  have hne : other.2 ≠ entry.2 := fun hsame => hnew (hsame ▸ List.mem_map_of_mem hother)
  have hout : ¬ outline.Below ref.owner entry.2 :=
    Index.Removed.not_below_of_file hground (hwell.is_file_of_file_at hfile)
      (hwell.is_file_of_file_at (hfiles other hother)) hne hbelow
  rw [Outline.resolveUnder, (hfiling.mirror hfiling hfile hfile).standing_resolve_methods
    (fun method hmethod => (hwell.mem_methods_under_iff.1 hmethod).1) hout]
  exact h.blank other (List.mem_cons_of_mem _ hother) ref hbelow

/-- Answers that are the same about twins make the same records. -/
theorem filter_map_of_method?_eq {top other : NodeId} {answers mates : List (NodeId × Resolution)}
    (h : Mirror left right top other)
    (hanswers : List.Forall₂ (fun answer mate =>
      Twins left right top other answer.1 mate.1 ∧ answer.2 = mate.2) answers mates)
    (classifier : Classifier) (path : SourcePath) :
    answers.filterMap (fun (method, resolution) =>
        Record.ofMethod? left classifier path method resolution) =
      mates.filterMap (fun (method, resolution) =>
        Record.ofMethod? right classifier path method resolution) := by
  induction hanswers with
  | nil => rfl
  | @cons answer mate _ _ hfirst _ ih =>
      obtain ⟨method, resolution⟩ := answer
      obtain ⟨twin, other⟩ := mate
      obtain ⟨htwin, rfl⟩ := hfirst
      have huse : right.use? (.returnType twin) = left.use? (.returnType method) :=
        h.use?_eq htwin .returnType
      have hrecord : Record.ofMethod? left classifier path method resolution =
          Record.ofMethod? right classifier path twin resolution := by
        simp only [Record.ofMethod?, huse, h.path?_eq htwin]
      simp only [List.filterMap_cons, hrecord, ih]

/-- Two outlines of the same files have the same records and count the same, when the same paths
are taken in the same order and nothing has been attempted. -/
theorem records_of_eq (classifier : Classifier) (h : left.Filing source?)
    (h' : right.Filing source?) (hentries : Ahead left pass entries) (hothers : Ahead right seen others)
    (hpaths : entries.map Prod.fst = others.map Prod.fst) :
    (recordsOf left classifier entries pass).1 = (recordsOf right classifier others seen).1 ∧
      Pass.CountAlike pass (recordsOf left classifier entries pass).2 seen
        (recordsOf right classifier others seen).2 := by
  induction entries generalizing others pass seen with
  | nil =>
      obtain rfl := List.map_eq_nil_iff.1 hpaths.symm
      exact ⟨rfl, .of_eq rfl rfl⟩
  | cons entry rest ih =>
      cases others with
      | nil => cases hpaths
      | cons mate others =>
          obtain ⟨path, file⟩ := entry
          obtain ⟨path', found⟩ := mate
          obtain ⟨rfl, hrest⟩ := List.cons.inj hpaths
          have hfile := hentries.file _ (List.mem_cons_self ..)
          have hfound := hothers.file _ (List.mem_cons_self ..)
          have hmirror := h.mirror h' hfile hfound
          obtain ⟨hanswers, -, hcount⟩ := hmirror.resolve_under_alike .batch
            (hentries.blank _ (List.mem_cons_self ..)) (hothers.blank _ (List.mem_cons_self ..))
          obtain ⟨hrecords, hmore⟩ :=
            ih (hentries.resolve_under h .batch) (hothers.resolve_under h' .batch) hrest
          refine ⟨?_, hcount.trans hmore⟩
          simp only [recordsOf]
          rw [filter_map_of_method?_eq hmirror hanswers classifier path, hrecords]

/-! ## Reports -/

variable {index other : Index} {files decls : List FileDecl}

/-- The paths of files in order depend on which files there are, not on where they are listed. -/
theorem map_fst_sorted_files (hunique : left.files.Unique)
    (hperm : left.files.keys.Perm right.files.keys) :
    (sortedFiles left).map Prod.fst = (sortedFiles right).map Prod.fst := by
  have hkeys : ∀ outline : Outline, ((sortedFiles outline).map Prod.fst).Perm outline.files.keys :=
    fun outline => (List.mergeSort_perm _ _).map Prod.fst
  have hsorted : ∀ outline : Outline, ((sortedFiles outline).map Prod.fst).Pairwise
      (fun first second => SourcePath.ble first second = true) := by
    intro outline
    refine List.pairwise_map.2 (List.pairwise_mergeSort (fun first second third h k => ?_)
      (fun first second => ?_) _)
    · exact SourcePath.ble_trans h k
    · exact SourcePath.ble_total first.1 second.1
  refine List.Perm.eq_of_pairwise (fun first second hfirst hsecond h k => ?_) (hsorted left)
    (hsorted right) ((hkeys left).trans (hperm.trans (hkeys right).symm))
  -- Equal paths are listed once, so that they are spelled alike.
  exact hunique.distinct_keys.eq_of_beq ((hkeys left).mem_iff.1 hfirst)
    (hperm.mem_iff.2 ((hkeys right).mem_iff.1 hsecond)) (SourcePath.beq_of_ble h k)

/-- Before a report on a loaded index nothing has been attempted. -/
theorem ahead_sorted_files (h : index.Loaded) :
    Ahead index.outline (index.pass {}) (sortedFiles index.outline) := by
  refine ⟨fun entry hentry => h.file_at (List.mem_mergeSort.1 hentry), nodup_sorted_files h, ?_⟩
  intro entry _ ref _
  show (Pass.standing (index.pass {}) ref).status = .unresolved
  simp only [Index.pass, h.standings]
  rfl

/-- The order in which files are inserted is not seen in the report on them. -/
theorem run_eq_of_perm (hperm : files.Perm decls)
    (hrun : Listing.insertFiles files {} = .ok () index)
    (hrun' : Listing.insertFiles decls {} = .ok () other) (classifier : Classifier) :
    (run classifier other).1 = (run classifier index).1 := by
  have hloaded := Listing.loaded_of_insert_files Index.loaded_empty hrun
  have hloaded' := Listing.loaded_of_insert_files Index.loaded_empty hrun'
  obtain ⟨source?, hfiling, hmade⟩ := Listing.exists_filing_of_insert_all hrun
  obtain ⟨other?, hfiling', hmade'⟩ := Listing.exists_filing_of_insert_all hrun'
  obtain rfl := hmade.eq_of_perm hmade' hperm
  have hkeys : index.outline.files.keys.Perm other.outline.files.keys := by
    refine (List.perm_ext_iff_of_nodup hloaded.unique.distinct_keys.nodup
      hloaded'.unique.distinct_keys.nodup).2 (fun path => ?_)
    rw [Listing.mem_keys_iff_of_insert_files hrun, Listing.mem_keys_iff_of_insert_files hrun',
      (hperm.map FileDecl.path).mem_iff]
  obtain ⟨hrecords, gained, hhealth, hhealth'⟩ := records_of_eq classifier hfiling
    hfiling' (ahead_sorted_files hloaded) (ahead_sorted_files hloaded')
    (map_fst_sorted_files hloaded.unique hkeys)
  simp only [run]
  rw [hrecords, hhealth, hhealth']
  rfl

end Report

end CanonicalNames
