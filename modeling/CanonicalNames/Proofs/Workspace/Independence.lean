import CanonicalNames.Proofs.Report.Order
import CanonicalNames.Proofs.Workspace.Answers

/-!
# What the answers about a file depend on

The answers about a file depend on its own declarations and on which class paths are known, and
on nothing else in the other files (`answers_depend_on_class_paths`). In particular they do not
depend on the order in which files are inserted, nor does a report on the files.

Opening files in a workspace without files inserts them into its index (`opening`,
`perform_all_open_files`). Before the first refresh nothing has been attempted and nobody is
subscribed, so that exactly the files that were opened await resolution, and the refresh
publishes what there is to say about each when it is resolved from nothing
(`diagnostics_refresh_opening`). This does not depend on their order either.
-/

namespace CanonicalNames

/-! ## One file in two indexes -/

namespace Outline

/-- Answers in two outlines agree when they are about methods with the same path and the same
return type and name the same, and when the return types are left with the same status, which
holds the canonical name and its origin. -/
def SameAnswer (left right : Outline) (after passed : Pass) (answer mate : NodeId × Resolution) :
    Prop :=
  left.path? answer.1 = right.path? mate.1 ∧
    left.use? (.returnType answer.1) = right.use? (.returnType mate.1) ∧ answer.2 = mate.2 ∧
      (after.standing (.returnType answer.1)).status =
        (passed.standing (.returnType mate.1)).status

/-- A file of which nothing is known is answered for alike in two outlines. -/
theorem Mirror.same_answers {left right : Outline} {top other : NodeId} {pass seen : Pass}
    (h : Mirror left right top other) (mode : Mode)
    (hblank : ∀ ref, (pass.standing ref).status = .unresolved)
    (hblank' : ∀ ref, (seen.standing ref).status = .unresolved) :
    List.Forall₂ (SameAnswer left right (left.resolveUnder mode top pass).2
        (right.resolveUnder mode other seen).2)
      (left.resolveUnder mode top pass).1 (right.resolveUnder mode other seen).1 ∧
    Pass.CountAlike pass (left.resolveUnder mode top pass).2 seen
      (right.resolveUnder mode other seen).2 := by
  obtain ⟨hanswers, halike, hcount⟩ :=
    h.resolve_under_alike mode (fun ref _ => hblank ref) (fun ref _ => hblank' ref)
  refine ⟨hanswers.imp (fun answer mate hsame => ?_), hcount⟩
  obtain ⟨htwin, hresolution⟩ := hsame
  exact ⟨(h.path?_eq htwin).symm, (h.use?_eq htwin .returnType).symm, hresolution,
    halike htwin .returnType⟩

end Outline

namespace Listing

open Index

variable {files others : List FileDecl} {index other : Index} {decl : FileDecl}

/-- A file that was inserted into two indexes stands in both, and its tops mirror each other if
the same class paths are known. -/
theorem exists_mirror_of_insert_files (hrun : insertFiles files {} = .ok () index)
    (hrun' : insertFiles others {} = .ok () other) (hmem : decl ∈ files) (hmem' : decl ∈ others)
    (hknows : ∀ path, (index.outline.lookupType? path).isSome =
      (other.outline.lookupType? path).isSome) :
    ∃ file found, index.outline.fileAt? decl.path = some file ∧
      other.outline.fileAt? decl.path = some found ∧
      Outline.Mirror index.outline other.outline file found := by
  obtain ⟨source?, hfiling, hmade⟩ := exists_filing_of_insert_all hrun
  obtain ⟨other?, hfiling', hmade'⟩ := exists_filing_of_insert_all hrun'
  have hsource := (hmade decl.path decl).2 ⟨hmem, BEq.refl _⟩
  have hsource' := (hmade' decl.path decl).2 ⟨hmem', BEq.refl _⟩
  obtain ⟨-, -, file, hfile⟩ := hfiling.indexed hsource
  obtain ⟨-, -, found, hfound⟩ := hfiling'.indexed hsource'
  exact ⟨file, found, hfile, hfound,
    hfiling.mirror_of_knows hfiling' (funext hknows) hsource hsource' hfile hfound⟩

/-- The class paths that are known when files were inserted are those that the files declare. -/
theorem knows_iff_of_insert_files (hrun : insertFiles files {} = .ok () index) (name : String) :
    index.outline.knows name = true ↔ (name ≠ "" ∧ Dotted.isValid name = true) ∧
      ∃ decl ∈ files, decl.Declares (Dotted.segments name) := by
  obtain ⟨source?, hfiling, hmade⟩ := exists_filing_of_insert_all hrun
  rw [hfiling.knows_iff]
  refine and_congr_right (fun _ => ⟨?_, ?_⟩)
  · intro ⟨path, decl, hsource, hdeclares⟩
    exact ⟨decl, ((hmade path decl).1 hsource).1, hdeclares⟩
  · intro ⟨decl, hmem, hdeclares⟩
    exact ⟨decl.path, decl, (hmade decl.path decl).2 ⟨hmem, BEq.refl _⟩, hdeclares⟩

/-- Inserting files into an index to which nobody is subscribed tells nobody. -/
theorem outbox_of_insert_files (h : index.Loaded) (hrun : insertFiles files index = .ok () other)
    (houtbox : index.outbox = []) : other.outbox = [] := by
  induction files generalizing index with
  | nil =>
      cases hrun
      exact houtbox
  | cons first rest ih =>
      obtain ⟨id, middle, hfirst, hrest⟩ := insert_files_cons_iff.1 hrun
      refine ih (h.insert_file hfirst) hrest ?_
      have hgrows := grows_of_insert_file first index
      simp only [reached, hfirst] at hgrows
      have hsilent : middle.subscriptions = {} ∧ middle.outbox = [] := by
        refine hgrows.preserves (motive := fun index => index.subscriptions = {} ∧
          index.outbox = []) (fun index new _ hindex => ⟨hindex.1, ?_⟩) ⟨h.subscriptions, houtbox⟩
        show index.outbox ++ arrivals new.outline index.subscriptions _ = []
        rw [hindex.1, hindex.2, List.nil_append, arrivals, List.flatMap_eq_nil_iff]
        exact fun _ _ => rfl
      exact hsilent.2

end Listing

namespace Workspace

variable {workspace after : Workspace} {files others : List FileDecl} {index : Index}
  {path : SourcePath} {source? : SourcePath → Option FileDecl}

/-! ## Opening files -/

/-- A workspace in which files were opened, given the index that inserting them makes. -/
def opening (workspace : Workspace) (files : List FileDecl) (index : Index) : Workspace :=
  { workspace with
    index
    sources := files.foldl (fun sources file => sources.insert file.path file) workspace.sources
    opened := (files.map FileDecl.path).foldl appendNew workspace.opened
    pending := (files.map FileDecl.path).foldl appendNew workspace.pending
    hasGrown := workspace.hasGrown || !files.isEmpty }

/-- Files that can be inserted into the index of a workspace can be opened, and opening them is
inserting them. -/
theorem perform_all_open_files (h : workspace.index.outline.Filing source?)
    (hrun : Listing.insertFiles files workspace.index = .ok () index) :
    performAll? workspace (files.map .openFile) = some (workspace.opening files index) := by
  induction files generalizing workspace source? with
  | nil =>
      cases hrun
      simp only [opening, performAll?, List.map_nil, List.foldl_nil, List.isEmpty_nil,
        Bool.not_true, Bool.or_false]
      rfl
  | cons file rest ih =>
      obtain ⟨id, middle, hfirst, hrest⟩ := Listing.insert_files_cons_iff.1 hrun
      obtain ⟨hinsertable, hfree, hadded⟩ := Index.added_of_insert_file h.ground hfirst
      -- Nothing is removed, since the path is free.
      have hopen : perform? workspace (.openFile file) =
          some ((workspace.replaced file middle).markOpen file.path) := by
        simp only [perform?, success?, openFile, replace, removeFile, Index.removeFile, hfree,
          insertFile, bind, EStateM.bind, hfirst]
        rfl
      refine Option.bind_eq_some_iff.2 ⟨_, hopen, ?_⟩
      refine (@ih ((workspace.replaced file middle).markOpen file.path) _
        (hadded.filing h hinsertable) hrest).trans ?_
      simp only [opening, replaced, markOpen, List.map_cons, List.foldl_cons, Bool.true_or,
        List.isEmpty_cons, Bool.not_false, Bool.or_true]

/-! ## The first refresh -/

/-- Where nobody was told of anything and nothing was attempted, a refresh takes nothing in. -/
theorem pending_taken_of_blank (houtbox : workspace.index.outbox = [])
    (hblank : ∀ ref, (workspace.index.standing ref).status = .unresolved) :
    workspace.taken.pending = workspace.pending := by
  have hnone : workspace.index.filesWithFailures = [] := by
    have hfailure : ∀ file, workspace.index.hasFailure file = false := by
      intro file
      refine List.any_eq_false.2 (fun method _ => ?_)
      rcases huse : workspace.index.outline.use? (.returnType method) with _ | use
      · simp [Index.reference?, huse]
      · simp [Index.reference?, huse, hblank]
    simp [Index.filesWithFailures, hfailure]
  have hstale : workspace.takeStale = workspace := by
    obtain ⟨settings, index, _⟩ := workspace
    obtain ⟨_, _, _, outbox, _⟩ := index
    cases houtbox
    rfl
  rw [taken, hstale, takeFailures]
  split
  · rw [hnone, List.foldl_nil]
  · rfl

/-- Different files that are open have published what there is to say about them. -/
theorem diagnostics_publish_all {paths : List SourcePath} (hdistinct : Distinct paths)
    (hopen : ∀ first ∈ paths, workspace.isOpen first = true) (path : SourcePath) :
    (publishAll paths workspace).2.diagnostics path =
      match paths.find? (· == path) with
      | some first => workspace.currentDiagnostics first
      | none => workspace.diagnostics path := by
  induction paths generalizing workspace with
  | nil => rfl
  | cons first rest ih =>
      obtain ⟨hapart, hrest⟩ := distinct_cons.1 hdistinct
      obtain ⟨hself, hopens⟩ := List.forall_mem_cons.1 hopen
      obtain ⟨published, hpublish, hpublished⟩ := workspace.exists_publish first
      have hlater := @ih { workspace with published } hrest hopens
      rw [← hpublish] at hlater
      refine hlater.trans ?_
      rw [hpublish, List.find?_cons]
      cases hpath : first == path with
      | true =>
          have hnone : rest.find? (· == path) = none := by
            refine List.find?_eq_none.2 (fun other hother hsame => ?_)
            have hne := hapart other hother
            rw [PartialEquivBEq.trans hpath (BEq.symm hsame)] at hne
            cases hne
          have hopen' : workspace.isOpen path = true := (List.contains_congr hpath).symm.trans hself
          rw [hnone]
          simp only [hpublished, hopen', hpath, Bool.and_self, if_true]
      | false =>
          rcases rest.find? (· == path) with _ | found
          · simp only [hpublished, hpath, Bool.and_false, Bool.false_eq_true, if_false]
          · rfl

/-- What is published after a refresh at which only open files await resolution. -/
theorem diagnostics_refresh (hdistinct : Distinct workspace.taken.pending)
    (hopen : ∀ first ∈ workspace.taken.pending, workspace.isOpen first = true) (path : SourcePath) :
    workspace.refresh.2.diagnostics path =
      match workspace.taken.pending.find? (· == path) with
      | some first => workspace.refresh.2.currentDiagnostics first
      | none => workspace.diagnostics path := by
  obtain ⟨index, pending, hasGrown, htaken, -⟩ := workspace.exists_taken
  have hopened : workspace.taken.opened = workspace.opened := by rw [htaken]
  have hpublished : workspace.taken.published = workspace.published := by rw [htaken]
  rw [snd_refresh]
  generalize workspace.taken = taken at hdistinct hopen hopened hpublished ⊢
  obtain ⟨published, hpublish, -⟩ := exists_publish_all
    { taken.afterPass (taken.passOver taken.pending) with pending := [], withdrawn := [] }
    taken.pending
  rw [diagnostics_publish_all hdistinct, hpublish]
  · rcases taken.pending.find? (· == path) with _ | first
    · show (taken.published.find? path).getD [] = _
      rw [hpublished]
      rfl
    · rfl
  · intro first hfirst
    show taken.opened.contains first = true
    rw [hopened]
    exact hopen first hfirst

/-- Exactly the files that were just opened await resolution. -/
theorem pending_taken_opening (settings : Settings)
    (hrun : Listing.insertFiles files {} = .ok () index) :
    (opening { settings } files index).taken.pending = files.map FileDecl.path := by
  have hloaded := Listing.loaded_of_insert_files Index.loaded_empty hrun
  rw [pending_taken_of_blank (Listing.outbox_of_insert_files Index.loaded_empty hrun rfl)]
  · exact Distinct.foldl_append_new_eq (Listing.distinct_of_insert_files hrun)
  · intro ref
    show (Index.standing index ref).status = .unresolved
    rw [Index.standing, hloaded.standings]
    rfl

/-- What a workspace publishes for files that were just opened when it is refreshed. -/
theorem diagnostics_refresh_opening (settings : Settings)
    (hrun : Listing.insertFiles files {} = .ok () index) (path : SourcePath) :
    (opening { settings } files index).refresh.2.diagnostics path =
      match (files.map FileDecl.path).find? (· == path) with
      | some first =>
        ((index.outline.answersAt (index.outline.statusFrom {} first) first).getD []).filterMap
          (Answer.finding? settings first)
      | none => [] := by
  have hdistinct := Listing.distinct_of_insert_files hrun
  have hpending := pending_taken_opening settings hrun
  obtain ⟨source?, hfiling⟩ := (Listing.loaded_of_insert_files Index.loaded_empty hrun).filing
  have hfollows := (sound_start settings).perform_all
    (perform_all_open_files Outline.filing_empty hrun)
  have hcurrent : ∀ first, (opening { settings } files index).refresh.2.currentDiagnostics first =
      ((index.outline.answersAt (index.outline.statusFrom {} first) first).getD []).filterMap
        (Answer.finding? settings first) := by
    intro first
    rw [current_diagnostics_eq_findings, hfollows.answers_refresh_from_start hfiling hfiling,
      settings_refresh]
    rfl
  rw [diagnostics_refresh]
  · rw [hpending]
    simp only [hcurrent]
    rfl
  · rw [hpending]
    exact hdistinct
  · rw [hpending]
    intro first hfirst
    show ((files.map FileDecl.path).foldl appendNew []).contains first = true
    rw [Distinct.foldl_append_new_eq hdistinct]
    exact List.contains_iff_exists_mem_beq.2 ⟨first, hfirst, BEq.refl first⟩

/-- The order in which files were opened is not seen in what is published for them. -/
theorem diagnostics_refresh_of_perm (settings : Settings) (hperm : files.Perm others)
    {other : Index} (hrun : Listing.insertFiles files {} = .ok () index)
    (hrun' : Listing.insertFiles others {} = .ok () other) (path : SourcePath) :
    (opening { settings } others other).refresh.2.diagnostics path =
      (opening { settings } files index).refresh.2.diagnostics path := by
  obtain ⟨source?, hfiling, hmade⟩ := Listing.exists_filing_of_insert_all hrun
  obtain ⟨other?, hfiling', hmade'⟩ := Listing.exists_filing_of_insert_all hrun'
  obtain rfl := hmade.eq_of_perm hmade' hperm
  have hanswers : ∀ first, other.outline.answersAt (other.outline.statusFrom {} first) first =
      index.outline.answersAt (index.outline.statusFrom {} first) first :=
    hfiling.answers_from_blank hfiling' (fun _ => rfl) (fun _ => rfl)
  rw [diagnostics_refresh_opening settings hrun, diagnostics_refresh_opening settings hrun',
    (Listing.distinct_of_insert_files hrun).find?_eq_of_perm (hperm.map FileDecl.path) path]
  simp only [hanswers]

/-! ## Independence -/

/-- The answers about a file depend on the other files only through the class paths that are
known, whatever the mode and however bounds lead into each other. In two indexes made by inserting
files, of which both contain the file and in which the same class paths are found, resolving the
file where nothing has been attempted gives agreeing answers, method by method, and adds the same
to the counters. In particular the same files can be inserted in any order, with the same report;
and they can be opened in any order, with the same diagnostics for every path after a refresh. -/
theorem answers_depend_on_class_paths {files : List FileDecl} {index : Index}
    (hrun : Listing.insertFiles files {} = .ok () index) (others : List FileDecl) :
    (∀ other, Listing.insertFiles others {} = .ok () other →
      (∀ path, (index.outline.lookupType? path).isSome = (other.outline.lookupType? path).isSome) →
      ∀ decl ∈ files, decl ∈ others →
        ∃ file found, index.outline.fileAt? decl.path = some file ∧
          other.outline.fileAt? decl.path = some found ∧
          ∀ (mode : Mode) (pass seen : Pass), (∀ ref, (pass.standing ref).status = .unresolved) →
            (∀ ref, (seen.standing ref).status = .unresolved) →
            let (answers, after) := index.outline.resolveUnder mode file pass
            let (mates, passed) := other.outline.resolveUnder mode found seen
            List.Forall₂ (Outline.SameAnswer index.outline other.outline after passed)
                answers mates ∧
              Pass.CountAlike pass after seen passed) ∧
    (files.Perm others → ∃ other, Listing.insertFiles others {} = .ok () other ∧
      (∀ classifier, (Report.run classifier other).1 = (Report.run classifier index).1) ∧
      ∀ settings, ∃ one two, performAll? { settings } (files.map .openFile) = some one ∧
        performAll? { settings } (others.map .openFile) = some two ∧
        ∀ path, two.refresh.2.diagnostics path = one.refresh.2.diagnostics path) := by
  refine ⟨fun other hrun' hknows decl hmem hmem' => ?_, fun hperm => ?_⟩
  · obtain ⟨file, found, hfile, hfound, hmirror⟩ :=
      Listing.exists_mirror_of_insert_files hrun hrun' hmem hmem' hknows
    exact ⟨file, found, hfile, hfound, fun mode _ _ => hmirror.same_answers mode⟩
  · obtain ⟨other, hrun'⟩ := Listing.exists_insert_files_of_perm hperm hrun
    refine ⟨other, hrun', Report.run_eq_of_perm hperm hrun hrun', fun settings => ?_⟩
    exact ⟨_, _, perform_all_open_files Outline.filing_empty hrun,
      perform_all_open_files Outline.filing_empty hrun',
      diagnostics_refresh_of_perm settings hperm hrun hrun'⟩

/-- A file with a method whose type parameters bound each other, and with methods that return an
imported type, a class of another file and a type that nobody declares. -/
def boundedFile : FileDecl where
  path := ⟨"p/A.java"⟩
  package := "p"
  imports := ["x.Dep"]
  classes :=
    [{ name := "A"
       methods :=
         [{ name := "m", returnType := .text "T"
            typeParams :=
              [{ name := "T", bounds := [.text "U"] }, { name := "U", bounds := [.text "T"] }] },
          { name := "n", returnType := .text "Dep" }, { name := "k", returnType := .text "B" },
          { name := "l", returnType := .text "Missing" }] }]

/-- A file of the same package that a method of the other one refers to. -/
def peerFile : FileDecl where
  path := ⟨"p/B.java"⟩
  package := "p"
  classes := [{ name := "B", methods := [{ name := "k", returnType := .text "A" }] }]

/-- The same class in another file. -/
def copyFile : FileDecl :=
  { peerFile with path := ⟨"q/B.java"⟩ }

/-- What a file declares does not depend on its path. -/
theorem declares_copy_file_iff (segments : List String) :
    copyFile.Declares segments ↔ peerFile.Declares segments := by
  refine exists_congr (fun inner => and_congr Iff.rfl ?_)
  cases inner with
  | nil =>
      have hfile : ∀ file : FileDecl, file.toBranch.element.kind = .file := fun _ => rfl
      simp [hfile]
  | cons => exact Iff.rfl

theorem bounded_file_is_answered_alike :
    ∃ index other, Listing.insertFiles [boundedFile, peerFile] {} = .ok () index ∧
      Listing.insertFiles [copyFile, peerFile, boundedFile] {} = .ok () other ∧
      (∀ path, (index.outline.lookupType? path).isSome = (other.outline.lookupType? path).isSome) ∧
      (∃ file found, index.outline.fileAt? boundedFile.path = some file ∧
        other.outline.fileAt? boundedFile.path = some found ∧
        (index.outline.resolveUnder .batch file {}).1.map Prod.snd =
          [.unresolved, .resolved "x.Dep", .resolved "p.B", .unresolved] ∧
        (index.outline.resolveUnder .batch file {}).2.health =
          { dependencyImports := 1, failures := 4 } ∧
        List.Forall₂ (Outline.SameAnswer index.outline other.outline
            (index.outline.resolveUnder .batch file {}).2
            (other.outline.resolveUnder .batch found {}).2)
          (index.outline.resolveUnder .batch file {}).1
          (other.outline.resolveUnder .batch found {}).1 ∧
        Pass.CountAlike {} (index.outline.resolveUnder .batch file {}).2 {}
          (other.outline.resolveUnder .batch found {}).2) ∧
      ∃ swapped, Listing.insertFiles [peerFile, boundedFile] {} = .ok () swapped ∧
        (∀ classifier, (Report.run classifier swapped).1 = (Report.run classifier index).1) ∧
        ∀ settings, ∃ one two,
          performAll? { settings } [.openFile boundedFile, .openFile peerFile] = some one ∧
          performAll? { settings } [.openFile peerFile, .openFile boundedFile] = some two ∧
          ∀ path, two.refresh.2.diagnostics path = one.refresh.2.diagnostics path := by
  have hrun : (∃ index, Listing.insertFiles [boundedFile, peerFile] {} = .ok () index) ∧
      ∃ other, Listing.insertFiles [copyFile, peerFile, boundedFile] {} = .ok () other := by
    rw [Listing.exists_insert_files_iff Outline.filing_empty,
      Listing.exists_insert_files_iff Outline.filing_empty]
    unfold Distinct
    decide +kernel
  have hanswers : ∀ index, Listing.insertFiles [boundedFile, peerFile] {} = .ok () index →
      ∀ file, index.outline.fileAt? boundedFile.path = some file →
        (index.outline.resolveUnder .batch file {}).1.map Prod.snd =
            [.unresolved, .resolved "x.Dep", .resolved "p.B", .unresolved] ∧
          (index.outline.resolveUnder .batch file {}).2.health =
            { dependencyImports := 1, failures := 4 } := by
    have hfacts : ∀ file ∈ (Index.reached (Listing.insertFiles [boundedFile, peerFile])
          {}).outline.fileAt? boundedFile.path,
        (((Index.reached (Listing.insertFiles [boundedFile, peerFile]) {}).outline.resolveUnder
            .batch file {}).1.map Prod.snd =
          [.unresolved, .resolved "x.Dep", .resolved "p.B", .unresolved]) ∧
        ((Index.reached (Listing.insertFiles [boundedFile, peerFile]) {}).outline.resolveUnder
            .batch file {}).2.health = { dependencyImports := 1, failures := 4 } := by
      decide +kernel
    intro index hindex file hfile
    have hreached : Index.reached (Listing.insertFiles [boundedFile, peerFile]) {} = index := by
      simp only [Index.reached, hindex]
    rw [hreached] at hfacts
    exact hfacts file hfile
  obtain ⟨⟨index, hindex⟩, other, hother⟩ := hrun
  have hknows : ∀ path, (index.outline.lookupType? path).isSome =
      (other.outline.lookupType? path).isSome := by
    intro path
    show index.outline.knows path = other.outline.knows path
    rw [Bool.eq_iff_iff, Listing.knows_iff_of_insert_files hindex,
      Listing.knows_iff_of_insert_files hother]
    simp only [List.mem_cons, List.not_mem_nil, or_false, exists_eq_or_imp, exists_eq_left,
      declares_copy_file_iff]
    rw [← or_assoc, or_self, or_comm]
  obtain ⟨halike, -⟩ := answers_depend_on_class_paths hindex [copyFile, peerFile, boundedFile]
  obtain ⟨-, hswapped⟩ := answers_depend_on_class_paths hindex [peerFile, boundedFile]
  obtain ⟨file, found, hfile, hfound, hsame⟩ := halike other hother hknows boundedFile
    (List.mem_cons_self ..) (by simp)
  obtain ⟨hresolved, hhealth⟩ := hanswers index hindex file hfile
  have hblank := hsame .batch {} {} (fun _ => rfl) (fun _ => rfl)
  exact ⟨index, other, hindex, hother, hknows, ⟨file, found, hfile, hfound, hresolved, hhealth,
    hblank⟩, hswapped (List.Perm.swap ..)⟩

end Workspace

end CanonicalNames
