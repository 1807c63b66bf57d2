import CanonicalNames.Proofs.Index.Attempt
import CanonicalNames.Proofs.Workspace.Support

/-!
# Files that are rejected

To open or change a file is to clear its path and to insert it, and a file is rejected when
its package is no valid name or something declared in it has no name. By then its path has
been cleared and part of it may have been inserted, while sources, open files, diagnostics
and pending files are brought up to date only after a success. `rejected_file_clears_path`
says what a rejection leaves: everything around the index is as it was, and in the index so is
every other file; but what was indexed under the path is gone, so that nodes and files are the
same only if there was nothing to clear and the package was at fault.
-/

namespace CanonicalNames.Workspace

open Index (Exchanged)

variable {workspace : Workspace}

/-! ## Sessions stand on ground -/

/-- Removing and inserting files keeps packages and files grounded, also where it fails. -/
theorem grounded_kept_by_files : KeptByFiles (fun index => index.outline.Grounded) where
  remove_file hground hrun := by
    obtain ⟨leaving, after, hrun', hcleared⟩ := Index.exists_clear hground _
    rw [hrun] at hrun'
    cases hrun'
    exact hcleared.ground
  insert_file hground file := (Index.attempted_insert_file hground file).1.ground

theorem grounded_after_session (settings : Settings) (actions : List Action) :
    (afterSession settings actions).index.outline.Grounded := by
  refine grounded_kept_by_files.after_session (fun workspace hground => ?_)
    Outline.filing_empty.ground settings actions
  rw [outline_refresh]
  exact hground

/-! ## Rejections -/

/-- A file that cannot be inserted is rejected after its path was cleared. -/
theorem replace_of_not_insertable (hground : workspace.index.outline.Grounded) {file : FileDecl}
    (hfile : file.isInsertable = false) : ∃ error index,
      replace file workspace = .error error { workspace with index } ∧
        Exchanged workspace.index index file := by
  obtain ⟨leaving, middle, hremove, hcleared⟩ := Index.exists_clear hground file.path
  have hexchanged := hcleared.exchanged hground
  rw [replace_eq hremove]
  rcases hinsert : Index.insertFile file middle with ⟨id, index⟩ | ⟨error, index⟩
  · rw [Index.insertable_of_insert_file hinsert] at hfile
    cases hfile
  · simp only [Index.reached, hinsert] at hexchanged
    exact ⟨error, index, rfl, hexchanged⟩

/-- A file that can be inserted is not rejected. -/
theorem replace_of_insertable (hground : workspace.index.outline.Grounded) {file : FileDecl}
    (hfile : file.isInsertable = true) : ∃ id after, replace file workspace = .ok id after := by
  obtain ⟨leaving, middle, hremove, hcleared⟩ := Index.exists_clear hground file.path
  obtain ⟨id, index, hinsert, -⟩ :=
    Index.insert_file_of_insertable hcleared.ground hcleared.free hfile
  exact ⟨id, workspace.replaced file index, by rw [replace_eq hremove, hinsert]⟩

/-- Opening a file is rejected like changing it, in the same state. -/
theorem open_file_eq_error_iff {file : FileDecl} {error : Error} {after : Workspace} :
    openFile file workspace = .error error after ↔ change file workspace = .error error after := by
  simp only [openFile, change, bind, EStateM.bind]
  rcases replace file workspace with ⟨id, middle⟩ | ⟨cause, middle⟩
  · constructor <;> (intro h; cases h)
  · exact Iff.rfl

/-- Whatever happened in a session, a file is rejected exactly if its package is not valid or
something declared in it has no name. A rejection leaves everything around the index and every
other file in it, clears the path of the file and indexes the file in part if its package is
valid. So it leaves nodes and files as they were exactly if nothing was indexed under the path and
the package is not valid. -/
theorem rejected_file_clears_path (settings : Settings) (actions : List Action) (file : FileDecl)
    (edit : Edit NodeId) (hedit : edit = openFile file ∨ edit = change file) :
    let session := afterSession settings actions
    ((∃ error after, edit session = .error error after) ↔ file.isInsertable = false) ∧
    ∀ error after, edit session = .error error after →
      after = { session with index := after.index } ∧
      Exchanged session.index after.index file ∧
      (((∀ id, after.index.outline.node? id = session.index.outline.node? id) ∧
          ∀ path, after.index.outline.fileAt? path = session.index.outline.fileAt? path) ↔
        session.index.outline.fileAt? file.path = none ∧ Dotted.isValid file.package = false) := by
  intro session
  have hground : session.index.outline.Grounded := grounded_after_session settings actions
  have hchange : ∀ error after, edit session = .error error after ↔
      replace file session = .error error after := by
    intro error after
    rcases hedit with rfl | rfl
    · exact open_file_eq_error_iff
    · exact Iff.rfl
  simp only [hchange]
  cases hfile : file.isInsertable with
  | true =>
      obtain ⟨id, after, hrun⟩ := replace_of_insertable hground hfile
      simp [hrun]
  | false =>
      obtain ⟨error, index, hrun, hexchanged⟩ := replace_of_not_insertable hground hfile
      refine ⟨⟨fun _ => rfl, fun _ => ⟨error, _, hrun⟩⟩, fun cause after hrun' => ?_⟩
      rw [hrun] at hrun'
      cases hrun'
      exact ⟨rfl, hexchanged, hexchanged.same_iff hground.well⟩

/-- A class with a method whose return type is nowhere declared, and the same file with a class
that has no name yet. -/
def unnamedEdit : FileDecl × FileDecl :=
  ({ path := ⟨"p/A.java"⟩
     package := "p"
     classes := [{ name := "A", methods := [{ name := "m", returnType := .text "Missing" }] }] },
   { path := ⟨"p/A.java"⟩, package := "p", classes := [{ name := "A" }, { name := "" }] })

/-- The session in which the class is opened. -/
def namedSession : Workspace :=
  afterSession {} [.request (.openFile unnamedEdit.1), .refresh]

theorem unnamed_edit_is_rejected :
    namedSession.index.outline.fileAt? unnamedEdit.2.path = some 2 ∧
    ∃ error after, change unnamedEdit.2 namedSession = .error error after ∧
      after = { namedSession with index := after.index } ∧
      Exchanged namedSession.index after.index unnamedEdit.2 ∧
      ¬ ((∀ id, after.index.outline.node? id = namedSession.index.outline.node? id) ∧
        ∀ path, after.index.outline.fileAt? path = namedSession.index.outline.fileAt? path) := by
  have hfile : namedSession.index.outline.fileAt? unnamedEdit.2.path = some 2 := by decide +kernel
  obtain ⟨hrejected, hleft⟩ := rejected_file_clears_path {}
    [.request (.openFile unnamedEdit.1), .refresh] unnamedEdit.2 (change unnamedEdit.2) (Or.inr rfl)
  rw [← namedSession] at hrejected hleft
  obtain ⟨error, after, hrun⟩ := hrejected.2 (by decide +kernel)
  obtain ⟨haround, hexchanged, hsame⟩ := hleft error after hrun
  refine ⟨hfile, error, after, hrun, haround, hexchanged, fun h => ?_⟩
  rw [hfile] at hsame
  cases (hsame.1 h).1

/-- A rejected change takes the method out of the index, while its source and the diagnostic that
names it stay, and new nodes came without a mark that files were indexed. -/
theorem rejected_change_loses_method :
    let after := reached (change unnamedEdit.2) namedSession
    (success? (change unnamedEdit.2) namedSession).isNone = true ∧
      namedSession.index.outline.path? 4 = some "p.A.m" ∧ after.index.outline.path? 4 = none ∧
      namedSession.index.outline.fileAt? ⟨"p/A.java"⟩ = some 2 ∧
      after.index.outline.fileAt? ⟨"p/A.java"⟩ = some 6 ∧
      after.hasGrown = false ∧
      (after.source? ⟨"p/A.java"⟩).map (fun file => file.classes.length) = some 1 ∧
      (after.diagnostics ⟨"p/A.java"⟩).map Diagnostic.method = ["p.A.m"] := by
  decide +kernel

end CanonicalNames.Workspace
