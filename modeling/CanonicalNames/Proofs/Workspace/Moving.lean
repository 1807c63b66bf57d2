import CanonicalNames.Proofs.Workspace.Rejection

/-!
# Files that move

To move a file is to delete it and to index its stored declarations under the new path. By the
time they are indexed the old file is gone, so that a failure would lose it. There is none:
whatever is stored was indexed with success before, and whether a file can be indexed depends on
its declarations alone, neither on its path nor on the rest of the index. `Accepted` is this
invariant. Requests that fail keep it too, since they store nothing.

`Carried` says what any request leaves in a workspace with that invariant, and
`rename_is_all_or_nothing` is the result for every session.
-/

namespace CanonicalNames.Workspace

variable {workspace after : Workspace} {source target path : SourcePath} {file : FileDecl}

/-- Every stored source can be indexed. -/
def Accepted (workspace : Workspace) : Prop :=
  ∀ path file, workspace.source? path = some file → file.isInsertable = true

/-- A workspace in which a file has moved: it is deleted under the old path, which leaves the
index `middle`, and its declarations are indexed under the new one, which leaves `index`. -/
def moved (workspace : Workspace) (source target : SourcePath) (file : FileDecl)
    (middle index : Index) : Workspace :=
  let arrived := (workspace.deleted source middle).replaced { file with path := target } index
  if workspace.isOpen source then arrived.markOpen target else arrived

/-! ## One request -/

/-- A file with names for everything is indexed under its path, and other files stay where they
are. -/
theorem exists_replaced (hground : workspace.index.outline.Grounded)
    (hfile : file.isInsertable = true) :
    ∃ id index, replace file workspace = .ok id (workspace.replaced file index) ∧
      index.outline.fileAt? file.path = some id ∧
      ∀ other, (file.path == other) = false →
        index.outline.fileAt? other = workspace.index.outline.fileAt? other := by
  obtain ⟨leaving, middle, hremove, hcleared⟩ := Index.exists_clear hground file.path
  obtain ⟨id, index, hinsert, hadded⟩ :=
    Index.insert_file_of_insertable hcleared.ground hcleared.free hfile
  refine ⟨id, index, by rw [replace_eq hremove, hinsert],
    hadded.fileAt.2 (Or.inl ⟨BEq.refl _, rfl⟩), fun other hpath => ?_⟩
  rw [← hcleared.elsewhere hpath]
  exact hadded.attempted.elsewhere hpath

/-- A file whose source is stored can be moved. -/
theorem Accepted.exists_moved (h : workspace.Accepted)
    (hground : workspace.index.outline.Grounded) (hsource : workspace.source? source = some file)
    (target : SourcePath) :
    ∃ id middle index,
      rename source target workspace = .ok id (workspace.moved source target file middle index) ∧
      index.outline.fileAt? target = some id ∧
      ((source == target) = false → index.outline.fileAt? source = none) := by
  obtain ⟨leaving, middle, hremove, hcleared⟩ := Index.exists_clear hground source
  have hdelete := delete_of_remove_file hremove
  -- The path of a file does not decide whether it can be indexed.
  have hinsertable : FileDecl.isInsertable { file with path := target } = true :=
    h source file hsource
  obtain ⟨id, index, hreplace, hfound, hothers⟩ :=
    @exists_replaced (workspace.deleted source middle) _ hcleared.ground hinsertable
  refine ⟨id, middle, index, ?_, hfound, fun hpath => ?_⟩
  · simp only [rename_eq source target hsource, bind, EStateM.bind, hdelete, hreplace, moved]
    cases workspace.isOpen source <;> rfl
  · have hpath' : (target == source) = false := by rw [BEq.comm, hpath]
    rw [hothers source hpath']
    exact hcleared.free

/-- What a request leaves, whether it succeeds or fails. -/
inductive Carried (workspace : Workspace) : Request → Workspace → Prop where
  | openFile {file : FileDecl} {index : Index} (hfile : file.isInsertable = true) :
      Carried workspace (.openFile file) ((workspace.replaced file index).markOpen file.path)
  | change {file : FileDecl} {index : Index} (hfile : file.isInsertable = true) :
      Carried workspace (.change file) (workspace.replaced file index)
  /-- A request that fails has done nothing around the index. -/
  | fail {request : Request} {index : Index} : Carried workspace request { workspace with index }
  | rename {source target : SourcePath} {file : FileDecl} {middle index : Index}
      (hsource : workspace.source? source = some file) :
      Carried workspace (.rename source target) (workspace.moved source target file middle index)
  | delete {path : SourcePath} {index : Index} :
      Carried workspace (.delete path) (workspace.deleted path index)
  | close {path : SourcePath} : Carried workspace (.close path) (workspace.close path).2

theorem Accepted.carried (h : workspace.Accepted) (hground : workspace.index.outline.Grounded)
    (request : Request) : Carried workspace request (workspace.carryOut request) := by
  cases request with
  | openFile file =>
      cases hfile : file.isInsertable with
      | true =>
          obtain ⟨id, index, hrun, -⟩ := exists_replaced hground hfile
          simp only [carryOut, reached, openFile, bind, EStateM.bind, hrun]
          exact .openFile hfile
      | false =>
          obtain ⟨error, index, hrun, -⟩ := replace_of_not_insertable hground hfile
          simp only [carryOut, reached, openFile, bind, EStateM.bind, hrun]
          exact .fail
  | change file =>
      cases hfile : file.isInsertable with
      | true =>
          obtain ⟨id, index, hrun, -⟩ := exists_replaced hground hfile
          simp only [carryOut, reached, change, hrun]
          exact .change hfile
      | false =>
          obtain ⟨error, index, hrun, -⟩ := replace_of_not_insertable hground hfile
          simp only [carryOut, reached, change, hrun]
          exact .fail
  | rename source target =>
      rcases hsource : workspace.source? source with _ | file
      · simp only [carryOut, reached, rename, hsource]
        exact .fail
      · obtain ⟨id, middle, index, hrun, -⟩ := h.exists_moved hground hsource target
        simp only [carryOut, reached, hrun]
        exact .rename hsource
  | delete path =>
      obtain ⟨leaving, index, hremove, -⟩ := Index.exists_clear hground path
      simp only [carryOut, reached, delete_of_remove_file hremove]
      exact .delete
  | close path => exact .close

/-! ## What is stored and open after a move -/

theorem source?_moved (workspace : Workspace) (source target other : SourcePath) (file : FileDecl)
    (middle index : Index) :
    (workspace.moved source target file middle index).source? other =
      if target == other then some { file with path := target }
      else if source == other then none else workspace.source? other := by
  have harrived := source?_replaced (workspace.deleted source middle) { file with path := target }
    index other
  rw [source?_deleted] at harrived
  unfold moved
  split <;> exact harrived

theorem is_open_moved (workspace : Workspace) (source target other : SourcePath) (file : FileDecl)
    (middle index : Index) :
    (workspace.moved source target file middle index).isOpen other =
      ((workspace.isOpen other && !(source == other)) ||
        (workspace.isOpen source && target == other)) := by
  have hdeleted : (workspace.deleted source middle).isOpen other =
      (workspace.isOpen other && !(source == other)) :=
    contains_without ..
  unfold moved
  cases workspace.isOpen source with
  | true =>
      rw [if_pos rfl, is_open_mark_open, Bool.true_and]
      exact congrArg (· || _) hdeleted
  | false =>
      rw [if_neg Bool.false_ne_true, Bool.false_and, Bool.or_false]
      exact hdeleted

/-- Nothing but the new path is pending or published anew after a move. -/
theorem forgotten_moved (workspace : Workspace) (source target other : SourcePath)
    (file : FileDecl) (middle index : Index) :
    (workspace.moved source target file middle index).pending.contains other =
        ((workspace.pending.contains other && !(source == other)) || target == other) ∧
      (workspace.moved source target file middle index).published =
        workspace.published.erase source ∧
      (workspace.moved source target file middle index).index = index := by
  have hpending : (appendNew (without workspace.pending source) target).contains other =
      ((workspace.pending.contains other && !(source == other)) || target == other) := by
    rw [contains_append_new, contains_without]
  unfold moved
  split <;> exact ⟨hpending, rfl, rfl⟩

/-! ## Sessions -/

/-- Every request stores only what can be indexed. -/
theorem Accepted.carry_out (h : workspace.Accepted) {request : Request}
    (hcarried : Carried workspace request after) : after.Accepted := by
  have hreplaced : ∀ {file : FileDecl} {index : Index}, file.isInsertable = true →
      (workspace.replaced file index).Accepted := by
    intro file index hfile path stored hstored
    rw [source?_replaced] at hstored
    split at hstored
    · rw [← Option.some.inj hstored]
      exact hfile
    · exact h _ _ hstored
  cases hcarried with
  | openFile hfile =>
      next file index => exact @hreplaced file index hfile
  | change hfile => exact hreplaced hfile
  | fail => exact h
  | rename hsource =>
      next source target file middle index =>
      intro path stored hstored
      rw [source?_moved] at hstored
      split at hstored
      · have hmoved : FileDecl.isInsertable { file with path := target } = true :=
          h source file hsource
        rw [← Option.some.inj hstored]
        exact hmoved
      · split at hstored
        · cases hstored
        · exact h _ _ hstored
  | delete =>
      intro path stored hstored
      rw [source?_deleted] at hstored
      split at hstored
      · cases hstored
      · exact h _ _ hstored
  | close =>
      unfold Workspace.close
      split <;> exact h

theorem after_session_concat (settings : Settings) (actions : List Action) (action : Action) :
    afterSession settings (actions ++ [action]) = action.run (afterSession settings actions) :=
  List.foldl_concat ..

theorem accepted_after_session (settings : Settings) (actions : List Action) :
    (afterSession settings actions).Accepted := by
  induction actions using List.reverseRecOn with
  | nil => exact fun _ _ hstored => by cases hstored
  | append_singleton actions action ih =>
      rw [after_session_concat]
      cases action with
      | request request =>
          exact ih.carry_out (ih.carried (grounded_after_session settings actions) request)
      | refresh =>
          intro path file hstored
          rw [Action.run, source?_refresh] at hstored
          exact ih path file hstored

/-- Whatever happened in a session, requests that failed included, a file is moved exactly if its
source is stored, and if not, nothing has changed. After the move the file is indexed under the new
path, its source is stored there with the new path, and it is open if it was open under the old
path or a file was open under the new one. Unless the paths are equal nothing is left under the old
path. The sources and the open files under other paths are what they were. -/
theorem rename_is_all_or_nothing (settings : Settings) (actions : List Action)
    (source target : SourcePath) :
    let session := afterSession settings actions
    ((∃ id after, rename source target session = .ok id after) ↔
      (session.source? source).isSome = true) ∧
    (∀ error after, rename source target session = .error error after → after = session) ∧
    ∀ id after, rename source target session = .ok id after →
      after.index.outline.fileAt? target = some id ∧
      after.source? target = (session.source? source).map (fun file => { file with path := target }) ∧
      after.isOpen target = (session.isOpen source || session.isOpen target) ∧
      ((source == target) = false →
        after.index.outline.fileAt? source = none ∧ after.source? source = none ∧
        after.isOpen source = false ∧ after.pending.contains source = false ∧
        after.published.find? source = none) ∧
      ∀ other, (source == other) = false → (target == other) = false →
        after.source? other = session.source? other ∧ after.isOpen other = session.isOpen other := by
  intro session
  have haccepted : session.Accepted := accepted_after_session settings actions
  have hground : session.index.outline.Grounded := grounded_after_session settings actions
  clear_value session
  rcases hsource : session.source? source with _ | file
  · have hrun : rename source target session =
        .error (.invalidInput (.notIndexed source)) session := by
      simp only [rename, hsource]
    simp [hrun]
  · obtain ⟨id, middle, index, hrun, hfound, hgone⟩ :=
      haccepted.exists_moved hground hsource target
    rw [hrun]
    refine ⟨⟨fun _ => rfl, fun _ => ⟨_, _, rfl⟩⟩, fun _ _ h => (by cases h), fun _ _ h => ?_⟩
    cases h
    obtain ⟨hpending, hpublished, hindex⟩ :=
      session.forgotten_moved source target source file middle index
    refine ⟨by rw [hindex, hfound], ?_, ?_, fun hpath => ?_, fun other hother hother' => ?_⟩
    · rw [source?_moved, if_pos (BEq.refl target)]
      rfl
    · rw [is_open_moved, BEq.refl target, Bool.and_true]
      cases hpath : source == target with
      | true =>
          have hopen : session.isOpen source = session.isOpen target := List.contains_congr hpath
          simp [hopen]
      | false => simp [Bool.or_comm]
    · have hpath' : (target == source) = false := by rw [BEq.comm, hpath]
      refine ⟨by rw [hindex, hgone hpath], ?_, ?_, ?_, ?_⟩
      · rw [source?_moved, hpath', if_neg Bool.false_ne_true, if_pos (BEq.refl source)]
      · simp [is_open_moved, hpath']
      · simp [hpending, hpath']
      · rw [hpublished, Table.find?_erase, if_pos (BEq.refl source)]
    · simp [source?_moved, is_open_moved, hother, hother']

/-- An open file is edited so that a class has no name, which is rejected; another file is indexed
and not open. -/
def rejectedEdit : List Action :=
  [.request (.openFile
    { path := ⟨"p/A.java"⟩
      package := "p"
      classes := [{ name := "A", methods := [{ name := "m", returnType := .text "B" }] }] }),
   .request (.change { path := ⟨"p/B.java"⟩, package := "p", classes := [{ name := "B" }] }),
   .refresh,
   .request (.change { path := ⟨"p/A.java"⟩, package := "p", classes := [{ name := "" }] })]

/-- The file still moves with the source from before the edit, onto the other file under another
spelling of its path; a file that is not stored does not. -/
theorem rejected_edit_moves :
    let session := afterSession {} rejectedEdit
    ((session.source? ⟨"p/A.java"⟩).isSome = true ∧
      (session.source? ⟨"p/B.java"⟩).isSome = true ∧ session.isOpen ⟨"p/B.java"⟩ = false) ∧
    (∃ id after, rename ⟨"p/A.java"⟩ ⟨"p//B.java"⟩ session = .ok id after ∧
      after.index.outline.fileAt? ⟨"p//B.java"⟩ = some id ∧ after.isOpen ⟨"p//B.java"⟩ = true ∧
      after.source? ⟨"p/A.java"⟩ = none) ∧
    ¬ ∃ id after, rename ⟨"p/C.java"⟩ ⟨"p/B.java"⟩ session = .ok id after := by
  intro session
  have hstored : ((session.source? ⟨"p/A.java"⟩).isSome = true ∧
      (session.source? ⟨"p/B.java"⟩).isSome = true ∧ session.isOpen ⟨"p/B.java"⟩ = false) ∧
      session.isOpen ⟨"p/A.java"⟩ = true ∧ (session.source? ⟨"p/C.java"⟩).isSome = false := by
    decide +kernel
  obtain ⟨hmoves, -, hmoved⟩ := rename_is_all_or_nothing {} rejectedEdit ⟨"p/A.java"⟩ ⟨"p//B.java"⟩
  obtain ⟨id, after, hrun⟩ := hmoves.2 hstored.1.1
  obtain ⟨hfound, -, hopen, hleft, -⟩ := hmoved id after hrun
  refine ⟨hstored.1, ⟨id, after, hrun, hfound, ?_, (hleft (by decide +kernel)).2.1⟩, fun h => ?_⟩
  · rw [hopen, show (afterSession {} rejectedEdit).isOpen ⟨"p/A.java"⟩ = true from hstored.2.1]
    rfl
  · have hunknown := (rename_is_all_or_nothing {} rejectedEdit ⟨"p/C.java"⟩ ⟨"p/B.java"⟩).1.1 h
    rw [show ((afterSession {} rejectedEdit).source? ⟨"p/C.java"⟩).isSome = false from
      hstored.2.2] at hunknown
    cases hunknown

end CanonicalNames.Workspace
