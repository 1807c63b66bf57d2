import CanonicalNames.Proofs.Workspace.Support

/-!
# Published diagnostics

Only the files that await resolution publish anew when a workspace is refreshed. That what is
published is nevertheless up to date rests on two invariants. A sound workspace lets every file
whose references may have changed await resolution (`Sound`), and nothing stays published for a
file that is not open (`Discreet`). Requests and refreshes keep both: a request that moves an
unknown file changes nothing, one that moves a known file always succeeds, since what was indexed
once can be indexed again (`Sound.exists_rename`).

`published_after_refresh` is the result for every session in which files are opened and changed
with success.
-/

namespace CanonicalNames

namespace Workspace

variable {workspace after : Workspace} {path : SourcePath}

/-- What is to be said about a return type: a warning unless it is resolved, and an information if
it was taken from an import outside the outline and the settings ask for it. -/
def finding? (settings : Settings) (index : Index) (path : SourcePath) (method : NodeId) :
    Option Diagnostic := do
  let use ← index.outline.use? (.returnType method)
  let methodPath ← index.outline.path? method
  let standing := index.standing (.returnType method)
  match standing.canonical? with
  | none =>
    some {
      path
      method := methodPath
      reference := use.name
      severity := .warning
      message := "cannot resolve type '" ++ use.name ++ "'" }
  | some canonical =>
    if settings.reportDependencyImports && standing.origin? == some .dependency then
      some {
        path
        method := methodPath
        reference := use.name
        severity := .information
        message :=
          "type '" ++ use.name ++ "' is taken from unindexed import '" ++ canonical ++ "'" }
    else none

theorem diagnostic_of?_eq_finding? (settings : Settings) (index : Index) (path : SourcePath)
    (method : NodeId) :
    diagnosticOf? settings index path method = finding? settings index path method := by
  unfold diagnosticOf? finding? Index.reference?
  rcases index.outline.use? (.returnType method) with _ | use
  · rfl
  · rcases index.outline.path? method with _ | methodPath
    · rfl
    · simp only [Option.map_some, bind, Option.bind_some, Standing.canonical?, Standing.origin?]
      generalize index.standing (.returnType method) = standing
      obtain ⟨status, subscription⟩ := standing
      cases status with
      | resolved canonical origin =>
          cases origin <;> cases settings.reportDependencyImports <;> rfl
      | _ => rfl

/-- Nothing is published for a file that is not open. -/
def Discreet (workspace : Workspace) : Prop :=
  ∀ path, workspace.isOpen path = false → workspace.diagnostics path = []

/-! ## Requests -/

theorem discreet_start (settings : Settings) : Discreet { settings } :=
  fun _ _ => rfl

theorem Discreet.mark_open (h : workspace.Discreet) (path : SourcePath) :
    (workspace.markOpen path).Discreet := by
  intro other hclosed
  rw [is_open_mark_open, Bool.or_eq_false_iff] at hclosed
  exact h other hclosed.1

/-- A file that is closed or forgotten withdraws what it has published. -/
theorem Discreet.of_withdrawn (h : workspace.Discreet)
    (hopened : after.opened = without workspace.opened path)
    (hpublished : after.published = (workspace.withdraw path).published) : after.Discreet := by
  intro other hclosed
  have hdiagnostics : after.diagnostics other = (workspace.withdraw path).diagnostics other := by
    unfold diagnostics
    rw [hpublished]
  rw [isOpen, hopened, contains_without] at hclosed
  rw [hdiagnostics, diagnostics_withdraw]
  cases hpath : path == other with
  | true => rfl
  | false =>
      rw [hpath, Bool.not_false, Bool.and_true] at hclosed
      exact h other hclosed

theorem Discreet.deleted (h : workspace.Discreet) (path : SourcePath) (index : Index) :
    (workspace.deleted path index).Discreet :=
  h.of_withdrawn rfl rfl

theorem Discreet.close (h : workspace.Discreet) (path : SourcePath) :
    (workspace.close path).2.Discreet := by
  unfold Workspace.close
  split
  · exact h.of_withdrawn rfl rfl
  · exact h

/-- A request that succeeds publishes nothing. -/
theorem Discreet.perform (h : workspace.Discreet) {request : Request}
    (hperformed : Performed workspace request after) : after.Discreet := by
  cases hperformed with
  | openFile => exact Discreet.mark_open h _
  | change => exact h
  | rename =>
      next source target file middle index _ _ _ _ _ =>
      have hdeleted := h.deleted source middle
      split
      · exact Discreet.mark_open hdeleted _
      · exact hdeleted
  | delete => exact h.deleted _ _
  | close => exact h.close _

theorem carry_out_of_perform? {request : Request}
    (h : perform? workspace request = some after) : workspace.carryOut request = after := by
  have hreached : ∀ {α : Type} {edit : Edit α}, success? edit workspace = some after →
      reached edit workspace = after := by
    intro α edit hsuccess
    obtain ⟨value, hrun⟩ := success?_eq_some_iff.1 hsuccess
    simp only [reached, hrun]
  cases request with
  | close path => exact Option.some.inj h
  | _ => exact hreached h

/-- A known file can be moved: what was indexed once can be indexed again. -/
theorem Sound.exists_rename (h : workspace.Sound) {source : SourcePath} {file : FileDecl}
    (hsource : workspace.source? source = some file) (target : SourcePath) :
    ∃ after, perform? workspace (.rename source target) = some after := by
  obtain ⟨_, middle, hdelete, hremoved, hmiddle⟩ := h.exists_delete source
  have hdeleted := (h.follows_deleted hremoved hmiddle).sound
  have hinsertable : file.isInsertable = true := (h.filing.indexed hsource).1
  simp only [perform?, success?, rename_eq source target hsource, bind, EStateM.bind, hdelete]
  rcases hdeleted.replace_cases { file with path := target } with
    ⟨_, _, index, hok, _, _⟩ | ⟨hfault, _⟩
  · simp only [hok]
    cases workspace.isOpen source <;> exact ⟨_, rfl⟩
  · have hsame : file.isInsertable = false := hfault
    rw [hinsertable] at hsame
    cases hsame

/-! ## Sessions -/

/-- A file that is opened or changed is indexed with success. -/
def Action.succeeds (workspace : Workspace) : Action → Bool
  | .request (.openFile file) => (perform? workspace (.openFile file)).isSome
  | .request (.change file) => (perform? workspace (.change file)).isSome
  | _ => true

/-- Every file that is opened or changed in a session is indexed with success. -/
def allSucceed (workspace : Workspace) : List Action → Bool
  | [] => true
  | action :: rest => action.succeeds workspace && (action.run workspace).allSucceed rest

/-- If a request to open or change a file succeeds, and for any other request, the request is
performed or changes nothing. -/
theorem Sound.carry_out_cases (h : workspace.Sound) {request : Request}
    (hsucceeds : (Action.request request).succeeds workspace = true) :
    perform? workspace request = some (workspace.carryOut request) ∨
      workspace.carryOut request = workspace := by
  have hperformed : ∀ {request}, (∃ after, perform? workspace request = some after) →
      perform? workspace request = some (workspace.carryOut request) := by
    rintro request ⟨after, hperform⟩
    rw [carry_out_of_perform? hperform, hperform]
  cases request with
  | openFile file => exact Or.inl (hperformed (Option.isSome_iff_exists.1 hsucceeds))
  | change file => exact Or.inl (hperformed (Option.isSome_iff_exists.1 hsucceeds))
  | rename source target =>
      rcases hsource : workspace.source? source with _ | file
      · refine Or.inr ?_
        simp only [carryOut, reached, rename, hsource]
      · exact Or.inl (hperformed (h.exists_rename hsource target))
  | delete path =>
      obtain ⟨_, index, hdelete, _, _⟩ := h.exists_delete path
      exact Or.inl (hperformed ⟨_, success?_eq_some_iff.2 ⟨_, hdelete⟩⟩)
  | close path => exact Or.inl (hperformed ⟨_, rfl⟩)

/-! ## Refreshing -/

/-- Publishing leaves what is published for a file that is not open. -/
theorem Discreet.publish_all (h : workspace.Discreet) (paths : List SourcePath) :
    (publishAll paths workspace).2.Discreet := by
  induction paths generalizing workspace with
  | nil => exact h
  | cons first rest ih =>
      obtain ⟨published, hpublish, hdiagnostics⟩ := workspace.exists_publish first
      have hfirst : (workspace.publish first).2.Discreet := by
        rw [hpublish]
        intro path hclosed
        have hclosed' : workspace.isOpen path = false := hclosed
        rw [hdiagnostics path, hclosed', Bool.false_and, if_neg Bool.false_ne_true]
        exact h path hclosed'
      exact ih hfirst

theorem Discreet.refresh (h : workspace.Discreet) : workspace.refresh.2.Discreet := by
  obtain ⟨index, pending, hasGrown, htaken, -⟩ := workspace.exists_taken
  rw [snd_refresh]
  refine Discreet.publish_all ?_ _
  rw [htaken]
  exact h

/-- A session in which files are opened and changed with success leaves a sound workspace that
publishes nothing for files that are not open. -/
theorem sound_session (actions : List Action) (h : workspace.Sound) (hdiscreet : workspace.Discreet)
    (hsucceed : workspace.allSucceed actions = true) :
    (actions.foldl Action.run workspace).Sound ∧ (actions.foldl Action.run workspace).Discreet ∧
      (actions.foldl Action.run workspace).settings = workspace.settings := by
  induction actions generalizing workspace with
  | nil => exact ⟨h, hdiscreet, rfl⟩
  | cons action rest ih =>
      obtain ⟨hfirst, hrest⟩ := Bool.and_eq_true_iff.1 hsucceed
      have hstep : (action.run workspace).Sound ∧ (action.run workspace).Discreet ∧
          (action.run workspace).settings = workspace.settings := by
        cases action with
        | request request =>
            show (workspace.carryOut request).Sound ∧ (workspace.carryOut request).Discreet ∧ _
            rcases h.carry_out_cases hfirst with hperform | hsame
            · have hfollows := h.perform hperform
              exact ⟨hfollows.sound, hdiscreet.perform (h.performed hperform), hfollows.settings⟩
            · rw [show Action.run workspace (.request request) = workspace from hsame, hsame]
              exact ⟨h, hdiscreet, rfl⟩
        | refresh => exact ⟨h.refresh, hdiscreet.refresh, workspace.settings_refresh⟩
      obtain ⟨hsound, hclosed, hsettings⟩ := ih hstep.1 hstep.2.1 hrest
      exact ⟨hsound, hclosed, hsettings.trans hstep.2.2⟩

/-- After a refresh, what is published mirrors the index, in every session in which files are
opened and changed with success. Every return type with a name in an indexed file is resolved or
has failed. What is published for an open file is what there is to say about its methods, in
declaration order; nothing is published for any other file. The indexed files are those of the
stored sources and hold what these declare, and the open files are among them. -/
theorem published_after_refresh (settings : Settings) (actions : List Action)
    (hsucceed : ({ settings } : Workspace).allSucceed actions = true) :
    let workspace := (afterSession settings actions).refresh.2
    let outline := workspace.index.outline
    (∀ path file method use, outline.fileAt? path = some file →
      method ∈ outline.methodsUnder file → outline.use? (.returnType method) = some use →
      use.name ≠ "" → (workspace.index.standing (.returnType method)).isResolved = true ∨
        (workspace.index.standing (.returnType method)).status = .failed) ∧
    (∀ path, workspace.isOpen path = true → ∃ file, outline.fileAt? path = some file ∧
      (workspace.diagnostics path == (outline.methodsUnder file).filterMap
        (finding? settings workspace.index path)) = true) ∧
    (∀ path, workspace.isOpen path = false → workspace.diagnostics path = []) ∧
    (∀ path, (outline.fileAt? path).isSome = (workspace.source? path).isSome) ∧
    (∀ path file, outline.fileAt? path = some file → ∃ decl, workspace.source? path = some decl ∧
      (decl.path == path) = true ∧ outline.Bears file decl.toBranch) ∧
    (∀ path, workspace.isOpen path = true → (workspace.source? path).isSome = true) := by
  intro workspace outline
  obtain ⟨hsound, hdiscreet, hsettings⟩ :=
    sound_session actions (sound_start settings) (discreet_start settings) hsucceed
  have h : workspace.Sound := hsound.refresh
  have hawait : ∀ path, workspace.pending.contains path = false := by
    intro path
    rw [show workspace.pending = [] from pending_refresh _]
    rfl
  have hsource : ∀ {path file}, outline.fileAt? path = some file →
      ∃ decl, workspace.source? path = some decl ∧ (decl.path == path) = true ∧
        outline.Bears file decl.toBranch := by
    intro path file hfile
    obtain ⟨decl, hdecl, hbears, -⟩ := h.filing.filed hfile
    exact ⟨decl, hdecl, (h.filing.indexed hdecl).2.1, hbears⟩
  refine ⟨?_, ?_, hdiscreet.refresh, fun path => ?_, fun _ _ => hsource, ?_⟩
  · intro path file method use hfile hmethod huse hname
    have hunresolved := h.settled (hawait path)
      (Outline.mem_methods_at_iff.2 ⟨file, hfile, hmethod⟩) ⟨use, huse, hname⟩
    have hidle := h.tidy.idle (.returnType method)
    unfold Standing.isResolved Standing.canonical?
    cases hstatus : (workspace.index.standing (.returnType method)).status with
    | unresolved => exact absurd hstatus hunresolved
    | inProgress => exact absurd hstatus hidle
    | resolved canonical origin => exact Or.inl rfl
    | failed => exact Or.inr rfl
  · intro path hopen
    obtain ⟨decl, hdecl⟩ := h.indexed hopen
    obtain ⟨-, -, file, hfile⟩ := h.filing.indexed hdecl
    refine ⟨file, hfile, ?_⟩
    have hsame : workspace.settings = settings := (settings_refresh _).trans hsettings
    have hfindings : finding? settings workspace.index path =
        diagnosticOf? workspace.settings workspace.index path := by
      funext method
      rw [diagnostic_of?_eq_finding?, hsame]
    have hpublished := h.published (hawait path) hopen
    rw [currentDiagnostics, hfile] at hpublished
    rw [hfindings]
    exact hpublished
  · rw [Bool.eq_iff_iff, Option.isSome_iff_exists, Option.isSome_iff_exists]
    constructor
    · rintro ⟨file, hfile⟩
      obtain ⟨decl, hdecl, -⟩ := hsource hfile
      exact ⟨decl, hdecl⟩
    · rintro ⟨decl, hdecl⟩
      exact (h.filing.indexed hdecl).2.2
  · intro path hopen
    exact Option.isSome_iff_exists.2 (h.indexed hopen)

/-- A class that two open files return is deleted; one of them was closed in between, and a file
that nobody knows was to be moved. -/
def deletedClass : List Action :=
  [.request (.openFile
    { path := ⟨"p/A.java"⟩
      package := "p"
      imports := ["x.Dep"]
      classes :=
        [{ name := "A"
           methods :=
             [{ name := "m", returnType := .text "B" }, { name := "n", returnType := .text "Dep" }] }] }),
   .request (.openFile
    { path := ⟨"p/C.java"⟩
      package := "p"
      classes := [{ name := "C", methods := [{ name := "m", returnType := .text "B" }] }] }),
   .request (.openFile { path := ⟨"p/B.java"⟩, package := "p", classes := [{ name := "B" }] }),
   .refresh,
   .request (.close ⟨"p/C.java"⟩),
   .request (.rename ⟨"p/D.java"⟩ ⟨"p/E.java"⟩),
   .request (.delete ⟨"p/B.java"⟩)]

/-- What is then published for the file that is still open. -/
def deletedClassFindings : List Diagnostic :=
  [{ path := ⟨"p/A.java"⟩
     method := "p.A.m"
     reference := "B"
     severity := .warning
     message := "cannot resolve type 'B'" },
   { path := ⟨"p/A.java"⟩
     method := "p.A.n"
     reference := "Dep"
     severity := .information
     message := "type 'Dep' is taken from unindexed import 'x.Dep'" }]

/-- The file that is still open says that the class is gone and names the import, and the closed
file says nothing. -/
theorem deleted_class_is_published :
    let settings : Settings := { reportDependencyImports := true }
    let workspace := (afterSession settings deletedClass).refresh.2
    let outline := workspace.index.outline
    (({ settings } : Workspace).allSucceed deletedClass = true ∧
      (workspace.diagnostics ⟨"p/A.java"⟩ == deletedClassFindings) = true) ∧
    (∃ file, outline.fileAt? ⟨"p/A.java"⟩ = some file ∧
      (workspace.diagnostics ⟨"p/A.java"⟩ == (outline.methodsUnder file).filterMap
        (finding? settings workspace.index ⟨"p/A.java"⟩)) = true) ∧
    workspace.diagnostics ⟨"p/C.java"⟩ = [] := by
  intro settings
  have hsucceed : ({ settings } : Workspace).allSucceed deletedClass = true := by decide +kernel
  have hfacts : ((afterSession settings deletedClass).refresh.2.isOpen ⟨"p/A.java"⟩ = true ∧
      (afterSession settings deletedClass).refresh.2.isOpen ⟨"p/C.java"⟩ = false) ∧
      ((afterSession settings deletedClass).refresh.2.diagnostics ⟨"p/A.java"⟩ ==
        deletedClassFindings) = true := by decide +kernel
  have hmirrored := published_after_refresh settings deletedClass hsucceed
  -- From here on the workspace is any that has these properties.
  generalize (afterSession settings deletedClass).refresh.2 = workspace at hfacts hmirrored ⊢
  obtain ⟨-, hopen, hclosed, -⟩ := hmirrored
  exact ⟨⟨hsucceed, hfacts.2⟩, hopen _ hfacts.1.1, hclosed _ hfacts.1.2⟩

end Workspace

end CanonicalNames
