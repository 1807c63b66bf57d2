import CanonicalNames.Proofs.Index.Edits
import CanonicalNames.Workspace.Refresh

/-!
# Requests to a workspace

A workspace is `Sound` when its index is made of its sources, every file that does not
await resolution is settled, and every open file that does not await resolution has
published what is to be said about it. `Performed` says what a request that succeeds makes
of a sound workspace. It keeps the workspace sound, and what is known about references
afterwards was known before (`Sound.perform`).
-/

namespace CanonicalNames

namespace Diagnostic

/-- What diagnostics are compared by. -/
def key (diagnostic : Diagnostic) : List Component × String × String × Severity × String :=
  (diagnostic.path.components, diagnostic.method, diagnostic.reference, diagnostic.severity,
    diagnostic.message)

theorem beq_iff_key_eq {left right : Diagnostic} : (left == right) = true ↔ left.key = right.key := by
  obtain ⟨path, method, reference, severity, message⟩ := left
  obtain ⟨path', method', reference', severity', message'⟩ := right
  change (path == path' && (method == method' && (reference == reference' &&
    (severity == severity' && message == message')))) = true ↔ _
  simp [key, SourcePath.beq_iff_components_eq]

theorem list_beq_iff_map_key_eq {left right : List Diagnostic} :
    (left == right) = true ↔ left.map key = right.map key := by
  induction left generalizing right with
  | nil => cases right <;> simp
  | cons first rest ih =>
      cases right with
      | nil => simp
      | cons other others => simp [beq_iff_key_eq, ih]

end Diagnostic

namespace Outline

/-- The methods of the file with a path, in declaration order. -/
def methodsAt (outline : Outline) (path : SourcePath) : List NodeId :=
  ((outline.fileAt? path).map outline.methodsUnder).getD []

theorem mem_methods_at_iff {outline : Outline} {path : SourcePath} {method : NodeId} :
    method ∈ outline.methodsAt path ↔
      ∃ file, outline.fileAt? path = some file ∧ method ∈ outline.methodsUnder file := by
  unfold methodsAt
  rcases outline.fileAt? path with _ | file <;> simp

/-- Equal paths have the same methods. -/
theorem methods_at_congr (outline : Outline) {path other : SourcePath} (h : (path == other) = true) :
    outline.methodsAt path = outline.methodsAt other := by
  simp only [methodsAt, fileAt?, Table.find?_congr _ h]

/-- The methods of a file lie below it. -/
theorem WellFormed.below_of_mem_methods_at {outline : Outline} (hwell : outline.WellFormed)
    {path : SourcePath} {file method : NodeId} (hfile : outline.fileAt? path = some file)
    (hmethod : method ∈ outline.methodsAt path) : outline.Below method file := by
  obtain ⟨found, hfound, hunder⟩ := mem_methods_at_iff.1 hmethod
  obtain rfl := Option.some.inj (hfile.symm.trans hfound)
  exact (hwell.mem_methods_under_iff.1 hunder).1

end Outline

namespace Workspace

/-- A request of the editor. -/
inductive Request where
  | openFile (file : FileDecl)
  | change (file : FileDecl)
  | rename (source target : SourcePath)
  | delete (path : SourcePath)
  | close (path : SourcePath)

/-- The workspace after an edit that succeeds. -/
def success? {α : Type} (edit : Edit α) (workspace : Workspace) : Option Workspace :=
  match edit workspace with
  | .ok _ after => some after
  | .error _ _ => none

theorem success?_eq_some_iff {α : Type} {edit : Edit α} {workspace after : Workspace} :
    success? edit workspace = some after ↔ ∃ value, edit workspace = .ok value after := by
  unfold success?
  split
  · next value middle h => simp [h]
  · next error middle h => simp [h]

/-- The workspace after a request that succeeds. -/
def perform? (workspace : Workspace) : Request → Option Workspace
  | .openFile file => success? (openFile file) workspace
  | .change file => success? (change file) workspace
  | .rename source target => success? (rename source target) workspace
  | .delete path => success? (delete path) workspace
  | .close path => some (workspace.close path).2

/-- The workspace after requests that all succeed. -/
def performAll? (workspace : Workspace) (requests : List Request) : Option Workspace :=
  requests.foldlM perform? workspace

/-- No owner of type parameters in the declarations that come with a request has bounds that
lead back. -/
def Request.AcyclicBounds : Request → Prop
  | .openFile file => file.AcyclicBounds
  | .change file => file.AcyclicBounds
  | _ => True

/-- The index of a workspace is made of its sources, and what does not await resolution is
settled and published. -/
structure Sound (workspace : Workspace) : Prop where
  filing : workspace.index.outline.Filing workspace.source?
  tidy : workspace.index.Tidy
  unique : workspace.sources.Unique
  indexed : ∀ {path}, workspace.isOpen path = true → ∃ decl, workspace.source? path = some decl
  distinct : Distinct workspace.pending
  settled : ∀ {path method}, workspace.pending.contains path = false →
    method ∈ workspace.index.outline.methodsAt path →
    workspace.index.outline.HasName (.returnType method) →
    (workspace.index.standing (.returnType method)).status ≠ .unresolved
  published : ∀ {path}, workspace.pending.contains path = false → workspace.isOpen path = true →
    (workspace.diagnostics path == workspace.currentDiagnostics path) = true

/-- A sound workspace that knows nothing about references but what another knows. -/
structure Follows (workspace after : Workspace) : Prop where
  sound : after.Sound
  settings : after.settings = workspace.settings
  remembers : Index.Remembers workspace.index after.index

variable {workspace middle after : Workspace} {path : SourcePath} {file : FileDecl}

theorem Sound.follows_self (h : workspace.Sound) : Follows workspace workspace :=
  ⟨h, rfl, .refl _⟩

theorem Follows.trans (h : Follows workspace middle) (k : Follows middle after) :
    Follows workspace after :=
  ⟨k.sound, k.settings.trans h.settings, h.remembers.trans k.remembers⟩

/-- A workspace without sources is sound. -/
theorem sound_start (settings : Settings) : Sound { settings } where
  filing := Outline.filing_empty
  tidy := ⟨fun _ => nofun, fun _ _ => rfl⟩
  unique := Table.unique_empty
  indexed h := by cases h
  distinct := .nil
  settled _ hmethod := by cases hmethod
  published _ h := by cases h

/-! ## Edits of one file -/

theorem current_diagnostics_eq_filter_map (workspace : Workspace) (path : SourcePath) :
    workspace.currentDiagnostics path = (workspace.index.outline.methodsAt path).filterMap
      (diagnosticOf? workspace.settings workspace.index path) := by
  unfold currentDiagnostics Outline.methodsAt
  rcases workspace.index.outline.fileAt? path with _ | file <;> rfl

/-- What is to be said about a file that is the same is the same. -/
theorem current_diagnostics_eq {id : NodeId} (hwell : workspace.index.outline.WellFormed)
    (hwell' : after.index.outline.WellFormed) (hsettings : after.settings = workspace.settings)
    (hfile : workspace.index.outline.fileAt? path = some id)
    (hfile' : after.index.outline.fileAt? path = some id)
    (hsame : Index.SameFile workspace.index after.index id) :
    after.currentDiagnostics path = workspace.currentDiagnostics path := by
  simp only [currentDiagnostics, hfile, hfile', hsame.methods_under_eq hwell hwell' hfile, hsettings]
  refine List.filterMap_congr (fun method hmethod => ?_)
  have hbelow := (hwell.mem_methods_under_iff.1 hmethod).1
  obtain ⟨hreference, hpath⟩ :=
    @Index.SameFile.reference?_eq _ _ _ _ (.returnType method) hsame hfile hwell hbelow
  simp only [RefId.returnType] at hpath
  simp only [diagnosticOf?, hreference, hpath]

/-- An edit of one file keeps a workspace sound, if the file awaits resolution afterwards or is
gone. -/
theorem Sound.follows_of_edited (h : workspace.Sound)
    (hedited : Index.Edited workspace.index after.index path)
    (hfiling : after.index.outline.Filing after.source?) (hunique : after.sources.Unique)
    (hindexed : ∀ {other}, after.isOpen other = true → ∃ decl, after.source? other = some decl)
    (hdistinct : Distinct after.pending)
    (hsettings : after.settings = workspace.settings)
    (hself : after.pending.contains path = true ∨ after.source? path = none)
    (hother : ∀ {other}, (path == other) = false →
      after.pending.contains other = workspace.pending.contains other ∧
      after.isOpen other = workspace.isOpen other ∧
      after.diagnostics other = workspace.diagnostics other) : Follows workspace after := by
  have hwell := h.filing.ground.well
  have hwell' := hfiling.ground.well
  -- A file that does not await resolution is not the edited one.
  have hne : ∀ {other decl}, after.pending.contains other = false →
      after.source? other = some decl → (path == other) = false := by
    intro other decl hpending hsource
    cases hpath : path == other with
    | false => rfl
    | true =>
        rcases hself with hself | hself
        · rw [List.contains_congr hpath, hpending] at hself
          cases hself
        · rw [source?, Table.find?_congr _ hpath, ← source?, hsource] at hself
          cases hself
  refine ⟨⟨hfiling, hedited.tidy, hunique, hindexed, hdistinct, ?_, ?_⟩, hsettings,
    hedited.remembers h.filing hfiling⟩
  · intro other method hpending hmethod hname
    obtain ⟨file, hfile, hmethod⟩ := Outline.mem_methods_at_iff.1 hmethod
    obtain ⟨decl, hsource, _⟩ := hfiling.filed hfile
    have hpath := hne hpending hsource
    have hold := (hedited.fileAt hpath).1 hfile
    have hsame := hedited.same hpath hold
    obtain ⟨node, _, _, _, hnode, _⟩ := hwell.fileAt.1 hold
    rw [hsame.methods_under_eq hwell hwell' hold] at hmethod
    have hbelow := (hwell.mem_methods_under_iff.1 hmethod).1
    obtain ⟨found, hfound⟩ := Outline.exists_node?_of_below hnode hbelow
    obtain ⟨use, huse, hname⟩ := hname
    rw [@Outline.SameBelow.use?_eq _ _ _ _ (.returnType method) hsame.below hbelow hfound] at huse
    rw [@Index.SameFile.standing _ _ _ hsame (.returnType method) hbelow]
    exact h.settled ((hother hpath).1 ▸ hpending)
      (Outline.mem_methods_at_iff.2 ⟨file, hold, hmethod⟩) ⟨use, huse, hname⟩
  · intro other hpending hopen
    obtain ⟨decl, hsource⟩ := hindexed hopen
    have hpath := hne hpending hsource
    obtain ⟨_, _, file, hfile⟩ := hfiling.indexed hsource
    have hold := (hedited.fileAt hpath).1 hfile
    obtain ⟨hpending', hopen', hdiagnostics⟩ := hother hpath
    rw [hdiagnostics,
      current_diagnostics_eq hwell hwell' hsettings hold hfile (hedited.same hpath hold)]
    exact h.published (hpending' ▸ hpending) (hopen' ▸ hopen)

/-- A workspace with another index that has a file in place of what was under its path. -/
def replaced (workspace : Workspace) (file : FileDecl) (index : Index) : Workspace :=
  { workspace with
    index
    sources := workspace.sources.insert file.path file
    pending := appendNew workspace.pending file.path
    hasGrown := true }

/-- A workspace with another index and without a file. -/
def deleted (workspace : Workspace) (path : SourcePath) (index : Index) : Workspace :=
  { workspace with index, sources := workspace.sources.erase path }.forget path

/-- To index a file is to clear its path and then to insert it; the rest is brought up to date
after a success. -/
theorem replace_eq {leaving : Option (List NodeId)} {index : Index}
    (hremove : workspace.index.removeFile file.path = .ok (leaving, index)) :
    replace file workspace = match Index.insertFile file index with
      | .ok id index => .ok id (workspace.replaced file index)
      | .error error index => .error error { workspace with index } := by
  simp only [replace, bind, EStateM.bind, removeFile, hremove, insertFile]
  rcases Index.insertFile file index with ⟨id, after⟩ | ⟨error, after⟩ <;> rfl

/-- A file with names for everything can be indexed, and no other. -/
theorem Sound.replace_cases (h : workspace.Sound) (file : FileDecl) :
    (file.isInsertable = true ∧ ∃ id index,
      replace file workspace = .ok id (workspace.replaced file index) ∧
      Index.Edited workspace.index index file.path ∧
      index.outline.Filing (workspace.replaced file index).source?) ∨
    (file.isInsertable = false ∧ ∃ error after, replace file workspace = .error error after) := by
  obtain ⟨leaving, middle, hremove, hedited, hfree, hfiling⟩ :=
    Index.exists_remove_file h.filing h.tidy file.path
  have hinsert := Index.exists_insert_file_iff hfiling hedited.tidy hfree
  rw [replace_eq hremove]
  cases hinsertable : file.isInsertable with
  | true =>
      obtain ⟨id, index, hok, hinserted, hfiled⟩ := hinsert.1 hinsertable
      refine Or.inl ⟨rfl, id, index, by rw [hok], hedited.trans hinserted, ?_⟩
      have hsources : (workspace.replaced file index).source? = fun path =>
          if file.path == path then some file
          else if file.path == path then none else workspace.source? path := by
        funext path
        simp only [source?, replaced, Table.find?_insert]
        split <;> rfl
      rw [hsources]
      exact hfiled
  | false =>
      refine Or.inr ⟨rfl, ?_⟩
      rcases hok : Index.insertFile file middle with ⟨id, index⟩ | ⟨error, index⟩
      · rw [Index.insertable_of_insert_file hok] at hinsertable
        cases hinsertable
      · exact ⟨error, { workspace with index }, rfl⟩

/-- Deleting a file takes its source away first. -/
theorem delete_eq (path : SourcePath) (workspace : Workspace) :
    delete path workspace = (do
      let wasIndexed ← removeFile path
      modify (fun workspace => workspace.forget path)
      return workspace.sources.contains path || wasIndexed : Edit Bool)
        { workspace with sources := workspace.sources.erase path } := rfl

/-- Where a path can be cleared, its file can be deleted. -/
theorem delete_of_remove_file {leaving : Option (List NodeId)} {index : Index}
    (hremove : workspace.index.removeFile path = .ok (leaving, index)) :
    delete path workspace =
      .ok (workspace.sources.contains path || leaving.isSome) (workspace.deleted path index) := by
  have hrun : removeFile path { workspace with sources := workspace.sources.erase path } =
      .ok leaving.isSome { workspace with index, sources := workspace.sources.erase path } := by
    simp only [removeFile, hremove]
  simp only [delete_eq, bind, EStateM.bind, hrun]
  rfl

/-- A file can be deleted. -/
theorem Sound.exists_delete (h : workspace.Sound) (path : SourcePath) :
    ∃ isKnown index, delete path workspace = .ok isKnown (workspace.deleted path index) ∧
      Index.Edited workspace.index index path ∧
      index.outline.Filing (workspace.deleted path index).source? := by
  obtain ⟨leaving, index, hremove, hedited, _, hfiling⟩ :=
    Index.exists_remove_file h.filing h.tidy path
  refine ⟨_, index, delete_of_remove_file hremove, hedited, ?_⟩
  have hsources : (workspace.deleted path index).source? = fun other =>
      if path == other then none else workspace.source? other := by
    funext other
    exact Table.find?_erase _ _ _
  rw [hsources]
  exact hfiling

/-! ## Requests -/

theorem source?_replaced (workspace : Workspace) (file : FileDecl) (index : Index)
    (path : SourcePath) : (workspace.replaced file index).source? path =
      if file.path == path then some file else workspace.source? path :=
  Table.find?_insert ..

theorem source?_deleted (workspace : Workspace) (path other : SourcePath) (index : Index) :
    (workspace.deleted path index).source? other =
      if path == other then none else workspace.source? other :=
  Table.find?_erase ..

theorem is_open_mark_open (workspace : Workspace) (path other : SourcePath) :
    (workspace.markOpen path).isOpen other = (workspace.isOpen other || path == other) :=
  contains_append_new ..

theorem diagnostics_withdraw (workspace : Workspace) (path other : SourcePath) :
    (workspace.withdraw path).diagnostics other =
      if path == other then [] else workspace.diagnostics other := by
  simp only [diagnostics, withdraw, Table.find?_erase]
  split <;> rfl

/-- Indexing a file keeps a workspace sound. -/
theorem Sound.follows_replaced (h : workspace.Sound) {index : Index}
    (hedited : Index.Edited workspace.index index file.path)
    (hfiling : index.outline.Filing (workspace.replaced file index).source?) :
    Follows workspace (workspace.replaced file index) := by
  refine h.follows_of_edited hedited hfiling (h.unique.insert _ _) ?_ (h.distinct.append_new _) rfl
    (Or.inl ?_) ?_
  · intro other hopen
    rw [source?_replaced]
    split
    · exact ⟨file, rfl⟩
    · exact h.indexed hopen
  · simp [replaced, contains_append_new]
  · intro other hpath
    refine ⟨?_, rfl, rfl⟩
    simp [replaced, contains_append_new, hpath]

/-- Deleting a file keeps a workspace sound. -/
theorem Sound.follows_deleted (h : workspace.Sound) {index : Index}
    (hedited : Index.Edited workspace.index index path)
    (hfiling : index.outline.Filing (workspace.deleted path index).source?) :
    Follows workspace (workspace.deleted path index) := by
  have hopen : ∀ other, (workspace.deleted path index).isOpen other =
      (workspace.isOpen other && !(path == other)) :=
    fun other => contains_without ..
  refine h.follows_of_edited hedited hfiling (h.unique.erase _) ?_ (h.distinct.without _) rfl
    (Or.inr ?_) ?_
  · intro other hother
    rw [hopen, Bool.and_eq_true, Bool.not_eq_true'] at hother
    rw [source?_deleted, hother.2]
    exact h.indexed hother.1
  · rw [source?_deleted, if_pos (BEq.refl path)]
  · intro other hpath
    refine ⟨?_, by rw [hopen, hpath]; simp, ?_⟩
    · exact (contains_without ..).trans (by rw [hpath]; simp [withdraw])
    · exact (diagnostics_withdraw ..).trans (by rw [hpath]; rfl)

/-- A file that awaits resolution can be opened. -/
theorem Sound.follows_mark_open (h : workspace.Sound) {decl : FileDecl}
    (hsource : workspace.source? path = some decl)
    (hpending : workspace.pending.contains path = true) :
    Follows workspace (workspace.markOpen path) := by
  refine ⟨⟨h.filing, h.tidy, h.unique, ?_, h.distinct, h.settled, ?_⟩, rfl, .refl _⟩
  · intro other hopen
    rw [is_open_mark_open, Bool.or_eq_true] at hopen
    rcases hopen with hopen | hpath
    · exact h.indexed hopen
    · exact ⟨decl, (Table.find?_congr _ hpath).symm.trans hsource⟩
  · intro other hother hopen
    rw [is_open_mark_open, Bool.or_eq_true] at hopen
    rcases hopen with hopen | hpath
    · exact h.published hother hopen
    · rw [List.contains_congr hpath] at hpending
      exact absurd (hother.symm.trans hpending) nofun

/-- Closing a file keeps a workspace sound. -/
theorem Sound.follows_close (h : workspace.Sound) (path : SourcePath) :
    Follows workspace (workspace.close path).2 := by
  unfold close
  split
  · have hopen : ∀ other, (without workspace.opened path).contains other =
        (workspace.isOpen other && !(path == other)) :=
      fun other => contains_without ..
    refine ⟨⟨h.filing, h.tidy, h.unique, ?_, h.distinct, h.settled, ?_⟩, rfl, .refl _⟩
    · intro other hother
      have hother' := (hopen other).symm.trans hother
      rw [Bool.and_eq_true] at hother'
      exact h.indexed hother'.1
    · intro other hpending hother
      have hother' := (hopen other).symm.trans hother
      rw [Bool.and_eq_true, Bool.not_eq_true'] at hother'
      rw [diagnostics_withdraw, hother'.2]
      exact h.published hpending hother'.1
  · exact h.follows_self

/-- Moving a file is deleting it and indexing its declarations under the new path. -/
theorem rename_eq (source target : SourcePath) (hsource : workspace.source? source = some file) :
    rename source target workspace = (do
      let _ ← delete source
      let id ← replace { file with path := target }
      if workspace.isOpen source then
        modify (fun workspace => workspace.markOpen target)
      return id : Edit NodeId) workspace := by
  simp only [rename, hsource, bind, EStateM.bind, delete_eq]
  rcases removeFile source { workspace with sources := workspace.sources.erase source } with
    ⟨_, _⟩ | ⟨_, _⟩ <;> rfl

/-- What a request that succeeds makes of a workspace. -/
inductive Performed (workspace : Workspace) : Request → Workspace → Prop where
  | openFile {file : FileDecl} {index : Index}
      (hedited : Index.Edited workspace.index index file.path)
      (hfiling : index.outline.Filing (workspace.replaced file index).source?) :
      Performed workspace (.openFile file) ((workspace.replaced file index).markOpen file.path)
  | change {file : FileDecl} {index : Index}
      (hedited : Index.Edited workspace.index index file.path)
      (hfiling : index.outline.Filing (workspace.replaced file index).source?) :
      Performed workspace (.change file) (workspace.replaced file index)
  | rename {source target : SourcePath} {file : FileDecl} {middle index : Index}
      (hsource : workspace.source? source = some file)
      (hremoved : Index.Edited workspace.index middle source)
      (hmiddle : middle.outline.Filing (workspace.deleted source middle).source?)
      (hedited : Index.Edited middle index target)
      (hfiling : index.outline.Filing
        ((workspace.deleted source middle).replaced { file with path := target } index).source?) :
      Performed workspace (.rename source target)
        (if workspace.isOpen source then
          ((workspace.deleted source middle).replaced { file with path := target } index).markOpen target
        else (workspace.deleted source middle).replaced { file with path := target } index)
  | delete {path : SourcePath} {index : Index} (hedited : Index.Edited workspace.index index path)
      (hfiling : index.outline.Filing (workspace.deleted path index).source?) :
      Performed workspace (.delete path) (workspace.deleted path index)
  | close {path : SourcePath} : Performed workspace (.close path) (workspace.close path).2

/-- What a request that succeeds does. -/
theorem Sound.performed (h : workspace.Sound) {request : Request}
    (hperform : perform? workspace request = some after) : Performed workspace request after := by
  cases request with
  | openFile file =>
      rcases h.replace_cases file with ⟨_, _, index, hok, hedited, hfiling⟩ | ⟨_, _, _, hfail⟩
      · simp only [perform?, success?, openFile, bind, EStateM.bind, hok] at hperform
        cases hperform
        exact .openFile hedited hfiling
      · simp only [perform?, success?, openFile, bind, EStateM.bind, hfail] at hperform
        cases hperform
  | change file =>
      rcases h.replace_cases file with ⟨_, _, index, hok, hedited, hfiling⟩ | ⟨_, _, _, hfail⟩
      · simp only [perform?, success?, change, hok] at hperform
        cases hperform
        exact .change hedited hfiling
      · simp only [perform?, success?, change, hfail] at hperform
        cases hperform
  | rename source target =>
      rcases hsource : workspace.source? source with _ | file
      · simp [perform?, success?, rename, hsource] at hperform
      · obtain ⟨_, middle, hdelete, hremoved, hmiddle⟩ := h.exists_delete source
        have hdeleted := (h.follows_deleted hremoved hmiddle).sound
        simp only [perform?, success?, rename_eq source target hsource, bind, EStateM.bind,
          hdelete] at hperform
        rcases hdeleted.replace_cases { file with path := target } with
          ⟨_, _, index, hok, hedited, hfiling⟩ | ⟨_, _, _, hfail⟩
        · have hafter : (if workspace.isOpen source then
              ((workspace.deleted source middle).replaced { file with path := target } index).markOpen
                target
              else (workspace.deleted source middle).replaced { file with path := target } index) =
                after := by
            simp only [hok] at hperform
            cases hopen : workspace.isOpen source <;> rw [hopen] at hperform <;>
              exact Option.some.inj hperform
          rw [← hafter]
          exact .rename hsource hremoved hmiddle hedited hfiling
        · simp only [hfail] at hperform
          cases hperform
  | delete path =>
      obtain ⟨_, index, hdelete, hedited, hfiling⟩ := h.exists_delete path
      simp only [perform?, success?, hdelete] at hperform
      cases hperform
      exact .delete hedited hfiling
  | close path =>
      cases hperform
      exact .close

/-- A request that succeeds keeps a workspace sound. -/
theorem Sound.perform (h : workspace.Sound) {request : Request}
    (hperform : perform? workspace request = some after) : Follows workspace after := by
  have hopen : ∀ {workspace : Workspace} {file : FileDecl} {index : Index},
      (workspace.replaced file index).Sound →
      Follows (workspace.replaced file index) ((workspace.replaced file index).markOpen file.path) := by
    intro workspace file index h
    have hsource : (workspace.replaced file index).source? file.path = some file := by
      rw [source?_replaced, if_pos (BEq.refl _)]
    exact h.follows_mark_open hsource (by simp [replaced, contains_append_new])
  cases h.performed hperform with
  | openFile hedited hfiling =>
      have hfollows := h.follows_replaced hedited hfiling
      exact hfollows.trans (hopen hfollows.sound)
  | change hedited hfiling => exact h.follows_replaced hedited hfiling
  | rename hsource hremoved hmiddle hedited hfiling =>
      next source target file middle index =>
      have hdeleted := h.follows_deleted hremoved hmiddle
      have hfollows := hdeleted.trans (@Sound.follows_replaced _ { file with path := target }
        hdeleted.sound index hedited hfiling)
      split
      · exact hfollows.trans (hopen hfollows.sound)
      · exact hfollows
  | delete hedited hfiling => exact h.follows_deleted hedited hfiling
  | close => exact h.follows_close _

/-- Requests that all succeed keep a workspace sound. -/
theorem Sound.perform_all (h : workspace.Sound) {requests : List Request}
    (hperform : performAll? workspace requests = some after) : Follows workspace after := by
  induction requests generalizing workspace with
  | nil =>
      cases hperform
      exact h.follows_self
  | cons request rest ih =>
      obtain ⟨middle, hfirst, hrest⟩ := Option.bind_eq_some_iff.1 hperform
      have hfollows := h.perform hfirst
      exact hfollows.trans (ih hfollows.sound hrest)

/-! ## Bounds in sources -/

/-- No owner of type parameters in a source has bounds that lead back. -/
def AcyclicSources (workspace : Workspace) : Prop :=
  ∀ path decl, workspace.source? path = some decl → decl.AcyclicBounds

theorem Sound.acyclic_bounds (h : workspace.Sound) (hacyclic : workspace.AcyclicSources) :
    workspace.index.outline.AcyclicBounds (fun _ => none) :=
  h.filing.acyclic_bounds hacyclic

/-- Bounds do not lead back in the sources after a request if they do not in the sources before
it and in the declarations that come with it. -/
theorem AcyclicSources.perform (hsources : workspace.AcyclicSources) (h : workspace.Sound)
    {request : Request} (hrequest : request.AcyclicBounds)
    (hperform : perform? workspace request = some after) : after.AcyclicSources := by
  have hreplaced : ∀ {workspace : Workspace} {file : FileDecl} {index : Index},
      workspace.AcyclicSources → file.AcyclicBounds → (workspace.replaced file index).AcyclicSources := by
    intro workspace file index hsources hfile path decl hsource
    rw [source?_replaced] at hsource
    split at hsource
    · rw [← Option.some.inj hsource]
      exact hfile
    · exact hsources _ _ hsource
  have hdeleted : ∀ {path index}, (workspace.deleted path index).AcyclicSources := by
    intro path index other decl hsource
    rw [source?_deleted] at hsource
    split at hsource
    · cases hsource
    · exact hsources _ _ hsource
  cases h.performed hperform with
  | openFile hedited hfiling =>
      next file index => exact @hreplaced workspace file index hsources hrequest
  | change => exact hreplaced hsources hrequest
  | rename hsource hremoved hmiddle hedited hfiling =>
      next source target file middle index =>
      have hold := hsources _ _ hsource
      have hmoved : FileDecl.AcyclicBounds { file with path := target } := hold
      split
      · exact @hreplaced _ { file with path := target } index hdeleted hmoved
      · exact hreplaced hdeleted hmoved
  | delete => exact hdeleted
  | close =>
      unfold Workspace.close
      split <;> exact hsources

theorem AcyclicSources.perform_all (hsources : workspace.AcyclicSources) (h : workspace.Sound)
    {requests : List Request} (hrequests : ∀ request ∈ requests, request.AcyclicBounds)
    (hperform : performAll? workspace requests = some after) : after.AcyclicSources := by
  induction requests generalizing workspace with
  | nil =>
      cases hperform
      exact hsources
  | cons request rest ih =>
      obtain ⟨middle, hfirst, hrest⟩ := Option.bind_eq_some_iff.1 hperform
      exact ih (hsources.perform h (hrequests request (List.mem_cons_self ..)) hfirst)
        (h.perform hfirst).sound (fun other hother => hrequests other (List.mem_cons_of_mem _ hother))
        hrest

end Workspace

end CanonicalNames
