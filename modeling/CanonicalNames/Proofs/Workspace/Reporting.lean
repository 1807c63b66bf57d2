import Mathlib.Data.List.DropRight
import CanonicalNames.Proofs.SourcePath
import CanonicalNames.Proofs.Workspace.Moving

/-!
# Changes that a refresh reports

A refresh answers with the files whose published diagnostics have changed since the refresh
before. It compares what it publishes with what was published when it began, and it does not see
what was withdrawn by then: a file that was closed, moved or deleted may have been published
again, or not, and is listed as withdrawn for that reason. `Noted before after` says that between
two workspaces nothing was withdrawn without being listed, and every request keeps it, also one
that fails. A refresh reports exactly the files that are listed and those for which it publishes
something else than was published (`contains_fst_refresh`); `refresh_reports_changes` puts the two
together.

Diagnostics are compared up to the spelling of paths: `announced` is what is published for a file
without it.
-/

namespace CanonicalNames.Workspace

variable {before middle after workspace : Workspace}

/-! ## Publishing -/

/-- What is published for a file, by what diagnostics are compared by. -/
def announced (workspace : Workspace) (path : SourcePath) :
    Option (List (List Component × String × String × Severity × String)) :=
  (workspace.published.find? path).map (List.map Diagnostic.key)

/-- What is to be published for a file, by what diagnostics are compared by. -/
def announceable (workspace : Workspace) (path : SourcePath) :
    List (List Component × String × String × Severity × String) :=
  (workspace.currentDiagnostics path).map Diagnostic.key

theorem beq_published_iff {left right : Option (List Diagnostic)} :
    (left == right) = true ↔
      left.map (List.map Diagnostic.key) = right.map (List.map Diagnostic.key) := by
  cases left <;> cases right <;> simp [Diagnostic.list_beq_iff_map_key_eq]

theorem announced_congr (workspace : Workspace) {path other : SourcePath}
    (h : (path == other) = true) : workspace.announced path = workspace.announced other := by
  rw [announced, announced, Table.find?_congr _ h]

theorem map_key_diagnostics (workspace : Workspace) (path : SourcePath) :
    (workspace.diagnostics path).map Diagnostic.key = (workspace.announced path).getD [] := by
  unfold diagnostics announced
  cases workspace.published.find? path <;> rfl

/-- Publishing the diagnostics of an open file announces what there is to announce, and says
whether this differs from what was announced. -/
theorem publish_cases (workspace : Workspace) (first : SourcePath) :
    (workspace.isOpen first = false ∧ workspace.publish first = (false, workspace)) ∨
    (workspace.isOpen first = true ∧ ∃ published,
      (workspace.publish first).2 = { workspace with published } ∧
      ((workspace.publish first).1 = true ↔
        workspace.announced first ≠ some (workspace.announceable first)) ∧
      ∀ path, ({ workspace with published } : Workspace).announced path =
        if first == path then some (workspace.announceable path) else workspace.announced path) := by
  cases hopen : workspace.isOpen first with
  | false => exact Or.inl ⟨rfl, by simp [publish, hopen]⟩
  | true =>
      have hpublish : workspace.publish first =
          (workspace.published.find? first != some (workspace.currentDiagnostics first),
            { workspace with
              published := workspace.published.insert first (workspace.currentDiagnostics first) }) := by
        simp [publish, hopen]
      rw [hpublish]
      refine Or.inr ⟨rfl, _, rfl, ?_, fun path => ?_⟩
      · rw [bne, Bool.not_eq_true', ← Bool.not_eq_true, beq_published_iff]
        exact Iff.rfl
      · simp only [announced, Table.find?_insert]
        cases hpath : first == path with
        | true => exact congrArg some (workspace.map_key_current_diagnostics hpath)
        | false => rfl

/-- Publishing announces what there is to announce for the open files of a list. -/
theorem announced_publish_all (paths : List SourcePath) (workspace : Workspace)
    (path : SourcePath) : (publishAll paths workspace).2.announced path =
      if workspace.isOpen path && paths.contains path then some (workspace.announceable path)
      else workspace.announced path := by
  induction paths generalizing workspace with
  | nil => simp [publishAll]
  | cons first rest ih =>
      rw [publishAll, ih]
      rcases workspace.publish_cases first with
        ⟨hclosed, hpublish⟩ | ⟨hopen, published, hpublish, -, hannounced⟩
      · rw [hpublish, List.contains_cons]
        cases hpath : path == first with
        | true =>
            have hsame : workspace.isOpen path = false := (List.contains_congr hpath).trans hclosed
            simp [hsame]
        | false => simp
      · have hsame : ∀ path, (workspace.publish first).2.isOpen path = workspace.isOpen path ∧
            (workspace.publish first).2.announceable path = workspace.announceable path := by
          intro path
          rw [hpublish]
          exact ⟨rfl, rfl⟩
        rw [(hsame path).1, (hsame path).2, hpublish, hannounced, List.contains_cons,
          @BEq.comm _ _ _ path first]
        cases hpath : first == path with
        | true =>
            have hother : workspace.isOpen path = true := (List.contains_congr hpath).symm.trans hopen
            simp [hother]
        | false => simp

/-- Of a list of files those are reported for which something else is announced afterwards. -/
theorem contains_publish_all (paths : List SourcePath) (workspace : Workspace)
    (path : SourcePath) : (publishAll paths workspace).1.contains path = true ↔
      (publishAll paths workspace).2.announced path ≠ workspace.announced path := by
  induction paths generalizing workspace with
  | nil => simp [publishAll]
  | cons first rest ih =>
      have hrest := ih (workspace.publish first).2
      have hlast := announced_publish_all rest (workspace.publish first).2 path
      have hlist : (publishAll (first :: rest) workspace).1.contains path = true ↔
          ((workspace.publish first).1 = true ∧ (first == path) = true) ∨
            (publishAll rest (workspace.publish first).2).1.contains path = true := by
        cases hfirst : (workspace.publish first).1 <;>
          simp [publishAll, hfirst, @BEq.comm _ _ _ path first]
      rw [hlist]
      show _ ↔ (publishAll rest (workspace.publish first).2).2.announced path ≠ _
      rcases workspace.publish_cases first with
        ⟨-, hpublish⟩ | ⟨hopen, published, hpublish, hchanged, hannounced⟩
      · rw [hpublish] at hrest ⊢
        simpa using hrest
      · cases hpath : first == path with
        | true =>
            -- Whatever follows announces the same for this file again.
            have hsame : (workspace.publish first).2.announced path =
                some (workspace.announceable path) := by
              rw [hpublish, hannounced, hpath, if_pos rfl]
            have hagain : (workspace.publish first).2.announceable path =
                workspace.announceable path := by
              rw [hpublish]
              rfl
            have hfinal : (publishAll rest (workspace.publish first).2).2.announced path =
                some (workspace.announceable path) := by
              rw [hlast, hsame, hagain]
              split <;> rfl
            have hkeys : workspace.announceable first = workspace.announceable path :=
              workspace.map_key_current_diagnostics hpath
            rw [hrest, hfinal, hsame, hchanged, workspace.announced_congr hpath, hkeys]
            simp [eq_comm]
        | false =>
            have hsame : (workspace.publish first).2.announced path = workspace.announced path := by
              rw [hpublish, hannounced, hpath, if_neg Bool.false_ne_true]
            rw [hrest, hsame]
            simp

/-! ## Refreshing -/

/-- A refresh reports the files that are listed as withdrawn, and those for which it announces
something else than was announced. -/
theorem contains_fst_refresh (workspace : Workspace) (path : SourcePath) :
    workspace.refresh.1.contains path = true ↔ workspace.withdrawn.contains path = true ∨
      workspace.refresh.2.announced path ≠ workspace.announced path := by
  obtain ⟨index, pending, hasGrown, htaken, -⟩ := workspace.exists_taken
  let start := workspace.taken.pending.foldl resolveFile
    { workspace.taken with pending := [], withdrawn := [] }
  have hrefresh : workspace.refresh =
      (SourcePath.sorted (workspace.taken.withdrawn ++ (publishAll workspace.taken.pending start).1),
        (publishAll workspace.taken.pending start).2) := rfl
  have hstart : start.announced path = workspace.announced path := by
    simp only [start, foldl_resolve_file_eq, htaken]
    rfl
  have hwithdrawn : workspace.taken.withdrawn = workspace.withdrawn := by rw [htaken]
  rw [hrefresh, SourcePath.contains_sorted, List.contains_append, Bool.or_eq_true,
    contains_publish_all, hstart, hwithdrawn]

/-! ## Requests -/

/-- Between two workspaces nothing was published, and what was withdrawn is listed. -/
structure Noted (before after : Workspace) : Prop where
  kept : ∀ path, before.withdrawn.contains path = true → after.withdrawn.contains path = true
  noted : ∀ path, after.diagnostics path = before.diagnostics path ∨
    after.withdrawn.contains path = true

theorem Noted.of_eq (hpublished : after.published = before.published)
    (hwithdrawn : after.withdrawn = before.withdrawn) : Noted before after := by
  refine ⟨fun path hpath => by rw [hwithdrawn, hpath], fun path => Or.inl ?_⟩
  rw [diagnostics, diagnostics, hpublished]

theorem Noted.trans (h : Noted before middle) (k : Noted middle after) : Noted before after := by
  refine ⟨fun path hpath => k.kept path (h.kept path hpath), fun path => ?_⟩
  rcases h.noted path with hsame | hlisted
  · rw [← hsame]
    exact k.noted path
  · exact Or.inr (k.kept path hlisted)

/-- Diagnostics that are withdrawn are listed, unless there were none. -/
theorem noted_withdraw (workspace : Workspace) (path : SourcePath) :
    Noted workspace (workspace.withdraw path) := by
  have hlisted : ∀ other, (workspace.withdraw path).withdrawn.contains other =
      (workspace.withdrawn.contains other ||
        (!(workspace.diagnostics path).isEmpty && path == other)) := by
    intro other
    unfold withdraw
    cases (workspace.diagnostics path).isEmpty with
    | true => simp
    | false => simp [contains_append_new]
  refine ⟨fun other hother => by rw [hlisted, hother, Bool.true_or], fun other => ?_⟩
  rw [diagnostics_withdraw, hlisted]
  cases hpath : path == other with
  | false => exact Or.inl rfl
  | true =>
      have hsame : workspace.diagnostics other = workspace.diagnostics path := by
        rw [diagnostics, diagnostics, Table.find?_congr _ hpath]
      cases hnone : workspace.diagnostics path with
      | nil => exact Or.inl (by rw [hsame, hnone]; rfl)
      | cons first rest => exact Or.inr (by simp)

theorem noted_deleted (workspace : Workspace) (path : SourcePath) (index : Index) :
    Noted workspace (workspace.deleted path index) :=
  (noted_withdraw workspace path).trans (.of_eq rfl rfl)

/-- A request publishes nothing and lists what it withdraws. -/
theorem Carried.noted {request : Request} (h : Carried workspace request after) :
    Noted workspace after := by
  cases h with
  | openFile => exact .of_eq rfl rfl
  | change => exact .of_eq rfl rfl
  | fail => exact .of_eq rfl rfl
  | rename =>
      next source target file middle index _ =>
      refine (workspace.noted_deleted source middle).trans ?_
      unfold moved
      split <;> exact .of_eq rfl rfl
  | delete => exact workspace.noted_deleted _ _
  | close =>
      next path =>
      unfold Workspace.close
      split
      · exact (workspace.noted_withdraw path).trans (.of_eq rfl rfl)
      · exact .of_eq rfl rfl

/-! ## Sessions -/

/-- Whether an action is a refresh. -/
def Action.isRefresh : Action → Bool
  | .request _ => false
  | .refresh => true

/-- The actions of a session up to its last refresh; none before the first one. -/
def upToRefresh (actions : List Action) : List Action :=
  actions.rdropWhile (fun action => !action.isRefresh)

theorem noted_since_refresh (settings : Settings) (actions : List Action) :
    Noted (afterSession settings (upToRefresh actions)) (afterSession settings actions) := by
  induction actions using List.reverseRecOn with
  | nil => exact .of_eq rfl rfl
  | append_singleton actions action ih =>
      unfold upToRefresh
      cases action with
      | request request =>
          rw [List.rdropWhile_concat_pos _ _ _ rfl, after_session_concat]
          exact ih.trans ((accepted_after_session settings actions).carried
            (grounded_after_session settings actions) request).noted
      | refresh =>
          rw [List.rdropWhile_concat_neg _ _ _ (by simp [Action.isRefresh])]
          exact .of_eq rfl rfl

/-- Whatever happened in a session, requests that failed included, a refresh reports every file
for which other diagnostics are published than after the refresh before, or than none before the
first. The report is in the order of paths and names no file twice. It names a file only if the
file's diagnostics were withdrawn since then, or if the refresh publishes something else for it
than was published. -/
theorem refresh_reports_changes (settings : Settings) (actions : List Action) :
    let session := afterSession settings actions
    let previous := afterSession settings (upToRefresh actions)
    (∀ path, (session.refresh.2.diagnostics path == previous.diagnostics path) = false →
      session.refresh.1.contains path = true) ∧
    session.refresh.1.Pairwise SourcePath.Precedes ∧
    ∀ path, session.refresh.1.contains path = true ↔ session.withdrawn.contains path = true ∨
      (session.refresh.2.published.find? path == session.published.find? path) = false := by
  intro session previous
  refine ⟨fun path hdiffers => ?_, SourcePath.pairwise_sorted _, fun path => ?_⟩
  · rw [contains_fst_refresh]
    by_contra hsilent
    rw [not_or, ne_eq, not_not] at hsilent
    have hsince : session.diagnostics path = previous.diagnostics path :=
      ((noted_since_refresh settings actions).noted path).resolve_right hsilent.1
    rw [← Bool.not_eq_true, Diagnostic.list_beq_iff_map_key_eq, ← hsince, map_key_diagnostics,
      map_key_diagnostics, hsilent.2] at hdiffers
    exact hdiffers rfl
  · rw [contains_fst_refresh, ← Bool.not_eq_true, beq_published_iff]
    exact Iff.rfl

/-- A file with a warning is closed, moved away and deleted, and another one is opened with an
error under its path. -/
def closedFile : List Action :=
  [.request (.openFile
    { path := ⟨"p/A.java"⟩
      package := "p"
      classes := [{ name := "A", methods := [{ name := "m", returnType := .text "B" }] }] }),
   .refresh,
   .request (.close ⟨"p/A.java"⟩),
   .request (.rename ⟨"p//A.java"⟩ ⟨"p/C.java"⟩),
   .request (.delete ⟨"p/C.java"⟩),
   .request (.openFile { path := ⟨"p/A.java"⟩, package := "p", classes := [{ name := "" }] })]

/-- The warning is gone after the refresh, which says so. -/
theorem closed_file_is_reported :
    let session := afterSession {} closedFile
    let previous := afterSession {} (upToRefresh closedFile)
    ((previous.diagnostics ⟨"p/A.java"⟩).length = 1 ∧
      session.refresh.2.diagnostics ⟨"p/A.java"⟩ = []) ∧
    session.refresh.1.contains ⟨"p/A.java"⟩ = true := by
  intro session previous
  have hfacts : ((previous.diagnostics ⟨"p/A.java"⟩).length = 1 ∧
      (session.refresh.2.diagnostics ⟨"p/A.java"⟩).isEmpty = true) ∧
      (session.refresh.2.diagnostics ⟨"p/A.java"⟩ == previous.diagnostics ⟨"p/A.java"⟩) = false := by
    decide +kernel
  exact ⟨⟨hfacts.1.1, List.isEmpty_iff.1 hfacts.1.2⟩,
    (refresh_reports_changes {} closedFile).1 ⟨"p/A.java"⟩ hfacts.2⟩

end CanonicalNames.Workspace
