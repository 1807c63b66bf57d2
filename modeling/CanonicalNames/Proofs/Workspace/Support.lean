import CanonicalNames.Proofs.Index.Support
import CanonicalNames.Proofs.Workspace.Refresh

/-!
# Answers that rest on nothing

A session is a list of actions: requests of the editor, each carried out as far as it goes,
and refreshes. Requests change the index by removing files and inserting them, so what these
two keep holds throughout a session (`KeptByFiles.after_session`); one such fact is that every
resolved reference is supported or named by a notification. A refresh takes the notifications
and releases whatever they name; so after a refresh every resolved reference is supported
(`refresh_supports`): a class lies in the file that the reference is subscribed to, a
dependency is still absent, and a type parameter's subscription is still there.
-/

namespace CanonicalNames

namespace Index

/-- A notification is no longer needed once the reference that it names is released, or if it
names none that exists. -/
theorem Guarded.invalidate_notified (stale : List SourcePath) (notifications : List Notification)
    (index : Index) (h : Guarded { index with outbox := notifications }) (hempty : index.outbox = []) :
    Guarded (invalidateNotified stale notifications index).2 ∧
      (invalidateNotified stale notifications index).2.outbox = [] := by
  induction notifications generalizing stale index with
  | nil =>
      obtain ⟨outline, standings, subscriptions, outbox, listeners⟩ := index
      obtain rfl : outbox = [] := hempty
      exact ⟨h, rfl⟩
  | cons notification rest ih =>
      -- Nobody who exists needs a notification for somebody else.
      have hskip : (∀ ref, notification.subscriber = .reference ref → index.outline.use? ref = none) →
          Guarded { index with outbox := rest } := by
        intro hnobody
        refine ⟨h.well, h.housed, h.agrees, h.loose, fun ref canonical origin huse hstatus => ?_⟩
        refine (h.supported ref canonical origin huse hstatus).imp_right ?_
        rintro ⟨found, hmem, hself⟩
        rcases List.mem_cons.1 hmem with rfl | hmem
        · rw [show index.outline.use? ref = none from hnobody ref hself] at huse
          cases huse
        · exact ⟨found, hmem, hself⟩
      unfold invalidateNotified
      rcases hsubscriber : notification.subscriber with ref | number
      · dsimp only [invalidate]
        rcases huse : index.outline.use? ref with _ | use
        · refine ih stale index (hskip ?_) hempty
          rintro other hother
          rw [hsubscriber] at hother
          obtain rfl := Subscriber.reference.inj hother
          exact huse
        · refine ih _ (index.release ref) ?_ hempty
          have hblank : Standings.of (index.release ref).standings ref = {} :=
            (standing_release index ref ref).trans (if_pos rfl)
          refine h.change ref rfl (h.agrees.release ref) ?_ ?_ ?_ ?_
          · exact fun other hne => (standing_release index ref other).trans (if_neg hne)
          · rintro other hne ⟨found, hmem, hself⟩
            rcases List.mem_cons.1 hmem with rfl | hmem
            · rw [hsubscriber] at hself
              exact absurd (Subscriber.reference.inj hself).symm hne
            · exact ⟨found, hmem, hself⟩
          · exact fun _ => congrArg Standing.subscription hblank
          · intro canonical origin hstatus
            change (Standings.of (index.release ref).standings ref).status = _ at hstatus
            rw [hblank] at hstatus
            cases hstatus
      · refine ih stale index (hskip ?_) hempty
        rw [hsubscriber]
        exact fun _ hother => by cases hother

end Index

namespace Workspace

open Index (Guarded)

variable {α β : Type}

/-! ## Sessions -/

/-- The state in which an edit leaves a workspace, whether it succeeds or fails. -/
def reached (edit : Edit α) (workspace : Workspace) : Workspace :=
  match edit workspace with
  | .ok _ after => after
  | .error _ after => after

/-- The workspace after a request, whether it succeeds or fails. -/
def carryOut (workspace : Workspace) : Request → Workspace
  | .openFile file => reached (openFile file) workspace
  | .change file => reached (change file) workspace
  | .rename source target => reached (rename source target) workspace
  | .delete path => reached (delete path) workspace
  | .close path => (workspace.close path).2

/-- What happens in a session. -/
inductive Action where
  | request (request : Request)
  | refresh

/-- The workspace after an action. -/
def Action.run (workspace : Workspace) : Action → Workspace
  | .request asked => workspace.carryOut asked
  | .refresh => workspace.refresh.2

/-- The workspace after the actions of a session. -/
def afterSession (settings : Settings) (actions : List Action) : Workspace :=
  actions.foldl Action.run { settings }

/-! ## Requests -/

/-- An edit that keeps what holds of the index, whether it succeeds or fails. -/
def Keeps (Holds : Index → Prop) (edit : Edit α) : Prop :=
  ∀ workspace : Workspace, Holds workspace.index → Holds (reached edit workspace).index

/-- Removing a file and inserting one keep what holds of the index, whether they succeed or
fail. -/
structure KeptByFiles (Holds : Index → Prop) : Prop where
  remove_file : ∀ {index after : Index} {path : SourcePath} {leaving : Option (List NodeId)},
    Holds index → index.removeFile path = .ok (leaving, after) → Holds after
  insert_file : ∀ {index : Index}, Holds index → ∀ file : FileDecl,
    Holds (Index.reached (Index.insertFile file) index)

section Keeps

variable {Holds : Index → Prop}

theorem Keeps.pure (value : α) : Keeps Holds (Pure.pure value) :=
  fun _ h => h

theorem Keeps.bind {edit : Edit α} {next : α → Edit β} (h : Keeps Holds edit)
    (hnext : ∀ value, Keeps Holds (next value)) : Keeps Holds (edit >>= next) := by
  intro workspace hholds
  have hedit := h workspace hholds
  simp only [reached, Bind.bind, EStateM.bind] at hedit ⊢
  rcases hrun : edit workspace with ⟨value, after⟩ | ⟨error, after⟩
  · rw [hrun] at hedit
    exact hnext value after hedit
  · rw [hrun] at hedit
    exact hedit

/-- Changes around the index do no harm. -/
theorem Keeps.and_modify {edit : Edit α} (h : Keeps Holds edit) (change : Workspace → Workspace)
    (hchange : ∀ workspace, (change workspace).index = workspace.index) (value : α → β) :
    Keeps Holds (do
      let result ← edit
      modify change
      return value result) := by
  refine h.bind (fun result workspace hholds => ?_)
  show Holds (change workspace).index
  rw [hchange]
  exact hholds

namespace KeptByFiles

theorem keeps_remove_file (h : KeptByFiles Holds) (path : SourcePath) :
    Keeps Holds (removeFile path) := by
  intro workspace hholds
  simp only [reached, removeFile]
  rcases hrun : workspace.index.removeFile path with error | ⟨leaving, index⟩
  · exact hholds
  · exact h.remove_file hholds hrun

theorem keeps_insert_file (h : KeptByFiles Holds) (file : FileDecl) :
    Keeps Holds (insertFile file) := by
  intro workspace hholds
  have hinsert := h.insert_file hholds file
  simp only [reached, insertFile, Index.reached] at hinsert ⊢
  rcases hrun : Index.insertFile file workspace.index with ⟨id, index⟩ | ⟨error, index⟩ <;>
    rw [hrun] at hinsert <;> exact hinsert

theorem keeps_replace (h : KeptByFiles Holds) (file : FileDecl) : Keeps Holds (replace file) :=
  (h.keeps_remove_file file.path).bind (fun _ =>
    (h.keeps_insert_file file).and_modify _ (by exact fun _ => rfl) id)

theorem keeps_delete (h : KeptByFiles Holds) (path : SourcePath) : Keeps Holds (delete path) := by
  intro workspace hholds
  have hkeeps : Keeps Holds (do
      let wasIndexed ← removeFile path
      modify (fun workspace => workspace.forget path)
      return workspace.sources.contains path || wasIndexed : Edit Bool) :=
    (h.keeps_remove_file path).and_modify _ (by exact fun _ => rfl) _
  rw [reached, delete_eq]
  exact hkeeps _ hholds

theorem keeps_rename (h : KeptByFiles Holds) (source target : SourcePath) :
    Keeps Holds (rename source target) := by
  intro workspace hholds
  rcases hsource : workspace.source? source with _ | file
  · simp only [reached, rename, hsource]
    exact hholds
  · rw [reached, rename_eq source target hsource]
    refine ((h.keeps_delete source).bind (fun _ => ?_)) workspace hholds
    split
    · exact (h.keeps_replace _).and_modify _ (by exact fun _ => rfl) id
    · exact (h.keeps_replace _).bind Keeps.pure

theorem carry_out (h : KeptByFiles Holds) {workspace : Workspace} (hholds : Holds workspace.index)
    (request : Request) : Holds (workspace.carryOut request).index := by
  cases request with
  | openFile file =>
      have hkeeps : Keeps Holds (openFile file) :=
        (h.keeps_replace file).and_modify _ (by exact fun _ => rfl) id
      exact hkeeps workspace hholds
  | change file => exact h.keeps_replace file workspace hholds
  | rename source target => exact h.keeps_rename source target workspace hholds
  | delete path => exact h.keeps_delete path workspace hholds
  | close path =>
      simp only [carryOut, close]
      split <;> exact hholds

/-- What files and refreshes keep holds throughout a session, requests that fail included. -/
theorem after_session (h : KeptByFiles Holds)
    (hrefresh : ∀ workspace : Workspace, Holds workspace.index → Holds workspace.refresh.2.index)
    (hempty : Holds {}) (settings : Settings) (actions : List Action) :
    Holds (afterSession settings actions).index := by
  suffices hrun : ∀ workspace : Workspace, Holds workspace.index →
      Holds (actions.foldl Action.run workspace).index from hrun _ hempty
  induction actions with
  | nil => exact fun _ hholds => hholds
  | cons action rest ih =>
      intro workspace hholds
      refine ih _ ?_
      cases action with
      | request request => exact h.carry_out hholds request
      | refresh => exact hrefresh workspace hholds

end KeptByFiles

end Keeps

theorem guarded_kept_by_files : KeptByFiles Guarded :=
  ⟨fun h hremove => h.remove_file hremove, Guarded.insert_file⟩

/-! ## Refreshing -/

/-- A refresh takes every notification and keeps resolved references supported. -/
theorem guarded_refresh {workspace : Workspace} (h : workspace.index.Guarded) :
    workspace.refresh.2.index.Guarded ∧ workspace.refresh.2.index.outbox = [] := by
  have htaken : workspace.taken.index.Guarded ∧ workspace.taken.index.outbox = [] := by
    rw [index_taken]
    exact Guarded.invalidate_notified [] workspace.index.outbox { workspace.index with outbox := [] }
      h rfl
  rw [index_refresh]
  exact ⟨(Index.guarded_invariant _ htaken.2).resolve_methods _ htaken.1, htaken.2⟩

theorem guarded_after_session (settings : Settings) (actions : List Action) :
    (afterSession settings actions).index.Guarded :=
  guarded_kept_by_files.after_session (fun _ h => (guarded_refresh h).1) Index.guarded_empty settings
    actions

/-- Whatever happened in a session, requests that failed included, after a refresh no resolved
reference rests on anything that is gone: a declared name is the path of a class in the file that
the reference is subscribed to, a dependency is absent and the reference listens to the root,
and a name taken from a type parameter is subscribed to a node that is present. -/
theorem refresh_supports (settings : Settings) (actions : List Action) (ref : RefId)
    (canonical : String) (origin : Origin) :
    let index := (afterSession settings actions).refresh.2.index
    (index.outline.use? ref).isSome = true →
    (index.standing ref).status = .resolved canonical origin →
    (origin = .declared → ∃ file id, (index.standing ref).subscription = some file ∧
      index.outline.isFile file = true ∧ index.outline.fileOf? id = some file ∧
      index.outline.kind? id = some .classDecl ∧ index.outline.path? id = some canonical) ∧
    (origin = .dependency → (index.standing ref).subscription = some Outline.rootId ∧
      index.outline.lookupType? canonical = none) ∧
    (origin = .typeParameter → ∃ node, (index.standing ref).subscription = some node ∧
      index.outline.contains node = true) := by
  intro index huse hstatus
  obtain ⟨hguarded, hempty⟩ := guarded_refresh (guarded_after_session settings actions)
  have hsupports := (hguarded.supported ref canonical origin huse hstatus).resolve_right (by
    rintro ⟨notification, hmem, -⟩
    rw [hempty] at hmem
    cases hmem)
  refine ⟨?_, ?_, ?_⟩
  · rintro rfl
    obtain ⟨file, id, hheld, hfile, hkind, hpath⟩ := hsupports
    exact ⟨file, id, hheld, beq_iff_eq.2 (Outline.kind?_of_file_of? hfile), hfile, hkind, hpath⟩
  · rintro rfl
    exact hsupports
  · rintro rfl
    exact hsupports

/-- A method returns a type parameter bounded by a class that moves to another file, and another
method returns an imported type; in between a file is indexed that has a class without a name. -/
def movedSession : List Action :=
  [.request (.openFile
    { path := ⟨"p/A.java"⟩
      package := "p"
      imports := ["x.Dep"]
      classes :=
        [{ name := "A"
           methods :=
             [{ name := "m", returnType := .text "T", typeParams := [{ name := "T", bounds := [.text "B"] }] },
              { name := "n", returnType := .text "Dep" }] }] }),
   .request (.openFile { path := ⟨"p/B.java"⟩, package := "p", classes := [{ name := "B" }] }),
   .refresh,
   .request (.change
    { path := ⟨"p/C.java"⟩, package := "p", classes := [{ name := "C" }, { name := "" }] }),
   .request (.rename ⟨"p/B.java"⟩ ⟨"p/moved/B.java"⟩)]

theorem moved_session_supports :
    let index := (afterSession {} movedSession).refresh.2.index
    ((index.standing ⟨5, .bound 0⟩).status = .resolved "p.B" .declared ∧
      ∃ file id, (index.standing ⟨5, .bound 0⟩).subscription = some file ∧
        index.outline.isFile file = true ∧ index.outline.fileOf? id = some file ∧
        index.outline.kind? id = some .classDecl ∧ index.outline.path? id = some "p.B") ∧
    ((index.standing (.returnType 6)).status = .resolved "x.Dep" .dependency ∧
      (index.standing (.returnType 6)).subscription = some Outline.rootId ∧
      index.outline.lookupType? "x.Dep" = none) ∧
    ((index.standing (.returnType 4)).status = .resolved "p.B" .typeParameter ∧
      ∃ node, (index.standing (.returnType 4)).subscription = some node ∧
        index.outline.contains node = true) := by
  intro index
  have hbound : (index.outline.use? ⟨5, .bound 0⟩).isSome = true ∧
      (index.standing ⟨5, .bound 0⟩).status = .resolved "p.B" .declared := by decide +kernel
  have himport : (index.outline.use? (.returnType 6)).isSome = true ∧
      (index.standing (.returnType 6)).status = .resolved "x.Dep" .dependency := by decide +kernel
  have hparam : (index.outline.use? (.returnType 4)).isSome = true ∧
      (index.standing (.returnType 4)).status = .resolved "p.B" .typeParameter := by decide +kernel
  have hdeclared := refresh_supports {} movedSession _ _ _ hbound.1 hbound.2
  have hdependency := refresh_supports {} movedSession _ _ _ himport.1 himport.2
  have htypeParameter := refresh_supports {} movedSession _ _ _ hparam.1 hparam.2
  exact ⟨⟨hbound.2, hdeclared.1 rfl⟩, ⟨himport.2, hdependency.2.1 rfl⟩,
    ⟨hparam.2, htypeParameter.2.2 rfl⟩⟩

end Workspace

end CanonicalNames
