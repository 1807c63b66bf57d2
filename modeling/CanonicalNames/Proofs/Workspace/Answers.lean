import CanonicalNames.Proofs.Workspace.Refresh

/-!
# What a workspace shows

A workspace shows the return types of a file by their positions, each with its method, the
type as written and its status, and the diagnostics of open files. Diagnostics are read off
the return types. After a refresh a workspace shows each file as resolved from what was
remembered (`Sound.answers_refresh`), and a fresh workspace over the same sources shows each
file as resolved from nothing (`Sound.exists_fresh`). Where bounds do not lead back, what is
resolved from nothing is what references mean (`Sound.status_from_nothing`).
-/

namespace CanonicalNames

/-- A return type: the path of its method, the type as written and its status. -/
structure Answer where
  method : Option String
  use : Option TypeUse
  status : Status
  deriving DecidableEq, Repr

namespace Answer

/-- What is to be said about a return type in a file. -/
def finding? (settings : Settings) (path : SourcePath) (answer : Answer) : Option Diagnostic :=
  match answer.use, answer.method with
  | some use, some method =>
    match answer.status with
    | .resolved canonical .dependency =>
      if settings.reportDependencyImports then
        some (.dependency path method use.name canonical)
      else none
    | .resolved _ _ => none
    | _ => some (.unresolved path method use.name)
  | _, _ => none

end Answer

/-- The status of a return type with a meaning or without one; a type without a name stays
unresolved. -/
def Status.settled (use : Option TypeUse) (meaning : Option Meaning) : Status :=
  match use with
  | some use => if use.name = "" then .unresolved else .ofMeaning meaning
  | none => .unresolved

namespace Outline

/-- The return types of the file with a path, given the status of each. -/
def answersAt (outline : Outline) (status : NodeId → Status) (path : SourcePath) :
    Option (List Answer) :=
  (outline.fileAt? path).map (fun file => (outline.methodsUnder file).map (fun method =>
    { method := outline.path? method, use := outline.use? (.returnType method),
      status := status method }))

/-- The status of a return type that is settled on one of the given meanings. -/
def statusIn (outline : Outline) (meanings : RefId → Option Meaning) (method : NodeId) : Status :=
  .settled (outline.use? (.returnType method)) (meanings (.returnType method))

variable {outline : Outline} {left right : NodeId → Status} {path : SourcePath} {method : NodeId}

theorem answers_at_congr (h : ∀ method ∈ outline.methodsAt path, left method = right method) :
    outline.answersAt left path = outline.answersAt right path := by
  rcases hfile : outline.fileAt? path with _ | file
  · simp only [answersAt, hfile, Option.map_none]
  · simp only [answersAt, hfile, Option.map_some, Option.some.injEq]
    refine List.map_congr_left (fun method hmethod => ?_)
    rw [h method (mem_methods_at_iff.2 ⟨file, hfile, hmethod⟩)]

theorem status_in_of_has_name {meanings : RefId → Option Meaning}
    (h : outline.HasName (.returnType method)) :
    outline.statusIn meanings method = .ofMeaning (meanings (.returnType method)) := by
  obtain ⟨use, huse, hname⟩ := h
  simp only [statusIn, huse, Status.settled, if_neg hname]

theorem status_in_of_not_has_name {meanings : RefId → Option Meaning}
    (h : ¬ outline.HasName (.returnType method)) :
    outline.statusIn meanings method = .unresolved := by
  unfold statusIn Status.settled
  split
  · next use huse =>
      split
      · rfl
      · next hname => exact absurd ⟨use, huse, hname⟩ h
  · rfl

/-- Where bounds do not lead back and nothing but meanings is remembered, a file is resolved to
what its references mean. -/
theorem WellFormed.status_from_eq (hwell : outline.WellFormed) {kept : RefId → Option Meaning}
    (hacyclic : outline.AcyclicBounds kept) (hnamed : outline.SettlesNamed kept) {pass : Pass}
    (hfits : pass.Fits outline kept .live) (hidle : ∀ ref, (pass.standing ref).status ≠ .inProgress)
    (hnameless : ∀ ref, ¬ outline.HasName ref → (pass.standing ref).status = .unresolved)
    (hmethod : method ∈ outline.methodsAt path) :
    outline.statusFrom pass path method = outline.statusIn (outline.meaning kept) method := by
  by_cases hname : outline.HasName (.returnType method)
  · rw [status_in_of_has_name hname]
    exact (hwell.resolve_methods hacyclic hnamed hfits hidle _).2 method hmethod hname
  · have hsame := (outline.resolve_methods_settles .live (outline.methodsAt path) pass).2.1 _ hname
    rw [status_in_of_not_has_name hname, statusFrom, hsame, hnameless _ hname]

/-- A file that is resolved from nothing known is shown the same in two outlines of the same
files. -/
theorem Filing.answers_from_blank {after : Outline} {source? : SourcePath → Option FileDecl}
    (h : outline.Filing source?) (h' : after.Filing source?) {pass seen : Pass}
    (hblank : ∀ ref, (pass.standing ref).status = .unresolved)
    (hblank' : ∀ ref, (seen.standing ref).status = .unresolved) (path : SourcePath) :
    after.answersAt (after.statusFrom seen path) path =
      outline.answersAt (outline.statusFrom pass path) path := by
  have hpresent : ∀ {left right : Outline}, left.Filing source? → right.Filing source? →
      ∀ {file}, left.fileAt? path = some file → right.fileAt? path ≠ none := by
    intro left right h h' file hfile hnone
    obtain ⟨decl, hsource, _⟩ := h.filed hfile
    obtain ⟨_, _, found, hfound⟩ := h'.indexed hsource
    rw [hnone] at hfound
    cases hfound
  rcases hfile : outline.fileAt? path with _ | file
  · rcases hfound : after.fileAt? path with _ | found
    · simp only [answersAt, hfile, hfound, Option.map_none]
    · exact absurd hfile (hpresent h' h hfound)
  · rcases hfound : after.fileAt? path with _ | found
    · exact absurd hfound (hpresent h h' hfile)
    · have hmirror := h.mirror h' hfile hfound
      have hmethods := hmirror.methods_under .top
      have hresolved : Pass.Alike outline after file found
          (outline.resolveMethods .live (outline.methodsAt path) pass).2
          (after.resolveMethods .live (after.methodsAt path) seen).2 := by
        simp only [methodsAt, hfile, hfound, Option.map_some, Option.getD_some]
        exact (hmirror.resolve_under_alike .live (fun ref _ => hblank ref)
          (fun ref _ => hblank' ref)).2.1
      have hsame : List.Forall₂ (· = ·)
          ((outline.methodsUnder file).map (fun method => ({
            method := outline.path? method, use := outline.use? (.returnType method),
            status := outline.statusFrom pass path method } : Answer)))
          ((after.methodsUnder found).map (fun method => {
            method := after.path? method, use := after.use? (.returnType method),
            status := after.statusFrom seen path method })) := by
        rw [List.forall₂_map_left_iff, List.forall₂_map_right_iff]
        refine hmethods.imp (fun method twin htwin => ?_)
        have hstatus : outline.statusFrom pass path method = after.statusFrom seen path twin :=
          hresolved htwin .returnType
        have huse : after.use? (.returnType twin) = outline.use? (.returnType method) :=
          hmirror.use?_eq htwin .returnType
        rw [hstatus, huse, hmirror.path?_eq htwin]
      rw [List.forall₂_eq_eq_eq] at hsame
      simp only [answersAt, hfile, hfound, Option.map_some, hsame]

end Outline

namespace Workspace

variable {workspace after : Workspace} {path : SourcePath} {known : String → Bool}

/-- The return types of a file, in declaration order. -/
def answers (workspace : Workspace) (path : SourcePath) : Option (List Answer) :=
  workspace.index.outline.answersAt
    (fun method => (workspace.index.standing (.returnType method)).status) path

/-- What is to be said about a file is read off its return types. -/
theorem current_diagnostics_eq_findings (workspace : Workspace) (path : SourcePath) :
    workspace.currentDiagnostics path =
      ((workspace.answers path).getD []).filterMap (Answer.finding? workspace.settings path) := by
  unfold currentDiagnostics answers Outline.answersAt
  rcases workspace.index.outline.fileAt? path with _ | file
  · rfl
  · simp only [Option.map_some, Option.getD_some, List.filterMap_map]
    refine List.filterMap_congr (fun method _ => ?_)
    simp only [diagnosticOf?, Index.reference?, Function.comp_apply, Answer.finding?]
    rcases workspace.index.outline.use? (.returnType method) with _ | use
    · rfl
    · rcases workspace.index.outline.path? method with _ | methodPath <;> rfl

/-- A sound workspace shows what its return types are settled on. -/
theorem Sound.answers_eq_answers_at (h : workspace.Sound) {meanings : RefId → Option Meaning}
    (hstatus : ∀ {method}, method ∈ workspace.index.outline.methodsAt path →
      workspace.index.outline.HasName (.returnType method) →
      (workspace.index.standing (.returnType method)).status = .ofMeaning (meanings (.returnType method))) :
    workspace.answers path =
      workspace.index.outline.answersAt (workspace.index.outline.statusIn meanings) path := by
  refine Outline.answers_at_congr (fun method hmethod => ?_)
  by_cases hname : workspace.index.outline.HasName (.returnType method)
  · rw [hstatus hmethod hname, Outline.status_in_of_has_name hname]
  · rw [h.tidy.named _ hname, Outline.status_in_of_not_has_name hname]

/-- Where nothing awaits resolution and what is known is what references mean, a workspace shows
what they mean. -/
theorem Sound.answers_eq (h : workspace.Sound) (hpending : workspace.pending = [])
    (hagrees : workspace.index.AgreesIn known) (path : SourcePath) :
    workspace.answers path = workspace.index.outline.answersAt
      (workspace.index.outline.statusIn (workspace.index.outline.meaningIn known)) path := by
  refine h.answers_eq_answers_at (fun {method} hmethod hname => ?_)
  have hsettled := h.settled (by rw [hpending]; rfl) hmethod hname
  exact (hagrees _ hname).resolve_left hsettled

/-- What is to be said about a file whose return types have the given status. -/
def findings (workspace : Workspace) (status : NodeId → Status) (path : SourcePath) :
    List Diagnostic :=
  ((workspace.index.outline.answersAt status path).getD []).filterMap
    (Answer.finding? workspace.settings path)

/-- Where nothing awaits resolution, open files have published what is to be said about their
return types. -/
theorem Sound.diagnostics_eq_findings (h : workspace.Sound) (hpending : workspace.pending = [])
    (hopen : workspace.isOpen path = true) :
    (workspace.diagnostics path).map Diagnostic.key =
      (((workspace.answers path).getD []).filterMap
        (Answer.finding? workspace.settings path)).map Diagnostic.key := by
  rw [← current_diagnostics_eq_findings, ← Diagnostic.list_beq_iff_map_key_eq]
  exact h.published (by rw [hpending]; rfl) hopen

/-! ## After a refresh -/

/-- What a refresh of a workspace starts from. -/
def remembered (workspace : Workspace) : Pass :=
  workspace.taken.index.pass workspace.taken.health

/-- After a refresh a workspace shows a file as resolved from what was remembered, if the file
awaited resolution wherever an attempt on it had failed. -/
theorem Sound.answers_refresh (h : workspace.Sound)
    (hretried : ∀ method ∈ workspace.index.outline.methodsAt path,
      (workspace.taken.index.standing (.returnType method)).status = .failed →
        workspace.taken.pending.contains path = true) :
    workspace.refresh.2.answers path = workspace.index.outline.answersAt
      (workspace.index.outline.statusFrom workspace.remembered path) path := by
  have htaken := h.follows_taken.sound
  have houtline := workspace.outline_taken
  rw [answers, outline_refresh]
  refine Outline.answers_at_congr (fun method hmethod => ?_)
  rw [standing_refresh]
  cases hpending : workspace.taken.pending.contains path with
  | true =>
      rw [← houtline] at hmethod ⊢
      exact htaken.filing.status_resolve_files htaken.distinct hpending hmethod _
  | false =>
      -- What has a name is neither unresolved nor in progress nor failed.
      have hresolved : ∀ other ∈ workspace.index.outline.methodsAt path,
          workspace.index.outline.HasName (.returnType other) →
          (workspace.remembered.standing (.returnType other)).isResolved = true := by
        intro other hother hname
        have hsettled := htaken.settled hpending (houtline ▸ hother) (houtline ▸ hname)
        change (workspace.taken.index.standing (.returnType other)).isResolved = true
        rcases hstatus : (workspace.taken.index.standing (.returnType other)).status
          with _ | _ | ⟨canonical, origin⟩ | _
        · exact absurd hstatus hsettled
        · exact absurd hstatus (htaken.tidy.idle _)
        · simp [Standing.isResolved, Standing.canonical?, hstatus]
        · rw [hretried other hother hstatus] at hpending
          cases hpending
      rw [(htaken.standing_pass_over (houtline ▸ hmethod)).2 hpending, Outline.statusFrom,
        Outline.resolve_methods_of_resolved hresolved]
      rfl

/-! ## A fresh workspace -/

/-- The request that indexes a file in another workspace and opens it there if it is open in
this one. -/
def request (workspace : Workspace) (file : FileDecl) : Request :=
  if workspace.isOpen file.path then .openFile file else .change file

/-- A file with names for everything is indexed on request. -/
theorem Sound.exists_perform_request {start : Workspace} (h : start.Sound) (workspace : Workspace)
    {file : FileDecl} (hinsertable : file.isInsertable = true) :
    ∃ after, perform? start (workspace.request file) = some after ∧
      (∀ path, after.source? path = if file.path == path then some file else start.source? path) ∧
      ∀ path, after.isOpen path =
        (start.isOpen path || (workspace.isOpen file.path && file.path == path)) := by
  rcases h.replace_cases file with ⟨_, id, index, hok, _⟩ | ⟨hnot, _⟩
  · unfold request
    cases hopen : workspace.isOpen file.path with
    | true =>
        refine ⟨(start.replaced file index).markOpen file.path, ?_, ?_, ?_⟩
        · simp only [if_true, perform?, success?, openFile, bind, EStateM.bind, hok]
          rfl
        · exact fun path => source?_replaced start file index path
        · exact fun path => is_open_mark_open ..
    | false =>
        refine ⟨start.replaced file index, ?_, ?_, ?_⟩
        · simp only [Bool.false_eq_true, if_false, perform?, success?, change, hok]
        · exact fun path => source?_replaced ..
        · intro path
          rw [Bool.false_and, Bool.or_false]
          rfl
  · rw [hinsertable] at hnot
    cases hnot

/-- Files with names for everything are indexed on request one after the other. -/
theorem Sound.exists_perform_requests {start : Workspace} (h : start.Sound) (workspace : Workspace)
    (files : List FileDecl) (hfiles : ∀ file ∈ files, file.isInsertable = true) :
    ∃ after, performAll? start (files.map workspace.request) = some after ∧
      (∀ path, (∃ file ∈ files, (file.path == path) = true ∧ after.source? path = some file) ∨
        (∀ file ∈ files, (file.path == path) = false) ∧ after.source? path = start.source? path) ∧
      ∀ path, after.isOpen path =
        (start.isOpen path || files.any (fun file => workspace.isOpen file.path && file.path == path)) := by
  induction files generalizing start with
  | nil => exact ⟨start, rfl, fun _ => Or.inr ⟨nofun, rfl⟩, fun _ => by simp⟩
  | cons file rest ih =>
      have hinsertable := hfiles file (List.mem_cons_self ..)
      obtain ⟨middle, hfirst, hsource, hopen⟩ := h.exists_perform_request workspace hinsertable
      have hmiddle := (h.perform hfirst).sound
      obtain ⟨after, hrest, hsources, hopens⟩ :=
        ih hmiddle (fun other hother => hfiles other (List.mem_cons_of_mem _ hother))
      refine ⟨after, Option.bind_eq_some_iff.2 ⟨middle, hfirst, hrest⟩, fun path => ?_, fun path => ?_⟩
      · rcases hsources path with ⟨other, hother, hpath, hfound⟩ | ⟨hnone, hsame⟩
        · exact Or.inl ⟨other, List.mem_cons_of_mem _ hother, hpath, hfound⟩
        · rw [hsource] at hsame
          cases hpath : file.path == path with
          | true =>
              rw [hpath, if_pos rfl] at hsame
              exact Or.inl ⟨file, List.mem_cons_self .., hpath, hsame⟩
          | false =>
              rw [hpath, if_neg Bool.false_ne_true] at hsame
              refine Or.inr ⟨fun other hother => ?_, hsame⟩
              rcases List.mem_cons.1 hother with rfl | hother
              · exact hpath
              · exact hnone other hother
      · rw [hopens, hopen, List.any_cons, Bool.or_assoc]

/-- The files that a workspace lists are its sources. -/
theorem Sound.source?_eq_some_iff (h : workspace.Sound) {files : List FileDecl}
    (hfiles : files.Perm (workspace.sources.entries.map Prod.snd)) {file : FileDecl} :
    workspace.source? path = some file ↔ file ∈ files ∧ (file.path == path) = true := by
  have hentry : ∀ entry ∈ workspace.sources.entries, (entry.2.path == entry.1) = true := by
    intro entry hentry
    exact (h.filing.indexed (h.unique.find?_eq_some_iff.2
      ⟨entry, hentry, BEq.refl entry.1, rfl⟩)).2.1
  rw [source?, h.unique.find?_eq_some_iff, hfiles.mem_iff, List.mem_map]
  constructor
  · rintro ⟨entry, hmem, hkey, rfl⟩
    exact ⟨⟨entry, hmem, rfl⟩, PartialEquivBEq.trans (hentry entry hmem) hkey⟩
  · rintro ⟨⟨entry, hmem, rfl⟩, hpath⟩
    exact ⟨entry, hmem, PartialEquivBEq.trans (BEq.symm (hentry entry hmem)) hpath, rfl⟩

/-- The sources of a workspace can be indexed again, in any order, with the same files open. -/
theorem Sound.exists_reindexed (h : workspace.Sound) {files : List FileDecl}
    (hfiles : files.Perm (workspace.sources.entries.map Prod.snd)) :
    ∃ fresh, performAll? { settings := workspace.settings } (files.map workspace.request) = some fresh ∧
      Follows { settings := workspace.settings } fresh ∧ fresh.source? = workspace.source? ∧
      fresh.isOpen = workspace.isOpen := by
  have hlisted : ∀ file ∈ files, file.isInsertable = true := by
    intro file hfile
    have hsource := (h.source?_eq_some_iff hfiles).2 ⟨hfile, BEq.refl file.path⟩
    exact (h.filing.indexed hsource).1
  obtain ⟨fresh, hperform, hsources, hopens⟩ :=
    (sound_start workspace.settings).exists_perform_requests workspace files hlisted
  refine ⟨fresh, hperform, (sound_start _).perform_all hperform, ?_, ?_⟩
  · funext path
    rcases hsources path with ⟨file, hfile, hpath, hfound⟩ | ⟨hnone, hsame⟩
    · rw [hfound, (h.source?_eq_some_iff hfiles).2 ⟨hfile, hpath⟩]
    · have hempty : workspace.source? path = none := by
        rw [Option.eq_none_iff_forall_ne_some]
        intro file hsource
        obtain ⟨hfile, hpath⟩ := (h.source?_eq_some_iff hfiles).1 hsource
        rw [hnone file hfile] at hpath
        cases hpath
      exact hsame.trans hempty.symm
  · funext path
    rw [hopens, Bool.eq_iff_iff, Bool.or_eq_true, List.any_eq_true]
    constructor
    · rintro (hopen | ⟨file, _, hopen⟩)
      · cases hopen
      · rw [Bool.and_eq_true] at hopen
        exact (List.contains_congr hopen.2).symm.trans hopen.1
    · intro hopen
      obtain ⟨file, hsource⟩ := h.indexed hopen
      obtain ⟨hfile, hpath⟩ := (h.source?_eq_some_iff hfiles).1 hsource
      refine Or.inr ⟨file, hfile, ?_⟩
      rw [Bool.and_eq_true]
      exact ⟨(List.contains_congr hpath).trans hopen, hpath⟩

/-- A workspace that was never refreshed shows after a refresh every file as resolved from nothing,
in any outline of the same files. -/
theorem Follows.answers_refresh_from_start {settings : Settings} (h : Follows { settings } workspace)
    {outline : Outline} {source? : SourcePath → Option FileDecl} (hfiling : outline.Filing source?)
    (hfiling' : workspace.index.outline.Filing source?) (path : SourcePath) :
    workspace.refresh.2.answers path = outline.answersAt (outline.statusFrom {} path) path := by
  have htaken := h.trans h.sound.follows_taken
  have hblank : ∀ ref, (workspace.remembered.standing ref).status = .unresolved :=
    htaken.remembers.blank htaken.sound.tidy (fun _ => rfl)
  rw [h.sound.answers_refresh (fun method _ hfailed =>
    absurd ((hblank (.returnType method)).symm.trans hfailed) nofun)]
  exact hfiling.answers_from_blank hfiling' (fun _ => rfl) hblank path

/-- A fresh workspace over the sources of another, with the same files open, shows after a
refresh every file as resolved from nothing. -/
theorem Sound.exists_fresh (h : workspace.Sound) {files : List FileDecl}
    (hfiles : files.Perm (workspace.sources.entries.map Prod.snd)) :
    ∃ fresh, performAll? { settings := workspace.settings } (files.map workspace.request) = some fresh ∧
      (∀ path, fresh.refresh.2.answers path = workspace.index.outline.answersAt
        (workspace.index.outline.statusFrom {} path) path) ∧
      ∀ path, workspace.isOpen path = true → (fresh.refresh.2.diagnostics path).map Diagnostic.key =
        (workspace.findings (workspace.index.outline.statusFrom {} path) path).map Diagnostic.key := by
  obtain ⟨fresh, hperform, hfollows, hsource, hopen⟩ := h.exists_reindexed hfiles
  have hanswers : ∀ path, fresh.refresh.2.answers path = workspace.index.outline.answersAt
      (workspace.index.outline.statusFrom {} path) path :=
    hfollows.answers_refresh_from_start h.filing (hsource ▸ hfollows.sound.filing)
  refine ⟨fresh, hperform, hanswers, fun path hpath => ?_⟩
  have hpath' : fresh.refresh.2.isOpen path = true := by rw [is_open_refresh, hopen, hpath]
  rw [hfollows.sound.refresh.diagnostics_eq_findings fresh.pending_refresh hpath', hanswers,
    settings_refresh, hfollows.settings, findings]

/-! ## Where bounds do not lead back -/

/-- Where bounds do not lead back, a file is resolved from nothing to what its references
mean. -/
theorem Sound.status_from_nothing (h : workspace.Sound) (hacyclic : workspace.AcyclicSources)
    {method : NodeId} (hmethod : method ∈ workspace.index.outline.methodsAt path) :
    workspace.index.outline.statusFrom {} path method = workspace.index.outline.statusIn
      (workspace.index.outline.meaning (fun _ => none)) method :=
  h.filing.ground.well.status_from_eq (h.acyclic_bounds hacyclic) (fun _ _ => rfl)
    ⟨fun _ => nofun, fun _ _ => rfl, fun _ hmode => by cases hmode⟩ (fun _ => nofun)
    (fun _ _ => rfl) hmethod

/-- A refresh at which given class paths are known keeps what is known about references true,
where bounds do not lead back. -/
theorem Sound.refresh_agrees (h : workspace.Sound) (hacyclic : workspace.AcyclicSources)
    (hagrees : workspace.index.AgreesIn known) (hknows : workspace.index.outline.knows = known) :
    workspace.refresh.2.index.AgreesIn known := by
  have htaken := h.follows_taken
  have houtline := workspace.outline_taken
  have hknown : workspace.taken.index.AgreesIn known := htaken.remembers.agrees_in hagrees
  have hmeaning : workspace.index.outline.meaning (fun _ => none) =
      workspace.index.outline.meaningIn known := by
    rw [← Outline.meaning_in_knows, hknows]
  have hfits : (workspace.taken.index.pass {}).Fits workspace.index.outline (fun _ => none) .live := by
    refine ⟨fun {ref canonical origin} _ hstatus => ?_, fun _ _ => rfl, fun _ hmode => by cases hmode⟩
    have hstatus : (workspace.taken.index.standing ref).status = .resolved canonical origin := hstatus
    by_cases hname : workspace.taken.index.outline.HasName ref
    · rcases hknown ref hname with hblank | hmeant
      · rw [hstatus] at hblank
        cases hblank
      · rw [houtline] at hmeant
        rw [hmeaning]
        exact Status.of_meaning_eq_resolved_iff.1 (hmeant.symm.trans hstatus)
    · rw [htaken.sound.tidy.named ref hname] at hstatus
      cases hstatus
  intro ref hname
  rw [outline_refresh] at hname ⊢
  rcases h.settles_refresh hacyclic hfits (fun _ _ => rfl) ref with hsame | ⟨_, _, hsettled⟩
  · have hsame : workspace.refresh.2.index.standing ref = workspace.taken.index.standing ref := hsame
    rw [hsame, ← houtline]
    exact hknown ref (houtline ▸ hname)
  · rw [← hmeaning]
    exact Or.inr hsettled

/-- Nothing is known about references before the first refresh. -/
theorem agrees_in_start (settings : Settings) (known : String → Bool) :
    ({ settings } : Workspace).index.AgreesIn known :=
  fun _ _ => Or.inl rfl

end Workspace

end CanonicalNames
