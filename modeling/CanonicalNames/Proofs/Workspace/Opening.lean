import CanonicalNames.Proofs.Workspace.Answers

/-!
# Opening a file

A refresh forgets the outcomes that its notifications name and remembers all others, and a
reference is told of what happens to the file that its name was found in, not of a class that
comes to stand before it in the search order. After a file was opened, a refresh therefore
shows what a fresh workspace shows exactly when every file is resolved from what is
remembered to the canonical names and diagnostics that it is resolved to from nothing
(`Session.open_agrees_iff`). This is so where bounds do not lead back and no remembered outcome
was overtaken, and not so in general (`opened_class_overtakes`).
-/

namespace CanonicalNames

/-- A status up to its origin: all that are resolved count as declared. -/
def Status.plain : Status → Status
  | .resolved canonical _ => .resolved canonical .declared
  | status => status

/-- A return type up to the origin of its status. -/
def Answer.plain (answer : Answer) : Answer :=
  { answer with status := answer.status.plain }

namespace Outline

variable {outline : Outline} {kept : RefId → Option Meaning} {left right : NodeId → Status}

/-- Meanings remembered rightly lead to nothing but meanings. -/
theorem WellFormed.meaning_eq_of_kept (hwell : outline.WellFormed)
    (hacyclic : outline.AcyclicBounds (fun _ => none))
    (hkept : ∀ {ref meaning}, kept ref = some meaning →
      outline.meaning (fun _ => none) ref = some meaning) (ref : RefId) :
    outline.meaning kept ref = outline.meaning (fun _ => none) ref := by
  -- By induction on the rank: what the search asks for has a smaller one.
  induction hrank : outline.rankOf (fun _ => none) ref using Nat.strong_induction_on
    generalizing ref with
  | _ rank ih =>
      subst hrank
      rcases huse : outline.use? ref with _ | use
      · simp only [meaning, huse, Option.bind_none]
      · rcases hmemory : kept ref with _ | meaning
        · by_cases hname : use.name = ""
          · rw [meaning_of_nameless hacyclic.of_none huse hmemory hname,
              meaning_of_nameless hacyclic huse rfl hname]
          · rw [hwell.meaning_eq hacyclic.of_none huse hmemory hname,
              hwell.meaning_eq hacyclic huse rfl hname]
            have hanswer : ∀ query ∈ Scope.queries outline use.name (outline.home ref),
                query.answer outline (outline.meaning kept) =
                  query.answer outline (outline.meaning (fun _ => none)) := by
              intro query hquery
              cases query with
              | settled => rfl
              | asking asked start read =>
                  have hasked : Asked outline (fun _ => none) use.name (outline.home ref) asked
                      start read := hwell.asked_of_asking hquery
                  simp only [Query.answer, ih _ (hasked.rank_lt hacyclic huse) asked rfl]
            rw [← List.head?_filterMap, List.filterMap_congr hanswer, List.head?_filterMap]
        · rw [meaning_of_settled hacyclic.of_none huse hmemory, hkept hmemory]

theorem map_plain_answers_at_eq_iff {path : SourcePath} :
    (outline.answersAt left path).map (List.map Answer.plain) =
        (outline.answersAt right path).map (List.map Answer.plain) ↔
      ∀ method ∈ outline.methodsAt path, (left method).plain = (right method).plain := by
  unfold answersAt methodsAt
  rcases outline.fileAt? path with _ | file
  · simp
  · simp only [Option.map_some, Option.some.injEq, List.map_map, Option.getD_some, List.map_inj_left]
    simp [Answer.plain]

end Outline

namespace Pass

variable {outline : Outline} {pass : Pass} {ref : RefId} {meaning : Meaning}

/-- The meanings that a pass remembers. -/
def recalled (pass : Pass) (ref : RefId) : Option Meaning :=
  match (pass.standing ref).status with
  | .resolved canonical origin => some ⟨canonical, origin⟩
  | _ => none

/-- What is remembered is listed. -/
theorem exists_entry_of_recalled (h : pass.recalled ref = some meaning) :
    ∃ standing, (ref, standing) ∈ pass.standings.entries := by
  rcases hfound : pass.standings.entries.find? (fun entry => entry.1 == ref) with _ | entry
  · simp [recalled, standing, Standings.of, Table.find?, hfound] at h
  · have hbeq : (entry.1 == ref) = true := by simpa using List.find?_some hfound
    have hkey : entry.1 = ref := eq_of_beq hbeq
    exact ⟨entry.2, hkey ▸ List.mem_of_find?_eq_some hfound⟩

/-- A pass remembers what it remembers. -/
theorem fits_recalled (hacyclic : outline.AcyclicBounds pass.recalled) :
    pass.Fits outline pass.recalled .live := by
  refine ⟨fun {ref canonical origin} huse hstatus => ?_, fun {ref} _ hopen => ?_,
    fun _ hmode => by cases hmode⟩
  · obtain ⟨use, huse⟩ := Option.isSome_iff_exists.1 huse
    exact Outline.meaning_of_settled hacyclic huse (by simp only [recalled, hstatus])
  · unfold recalled
    unfold Standing.mayBegin at hopen
    split at hopen <;> simp_all

end Pass

namespace Workspace

variable {workspace opened : Workspace} {path : SourcePath}

/-- Where bounds do not lead back and every reference still means what is remembered about it, a
file is resolved from what is remembered as from nothing. -/
theorem Sound.status_from_remembered (h : workspace.Sound) (hacyclic : workspace.AcyclicSources)
    (hkept : ∀ {ref meaning}, workspace.remembered.recalled ref = some meaning →
      workspace.index.outline.meaning (fun _ => none) ref = some meaning) {method : NodeId}
    (hmethod : method ∈ workspace.index.outline.methodsAt path) :
    workspace.index.outline.statusFrom workspace.remembered path method =
      workspace.index.outline.statusFrom {} path method := by
  have htaken := h.follows_taken.sound.tidy
  have hwell := h.filing.ground.well
  have hbounds := h.acyclic_bounds hacyclic
  have hnameless : ∀ ref, ¬ workspace.index.outline.HasName ref →
      (workspace.remembered.standing ref).status = .unresolved :=
    fun ref hname => htaken.named ref (workspace.outline_taken ▸ hname)
  have hnamed : workspace.index.outline.SettlesNamed workspace.remembered.recalled := by
    intro ref use huse hname
    have hunresolved := hnameless ref (fun ⟨other, hother, hne⟩ => by
      rw [huse, Option.some.injEq] at hother
      exact hne (hother ▸ hname))
    simp only [Pass.recalled, hunresolved]
  have hmeaning : workspace.index.outline.meaning workspace.remembered.recalled =
      workspace.index.outline.meaning (fun _ => none) :=
    funext (hwell.meaning_eq_of_kept hbounds hkept)
  rw [h.status_from_nothing hacyclic hmethod, ← hmeaning]
  exact hwell.status_from_eq hbounds.of_none hnamed (Pass.fits_recalled hbounds.of_none)
    htaken.idle hnameless hmethod

/-! ## Sessions -/

/-- A workspace after requests that succeed and refreshes, in any order. -/
inductive Session : Workspace → Prop where
  | start (settings : Settings) : Session { settings }
  | perform {workspace after : Workspace} {request : Request} (h : Session workspace)
      (hperform : perform? workspace request = some after) : Session after
  | refresh {workspace : Workspace} (h : Session workspace) : Session workspace.refresh.2

theorem Session.sound (h : Session workspace) : workspace.Sound := by
  induction h with
  | start settings => exact sound_start settings
  | perform _ hperform ih => exact (ih.perform hperform).sound
  | refresh _ ih => exact ih.refresh

theorem Session.perform_all (h : Session workspace) {requests : List Request}
    (hperform : performAll? workspace requests = some opened) : Session opened := by
  induction requests generalizing workspace with
  | nil =>
      cases hperform
      exact h
  | cons request rest ih =>
      obtain ⟨middle, hfirst, hrest⟩ := Option.bind_eq_some_iff.1 hperform
      exact ih (h.perform hfirst) hrest

theorem perform?_open_file {file : FileDecl} {id : NodeId}
    (hopen : openFile file workspace = .ok id opened) :
    perform? workspace (.openFile file) = some opened := by
  simp only [perform?, success?, hopen]

/-- When a file was opened, the files with failures await resolution. -/
theorem Sound.has_grown_of_open_file (h : workspace.Sound) {file : FileDecl} {id : NodeId}
    (hopen : openFile file workspace = .ok id opened) : opened.hasGrown = true := by
  cases h.performed (perform?_open_file hopen)
  rfl

/-- After a file was opened, a refresh shows every file as resolved from what is remembered. -/
theorem Sound.answers_refresh_of_grown (h : workspace.Sound) (hgrown : workspace.hasGrown = true)
    (path : SourcePath) : workspace.refresh.2.answers path = workspace.index.outline.answersAt
      (workspace.index.outline.statusFrom workspace.remembered path) path := by
  refine h.answers_refresh (fun method hmethod hfailed => ?_)
  have hstale := h.follows_take_stale.sound
  have houtline : workspace.takeStale.index.outline = workspace.index.outline := by
    rw [← index_taken, outline_taken]
  exact hstale.pending_of_failed hgrown (houtline ▸ hmethod) (index_taken workspace ▸ hfailed)

/-- Two workspaces show the same: the status and canonical name of every return type, and the
diagnostics of the files that are open in the first. -/
structure Agrees (workspace other : Workspace) : Prop where
  answers : ∀ path, (workspace.answers path).map (List.map Answer.plain) =
    (other.answers path).map (List.map Answer.plain)
  diagnostics : ∀ path, workspace.isOpen path = true →
    (workspace.diagnostics path == other.diagnostics path) = true

/-- Every file is resolved from what is remembered to the canonical names that it is resolved to
from nothing, and open files to the same diagnostics. -/
structure RecallsRightly (workspace : Workspace) : Prop where
  canonical : ∀ path, ∀ method ∈ workspace.index.outline.methodsAt path,
    (workspace.index.outline.statusFrom workspace.remembered path method).plain =
      (workspace.index.outline.statusFrom {} path method).plain
  findings : ∀ path, workspace.isOpen path = true →
    (workspace.findings (workspace.index.outline.statusFrom workspace.remembered path) path ==
      workspace.findings (workspace.index.outline.statusFrom {} path) path) = true

/-- A session that has opened a file and refreshes shows what a fresh workspace shows that
indexes the same sources, in any order, opens the same files and refreshes once, exactly when
what it remembers is right. Where bounds do not lead back, it is so if every reference still
means what is remembered about it. -/
theorem Session.open_agrees_iff (h : Session workspace) {file : FileDecl} {id : NodeId}
    (hopen : openFile file workspace = .ok id opened) {files : List FileDecl}
    (hfiles : files.Perm (opened.sources.entries.map Prod.snd)) :
    ∃ fresh, performAll? { settings := opened.settings } (files.map opened.request) = some fresh ∧
      (Agrees opened.refresh.2 fresh.refresh.2 ↔ opened.RecallsRightly) ∧
      (opened.AcyclicSources →
        (∀ {ref meaning}, opened.remembered.recalled ref = some meaning →
          opened.index.outline.meaning (fun _ => none) ref = some meaning) →
        Agrees opened.refresh.2 fresh.refresh.2) := by
  have hsound := (h.sound.perform (perform?_open_file hopen)).sound
  have hopened := hsound.answers_refresh_of_grown (h.sound.has_grown_of_open_file hopen)
  obtain ⟨fresh, hperform, hfresh, hdiagnostics⟩ := hsound.exists_fresh hfiles
  have hanswersIff : ∀ path, (opened.refresh.2.answers path).map (List.map Answer.plain) =
      (fresh.refresh.2.answers path).map (List.map Answer.plain) ↔
        ∀ method ∈ opened.index.outline.methodsAt path,
          (opened.index.outline.statusFrom opened.remembered path method).plain =
            (opened.index.outline.statusFrom {} path method).plain := by
    intro path
    rw [hopened, hfresh, Outline.map_plain_answers_at_eq_iff]
  have hdiagnosticsIff : ∀ path, opened.isOpen path = true →
      ((opened.refresh.2.diagnostics path == fresh.refresh.2.diagnostics path) = true ↔
        (opened.findings (opened.index.outline.statusFrom opened.remembered path) path ==
          opened.findings (opened.index.outline.statusFrom {} path) path) = true) := by
    intro path hpath
    have hrefreshed : opened.refresh.2.isOpen path = true := by rw [is_open_refresh, hpath]
    rw [Diagnostic.list_beq_iff_map_key_eq, Diagnostic.list_beq_iff_map_key_eq,
      hdiagnostics path hpath, hsound.refresh.diagnostics_eq_findings opened.pending_refresh hrefreshed,
      hopened, settings_refresh]
    rfl
  have hiff : Agrees opened.refresh.2 fresh.refresh.2 ↔ opened.RecallsRightly := by
    constructor
    · intro hagrees
      refine ⟨fun path => (hanswersIff path).1 (hagrees.answers path),
        fun path hpath => (hdiagnosticsIff path hpath).1 ?_⟩
      exact hagrees.diagnostics path (by rw [is_open_refresh, hpath])
    · intro hright
      refine ⟨fun path => (hanswersIff path).2 (hright.canonical path), fun path hpath => ?_⟩
      rw [is_open_refresh] at hpath
      exact (hdiagnosticsIff path hpath).2 (hright.findings path hpath)
  refine ⟨fresh, hperform, hiff, fun hacyclic hkept => hiff.2 ?_⟩
  have hsame : ∀ path, ∀ method ∈ opened.index.outline.methodsAt path,
      opened.index.outline.statusFrom opened.remembered path method =
        opened.index.outline.statusFrom {} path method :=
    fun path method hmethod => hsound.status_from_remembered hacyclic hkept hmethod
  refine ⟨fun path method hmethod => by rw [hsame path method hmethod], fun path _ => ?_⟩
  rw [Diagnostic.list_beq_iff_map_key_eq, findings, findings, Outline.answers_at_congr (hsame path)]

/-- The sources of a session that opens them, and a source that it opens after a refresh: a
return type fails until the class is there, and others keep their outcomes. -/
def missingFiles : List FileDecl × FileDecl :=
  ([{ path := ⟨"p/A.java"⟩
      package := "p"
      imports := ["q.*"]
      classes :=
        [{ name := "A"
           methods := [{ name := "m", returnType := .text "Foo" },
             { name := "n", returnType := .text "Bar" }, { name := "k", returnType := .text "int" }] }] },
    { path := ⟨"q/Bar.java"⟩, package := "q", classes := [{ name := "Bar" }] }],
    { path := ⟨"p/Foo.java"⟩, package := "p", classes := [{ name := "Foo" }] })

theorem opened_class_is_found :
    ∃ first opened fresh id,
      performAll? {} (missingFiles.1.map Request.openFile) = some first ∧
      openFile missingFiles.2 first.refresh.2 = .ok id opened ∧
      performAll? { settings := opened.settings }
        ((opened.sources.entries.map Prod.snd).map opened.request) = some fresh ∧
      opened.RecallsRightly ∧ Agrees opened.refresh.2 fresh.refresh.2 := by
  have hruns : ((performAll? {} (missingFiles.1.map Request.openFile)).bind (fun first =>
      success? (openFile missingFiles.2) first.refresh.2)).isSome = true := by decide +kernel
  have hkept : ∀ first ∈ performAll? {} (missingFiles.1.map Request.openFile),
      ∀ opened ∈ success? (openFile missingFiles.2) first.refresh.2,
      ∀ entry ∈ opened.remembered.standings.entries,
      ∀ meaning ∈ opened.remembered.recalled entry.1,
        opened.index.outline.meaning (fun _ => none) entry.1 = some meaning := by decide +kernel
  have hacyclic : ∀ request ∈ missingFiles.1.map Request.openFile, request.AcyclicBounds := by
    intro request hrequest
    rcases List.mem_cons.1 hrequest with rfl | hrequest
    · have hmethod := And.intro Meaning.acyclic_nil trivial
      exact ⟨Meaning.acyclic_nil, ⟨Meaning.acyclic_nil, hmethod, hmethod, hmethod, trivial⟩, trivial⟩
    · rw [List.mem_singleton.1 hrequest]
      exact ⟨Meaning.acyclic_nil, ⟨Meaning.acyclic_nil, trivial⟩, trivial⟩
  have hopenedAcyclic : (Request.openFile missingFiles.2).AcyclicBounds :=
    ⟨Meaning.acyclic_nil, ⟨Meaning.acyclic_nil, trivial⟩, trivial⟩
  obtain ⟨opened, hbind⟩ := Option.isSome_iff_exists.1 hruns
  obtain ⟨first, hfirst, hsuccess⟩ := Option.bind_eq_some_iff.1 hbind
  obtain ⟨id, hopen⟩ := success?_eq_some_iff.1 hsuccess
  have hsession := ((Session.start {}).perform_all hfirst).refresh
  have hsources : opened.AcyclicSources := by
    refine AcyclicSources.perform ?_ hsession.sound hopenedAcyclic (perform?_open_file hopen)
    have hstart : AcyclicSources {} := fun _ _ => nofun
    rw [AcyclicSources, source?_refresh]
    exact hstart.perform_all (sound_start {}) hacyclic hfirst
  obtain ⟨fresh, hperform, hiff, hagrees⟩ := hsession.open_agrees_iff hopen (List.Perm.refl _)
  have hright : Agrees opened.refresh.2 fresh.refresh.2 := by
    refine hagrees hsources (fun {ref meaning} hmeaning => ?_)
    obtain ⟨standing, hentry⟩ := Pass.exists_entry_of_recalled hmeaning
    exact hkept first hfirst opened hsuccess _ hentry meaning hmeaning
  exact ⟨first, opened, fresh, id, hfirst, hopen, hperform, hiff.1 hright, hright⟩

/-- The sources of a session that opens them, and a source that it opens after a refresh: a
return type is found by a wildcard import until a class of that name is in its package. -/
def overtakenFiles : List FileDecl × FileDecl :=
  ([{ path := ⟨"p/A.java"⟩
      package := "p"
      imports := ["q.*"]
      classes := [{ name := "A", methods := [{ name := "m", returnType := .text "Foo" }] }] },
    { path := ⟨"q/Foo.java"⟩, package := "q", classes := [{ name := "Foo" }] }],
    { path := ⟨"p/Foo.java"⟩, package := "p", classes := [{ name := "Foo" }] })

/-- Opening a file does not bring every answer up to date: the session keeps the imported class
where a fresh workspace finds the one in the package. -/
theorem opened_class_overtakes :
    ∃ first opened fresh id,
      performAll? {} (overtakenFiles.1.map Request.openFile) = some first ∧
      first.refresh.2.source? overtakenFiles.2.path = none ∧
      openFile overtakenFiles.2 first.refresh.2 = .ok id opened ∧
      performAll? { settings := opened.settings }
        ((opened.sources.entries.map Prod.snd).map opened.request) = some fresh ∧
      ¬ Agrees opened.refresh.2 fresh.refresh.2 := by
  have hruns : ((performAll? {} (overtakenFiles.1.map Request.openFile)).bind (fun first =>
      (success? (openFile overtakenFiles.2) first.refresh.2).bind (fun opened =>
        performAll? { settings := opened.settings }
          ((opened.sources.entries.map Prod.snd).map opened.request)))).isSome = true := by
    decide +kernel
  have hnew : ∀ first ∈ performAll? {} (overtakenFiles.1.map Request.openFile),
      (first.refresh.2.source? overtakenFiles.2.path).isNone = true := by decide +kernel
  have hdiffer : ∀ first ∈ performAll? {} (overtakenFiles.1.map Request.openFile),
      ∀ opened ∈ success? (openFile overtakenFiles.2) first.refresh.2,
      ∀ fresh ∈ performAll? { settings := opened.settings }
        ((opened.sources.entries.map Prod.snd).map opened.request),
      (opened.refresh.2.answers ⟨"p/A.java"⟩).map (List.map Answer.plain) ≠
        (fresh.refresh.2.answers ⟨"p/A.java"⟩).map (List.map Answer.plain) := by decide +kernel
  obtain ⟨fresh, hbind⟩ := Option.isSome_iff_exists.1 hruns
  obtain ⟨first, hfirst, hbind⟩ := Option.bind_eq_some_iff.1 hbind
  obtain ⟨opened, hsuccess, hperform⟩ := Option.bind_eq_some_iff.1 hbind
  obtain ⟨id, hopen⟩ := success?_eq_some_iff.1 hsuccess
  exact ⟨first, opened, fresh, id, hfirst, Option.isNone_iff_eq_none.1 (hnew first hfirst), hopen,
    hperform, fun hagrees => hdiffer first hfirst opened hsuccess fresh hperform (hagrees.answers _)⟩

end Workspace

end CanonicalNames
