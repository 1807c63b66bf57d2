import CanonicalNames.Proofs.Workspace.Answers

/-!
# Rounds that keep the class paths

Files are torn down and built again under other numbers, and a class may move from one file
to another. As long as every refresh finds the same class paths known, what a workspace
remembers about a reference stays what the reference means, and the workspace shows after
every refresh what a fresh one over its sources shows (`Steady.agrees_with_fresh`).
-/

namespace CanonicalNames

namespace Outline

variable {outline after : Outline}

/-- The paths of all nodes. -/
def paths (outline : Outline) : List String :=
  outline.places.toList.filterMap (Option.map Node.path)

/-- The class paths of an outline are among the paths of its nodes. -/
theorem WellFormed.mem_paths_of_knows (h : outline.WellFormed) {name : String}
    (hname : outline.knows name = true) : name ∈ outline.paths := by
  obtain ⟨id, hid⟩ := Option.isSome_iff_exists.1 hname
  obtain ⟨node, hnode, hpath⟩ := Option.map_eq_some_iff.1 (h.path?_of_lookup_type? hid)
  obtain ⟨place, hplace, hfound⟩ := Option.bind_eq_some_iff.1 hnode
  refine List.mem_filterMap.2 ⟨place, Array.mem_toList_iff.2 (Array.mem_of_getElem? hplace), ?_⟩
  cases hfound
  exact congrArg some hpath

/-- Two outlines that agree on the paths of their nodes know the same class paths. -/
theorem WellFormed.knows_eq (h : outline.WellFormed) (h' : after.WellFormed)
    (hpaths : ∀ path ∈ outline.paths ++ after.paths, after.knows path = outline.knows path) :
    after.knows = outline.knows := by
  funext name
  rw [Bool.eq_iff_iff]
  constructor
  · intro hname
    rw [← hpaths name (List.mem_append_right _ (h'.mem_paths_of_knows hname)), hname]
  · intro hname
    rw [hpaths name (List.mem_append_left _ (h.mem_paths_of_knows hname)), hname]

end Outline

namespace Workspace

variable {workspace : Workspace} {known : String → Bool}

/-- A workspace after rounds of requests that all succeed, each round followed by a refresh at
which the given class paths are known. -/
inductive Steady (known : String → Bool) : Workspace → Prop where
  | start (settings : Settings) : Steady known { settings }
  | round {workspace after : Workspace} {requests : List Request} (h : Steady known workspace)
      (hacyclic : ∀ request ∈ requests, request.AcyclicBounds)
      (hperform : performAll? workspace requests = some after)
      (hknows : after.index.outline.knows = known) : Steady known after.refresh.2

theorem Steady.sound (h : Steady known workspace) : workspace.Sound := by
  induction h with
  | start settings => exact sound_start settings
  | round _ _ hperform _ ih => exact (ih.perform_all hperform).sound.refresh

theorem Steady.acyclic_sources (h : Steady known workspace) : workspace.AcyclicSources := by
  induction h with
  | start => exact fun _ _ => nofun
  | round h hacyclic hperform _ ih =>
      have hsources := ih.perform_all h.sound hacyclic hperform
      rwa [AcyclicSources, source?_refresh]

theorem Steady.pending_eq_nil (h : Steady known workspace) : workspace.pending = [] := by
  cases h with
  | start => rfl
  | round => exact pending_refresh _

/-- What is known after steady rounds is what references mean. -/
theorem Steady.agrees_in (h : Steady known workspace) :
    workspace.index.AgreesIn known ∧ workspace.index.AgreesIn workspace.index.outline.knows := by
  induction h with
  | start settings => exact ⟨agrees_in_start settings _, agrees_in_start settings _⟩
  | round h hacyclic hperform hknows ih =>
      have hfollows := h.sound.perform_all hperform
      have hsources := h.acyclic_sources.perform_all h.sound hacyclic hperform
      have hagrees := hfollows.sound.refresh_agrees hsources (hfollows.remembers.agrees_in ih.1) hknows
      refine ⟨hagrees, ?_⟩
      rw [outline_refresh, hknows]
      exact hagrees

/-- After steady rounds a workspace shows every file as resolved from nothing. -/
theorem Steady.answers_eq (h : Steady known workspace) (path : SourcePath) :
    workspace.answers path = workspace.index.outline.answersAt
      (workspace.index.outline.statusFrom {} path) path := by
  rw [h.sound.answers_eq h.pending_eq_nil h.agrees_in.2, Outline.meaning_in_knows]
  exact Outline.answers_at_congr (fun method hmethod =>
    (h.sound.status_from_nothing h.acyclic_sources hmethod).symm)

/-- After steady rounds a workspace shows what a fresh one shows that indexes the same sources,
in any order, opens the same files and refreshes once: every return type by its position in
its file, with its status, canonical name and origin, and the diagnostics of open files. -/
theorem Steady.agrees_with_fresh (h : Steady known workspace) {files : List FileDecl}
    (hfiles : files.Perm (workspace.sources.entries.map Prod.snd)) :
    ∃ fresh, performAll? { settings := workspace.settings } (files.map workspace.request) = some fresh ∧
      (∀ path, workspace.answers path = fresh.refresh.2.answers path) ∧
      ∀ path, workspace.isOpen path = true →
        (workspace.diagnostics path == fresh.refresh.2.diagnostics path) = true := by
  obtain ⟨fresh, hperform, hanswers, hdiagnostics⟩ := h.sound.exists_fresh hfiles
  refine ⟨fresh, hperform, fun path => (h.answers_eq path).trans (hanswers path).symm,
    fun path hopen => ?_⟩
  rw [Diagnostic.list_beq_iff_map_key_eq, hdiagnostics path hopen, findings, ← h.answers_eq]
  exact h.sound.diagnostics_eq_findings h.pending_eq_nil hopen

/-- The requests of two rounds: a class that a type parameter is bounded by moves to another
file. -/
def movingRounds : List Request × List Request :=
  ([.change { path := ⟨"q/Foo.java"⟩, package := "q", classes := [{ name := "Foo" }] },
    .openFile
      { path := ⟨"p/A.java"⟩
        package := "p"
        imports := ["q.*"]
        classes :=
          [{ name := "A"
             typeParams := [{ name := "T", bounds := [.text "Foo"] }]
             methods := [{ name := "m", returnType := .text "T" },
               { name := "n", returnType := .text "Bar" }] }] }],
    [.rename ⟨"q/Foo.java"⟩ ⟨"q/moved/Foo.java"⟩])

theorem moving_rounds_agree_with_fresh :
    ∃ first second, performAll? {} movingRounds.1 = some first ∧
      performAll? first.refresh.2 movingRounds.2 = some second ∧
      second.refresh.2.answers ⟨"p/A.java"⟩ =
        some [⟨some "p.A.m", some ⟨"T", false⟩, .resolved "q.Foo" .typeParameter⟩,
          ⟨some "p.A.n", some ⟨"Bar", false⟩, .failed⟩] := by
  have hruns : ((performAll? {} movingRounds.1).bind (fun first =>
      performAll? first.refresh.2 movingRounds.2)).isSome = true := by decide +kernel
  have hpaths : ∀ first ∈ performAll? {} movingRounds.1,
      ∀ second ∈ performAll? first.refresh.2 movingRounds.2,
      ∀ path ∈ first.index.outline.paths ++ second.index.outline.paths,
        second.index.outline.knows path = first.index.outline.knows path := by decide +kernel
  have hfresh : ∀ first ∈ performAll? {} movingRounds.1,
      ∀ second ∈ performAll? first.refresh.2 movingRounds.2,
      ∀ fresh ∈ performAll? { settings := second.refresh.2.settings }
        ((second.refresh.2.sources.entries.map Prod.snd).map second.refresh.2.request),
      fresh.refresh.2.answers ⟨"p/A.java"⟩ =
        some [⟨some "p.A.m", some ⟨"T", false⟩, .resolved "q.Foo" .typeParameter⟩,
          ⟨some "p.A.n", some ⟨"Bar", false⟩, .failed⟩] := by decide +kernel
  have hacyclic : ∀ request ∈ movingRounds.1, request.AcyclicBounds := by
    intro request hrequest
    rcases List.mem_cons.1 hrequest with rfl | hrequest
    · exact ⟨Meaning.acyclic_nil, ⟨Meaning.acyclic_nil, trivial⟩, trivial⟩
    · rw [List.mem_singleton.1 hrequest]
      have hbounds : Meaning.Acyclic [{ name := "T", bound := some { name := "Foo" } }] :=
        Meaning.acyclic_of_declared_before (by decide)
      exact ⟨Meaning.acyclic_nil, ⟨hbounds, ⟨Meaning.acyclic_nil, trivial⟩,
        ⟨Meaning.acyclic_nil, trivial⟩, ⟨Meaning.acyclic_nil, trivial⟩, trivial⟩, trivial⟩
  obtain ⟨second, hbind⟩ := Option.isSome_iff_exists.1 hruns
  obtain ⟨first, hfirst, hsecond⟩ := Option.bind_eq_some_iff.1 hbind
  have hstart : Steady first.index.outline.knows first.refresh.2 :=
    (Steady.start {}).round hacyclic hfirst rfl
  have hsound := hstart.sound
  have hrename : ∀ request ∈ movingRounds.2, request.AcyclicBounds := by
    intro request hrequest
    rw [List.mem_singleton.1 hrequest]
    trivial
  have hwell := hsound.filing.ground.well
  rw [outline_refresh] at hwell
  have hsteady : Steady first.index.outline.knows second.refresh.2 :=
    hstart.round hrename hsecond (hwell.knows_eq
      (hsound.perform_all hsecond).sound.filing.ground.well
      (hpaths first hfirst second hsecond))
  obtain ⟨fresh, hperform, hanswers, _⟩ := hsteady.agrees_with_fresh (List.Perm.refl _)
  exact ⟨first, second, hfirst, hsecond,
    (hanswers _).trans (hfresh first hfirst second hsecond fresh hperform)⟩

end Workspace

end CanonicalNames
