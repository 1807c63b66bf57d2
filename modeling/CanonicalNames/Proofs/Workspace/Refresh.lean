import CanonicalNames.Proofs.Resolution.Twins
import CanonicalNames.Proofs.Workspace.Requests

/-!
# What a refresh does

A refresh takes in what has happened to the index, resolves the files that await it and
publishes what is to be said about them. What is taken in leaves a file either untouched or
awaiting resolution (`Sound.follows_taken`). Files are resolved one after the other, and each
as if it were resolved alone (`Filing.status_resolve_files`). A refresh keeps a workspace sound
(`Sound.refresh`), and where bounds do not lead back it settles references on their meanings
(`Sound.settles_refresh`).
-/

namespace CanonicalNames

namespace Pass

variable {outline : Outline} {kept : RefId → Option Meaning} {before after : Pass}

/-- Settling references puts none in progress. -/
theorem Settles.idle (h : Settles outline kept before after)
    (hidle : ∀ ref, (before.standing ref).status ≠ .inProgress) (ref : RefId) :
    (after.standing ref).status ≠ .inProgress := by
  rcases h ref with hsame | ⟨_, _, hstatus⟩
  · rw [hsame]
    exact hidle ref
  · rw [hstatus]
    exact Status.of_meaning_ne_in_progress _

/-- What is settled on its meaning stays so. -/
theorem Settles.status_eq (h : Settles outline kept before after) {ref : RefId}
    (hbefore : (before.standing ref).status = .ofMeaning (outline.meaning kept ref)) :
    (after.standing ref).status = .ofMeaning (outline.meaning kept ref) := by
  rcases h ref with hsame | ⟨_, _, hstatus⟩
  · rw [hsame, hbefore]
  · exact hstatus

end Pass

namespace Outline

variable {outline : Outline} {path : SourcePath} {file low : NodeId}

/-- What lies below a file belongs to the path of the file. -/
theorem Grounded.owning_path? (h : outline.Grounded) (hfile : outline.fileAt? path = some file)
    (hbelow : outline.Below low file) :
    ∃ found, outline.owningPath? low = some found ∧ (found == path) = true := by
  have hisFile := h.well.is_file_of_file_at hfile
  have hof := h.file_of?_of_below hisFile hbelow
  obtain ⟨node, source, package, imports, hnode, hcontent, hbeq⟩ := h.well.fileAt.1 hfile
  refine ⟨source, ?_, hbeq⟩
  simp [owningPath?, hof, element?, hnode, Node.element?, hcontent, Content.element?]

/-- A method stands in one file only. -/
theorem Grounded.beq_of_mem_methods_at (h : outline.Grounded) {other : SourcePath} {method : NodeId}
    (hmethod : method ∈ outline.methodsAt path) (hother : method ∈ outline.methodsAt other) :
    (path == other) = true := by
  have howning : ∀ {path}, method ∈ outline.methodsAt path →
      ∃ found, outline.owningPath? method = some found ∧ (found == path) = true := by
    intro path hmethod
    obtain ⟨file, hfile, _⟩ := mem_methods_at_iff.1 hmethod
    exact h.owning_path? hfile (h.well.below_of_mem_methods_at hfile hmethod)
  obtain ⟨found, hfound, hpath⟩ := howning hmethod
  obtain ⟨found', hfound', hpath'⟩ := howning hother
  rw [hfound, Option.some.injEq] at hfound'
  subst hfound'
  exact PartialEquivBEq.trans (BEq.symm hpath) hpath'

/-! ## Resolving methods in turn -/

variable {kept : RefId → Option Meaning}

theorem resolve_methods_append (mode : Mode) (front back : List NodeId) (pass : Pass) :
    (outline.resolveMethods mode (front ++ back) pass).2 =
      (outline.resolveMethods mode back (outline.resolveMethods mode front pass).2).2 := by
  induction front generalizing pass with
  | nil => rfl
  | cons method rest ih => exact ih _

/-- A request leaves a reference without a name. -/
theorem standing_resolve_of_not_has_name {mode : Mode} {ref other : RefId} {start : Option NodeId}
    (h : ¬ outline.HasName other) (pass : Pass) :
    (outline.resolve mode ref start pass).2.standing other = pass.standing other :=
  @standing_resolve_of_closed outline mode ref other start (fun _ _ => True) (fun _ _ _ => trivial)
    (fun _ haccepts => h ⟨_, haccepts.use_eq, haccepts.name_ne⟩) trivial pass

/-- What resolving return types in turn leaves: only references with a name have changed, only
on which an attempt may begin, and they are settled; of the return types only those that were
resolved have changed, and none of them with a name is unresolved. -/
theorem resolve_methods_settles (mode : Mode) (methods : List NodeId) (pass : Pass) :
    Pass.Advances pass (outline.resolveMethods mode methods pass).2 ∧
      (∀ ref, ¬ outline.HasName ref →
        (outline.resolveMethods mode methods pass).2.standing ref = pass.standing ref) ∧
      (∀ method ∉ methods, (outline.resolveMethods mode methods pass).2.standing
        (.returnType method) = pass.standing (.returnType method)) ∧
      ∀ method ∈ methods, outline.HasName (.returnType method) →
        ((outline.resolveMethods mode methods pass).2.standing (.returnType method)).status ≠
          .unresolved := by
  have hadvances : ∀ methods pass,
      Pass.Advances pass (outline.resolveMethods mode methods pass).2 := fun methods pass =>
    resolve_methods_keeps Pass.Advances.refl Pass.Advances.trans
      (fun _ _ pass => resolve_advances _ _ pass) pass
  refine ⟨hadvances methods pass, fun ref hname => ?_, fun method hmethod => ?_, ?_⟩
  · exact @resolve_methods_keeps outline mode
      (fun before after => after.standing ref = before.standing ref) (fun _ => rfl)
      (fun hfirst hsecond => hsecond.trans hfirst) methods
      (fun _ _ pass => standing_resolve_of_not_has_name hname pass) pass
  · refine @resolve_methods_keeps outline mode
      (fun before after => after.standing (.returnType method) = before.standing (.returnType method))
      (fun _ => rfl) (fun hfirst hsecond => hsecond.trans hfirst) methods (fun other hother pass => ?_) pass
    refine standing_resolve_return_type (fun heq => hmethod ?_) pass
    have hsame : other = method := congrArg RefId.owner heq
    exact hsame ▸ hother
  · intro method hmethod hname
    obtain ⟨use, huse, hne⟩ := hname
    obtain ⟨front, back, rfl⟩ := List.append_of_mem hmethod
    rw [resolve_methods_append]
    -- Settled at its turn, it is not made unresolved after it.
    have hturn : ((outline.resolve mode (.returnType method) none
        (outline.resolveMethods mode front pass).2).2.standing (.returnType method)).status ≠
          .unresolved :=
      status_resolve_ne_unresolved _ (⟨huse, fun _ => nofun, hne⟩ : outline.Accepts _ none use)
    rcases hadvances back (outline.resolve mode (.returnType method) none
      (outline.resolveMethods mode front pass).2).2 (.returnType method) with hsame | ⟨_, hsettled⟩
    · exact fun hstatus => hturn ((congrArg Standing.status hsame).symm.trans hstatus)
    · exact hsettled.status_ne.1

/-- Return types that are resolved or have no name are left. -/
theorem resolve_methods_of_resolved {mode : Mode} {methods : List NodeId} {pass : Pass}
    (h : ∀ method ∈ methods, outline.HasName (.returnType method) →
      (pass.standing (.returnType method)).isResolved = true) :
    (outline.resolveMethods mode methods pass).2 = pass := by
  induction methods with
  | nil => rfl
  | cons method rest ih =>
      have hfirst : (outline.resolve mode (.returnType method) none pass).2 = pass := by
        by_cases hname : outline.HasName (.returnType method)
        · have hresolved := h method (List.mem_cons_self ..) hname
          obtain ⟨use, huse, hne⟩ := hname
          have hbegin : (pass.standing (.returnType method)).mayBegin mode.retriesFailed = false := by
            cases hmay : (pass.standing (.returnType method)).mayBegin mode.retriesFailed with
            | false => rfl
            | true =>
                rw [(Standing.may_begin_true_iff.1 (Standing.may_begin_true hmay)).1] at hresolved
                cases hresolved
          rw [resolve_eq_attempt, attempt_of_not_may_begin _ pass
            (⟨huse, fun _ => nofun, hne⟩ : outline.Accepts (.returnType method) none use) hbegin]
        · rw [resolve_of_not_accepts pass (fun use haccepts =>
            hname ⟨use, haccepts.use_eq, haccepts.name_ne⟩)]
      have hrest := ih (fun other hother => h other (List.mem_cons_of_mem _ hother))
      simp only [resolveMethods, hfirst]
      exact hrest

/-- A request about a return type settles it on its meaning, if it has a name. -/
theorem WellFormed.resolve_return_type (hwell : outline.WellFormed)
    (hacyclic : outline.AcyclicBounds kept) (hnamed : outline.SettlesNamed kept) {pass : Pass}
    (hfits : pass.Fits outline kept .live) (hidle : ∀ ref, (pass.standing ref).status ≠ .inProgress)
    (method : NodeId) :
    Pass.Settles outline kept pass (outline.resolve .live (.returnType method) none pass).2 ∧
      (outline.HasName (.returnType method) →
        ((outline.resolve .live (.returnType method) none pass).2.standing
          (.returnType method)).status = .ofMeaning (outline.meaning kept (.returnType method))) := by
  by_cases hname : outline.HasName (.returnType method)
  · obtain ⟨use, huse, hne⟩ := hname
    have haccepts : outline.Accepts (.returnType method) none use := ⟨huse, fun _ => nofun, hne⟩
    have hagrees := hwell.resolve_agrees hacyclic hnamed haccepts rfl hfits
      (fun ref _ hstatus => absurd hstatus (hidle ref))
    exact ⟨hagrees.settles, fun _ => hagrees.status⟩
  · rw [resolve_of_not_accepts pass (fun use haccepts =>
      hname ⟨use, haccepts.use_eq, haccepts.name_ne⟩)]
    exact ⟨.refl pass, fun h => absurd h hname⟩

/-- Resolving return types in turn settles each of them on its meaning. -/
theorem WellFormed.resolve_methods (hwell : outline.WellFormed)
    (hacyclic : outline.AcyclicBounds kept) (hnamed : outline.SettlesNamed kept) {pass : Pass}
    (hfits : pass.Fits outline kept .live) (hidle : ∀ ref, (pass.standing ref).status ≠ .inProgress)
    (methods : List NodeId) :
    Pass.Settles outline kept pass (outline.resolveMethods .live methods pass).2 ∧
      ∀ method ∈ methods, outline.HasName (.returnType method) →
        ((outline.resolveMethods .live methods pass).2.standing (.returnType method)).status =
          .ofMeaning (outline.meaning kept (.returnType method)) := by
  induction methods generalizing pass with
  | nil => exact ⟨.refl pass, nofun⟩
  | cons first rest ih =>
      obtain ⟨hsettles, hstatus⟩ := hwell.resolve_return_type hacyclic hnamed hfits hidle first
      obtain ⟨hsettles', hdone⟩ := ih (hsettles.fits hfits) (hsettles.idle hidle)
      refine ⟨hsettles.trans hsettles', fun method hmethod hname => ?_⟩
      rcases List.mem_cons.1 hmethod with rfl | hmethod
      · exact hsettles'.status_eq (hstatus hname)
      · exact hdone method hmethod hname

/-! ## Resolving files in turn -/

/-- The status of a return type when its file was resolved from a pass. -/
def statusFrom (outline : Outline) (pass : Pass) (path : SourcePath) (method : NodeId) : Status :=
  ((outline.resolveMethods .live (outline.methodsAt path) pass).2.standing (.returnType method)).status

variable {source? : SourcePath → Option FileDecl}

/-- Resolving other files leaves the references of a file. -/
theorem Filing.standing_resolve_files (h : outline.Filing source?)
    (hfile : outline.fileAt? path = some file) {paths : List SourcePath}
    (hpaths : paths.contains path = false) {mode : Mode} {ref : RefId}
    (hbelow : outline.Below ref.owner file) (pass : Pass) :
    (outline.resolveMethods mode (paths.flatMap outline.methodsAt) pass).2.standing ref =
      pass.standing ref := by
  have hwell := h.ground.well
  induction paths generalizing pass with
  | nil => rfl
  | cons first rest ih =>
      rw [List.contains_cons, Bool.or_eq_false_iff] at hpaths
      rw [List.flatMap_cons, resolve_methods_append, ih hpaths.2]
      rcases hfirst : outline.fileAt? first with _ | found
      · simp only [methodsAt, hfirst, Option.map_none, Option.getD_none, resolveMethods]
      · refine (h.mirror h hfirst hfirst).standing_resolve_methods
          (fun method hmethod => hwell.below_of_mem_methods_at hfirst hmethod) (fun hinside => ?_) pass
        obtain ⟨owning, howning, hsame⟩ := h.ground.owning_path? hfile hbelow
        obtain ⟨owning', howning', hsame'⟩ := h.ground.owning_path? hfirst hinside
        obtain rfl := Option.some.inj (howning.symm.trans howning')
        rw [PartialEquivBEq.trans (BEq.symm hsame) hsame'] at hpaths
        cases hpaths.1

/-- A file that is resolved among others is resolved as if it were alone. -/
theorem Filing.status_resolve_files (h : outline.Filing source?) {paths : List SourcePath}
    (hdistinct : Distinct paths) (hpath : paths.contains path = true) {method : NodeId}
    (hmethod : method ∈ outline.methodsAt path) (pass : Pass) :
    ((outline.resolveMethods .live (paths.flatMap outline.methodsAt) pass).2.standing
      (.returnType method)).status = outline.statusFrom pass path method := by
  obtain ⟨file, hfile, _⟩ := mem_methods_at_iff.1 hmethod
  have hbelow := h.ground.well.below_of_mem_methods_at hfile hmethod
  obtain ⟨front, found, back, rfl, hfound, hfront, hback⟩ := hdistinct.exists_split hpath
  have hmirror := h.mirror h hfile hfile
  -- The files before leave what this one starts from, the files after what it ends with.
  have hstart : Pass.Alike outline outline file file
      (outline.resolveMethods .live (front.flatMap outline.methodsAt) pass).2 pass :=
    hmirror.alike_of_status_eq (fun hlow =>
      congrArg Standing.status (h.standing_resolve_files hfile hfront hlow pass))
  have htwins : List.Forall₂ (Twins outline outline file file) (outline.methodsAt path)
      (outline.methodsAt path) := by
    simp only [methodsAt, hfile, Option.map_some, Option.getD_some]
    exact hmirror.methods_under .top
  have hend : ∀ seen, (outline.resolveMethods .live (back.flatMap outline.methodsAt) seen).2.standing
      (.returnType method) = seen.standing (.returnType method) :=
    fun seen => h.standing_resolve_files hfile hback hbelow seen
  rw [List.flatMap_append, List.flatMap_cons, resolve_methods_append, resolve_methods_append, hend,
    outline.methods_at_congr hfound]
  exact hmirror.resolve_methods_alike htwins hstart
    (h.ground.well.twins_of_below hbelow) .returnType

end Outline

namespace Index

/-- The outline is the same, and a reference is as it was or is unresolved in a file that is
listed as stale. -/
structure Invalidated (index after : Index) (stale : List SourcePath) : Prop where
  outline : after.outline = index.outline
  standing : ∀ ref, after.standing ref = index.standing ref ∨ after.standing ref = {} ∧
    ∀ path, index.outline.owningPath? ref.owner = some path → stale.contains path = true

/-- Taking notifications in. -/
theorem invalidate_notified (stale : List SourcePath) (notifications : List Notification)
    (index : Index) :
    Invalidated index (invalidateNotified stale notifications index).2
        (invalidateNotified stale notifications index).1 ∧
      ∀ path, stale.contains path = true →
        (invalidateNotified stale notifications index).1.contains path = true := by
  induction notifications generalizing stale index with
  | nil => exact ⟨⟨rfl, fun _ => Or.inl rfl⟩, fun _ h => h⟩
  | cons notification rest ih =>
      unfold invalidateNotified
      rcases notification.subscriber with ref | _
      · dsimp only [invalidate]
        rcases huse : index.outline.use? ref with _ | use
        · exact ih stale index
        · have hreleased : ∀ next : List SourcePath,
              (∀ path, stale.contains path = true → next.contains path = true) →
              (∀ path, index.outline.owningPath? ref.owner = some path →
                next.contains path = true) →
              Invalidated index (invalidateNotified next rest (index.release ref)).2
                  (invalidateNotified next rest (index.release ref)).1 ∧
                ∀ path, stale.contains path = true →
                  (invalidateNotified next rest (index.release ref)).1.contains path = true := by
            intro next hkeeps hlisted
            obtain ⟨⟨houtline, hstanding⟩, hmore⟩ := ih next (index.release ref)
            refine ⟨⟨houtline, fun other => ?_⟩, fun path hpath => hmore path (hkeeps path hpath)⟩
            rcases hstanding other with hsame | hblank
            · rw [standing_release] at hsame
              split at hsame
              · next heq =>
                  rw [heq] at hsame ⊢
                  exact Or.inr ⟨hsame, fun path hpath => hmore path (hlisted path hpath)⟩
              · exact Or.inl hsame
            · exact Or.inr hblank
          refine hreleased _ ?_ ?_
          · intro path hpath
            split
            · rw [contains_append_new, hpath, Bool.true_or]
            · exact hpath
          · intro path hpath
            rw [outline_release, hpath]
            exact (contains_append_new ..).trans (by rw [BEq.refl path, Bool.or_true])
      · exact ih stale index

/-- What lies in a file that is not listed as stale is as it was. -/
theorem Invalidated.same_file {index after : Index} {stale : List SourcePath}
    (h : Invalidated index after stale) (hground : index.outline.Grounded) {path : SourcePath}
    {file : NodeId} (hfile : index.outline.fileAt? path = some file)
    (hstale : stale.contains path = false) : SameFile index after file := by
  refine ⟨h.outline ▸ .refl _ _, fun {ref} hbelow => ?_⟩
  rcases h.standing ref with hsame | ⟨_, hlisted⟩
  · exact hsame
  · obtain ⟨found, hfound, hpath⟩ := hground.owning_path? hfile hbelow
    have hcontains := hlisted found hfound
    rw [List.contains_congr hpath, hstale] at hcontains
    cases hcontains

end Index

namespace Workspace

variable {workspace after : Workspace} {path : SourcePath} {method : NodeId}

/-! ## Taking in what has happened -/

/-- A workspace that has taken in what has happened to its index. -/
def taken (workspace : Workspace) : Workspace :=
  workspace.takeStale.takeFailures

/-- What taking in does not change. -/
theorem exists_taken (workspace : Workspace) :
    ∃ index pending hasGrown, workspace.taken = { workspace with index, pending, hasGrown } ∧
      index.outline = workspace.index.outline := by
  have houtline := (Index.invalidate_notified [] workspace.index.outbox
    { workspace.index with outbox := [] }).1.outline
  unfold taken takeFailures
  split <;> exact ⟨_, _, _, rfl, houtline⟩

@[simp] theorem outline_taken (workspace : Workspace) :
    workspace.taken.index.outline = workspace.index.outline := by
  obtain ⟨_, _, _, htaken, houtline⟩ := workspace.exists_taken
  rw [htaken, houtline]

theorem index_taken (workspace : Workspace) : workspace.taken.index = workspace.takeStale.index := by
  unfold taken takeFailures
  split <;> rfl

/-- Making files stale keeps a workspace sound. -/
theorem Sound.follows_invalidated (h : workspace.Sound) {index : Index} {stale : List SourcePath}
    (hinvalidated : Index.Invalidated workspace.index index stale) :
    Follows workspace { workspace with
      index, pending := stale.foldl appendNew workspace.pending } := by
  have houtline := hinvalidated.outline
  have hground := h.filing.ground
  have hnotStale : ∀ {path}, (stale.foldl appendNew workspace.pending).contains path = false →
      workspace.pending.contains path = false ∧ stale.contains path = false := by
    intro path hpath
    rwa [contains_foldl_append_new, Bool.or_eq_false_iff] at hpath
  refine ⟨⟨houtline ▸ h.filing, ⟨?_, ?_⟩, h.unique, h.indexed, h.distinct.foldl_append_new _, ?_, ?_⟩,
    rfl, ?_⟩
  · intro ref hstatus
    rcases hinvalidated.standing ref with hsame | ⟨hblank, _⟩
    · exact h.tidy.idle ref (hsame ▸ hstatus)
    · rw [hblank] at hstatus
      cases hstatus
  · intro ref hname
    rcases hinvalidated.standing ref with hsame | ⟨hblank, _⟩
    · rw [hsame]
      exact h.tidy.named ref (houtline ▸ hname)
    · rw [hblank]
  · intro path method hpending hmethod hname
    rw [houtline] at hmethod hname
    obtain ⟨hpending, hstale⟩ := hnotStale hpending
    obtain ⟨file, hfile, _⟩ := Outline.mem_methods_at_iff.1 hmethod
    have hbelow := hground.well.below_of_mem_methods_at hfile hmethod
    rw [@Index.SameFile.standing _ _ _ (hinvalidated.same_file hground hfile hstale)
      (.returnType method) hbelow]
    exact h.settled hpending hmethod hname
  · intro path hpending hopen
    obtain ⟨hpending, hstale⟩ := hnotStale hpending
    obtain ⟨decl, hsource⟩ := h.indexed hopen
    obtain ⟨_, _, file, hfile⟩ := h.filing.indexed hsource
    have hcurrent := @current_diagnostics_eq workspace
      { workspace with index, pending := stale.foldl appendNew workspace.pending } path file
      hground.well (houtline ▸ hground.well) rfl hfile (houtline ▸ hfile)
      (hinvalidated.same_file hground hfile hstale)
    rw [hcurrent]
    exact h.published hpending hopen
  · intro ref hname
    rcases hinvalidated.standing ref with hsame | ⟨hblank, _⟩
    · exact Or.inr ⟨houtline ▸ hname, hsame, fun known => by rw [houtline]⟩
    · exact Or.inl (by rw [hblank])

/-- Letting more files await resolution keeps a workspace sound. -/
theorem Sound.follows_take_failures (h : workspace.Sound) :
    Follows workspace workspace.takeFailures := by
  unfold takeFailures
  split
  · refine ⟨⟨h.filing, h.tidy, h.unique, h.indexed, h.distinct.foldl_append_new _, ?_, ?_⟩, rfl,
      .refl _⟩
    · intro path method hpending
      rw [contains_foldl_append_new, Bool.or_eq_false_iff] at hpending
      exact h.settled hpending.1
    · intro path hpending
      rw [contains_foldl_append_new, Bool.or_eq_false_iff] at hpending
      exact h.published hpending.1
  · exact h.follows_self

theorem Sound.follows_take_stale (h : workspace.Sound) : Follows workspace workspace.takeStale := by
  obtain ⟨houtline, hstanding⟩ := (Index.invalidate_notified [] workspace.index.outbox
    { workspace.index with outbox := [] }).1
  exact h.follows_invalidated ⟨houtline, hstanding⟩

/-- Taking in what has happened keeps a workspace sound. -/
theorem Sound.follows_taken (h : workspace.Sound) : Follows workspace workspace.taken :=
  h.follows_take_stale.trans h.follows_take_stale.sound.follows_take_failures

/-- A file with a failed return type awaits resolution if files were indexed. -/
theorem Sound.pending_of_failed (h : workspace.Sound) (hgrown : workspace.hasGrown = true)
    (hmethod : method ∈ workspace.index.outline.methodsAt path)
    (hfailed : (workspace.index.standing (.returnType method)).status = .failed) :
    workspace.takeFailures.pending.contains path = true := by
  obtain ⟨file, hfile, hunder⟩ := Outline.mem_methods_at_iff.1 hmethod
  have hfailure : workspace.index.hasFailure file = true := by
    refine List.any_eq_true.2 ⟨method, hunder, ?_⟩
    by_cases hname : workspace.index.outline.HasName (.returnType method)
    · obtain ⟨use, huse, _⟩ := hname
      simp [Index.reference?, huse, hfailed]
    · rw [h.tidy.named _ hname] at hfailed
      cases hfailed
  obtain ⟨⟨found, _⟩, hentry, rfl⟩ := Option.map_eq_some_iff.1 hfile
  have hkey := List.find?_some hentry
  have hlisted : found ∈ workspace.index.filesWithFailures := by
    rw [Index.filesWithFailures, List.mem_mergeSort]
    exact List.mem_map.2 ⟨_, List.mem_filter.2 ⟨List.mem_of_find?_eq_some hentry, hfailure⟩, rfl⟩
  rw [takeFailures, if_pos hgrown, contains_foldl_append_new]
  have hcontains : workspace.index.filesWithFailures.contains path = true :=
    List.contains_iff_exists_mem_beq.2 ⟨found, hlisted, BEq.symm hkey⟩
  rw [hcontains, Bool.or_true]

/-! ## Resolving and publishing -/

/-- A workspace after a pass over its index. -/
def afterPass (workspace : Workspace) (pass : Pass) : Workspace :=
  { workspace with index := workspace.index.afterPass pass, health := pass.health }

/-- The pass that resolves the return types of files in turn. -/
def passOver (workspace : Workspace) (paths : List SourcePath) : Pass :=
  (workspace.index.outline.resolveMethods .live (paths.flatMap workspace.index.outline.methodsAt)
    (workspace.index.pass workspace.health)).2

theorem resolve_file_eq (workspace : Workspace) (path : SourcePath) :
    workspace.resolveFile path = workspace.afterPass (workspace.passOver [path]) := by
  unfold resolveFile passOver Outline.methodsAt
  rw [List.flatMap_singleton]
  rcases workspace.index.outline.fileAt? path with _ | file <;> rfl

/-- Resolving files in turn is one pass over their methods. -/
theorem foldl_resolve_file_eq (workspace : Workspace) (paths : List SourcePath) :
    paths.foldl resolveFile workspace = workspace.afterPass (workspace.passOver paths) := by
  induction paths generalizing workspace with
  | nil => rfl
  | cons path rest ih =>
      have hpass : workspace.passOver (path :: rest) =
          (workspace.afterPass (workspace.passOver [path])).passOver rest := by
        simp only [passOver, List.flatMap_cons, Outline.resolve_methods_append, List.flatMap_nil,
          List.append_nil]
        rfl
      rw [List.foldl_cons, resolve_file_eq, ih, hpass]
      rfl

/-- Equal paths have equal diagnostics. -/
theorem map_key_current_diagnostics (workspace : Workspace) {path other : SourcePath}
    (h : (path == other) = true) : (workspace.currentDiagnostics path).map Diagnostic.key =
      (workspace.currentDiagnostics other).map Diagnostic.key := by
  have hmethods := workspace.index.outline.methods_at_congr h
  have hcomponents := SourcePath.beq_iff_components_eq.1 h
  rw [current_diagnostics_eq_filter_map, current_diagnostics_eq_filter_map, hmethods,
    List.map_filterMap, List.map_filterMap]
  refine List.filterMap_congr (fun method _ => ?_)
  unfold diagnosticOf?
  split
  · split
    · split <;> simp [Diagnostic.key, Diagnostic.dependency, hcomponents]
    · rfl
    · simp [Diagnostic.key, Diagnostic.unresolved, hcomponents]
  · rfl

/-- What is said about a method depends on the outline and on the standing of its return
type. -/
theorem diagnostic_of?_eq {settings : Settings} {index other : Index}
    (houtline : other.outline = index.outline)
    (hstanding : other.standing (.returnType method) = index.standing (.returnType method)) :
    diagnosticOf? settings other path method = diagnosticOf? settings index path method := by
  simp only [diagnosticOf?, Index.reference?, houtline, hstanding]

/-- Publishing the diagnostics of a file changes what is published for it and nothing else. -/
theorem exists_publish (workspace : Workspace) (first : SourcePath) :
    ∃ published, (workspace.publish first).2 = { workspace with published } ∧
      ∀ path, ({ workspace with published } : Workspace).diagnostics path =
        if workspace.isOpen path && first == path then workspace.currentDiagnostics first
        else workspace.diagnostics path := by
  unfold publish
  cases hopen : workspace.isOpen first with
  | true =>
      refine ⟨_, rfl, fun path => ?_⟩
      simp only [diagnostics, Table.find?_insert]
      cases hpath : first == path with
      | true =>
          have hother : workspace.isOpen path = true := (List.contains_congr hpath).symm.trans hopen
          simp [hother]
      | false => simp
  | false =>
      refine ⟨_, rfl, fun path => ?_⟩
      cases hpath : first == path with
      | true =>
          have hother : workspace.isOpen path = false := (List.contains_congr hpath).symm.trans hopen
          simp [hother]
      | false => simp

/-- Publishing brings the diagnostics of open files up to date and changes nothing else. -/
theorem exists_publish_all (workspace : Workspace) (paths : List SourcePath) :
    ∃ published, (publishAll paths workspace).2 = { workspace with published } ∧
      ∀ path, workspace.isOpen path = true →
        (({ workspace with published } : Workspace).diagnostics path).map Diagnostic.key =
          if paths.contains path then (workspace.currentDiagnostics path).map Diagnostic.key
          else (workspace.diagnostics path).map Diagnostic.key := by
  induction paths generalizing workspace with
  | nil => exact ⟨workspace.published, rfl, fun _ _ => rfl⟩
  | cons first rest ih =>
      obtain ⟨middle, hfirst, hmiddle⟩ := workspace.exists_publish first
      obtain ⟨published, hrest, hpublished⟩ := ih { workspace with published := middle }
      refine ⟨published, ?_, fun path hopen => ?_⟩
      · simpa only [publishAll, hfirst] using hrest
      · refine (hpublished path hopen).trans ?_
        rw [List.contains_cons, hmiddle, hopen, @BEq.comm _ _ _ path first]
        cases hpath : first == path with
        | true =>
            simp only [Bool.true_and, Bool.true_or, if_true]
            split
            · rfl
            · exact workspace.map_key_current_diagnostics hpath
        | false =>
            simp only [Bool.and_false, Bool.false_or, Bool.false_eq_true, if_false]
            rfl

/-! ## Refreshing -/

/-- The workspace after a refresh. -/
theorem snd_refresh (workspace : Workspace) : workspace.refresh.2 =
    (publishAll workspace.taken.pending
      { workspace.taken.afterPass (workspace.taken.passOver workspace.taken.pending) with
        pending := [], withdrawn := [] }).2 := by
  have hfold := foldl_resolve_file_eq { workspace.taken with pending := [], withdrawn := [] }
    workspace.taken.pending
  change (publishAll workspace.taken.pending (workspace.taken.pending.foldl resolveFile
    { workspace.taken with pending := [], withdrawn := [] })).2 = _
  rw [hfold]
  rfl

/-- What a refresh does not change. -/
theorem exists_refresh (workspace : Workspace) :
    ∃ index health published hasGrown, workspace.refresh.2 = { workspace with
      index, health, published, hasGrown, pending := [], withdrawn := [] } ∧
      index.outline = workspace.index.outline := by
  obtain ⟨index, pending, hasGrown, htaken, houtline⟩ := workspace.exists_taken
  obtain ⟨published, hpublish, _⟩ := exists_publish_all
    { workspace.taken.afterPass (workspace.taken.passOver workspace.taken.pending) with
      pending := [], withdrawn := [] } workspace.taken.pending
  rw [snd_refresh, hpublish, htaken]
  exact ⟨_, _, _, _, rfl, houtline⟩

@[simp] theorem settings_refresh (workspace : Workspace) :
    workspace.refresh.2.settings = workspace.settings := by
  obtain ⟨_, _, _, _, hrefresh, _⟩ := workspace.exists_refresh
  rw [hrefresh]

@[simp] theorem source?_refresh (workspace : Workspace) :
    workspace.refresh.2.source? = workspace.source? := by
  obtain ⟨_, _, _, _, hrefresh, _⟩ := workspace.exists_refresh
  rw [hrefresh]
  rfl

@[simp] theorem is_open_refresh (workspace : Workspace) :
    workspace.refresh.2.isOpen = workspace.isOpen := by
  obtain ⟨_, _, _, _, hrefresh, _⟩ := workspace.exists_refresh
  rw [hrefresh]
  rfl

@[simp] theorem pending_refresh (workspace : Workspace) : workspace.refresh.2.pending = [] := by
  obtain ⟨_, _, _, _, hrefresh, _⟩ := workspace.exists_refresh
  rw [hrefresh]

@[simp] theorem outline_refresh (workspace : Workspace) :
    workspace.refresh.2.index.outline = workspace.index.outline := by
  obtain ⟨_, _, _, _, hrefresh, houtline⟩ := workspace.exists_refresh
  rw [hrefresh, houtline]

/-- The index after a refresh is that after a pass over the files that await resolution. -/
theorem index_refresh (workspace : Workspace) : workspace.refresh.2.index =
    workspace.taken.index.afterPass (workspace.taken.passOver workspace.taken.pending) := by
  obtain ⟨published, hpublish, _⟩ := exists_publish_all
    { workspace.taken.afterPass (workspace.taken.passOver workspace.taken.pending) with
      pending := [], withdrawn := [] } workspace.taken.pending
  rw [snd_refresh, hpublish]
  rfl

theorem standing_refresh (workspace : Workspace) (ref : RefId) :
    workspace.refresh.2.index.standing ref =
      (workspace.taken.passOver workspace.taken.pending).standing ref := by
  rw [index_refresh]
  rfl

/-- A return type is resolved with its file if the file awaits resolution, and left if not. -/
theorem Sound.standing_pass_over (h : workspace.Sound)
    (hmethod : method ∈ workspace.index.outline.methodsAt path) :
    (workspace.pending.contains path = true → workspace.index.outline.HasName (.returnType method) →
        ((workspace.passOver workspace.pending).standing (.returnType method)).status ≠ .unresolved) ∧
      (workspace.pending.contains path = false →
        (workspace.passOver workspace.pending).standing (.returnType method) =
          workspace.index.standing (.returnType method)) := by
  have hground := h.filing.ground
  obtain ⟨_, _, huntouched, hdone⟩ := workspace.index.outline.resolve_methods_settles .live
    (workspace.pending.flatMap workspace.index.outline.methodsAt)
    (workspace.index.pass workspace.health)
  refine ⟨fun hpending hname => ?_, fun hpending => huntouched method (fun hlisted => ?_)⟩
  · obtain ⟨other, hother, hpath⟩ := List.contains_iff_exists_mem_beq.1 hpending
    refine hdone method (List.mem_flatMap.2 ⟨other, hother, ?_⟩) hname
    rwa [← Outline.methods_at_congr _ hpath]
  · obtain ⟨other, hother, hmethod'⟩ := List.mem_flatMap.1 hlisted
    have hpath := hground.beq_of_mem_methods_at hmethod hmethod'
    rw [List.contains_iff_exists_mem_beq.2 ⟨other, hother, hpath⟩] at hpending
    cases hpending

/-- A refresh keeps a workspace sound. -/
theorem Sound.refresh (h : workspace.Sound) : workspace.refresh.2.Sound := by
  have htaken := h.follows_taken.sound
  rw [snd_refresh]
  generalize workspace.taken = taken at htaken ⊢
  have hground := htaken.filing.ground
  obtain ⟨hadvances, hnameless, _, _⟩ := taken.index.outline.resolve_methods_settles .live
    (taken.pending.flatMap taken.index.outline.methodsAt) (taken.index.pass taken.health)
  obtain ⟨published, hpublish, hsaid⟩ := exists_publish_all
    { taken.afterPass (taken.passOver taken.pending) with pending := [], withdrawn := [] }
    taken.pending
  rw [hpublish]
  refine ⟨htaken.filing, ⟨fun ref hstatus => ?_, fun ref hname => ?_⟩, htaken.unique, htaken.indexed,
    .nil, ?_, ?_⟩
  · rcases hadvances ref with hsame | ⟨_, hsettled⟩
    · exact htaken.tidy.idle ref ((congrArg Standing.status hsame).symm.trans hstatus)
    · exact hsettled.status_ne.2 hstatus
  · exact (congrArg Standing.status (hnameless ref hname)).trans (htaken.tidy.named ref hname)
  · intro path method _ hmethod hname
    cases hpending : taken.pending.contains path with
    | true => exact (htaken.standing_pass_over hmethod).1 hpending hname
    | false =>
        have hsame := (htaken.standing_pass_over hmethod).2 hpending
        exact fun hstatus => htaken.settled hpending hmethod hname
          ((congrArg Standing.status hsame).symm.trans hstatus)
  · intro path _ hopen
    rw [Diagnostic.list_beq_iff_map_key_eq]
    refine (hsaid path hopen).trans ?_
    cases hpending : taken.pending.contains path with
    | true => rfl
    | false =>
        have hpublished := Diagnostic.list_beq_iff_map_key_eq.1 (htaken.published hpending hopen)
        refine hpublished.trans (congrArg _ ?_)
        rw [current_diagnostics_eq_filter_map, current_diagnostics_eq_filter_map]
        refine List.filterMap_congr (fun method hmethod => ?_)
        have hstanding : (taken.index.afterPass (taken.passOver taken.pending)).standing
            (.returnType method) = taken.index.standing (.returnType method) :=
          (htaken.standing_pass_over hmethod).2 hpending
        have hsame : diagnosticOf? taken.settings
            (taken.index.afterPass (taken.passOver taken.pending)) path method =
              diagnosticOf? taken.settings taken.index path method :=
          diagnostic_of?_eq rfl hstanding
        exact hsame.symm

/-- Where bounds do not lead back and nothing but meanings is remembered, a refresh settles
references on their meanings. -/
theorem Sound.settles_refresh (h : workspace.Sound) (hacyclic : workspace.AcyclicSources)
    {kept : RefId → Option Meaning}
    (hfits : (workspace.taken.index.pass {}).Fits workspace.index.outline kept .live)
    (hnamed : workspace.index.outline.SettlesNamed kept) :
    Pass.Settles workspace.index.outline kept (workspace.taken.index.pass {})
      (workspace.refresh.2.index.pass {}) := by
  have houtline := workspace.outline_taken
  have hfits' : (workspace.taken.index.pass workspace.taken.health).Fits workspace.index.outline
      kept .live := ⟨hfits.resolved, hfits.free, hfits.failed⟩
  have hsettles := (h.filing.ground.well.resolve_methods (.of_none (h.acyclic_bounds hacyclic)) hnamed
    hfits' h.follows_taken.sound.tidy.idle
    (workspace.taken.pending.flatMap workspace.index.outline.methodsAt)).1
  rw [index_refresh]
  rw [← houtline] at hsettles ⊢
  exact hsettles

end Workspace

end CanonicalNames
