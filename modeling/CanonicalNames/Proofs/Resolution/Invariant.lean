import CanonicalNames.Proofs.Resolution.Discipline

/-!
# Invariants of resolution

A request changes a pass in three ways: it puts a reference in progress, it settles one on a
hit, and it gives one up. `Pass.Invariant` lists what has to be shown of these three steps so
that a property of passes survives every request, however requests lead into each other
(`Invariant.resolve`). A step that settles a reference may use what is known of its hit:
`Sound pass hit` is shown where the hit is found, from the outline alone or from the standing
of the reference that was asked for.

`Pass.SearchInvariant` is the general form, in which the soundness of a hit may depend on the name
that was searched for and on where the search began, and only requests of a kind that searches
make are looked at.
-/

namespace CanonicalNames

/-- The steps of `Allowed` requests keep `Holds`, searches make such requests only, and the hits
of a search for a name from an anchor are found `Sound`. -/
structure Pass.SearchInvariant (outline : Outline) (mode : Mode)
    (Allowed : RefId → Option NodeId → Prop) (Holds : Pass → Prop)
    (Sound : Pass → String → NodeId → Hit → Prop) : Prop where
  start : ∀ {pass ref}, Holds pass → (outline.use? ref).isSome = true →
    (pass.standing ref).mayBegin mode.retriesFailed = true →
    Holds (pass.setStanding ref (pass.standing ref).start)
  settled : ∀ {pass name anchor hit}, Holds pass →
    Query.settled (some hit) ∈ Scope.queries outline name anchor → Sound pass name anchor hit
  allowed : ∀ {name anchor ref start read},
    Query.asking ref start read ∈ Scope.queries outline name anchor → Allowed ref start
  asked : ∀ {pass name anchor ref start read canonical hit}, Holds pass →
    Query.asking ref start read ∈ Scope.queries outline name anchor →
    (outline.use? ref).isSome = true → (pass.standing ref).canonical? = some canonical →
    read canonical (pass.standing ref).subscription = some hit → Sound pass name anchor hit
  commit : ∀ {pass ref start use hit}, Holds pass → Allowed ref start →
    outline.Accepts ref start use → Sound pass use.name (start.getD ref.owner) hit →
    (pass.standing ref).status = .inProgress → Holds (outline.commit mode ref hit pass).2
  giveUp : ∀ {pass ref}, Holds pass → (outline.use? ref).isSome = true →
    (pass.standing ref).status = .inProgress → Holds (pass.giveUp ref)

/-- The steps of a request keep `Holds`, and hits are found `Sound`. -/
structure Pass.Invariant (outline : Outline) (mode : Mode) (Holds : Pass → Prop)
    (Sound : Pass → Hit → Prop) : Prop where
  start : ∀ {pass ref}, Holds pass → (outline.use? ref).isSome = true →
    (pass.standing ref).mayBegin mode.retriesFailed = true →
    Holds (pass.setStanding ref (pass.standing ref).start)
  settled : ∀ {pass name anchor hit}, Holds pass →
    Query.settled (some hit) ∈ Scope.queries outline name anchor → Sound pass hit
  asked : ∀ {pass name anchor ref start read canonical hit}, Holds pass →
    Query.asking ref start read ∈ Scope.queries outline name anchor →
    (outline.use? ref).isSome = true → (pass.standing ref).canonical? = some canonical →
    read canonical (pass.standing ref).subscription = some hit → Sound pass hit
  commit : ∀ {pass ref hit}, Holds pass → Sound pass hit → (outline.use? ref).isSome = true →
    (pass.standing ref).status = .inProgress → Holds (outline.commit mode ref hit pass).2
  giveUp : ∀ {pass ref}, Holds pass → (outline.use? ref).isSome = true →
    (pass.standing ref).status = .inProgress → Holds (pass.giveUp ref)

namespace Outline

variable {outline : Outline} {mode : Mode}

/-- A canonical name is answered only about a reference that exists and has it now. -/
def Truthful (outline : Outline) (resolver : Resolver) : Prop :=
  ∀ ref start pass canonical, (resolver ref start pass).1 = .resolved canonical →
    (outline.use? ref).isSome = true ∧
      ((resolver ref start pass).2.standing ref).canonical? = some canonical

theorem truthful_attempt (resolver : Resolver) : outline.Truthful (outline.attempt mode resolver) := by
  intro ref start pass canonical hanswer
  by_cases haccepts : ∃ use, outline.Accepts ref start use
  · obtain ⟨use, haccepts⟩ := haccepts
    refine ⟨by rw [haccepts.use_eq]; rfl, ?_⟩
    cases hbegin : (pass.standing ref).mayBegin mode.retriesFailed with
    | false =>
        rw [attempt_of_not_may_begin resolver pass haccepts hbegin] at hanswer ⊢
        simp only [Standing.answer, Standing.canonical?] at hanswer ⊢
        cases hstatus : (pass.standing ref).status <;> simp_all
    | true =>
        rw [attempt_of_may_begin resolver pass haccepts hbegin] at hanswer ⊢
        generalize Probe.first _ _ = found at hanswer ⊢
        obtain ⟨hit, after⟩ := found
        cases hit with
        | some hit =>
            simp only [conclude, commit_fst, Resolution.resolved.injEq] at hanswer
            simp [conclude, Standing.canonical?, status_commit_self, hanswer]
        | none => cases hanswer
  · rw [attempt_of_not_accepts resolver pass (fun use h => haccepts ⟨use, h⟩)] at hanswer
    cases hanswer

theorem truthful_resolve_within (depth : Nat) :
    outline.Truthful (outline.resolveWithin mode depth) := by
  cases depth <;> exact truthful_attempt _

end Outline

namespace Pass.SearchInvariant

variable {outline : Outline} {mode : Mode} {Allowed : RefId → Option NodeId → Prop}
  {Holds : Pass → Prop} {Sound : Pass → String → NodeId → Hit → Prop} {resolver : Resolver}

/-- A search keeps the invariant if the requests that it makes do, and its hit is sound. -/
theorem search (h : SearchInvariant outline mode Allowed Holds Sound)
    (htruthful : outline.Truthful resolver)
    (hresolver : ∀ ref start pass, Allowed ref start → Holds pass →
      Holds (resolver ref start pass).2)
    {name : String} {anchor : NodeId} {queries : List Query}
    (hqueries : queries ⊆ Scope.queries outline name anchor) {pass : Pass} (hpass : Holds pass) :
    let found := Probe.first (queries.map (Query.run resolver)) pass
    Holds found.2 ∧ ∀ hit, found.1 = some hit → Sound found.2 name anchor hit := by
  induction queries generalizing pass with
  | nil => exact ⟨hpass, fun _ hhit => by cases hhit⟩
  | cons query rest ih =>
      have hquery := hqueries (List.mem_cons_self ..)
      have hrun : Holds (query.run resolver pass).2 ∧ ∀ hit,
          (query.run resolver pass).1 = some hit →
            Sound (query.run resolver pass).2 name anchor hit := by
        cases query with
        | settled found =>
            refine ⟨hpass, fun hit hhit => ?_⟩
            obtain rfl : found = some hit := hhit
            exact h.settled hpass hquery
        | asking ref start read =>
            have hafter := hresolver ref start pass (h.allowed hquery) hpass
            have htrue := htruthful ref start pass
            simp only [Query.run]
            generalize resolver ref start pass = result at hafter htrue ⊢
            obtain ⟨answer, after⟩ := result
            cases answer with
            | resolved canonical =>
                obtain ⟨huse, hcanonical⟩ := htrue canonical rfl
                exact ⟨hafter, fun hit hhit => h.asked hafter hquery huse hcanonical hhit⟩
            | _ => exact ⟨hafter, fun _ hhit => by cases hhit⟩
      simp only [List.map_cons, Probe.first]
      generalize query.run resolver pass = result at hrun ⊢
      obtain ⟨hit, after⟩ := result
      cases hit with
      | some hit => exact hrun
      | none => exact ih (fun other hother => hqueries (List.mem_cons_of_mem _ hother)) hrun.1

/-- An attempt that begins makes a search, which keeps the invariant and leaves the reference in
progress, and settles the reference on its hit. -/
theorem attempt_eq_conclude (h : SearchInvariant outline mode Allowed Holds Sound)
    (htruthful : outline.Truthful resolver)
    (hadvances : ∀ ref start pass, Advances pass (resolver ref start pass).2)
    (hresolver : ∀ ref start pass, Allowed ref start → Holds pass →
      Holds (resolver ref start pass).2)
    {ref : RefId} {start : Option NodeId} {use : TypeUse} {pass : Pass} (hpass : Holds pass)
    (haccepts : outline.Accepts ref start use)
    (hbegin : (pass.standing ref).mayBegin mode.retriesFailed = true) :
    ∃ found, outline.attempt mode resolver ref start pass = outline.conclude mode ref found ∧
      Holds found.2 ∧ (found.2.standing ref).status = .inProgress ∧
      ∀ hit, found.1 = some hit → Sound found.2 use.name (start.getD ref.owner) hit := by
  refine ⟨_, Outline.attempt_of_may_begin resolver pass haccepts hbegin, ?_⟩
  have huse : (outline.use? ref).isSome = true := by rw [haccepts.use_eq]; rfl
  obtain ⟨hholds, hsound⟩ := h.search htruthful hresolver
    (List.Subset.refl (Scope.queries outline use.name (start.getD ref.owner)))
    (h.start hpass huse hbegin)
  refine ⟨hholds, ?_, hsound⟩
  have hkept := Probe.first_map_run_keeps Advances.refl Advances.trans
    (Scope.queries outline use.name (start.getD ref.owner))
    (fun ref start _ _ => hadvances ref start)
    (pass.setStanding ref (pass.standing ref).start)
  rw [hkept.eq_of_not_open (by rw [standing_set_standing_self, Standing.may_begin_start]),
    standing_set_standing_self]
  rfl

/-- An attempt keeps the invariant if the requests that it makes do. -/
theorem attempt (h : SearchInvariant outline mode Allowed Holds Sound)
    (htruthful : outline.Truthful resolver)
    (hadvances : ∀ ref start pass, Advances pass (resolver ref start pass).2)
    (hresolver : ∀ ref start pass, Allowed ref start → Holds pass →
      Holds (resolver ref start pass).2)
    (ref : RefId) (start : Option NodeId) (pass : Pass) (hallowed : Allowed ref start)
    (hpass : Holds pass) : Holds (outline.attempt mode resolver ref start pass).2 := by
  rcases Outline.attempt_cases resolver ref start pass with hsame | ⟨use, haccepts, hbegin, -⟩
  · rw [hsame]
    exact hpass
  · obtain ⟨⟨hit, after⟩, hattempt, hholds, hprogress, hsound⟩ :=
      h.attempt_eq_conclude htruthful hadvances hresolver hpass haccepts hbegin
    rw [hattempt]
    cases hit with
    | some hit => exact h.commit hholds hallowed haccepts (hsound hit rfl) hprogress
    | none => exact h.giveUp hholds (by rw [haccepts.use_eq]; rfl) hprogress

/-- A request that is allowed keeps the invariant. -/
theorem resolve (h : SearchInvariant outline mode Allowed Holds Sound) (ref : RefId)
    (start : Option NodeId) {pass : Pass} (hallowed : Allowed ref start) (hpass : Holds pass) :
    Holds (outline.resolve mode ref start pass).2 := by
  suffices hdepth : ∀ depth ref start pass, Allowed ref start → Holds pass →
      Holds (outline.resolveWithin mode depth ref start pass).2 from
    hdepth _ ref start pass hallowed hpass
  intro depth
  induction depth with
  | zero =>
      exact h.attempt (fun _ _ _ _ hanswer => by cases hanswer) (fun _ _ pass => .refl pass)
        (fun _ _ _ _ hpass => hpass)
  | succ depth ih =>
      exact h.attempt (Outline.truthful_resolve_within depth)
        (Outline.resolve_within_advances depth) ih

end Pass.SearchInvariant

namespace Pass.Invariant

variable {outline : Outline} {mode : Mode} {Holds : Pass → Prop} {Sound : Pass → Hit → Prop}

/-- An invariant that does not look at searches. -/
theorem search_invariant (h : Invariant outline mode Holds Sound) :
    SearchInvariant outline mode (fun _ _ => True) Holds (fun pass _ _ hit => Sound pass hit) where
  start := h.start
  settled := h.settled
  allowed _ := trivial
  asked := h.asked
  commit hpass _ haccepts hsound := h.commit hpass hsound (by rw [haccepts.use_eq]; rfl)
  giveUp := h.giveUp

/-- A request keeps the invariant. -/
theorem resolve (h : Invariant outline mode Holds Sound) (ref : RefId) (start : Option NodeId)
    {pass : Pass} (hpass : Holds pass) : Holds (outline.resolve mode ref start pass).2 :=
  h.search_invariant.resolve ref start trivial hpass

/-- Resolving return types in turn keeps the invariant. -/
theorem resolve_methods (h : Invariant outline mode Holds Sound) (methods : List NodeId)
    {pass : Pass} (hpass : Holds pass) : Holds (outline.resolveMethods mode methods pass).2 :=
  @Outline.resolve_methods_keeps outline mode (fun before after => Holds before → Holds after)
    (fun _ hpass => hpass) (fun hfirst hsecond hpass => hsecond (hfirst hpass)) methods
    (fun method _ _ hpass => h.resolve (.returnType method) none hpass) pass hpass

end Pass.Invariant

end CanonicalNames
