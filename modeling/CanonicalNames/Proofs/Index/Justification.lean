import CanonicalNames.Proofs.Index.Confinement
import CanonicalNames.Proofs.Index.Departure
import CanonicalNames.Proofs.Outline.Address

/-!
# Why a reference has its canonical name

A reference that a request resolves has a reason in the index that the request leaves
(`Outline.Justified`): a keyword, a class that is found under the canonical name, a type parameter
in scope, or an import that names a type outside the outline. A hit has its reason where it is
found (`query_vouched_of_mem_queries`), and settling a reference on the hit hands the reason on to
the reference (`WellFormed.justified_commit`).

Bounds and supertypes are settled by requests inside the request. `Outline.Accounted` says of all
references at once that they are justified if they are fresh; it is an invariant of requests
(`WellFormed.accounted_invariant`), since a later step changes one reference alone, and this one
was not resolved, so that nobody's reason was about it (`Justified.of_apart`).
-/

namespace CanonicalNames

theorem Standing.is_resolved_of_status {standing : Standing} {canonical : String} {origin : Origin}
    (h : standing.status = .resolved canonical origin) : standing.isResolved = true := by
  simp [isResolved, canonical?, h]

/-! ## What a request may do to a reference -/

namespace Pass

/-- The reference has the subscription and the registrations that it had. -/
def Untouched (before after : Pass) (ref : RefId) : Prop :=
  (after.standing ref).subscription = (before.standing ref).subscription ∧
    ∀ node, after.subscriptions.holds node (.reference ref) =
      before.subscriptions.holds node (.reference ref)

/-- The reference is subscribed to the node and registered on it. -/
def Rests (pass : Pass) (ref : RefId) (node : NodeId) : Prop :=
  (pass.standing ref).subscription = some node ∧
    pass.subscriptions.holds node (.reference ref) = true

/-- Other references have the standings and the registrations that they had. -/
structure Apart (before after : Pass) (ref : RefId) : Prop where
  standing : ∀ other, ref ≠ other → after.standing other = before.standing other
  holds : ∀ other, ref ≠ other → ∀ node, after.subscriptions.holds node (.reference other) =
    before.subscriptions.holds node (.reference other)

variable {first second third pass : Pass} {ref other : RefId}

theorem Untouched.refl (pass : Pass) (ref : RefId) : Untouched pass pass ref :=
  ⟨rfl, fun _ => rfl⟩

theorem Untouched.trans (h : Untouched first second ref) (k : Untouched second third ref) :
    Untouched first third ref :=
  ⟨k.1.trans h.1, fun node => (k.2 node).trans (h.2 node)⟩

theorem Rests.of_untouched {node : NodeId} (h : first.Rests ref node)
    (k : Untouched first second ref) : second.Rests ref node :=
  ⟨k.1.trans h.1, (k.2 node).trans h.2⟩

theorem Apart.untouched (h : Apart first second ref) (hne : ref ≠ other) :
    Untouched first second other :=
  ⟨by rw [h.standing other hne], h.holds other hne⟩

theorem apart_set_standing (pass : Pass) (ref : RefId) (standing : Standing) :
    Apart pass (pass.setStanding ref standing) ref where
  standing _ hne := standing_set_standing_of_ne pass standing hne
  holds _ _ _ := rfl

theorem untouched_set_standing {standing : Standing}
    (h : standing.subscription = (pass.standing ref).subscription) :
    Untouched pass (pass.setStanding ref standing) ref :=
  ⟨by rw [standing_set_standing_self, h], fun _ => rfl⟩

theorem apart_give_up (pass : Pass) (ref : RefId) : Apart pass (pass.giveUp ref) ref where
  standing _ hne := standing_give_up_of_ne pass hne
  holds _ _ _ := rfl

theorem apart_commit (outline : Outline) (mode : Mode) (ref : RefId) (hit : Hit) (pass : Pass) :
    Apart pass (outline.commit mode ref hit pass).2 ref where
  standing _ hne := Outline.standing_commit_of_ne hit pass hne
  holds _ hne := holds_commit_of_ne hit pass hne

/-- A canonical name stays when a reference changes that has none. -/
theorem Apart.canonical?_eq {canonical : String} (h : Apart first second ref)
    (hopen : (first.standing ref).isResolved = false)
    (hcanonical : (first.standing other).canonical? = some canonical) :
    (second.standing other).canonical? = some canonical := by
  have hne : ref ≠ other := by
    rintro rfl
    simp [Standing.isResolved, hcanonical] at hopen
  rw [h.standing other hne, hcanonical]

end Pass

/-! ## Reasons -/

namespace Outline

/-- A file around the anchor has a single import whose last segment is the first segment of the
name, and `canonical` is the name with the path of the import in place of this segment. -/
def ImportedAs (outline : Outline) (name : String) (anchor : NodeId) (canonical : String) : Prop :=
  ∃ file source package imports, file ∈ outline.frames anchor ∧
    outline.element? file = some (.file source package imports) ∧
    ∃ i ∈ imports, i.isWildcard = false ∧ Dotted.last i.path = Dotted.first name ∧
      canonical = Dotted.replaceFirst name i.path

/-- The name is that of a type parameter in scope at the anchor, and `canonical` is what it stands
for: `java.lang.Object` if it has no bounds, or else the canonical name of its first bound. -/
def StandsFor (outline : Outline) (pass : Pass) (name : String) (anchor : NodeId)
    (canonical : String) : Prop :=
  Dotted.isSingle name = true ∧ ∃ param bounds, Scope.InScope outline anchor param ∧
    outline.element? param = some (.typeParameter name bounds) ∧
    (bounds = [] → canonical = "java.lang.Object") ∧
    (bounds ≠ [] → (pass.standing ⟨param, .bound 0⟩).canonical? = some canonical)

/-- The reason for a hit of a search for a name from an anchor. -/
def Vouched (outline : Outline) (pass : Pass) (name : String) (anchor : NodeId) : Hit → Prop
  | .primitive keyword => keyword = name ∧ IsKeyword keyword
  | .declared found => ∃ path, outline.lookupType? path = some found
  | .typeParameter _ canonical _ => outline.StandsFor pass name anchor canonical
  | .dependency canonical =>
    outline.lookupType? canonical = none ∧ outline.ImportedAs name anchor canonical

/-- The reason for the canonical name of a reference that was searched for from an anchor, and
what the reference rests on in live mode. -/
def Justified (outline : Outline) (mode : Mode) (before pass : Pass) (ref : RefId) (name : String)
    (anchor : NodeId) (canonical : String) : Origin → Prop
  | .primitive => canonical = name ∧ IsKeyword canonical ∧ Pass.Untouched before pass ref
  | .declared => ∃ found, outline.lookupType? canonical = some found ∧
    outline.kind? found = some .classDecl ∧ outline.path? found = some canonical ∧
    (mode = .live → pass.Rests ref (outline.restOf found))
  | .typeParameter => outline.StandsFor pass name anchor canonical
  | .dependency => outline.lookupType? canonical = none ∧ outline.ImportedAs name anchor canonical ∧
    (mode = .live → pass.Rests ref rootId)

variable {outline : Outline} {mode : Mode} {before pass after : Pass} {ref other : RefId}
  {name canonical : String} {anchor : NodeId} {origin : Origin} {hit : Hit}

/-! ## Hits -/

theorem vouched_of_declared {path : String} (h : Scope.declared outline path = some hit) :
    outline.Vouched pass name anchor hit := by
  obtain ⟨found, hfound, rfl⟩ := Option.map_eq_some_iff.1 h
  exact ⟨path, hfound⟩

theorem vouched_of_builtin (h : Scope.builtin name = some hit) :
    outline.Vouched pass name anchor hit := by
  unfold Scope.builtin at h
  split at h
  · next hkeyword =>
      obtain rfl := Option.some.inj h
      rw [Bool.and_eq_true] at hkeyword
      exact ⟨rfl, is_primitive_iff.1 hkeyword.2⟩
  · cases h

theorem vouched_of_single_import {file : NodeId} {source : SourcePath} {package : String}
    {imports : List Import} (hfile : file ∈ outline.frames anchor)
    (helement : outline.element? file = some (.file source package imports))
    (h : Scope.singleImport outline imports name = some hit) :
    outline.Vouched pass name anchor hit := by
  obtain ⟨i, hi, rfl⟩ := Option.map_eq_some_iff.1 h
  dsimp only
  rcases hdeclared : Scope.declared outline (Dotted.replaceFirst name i.path) with _ | hit
  · have hchosen := List.find?_some hi
    simp only [Bool.and_eq_true, Bool.not_eq_true', beq_iff_eq] at hchosen
    refine ⟨by simpa [Scope.declared] using hdeclared, file, source, package, imports, hfile,
      helement, i, List.mem_of_find?_eq_some hi, hchosen.1, hchosen.2, rfl⟩
  · exact vouched_of_declared hdeclared

/-- There is a reason for every hit of the query, if the reference that it asks for has the
canonical name that it is answered with. -/
def QueryVouched (outline : Outline) (pass : Pass) (name : String) (anchor : NodeId) :
    Query → Prop
  | .settled found => ∀ hit, found = some hit → outline.Vouched pass name anchor hit
  | .asking ref _ read => ∀ canonical watch hit, (pass.standing ref).canonical? = some canonical →
    read canonical watch = some hit → outline.Vouched pass name anchor hit

/-- A type parameter in scope stands for its bound when the bound has been asked for. -/
theorem query_vouched_parameter {param : NodeId} (hscope : Scope.InScope outline anchor param) :
    outline.QueryVouched pass name anchor (Scope.parameterQuery outline name param) := by
  unfold Scope.parameterQuery
  split
  · next paramName bounds helement =>
      split
      · next hname =>
          simp only [Bool.and_eq_true, beq_iff_eq] at hname
          obtain ⟨hsingle, rfl⟩ := hname
          split
          · next hempty =>
              rintro hit ⟨⟩
              exact ⟨hsingle, param, bounds, hscope, helement, fun _ => rfl,
                fun hne => absurd (List.isEmpty_iff.1 hempty) hne⟩
          · next hbounds =>
              rintro canonical watch hit hcanonical ⟨⟩
              exact ⟨hsingle, param, bounds, hscope, helement,
                fun hnil => absurd (List.isEmpty_iff.2 hnil) hbounds, fun _ => hcanonical⟩
      · exact nofun
  · exact nofun

/-- There is a reason for every hit of a search. -/
theorem query_vouched_of_mem_queries (pass : Pass) {query : Query}
    (hquery : query ∈ Scope.queries outline name anchor) :
    outline.QueryVouched pass name anchor query := by
  refine Scope.forall_mem_queries_around (motive := outline.QueryVouched pass name anchor) nofun
    (fun hit hhit => vouched_of_builtin hhit) (fun path hit hhit => vouched_of_declared hhit)
    (fun param hscope => query_vouched_parameter hscope)
    (fun classId position canonical watch hit _ hhit => vouched_of_declared hhit)
    (fun file source package imports hfile helement hit hhit =>
      vouched_of_single_import hfile helement hhit)
    (fun imports hit hhit => ?_) query hquery
  obtain ⟨i, -, hdeclared⟩ := List.exists_of_findSome?_eq_some hhit
  exact vouched_of_declared hdeclared

/-! ## Settling -/

theorem StandsFor.of_apart (h : outline.StandsFor pass name anchor canonical)
    (hapart : Pass.Apart pass after ref) (hopen : (pass.standing ref).isResolved = false) :
    outline.StandsFor after name anchor canonical := by
  obtain ⟨hsingle, param, bounds, hscope, helement, hnone, hsome⟩ := h
  exact ⟨hsingle, param, bounds, hscope, helement, hnone,
    fun hbounds => hapart.canonical?_eq hopen (hsome hbounds)⟩

/-- A reason stays when another reference changes that has no canonical name. -/
theorem Justified.of_apart (h : outline.Justified mode before pass other name anchor canonical origin)
    (hapart : Pass.Apart pass after ref) (hopen : (pass.standing ref).isResolved = false)
    (hne : ref ≠ other) :
    outline.Justified mode before after other name anchor canonical origin := by
  have huntouched := hapart.untouched hne
  cases origin with
  | primitive => exact ⟨h.1, h.2.1, h.2.2.trans huntouched⟩
  | declared =>
      obtain ⟨found, hfound, hkind, hpath, hrests⟩ := h
      exact ⟨found, hfound, hkind, hpath, fun hlive => (hrests hlive).of_untouched huntouched⟩
  | typeParameter => exact StandsFor.of_apart h hapart hopen
  | dependency => exact ⟨h.1, h.2.1, fun hlive => (h.2.2 hlive).of_untouched huntouched⟩

/-- A reference that is settled in live mode rests on what the hit rests on. -/
theorem rests_commit {node : NodeId} (hrest : (outline.outcome hit).2.2 = some node)
    (htakes : outline.Takes node) (pass : Pass) (ref : RefId) :
    (outline.commit .live ref hit pass).2.Rests ref node := by
  refine ⟨?_, holds_commit_live hrest htakes pass ref⟩
  rw [standing_commit_live pass ref (fun other hother => ?_), hrest]
  · rfl
  · obtain rfl := Option.some.inj (hrest.symm.trans hother)
    exact htakes

/-- The reason for a hit is the reason for the canonical name of the reference that is settled on
it. -/
theorem WellFormed.justified_commit (hwell : outline.WellFormed)
    (hvouched : outline.Vouched pass name anchor hit) (hbefore : Pass.Untouched before pass ref)
    (hopen : (pass.standing ref).isResolved = false) :
    outline.Justified mode before (outline.commit mode ref hit pass).2 ref name anchor
      (outline.outcome hit).1 (outline.outcome hit).2.1 := by
  cases hit with
  | primitive keyword =>
      obtain ⟨rfl, hkeyword⟩ := hvouched
      refine ⟨rfl, hkeyword, hbefore.trans ⟨?_, fun _ => ?_⟩⟩
      · cases mode <;> simp [commit, outcome, Standing.complete]
      · cases mode <;> rfl
  | declared found =>
      obtain ⟨path, hfound⟩ := hvouched
      have hpath := hwell.path?_of_lookup_type? hfound
      have hcanonical : (outline.outcome (.declared found)).1 = path := by simp [outcome, hpath]
      rw [hcanonical]
      refine ⟨found, hfound, kind?_of_lookup_type? hfound, hpath, ?_⟩
      rintro rfl
      exact rests_commit rfl (takes_rest_of hfound) pass ref
  | typeParameter param canonical watch =>
      exact StandsFor.of_apart hvouched (Pass.apart_commit outline mode ref _ pass) hopen
  | dependency canonical =>
      refine ⟨hvouched.1, hvouched.2, ?_⟩
      rintro rfl
      exact rests_commit rfl ⟨.root, hwell.kind?_root, by decide⟩ pass ref

/-! ## Requests -/

/-- A reference was resolved before, or it is not resolved and not moved, or there is a reason for
its canonical name. -/
def AccountedAt (outline : Outline) (mode : Mode) (before pass : Pass) (anchor : NodeId)
    (ref : RefId) : Prop :=
  (before.standing ref).isResolved = true ∨
    ((pass.standing ref).isResolved = false ∧ Pass.Untouched before pass ref) ∨
    ∃ use canonical origin, outline.use? ref = some use ∧
      (pass.standing ref).status = .resolved canonical origin ∧
      outline.Justified mode before pass ref use.name anchor canonical origin

/-- There is a reason for every canonical name that is fresh since `before`, where the search for a
reference began at its `anchor`. -/
def Accounted (outline : Outline) (mode : Mode) (before pass : Pass) (anchor : RefId → NodeId) :
    Prop :=
  ∀ ref, outline.AccountedAt mode before pass (anchor ref) ref

theorem accounted_refl (pass : Pass) (anchor : RefId → NodeId) :
    outline.Accounted mode pass pass anchor := by
  intro ref
  cases hresolved : (pass.standing ref).isResolved with
  | true => exact Or.inl hresolved
  | false => exact Or.inr (Or.inl ⟨hresolved, .refl pass ref⟩)

/-- A reference that is not resolved has not moved, or was resolved before. -/
theorem AccountedAt.untouched (h : outline.AccountedAt mode before pass anchor ref)
    (hopen : (pass.standing ref).isResolved = false) :
    (before.standing ref).isResolved = true ∨ Pass.Untouched before pass ref := by
  rcases h with h | ⟨-, h⟩ | ⟨use, canonical, origin, -, hstatus, -⟩
  · exact Or.inl h
  · exact Or.inr h
  · rw [Standing.is_resolved_of_status hstatus] at hopen
    cases hopen

/-- A step that changes one reference, which was not resolved, has to account for this one. -/
theorem Accounted.step {anchor anchor' : RefId → NodeId}
    (h : outline.Accounted mode before pass anchor)
    (hapart : Pass.Apart pass after ref) (hopen : (pass.standing ref).isResolved = false)
    (hself : Pass.Untouched before pass ref →
      outline.AccountedAt mode before after (anchor' ref) ref)
    (hanchor : ∀ other, ref ≠ other → anchor' other = anchor other) :
    outline.Accounted mode before after anchor' := by
  intro other
  by_cases hne : ref = other
  · subst hne
    rcases (h ref).untouched hopen with hbefore | huntouched
    · exact Or.inl hbefore
    · exact hself huntouched
  · rw [AccountedAt, hanchor other hne, hapart.standing other hne]
    refine (h other).imp_right (Or.imp ?_ ?_)
    · exact fun ⟨hunresolved, hsame⟩ => ⟨hunresolved, hsame.trans (hapart.untouched hne)⟩
    · rintro ⟨use, canonical, origin, huse, hstatus, hjustified⟩
      exact ⟨use, canonical, origin, huse, hstatus, hjustified.of_apart hapart hopen hne⟩

/-- A step that leaves the reference unresolved and does not move it. -/
theorem Accounted.unsettled {anchor anchor' : RefId → NodeId}
    (h : outline.Accounted mode before pass anchor) (hapart : Pass.Apart pass after ref)
    (hopen : (pass.standing ref).isResolved = false) (huntouched : Pass.Untouched pass after ref)
    (hafter : (after.standing ref).isResolved = false)
    (hanchor : ∀ other, ref ≠ other → anchor' other = anchor other) :
    outline.Accounted mode before after anchor' :=
  h.step hapart hopen (fun hsame => Or.inr (Or.inl ⟨hafter, hsame.trans huntouched⟩)) hanchor

/-- Settling a reference on a hit for which there is a reason. -/
theorem Accounted.commit {anchor anchor' : RefId → NodeId} {use : TypeUse}
    (h : outline.Accounted mode before pass anchor) (hwell : outline.WellFormed)
    (huse : outline.use? ref = some use) (hprogress : (pass.standing ref).status = .inProgress)
    (hvouched : outline.Vouched pass use.name (anchor' ref) hit)
    (hanchor : ∀ other, ref ≠ other → anchor' other = anchor other) :
    outline.Accounted mode before (outline.commit mode ref hit pass).2 anchor' := by
  have hopen : (pass.standing ref).isResolved = false := by
    simp [Standing.isResolved, Standing.canonical?, hprogress]
  refine h.step (Pass.apart_commit outline mode ref hit pass) hopen (fun hsame => ?_) hanchor
  exact Or.inr (Or.inr ⟨use, _, _, huse, status_commit_self hit pass,
    hwell.justified_commit hvouched hsame hopen⟩)

/-- Giving up a reference. -/
theorem Accounted.give_up {anchor anchor' : RefId → NodeId}
    (h : outline.Accounted mode before pass anchor)
    (hprogress : (pass.standing ref).status = .inProgress)
    (hanchor : ∀ other, ref ≠ other → anchor' other = anchor other) :
    outline.Accounted mode before (pass.giveUp ref) anchor' := by
  refine h.unsettled (Pass.apart_give_up pass ref)
    (by simp [Standing.isResolved, Standing.canonical?, hprogress])
    (@Pass.untouched_set_standing pass ref (pass.standing ref).fail rfl) ?_ hanchor
  rw [Pass.standing_give_up_self]
  rfl

/-- Requests that start at the home of a reference, as those of searches do, account for all that
they resolve. -/
theorem WellFormed.accounted_invariant (hwell : outline.WellFormed) (mode : Mode) (before : Pass) :
    Pass.SearchInvariant outline mode (fun ref start => start.getD ref.owner = outline.home ref)
      (fun pass => outline.Accounted mode before pass outline.home) outline.Vouched where
  start {pass ref} h _ hbegin := by
    have hopen := (Standing.may_begin_true_iff.1 (Standing.may_begin_true hbegin)).1
    refine h.unsettled (Pass.apart_set_standing pass ref _) hopen
      (Pass.untouched_set_standing rfl) ?_ (fun _ _ => rfl)
    rw [Pass.standing_set_standing_self]
    rfl
  settled {pass name anchor hit} _ hquery := query_vouched_of_mem_queries pass hquery hit rfl
  allowed {name anchor ref start read} hquery := by
    have hasked : Asked outline (fun _ => none) name anchor ref start read :=
      hwell.asked_of_asking hquery
    exact hasked.start_eq
  asked {pass name anchor ref start read canonical hit} _ hquery _ hcanonical hread :=
    query_vouched_of_mem_queries pass hquery canonical _ hit hcanonical hread
  commit {pass ref start use hit} h hhome haccepts hvouched hprogress :=
    h.commit hwell haccepts.use_eq hprogress (hhome ▸ hvouched) (fun _ _ => rfl)
  giveUp h _ hprogress := h.give_up hprogress (fun _ _ => rfl)

/-- Where the search for a reference begins during a request: the reference that is requested is
searched for from the start of the request, every other one from its home. -/
def anchorIn (outline : Outline) (target : RefId) (start : Option NodeId) (ref : RefId) : NodeId :=
  if ref = target then start.getD target.owner else outline.home ref

/-- A request accounts for all that it resolves. -/
theorem WellFormed.accounted_resolve (hwell : outline.WellFormed) (mode : Mode) (target : RefId)
    (start : Option NodeId) (pass : Pass) :
    outline.Accounted mode pass (outline.resolve mode target start pass).2
      (outline.anchorIn target start) := by
  rw [resolve_eq_attempt]
  rcases attempt_cases (outline.resolve mode) target start pass with
    hsame | ⟨use, haccepts, hbegin, -⟩
  · rw [hsame]
    exact accounted_refl pass _
  · -- The target is in progress when its own request is settled, so that no request inside it
    -- has settled it from its home.
    have htruthful : outline.Truthful (outline.resolve mode) := by
      rw [resolve_eq_attempt]
      exact truthful_attempt _
    have hinvariant := hwell.accounted_invariant mode pass
    obtain ⟨⟨hit, found⟩, hattempt, haccounted, hprogress, hvouched⟩ :=
      hinvariant.attempt_eq_conclude htruthful (fun _ _ _ => resolve_advances _ _ _)
        (fun ref start _ => hinvariant.resolve ref start) (accounted_refl pass _) haccepts hbegin
    have hself : outline.anchorIn target start target = start.getD target.owner := if_pos rfl
    have hother : ∀ other, target ≠ other →
        outline.anchorIn target start other = outline.home other :=
      fun other hne => if_neg (Ne.symm hne)
    rw [hattempt]
    cases hit with
    | some hit =>
        exact haccounted.commit hwell haccepts.use_eq hprogress (hself ▸ hvouched hit rfl) hother
    | none => exact haccounted.give_up hprogress hother

/-- The path of a class resolves to itself wherever it is written. -/
theorem resolve_path {found : NodeId} {start : Option NodeId} {use : TypeUse}
    (hfound : outline.lookupType? use.name = some found)
    (hpath : outline.path? found = some use.name) (huse : outline.use? ref = some use)
    (hstart : ∀ anchor, start = some anchor → outline.contains anchor = true)
    (hstatus : (pass.standing ref).status = .unresolved) :
    (outline.resolve mode ref start pass).1 = .resolved use.name := by
  have hname : use.name ≠ "" := by
    intro hempty
    simp [hempty, lookupType?, lookupAll] at hfound
  have hbegin : (pass.standing ref).mayBegin mode.retriesFailed = true := by
    simp [Standing.mayBegin, hstatus]
  rw [resolve_eq_attempt, attempt_of_may_begin _ pass ⟨huse, hstart, hname⟩ hbegin]
  -- A keyword is found before the class, and has the same canonical name.
  cases hbuiltin : Scope.builtin use.name with
  | some hit =>
      have hkeyword : hit = .primitive use.name := by
        unfold Scope.builtin at hbuiltin
        split at hbuiltin
        · exact (Option.some.inj hbuiltin).symm
        · cases hbuiltin
      simp [Scope.queries, hbuiltin, hkeyword, Query.run, Probe.first, Probe.ofHit?, conclude,
        outcome]
  | none =>
      simp [Scope.queries, hbuiltin, Scope.declared, hfound, Query.run, Probe.first, Probe.ofHit?,
        conclude, outcome, hpath]

end Outline

namespace Index

theorem resolve_fst (index : Index) (mode : Mode) (ref : RefId) (start : Option NodeId)
    (health : Health) : (index.resolve mode ref start health).1 =
      (index.outline.resolve mode ref start (index.pass health)).1 := rfl

/-- Every fresh answer has a reason. In every index that operations lead to, each reference that a
request resolves, its own or one of a request inside it, ends on a keyword, on a class that is
found under the canonical name, on a type parameter in scope or on an import, and rests in live
mode on what its reason is about. If it ends on a class, every unresolved reference whose name is
the canonical name resolves to it from everywhere. -/
theorem fresh_answers_are_justified {index : Index} (h : index.Reachable) (mode : Mode)
    (target : RefId) (start : Option NodeId) (health : Health) :
    let result := index.resolve mode target start health
    let after := result.2.1
    ∀ ref canonical origin, (index.standing ref).isResolved = false →
      (after.standing ref).status = .resolved canonical origin →
      (∃ use, after.outline.use? ref = some use ∧
        after.outline.Justified mode (index.pass health) (after.pass result.2.2) ref use.name
          (after.outline.anchorIn target start ref) canonical origin) ∧
      (origin = .declared → ∀ other use, after.outline.use? other = some use →
        use.name = canonical → (after.standing other).status = .unresolved →
        ∀ mode' start' health',
          (∀ anchor, start' = some anchor → after.outline.contains anchor = true) →
          (after.resolve mode' other start' health').1 = .resolved canonical) := by
  intro result after ref canonical origin hbefore hafter
  have haccounted := h.well_formed.accounted_resolve mode target start (index.pass health) ref
  obtain ⟨use, canonical', origin', huse, hstatus, hjustified⟩ :
      ∃ use canonical origin, index.outline.use? ref = some use ∧
        (after.standing ref).status = .resolved canonical origin ∧
        index.outline.Justified mode (index.pass health) (after.pass result.2.2) ref use.name
          (index.outline.anchorIn target start ref) canonical origin := by
    rcases haccounted with hresolved | ⟨hopen, -⟩ | hfresh
    · exact absurd (hbefore.symm.trans hresolved) (by decide)
    · exact absurd (hopen.symm.trans (Standing.is_resolved_of_status hafter)) (by decide)
    · exact hfresh
  obtain ⟨rfl, rfl⟩ : canonical' = canonical ∧ origin' = origin := by
    simpa using hstatus.symm.trans hafter
  refine ⟨⟨use, huse, hjustified⟩, ?_⟩
  rintro rfl other use' huse' rfl hopen mode' start' health' hstart
  obtain ⟨found, hfound, -, hpath, -⟩ := hjustified
  rw [resolve_fst]
  exact Outline.resolve_path hfound hpath huse' hstart hopen

/-- To the nested bounds comes a method of another package that returns the class by its path. -/
def spelledOut : Index :=
  afterHistory (nestedBounds ++ [.insertFile
    { path := ⟨"q/C.java"⟩
      package := "q"
      classes := [{ name := "C", methods := [{ name := "n", returnType := .text "p.B" }] }] }])

/-- The bound of the class is resolved on the way to the return type of the method, and rests on
the file of the class on which it ends; the method of the other package finds this class from the
root. -/
theorem nested_bound_is_justified :
    ∃ result, spelledOut.resolve .live (.returnType 5) none {} = result ∧
      (spelledOut.standing ⟨4, .bound 0⟩).isResolved = false ∧
      (result.2.1.standing ⟨4, .bound 0⟩).status = .resolved "p.B" .declared ∧
      (∃ found, result.2.1.outline.lookupType? "p.B" = some found ∧
        (result.2.1.pass result.2.2).Rests ⟨4, .bound 0⟩ (result.2.1.outline.restOf found)) ∧
      (result.2.1.resolve .batch (.returnType 12) (some Outline.rootId) {}).1 =
        .resolved "p.B" := by
  have hreachable : spelledOut.Reachable := ⟨_, rfl⟩
  have hbefore : (spelledOut.standing ⟨4, .bound 0⟩).isResolved = false := by decide +kernel
  obtain ⟨hafter, huse, hopen, hroot⟩ :
      ((spelledOut.resolve .live (.returnType 5) none {}).2.1.standing ⟨4, .bound 0⟩).status =
        .resolved "p.B" .declared ∧
      (spelledOut.resolve .live (.returnType 5) none {}).2.1.outline.use? (.returnType 12) =
        some ⟨"p.B", false⟩ ∧
      ((spelledOut.resolve .live (.returnType 5) none {}).2.1.standing (.returnType 12)).status =
        .unresolved ∧
      (spelledOut.resolve .live (.returnType 5) none {}).2.1.outline.contains Outline.rootId =
        true := by
    decide +kernel
  obtain ⟨⟨use, -, found, hfound, -, -, hrests⟩, hpath⟩ := fresh_answers_are_justified hreachable
    .live (.returnType 5) none {} ⟨4, .bound 0⟩ "p.B" .declared hbefore hafter
  refine ⟨_, rfl, hbefore, hafter, ⟨found, hfound, hrests rfl⟩, ?_⟩
  refine hpath rfl (.returnType 12) ⟨"p.B", false⟩ huse rfl hopen .batch _ {} ?_
  rintro _ ⟨⟩
  exact hroot

end Index

end CanonicalNames
