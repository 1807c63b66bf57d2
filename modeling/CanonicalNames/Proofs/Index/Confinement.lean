import CanonicalNames.Proofs.Index.Support

/-!
# What a request may write

A request reads the whole outline and writes little of the index. The references that it may
change lie around the node from which it searches: `Outline.LeadsTo anchor` lists them, and it
is closed under the requests that a search makes (`LeadsTo.of_asking`, `home_mem_frames`), so
that confinement is one induction over calls inside calls. Registrations follow the references:
a request moves those of references that it changes and leaves all others in their order
(`Pass.Climbs`). A batch request leaves every registration where it is.

`resolve_confined` is the result for every reachable index.
-/

namespace CanonicalNames

/-- The registrations of chosen subscribers, oldest first. -/
def Subscriptions.among (subscriptions : Subscriptions) (chosen : Subscriber → Bool) :
    List (NodeId × Subscriber) :=
  subscriptions.entries.filter (fun entry => chosen entry.2)

namespace Outline

/-- The references that a search from a node may call for, directly or through other
references. -/
inductive LeadsTo (outline : Outline) (anchor : NodeId) : RefId → Prop
  /-- A supertype of a class around the node. -/
  | supertype {id : NodeId} (position : Nat) (hframe : id ∈ outline.frames anchor)
      (hkind : outline.kind? id = some .classDecl) : LeadsTo outline anchor ⟨id, .supertype position⟩
  /-- The first bound of a type parameter around the node. -/
  | ownBound {id : NodeId} (hframe : id ∈ outline.frames anchor)
      (hkind : outline.kind? id = some .typeParameter) : LeadsTo outline anchor ⟨id, .bound 0⟩
  /-- The first bound of a type parameter of a method or class around the node. -/
  | bound {id param : NodeId} (hframe : id ∈ outline.frames anchor)
      (hkind : outline.kind? id = some .method ∨ outline.kind? id = some .classDecl)
      (hparam : param ∈ outline.typeParameters id) : LeadsTo outline anchor ⟨param, .bound 0⟩

variable {outline : Outline} {id anchor owner : NodeId} {ref other : RefId}

/-! ## The frames around a node -/

theorem mem_frames_self (outline : Outline) (id : NodeId) : id ∈ outline.frames id :=
  List.mem_cons_self ..

/-- The frames around a node are the node and the frames around its owner. -/
theorem WellFormed.mem_frames_iff (h : outline.WellFormed) : id ∈ outline.frames anchor ↔
    id = anchor ∨ ∃ up, outline.owner? anchor = some up ∧ id ∈ outline.frames up := by
  rw [h.frames_eq_cons, List.mem_cons]
  cases outline.owner? anchor <;> simp

/-- The owner of a frame is a frame. -/
theorem WellFormed.owner_mem_frames (h : outline.WellFormed) (hframe : id ∈ outline.frames anchor)
    (howner : outline.owner? id = some owner) : owner ∈ outline.frames anchor := by
  induction anchor using h.induction_on_owner with
  | step anchor ih =>
      rw [h.mem_frames_iff] at hframe ⊢
      rcases hframe with rfl | ⟨up, hup, hframe⟩
      · exact Or.inr ⟨owner, howner, outline.mem_frames_self owner⟩
      · exact Or.inr ⟨up, hup, ih up hup hframe⟩

/-- The frames around a frame are frames. -/
theorem WellFormed.frames_subset (h : outline.WellFormed) (hframe : id ∈ outline.frames anchor) :
    outline.frames id ⊆ outline.frames anchor := by
  induction id using h.induction_on_owner with
  | step id ih =>
      intro around haround
      rcases h.mem_frames_iff.1 haround with rfl | ⟨up, hup, haround⟩
      · exact hframe
      · exact ih up hup (h.owner_mem_frames hframe hup) haround

/-- An element inside a file belongs to the file of its owner. -/
theorem WellFormed.file_of?_of_owner? (h : outline.WellFormed)
    (howner : outline.owner? id = some owner) : outline.fileOf? id = outline.fileOf? owner := by
  have hkind : outline.kind? id ≠ some .file := by
    intro hfile
    obtain ⟨node, hnode, hkind⟩ := Option.map_eq_some_iff.1 hfile
    simp [owner?, hnode, hkind, Kind.isOwned] at howner
  rw [h.file_of?_eq, if_neg hkind, parent?_of_owner? howner, Option.bind_some]

theorem WellFormed.file_of?_of_mem_frames (h : outline.WellFormed)
    (hframe : id ∈ outline.frames anchor) : outline.fileOf? id = outline.fileOf? anchor := by
  induction anchor using h.induction_on_owner with
  | step anchor ih =>
      rcases h.mem_frames_iff.1 hframe with rfl | ⟨up, hup, hframe⟩
      · rfl
      · rw [ih up hup hframe, h.file_of?_of_owner? hup]

/-! ## Requests that lead to requests -/

/-- Classes, methods and type parameters have owners. -/
theorem WellFormed.exists_owner_of_kind? {kind : Kind} (h : outline.WellFormed)
    (hkind : outline.kind? id = some kind) (howned : kind.isOwned = true) :
    ∃ up, outline.owner? id = some up := by
  obtain ⟨node, hnode, rfl⟩ := Option.map_eq_some_iff.1 hkind
  obtain ⟨up, -, hup, -⟩ := h.exists_owner hnode howned
  exact ⟨up, hup⟩

namespace LeadsTo

/-- What a frame leads to, the node inside it leads to. -/
theorem outward (hwell : outline.WellFormed) (h : outline.LeadsTo id ref)
    (hframe : id ∈ outline.frames anchor) : outline.LeadsTo anchor ref := by
  have hsubset := hwell.frames_subset hframe
  cases h with
  | supertype position hin hkind => exact .supertype position (hsubset hin) hkind
  | ownBound hin hkind => exact .ownBound (hsubset hin) hkind
  | bound hin hkind hparam => exact .bound (hsubset hin) hkind hparam

/-- A reference is asked for from a frame around the node that leads to it. -/
theorem home_mem_frames (hwell : outline.WellFormed) (h : outline.LeadsTo anchor ref) :
    outline.home ref ∈ outline.frames anchor := by
  cases h with
  | supertype position hin hkind =>
      obtain ⟨up, hup⟩ := hwell.exists_owner_of_kind? hkind rfl
      simpa [home, hup] using hwell.owner_mem_frames hin hup
  | ownBound hin hkind =>
      obtain ⟨up, hup⟩ := hwell.exists_owner_of_kind? hkind rfl
      simpa [home, hup] using hwell.owner_mem_frames hin hup
  | bound hin hkind hparam =>
      simpa [home, hwell.owner?_of_mem_type_parameters hparam] using hin

/-- A reference belongs to the file of the node that leads to it. -/
theorem file_of?_eq (hwell : outline.WellFormed) (h : outline.LeadsTo anchor ref) :
    outline.fileOf? ref.owner = outline.fileOf? anchor := by
  cases h with
  | supertype position hin hkind => exact hwell.file_of?_of_mem_frames hin
  | ownBound hin hkind => exact hwell.file_of?_of_mem_frames hin
  | bound hin hkind hparam =>
      rw [hwell.file_of?_of_owner? (hwell.owner?_of_mem_type_parameters hparam)]
      exact hwell.file_of?_of_mem_frames hin

/-- A node leads to what a search from it asks for. -/
theorem of_asking {name : String} {start : Option NodeId}
    {read : String → Option NodeId → Option Hit}
    (hasking : Query.asking ref start read ∈ Scope.queries outline name anchor) :
    outline.LeadsTo anchor ref := by
  replace hasking : Query.asking ref start read ∈
      (outline.frames anchor).flatMap (Scope.frameQueries outline name) := by
    simpa [Scope.queries] using hasking
  obtain ⟨id, hframe, hquery⟩ := List.mem_flatMap.1 hasking
  have hparameters : outline.kind? id = some .method ∨ outline.kind? id = some .classDecl →
      Scope.parametersQuery outline name id = .asking ref start read →
      outline.LeadsTo anchor ref := by
    intro hkind hparameters
    unfold Scope.parametersQuery at hparameters
    split at hparameters
    · next param hfound =>
        obtain ⟨-, -, -, -, rfl, -, -⟩ := asking_of_parameter_query hparameters
        exact .bound hframe hkind (List.mem_of_find?_eq_some hfound)
    · cases hparameters
  rcases outline.node_cases id with ⟨node, element, hnode, helement⟩ | helement
  · have hkind : outline.kind? id = some element.kind := by
      simp [kind?, hnode, kind_of_element? helement]
    unfold Scope.frameQueries at hquery
    simp only [hnode, helement] at hquery
    cases element with
    | method => exact hparameters (Or.inl hkind) (List.mem_singleton.1 hquery).symm
    | typeParameter =>
        obtain ⟨-, -, -, -, rfl, -, -⟩ :=
          asking_of_parameter_query (List.mem_singleton.1 hquery).symm
        exact .ownBound hframe hkind
    | file => simp at hquery
    | classDecl className supertypes =>
        simp only [List.mem_append, List.mem_cons, List.not_mem_nil, or_false, reduceCtorEq,
          false_or, List.mem_map, List.mem_range] at hquery
        rcases hquery with hquery | ⟨position, -, hquery⟩
        · exact hparameters (Or.inr hkind) hquery.symm
        · cases hquery
          exact .supertype position hframe hkind
  · rw [frame_queries_eq_nil helement] at hquery
    cases hquery

end LeadsTo

/-- A request leaves every reference but its own and those that its anchor leads to. -/
theorem WellFormed.standing_resolve_of_not_leads_to (hwell : outline.WellFormed) {mode : Mode}
    {start : Option NodeId} (hne : other ≠ ref)
    (hother : ¬ outline.LeadsTo (start.getD ref.owner) other) (pass : Pass) :
    (outline.resolve mode ref start pass).2.standing other = pass.standing other := by
  -- Every request inside this one is about such a reference and starts at a frame.
  refine @standing_resolve_of_closed outline mode ref other start
    (fun asked first => (asked = ref ∨ outline.LeadsTo (start.getD ref.owner) asked) ∧
      first.getD asked.owner ∈ outline.frames (start.getD ref.owner)) ?_ ?_
    ⟨Or.inl rfl, outline.mem_frames_self _⟩ pass
  · intro asking first use asked second read hwithin _ hasking
    have hleads := LeadsTo.of_asking hasking
    have hasked : Asked outline (fun _ => none) _ _ asked second read :=
      hwell.asked_of_asking hasking
    refine ⟨Or.inr (hleads.outward hwell hwithin.2), ?_⟩
    rw [hasked.start_eq]
    exact hwell.frames_subset hwithin.2 (hleads.home_mem_frames hwell)
  · rintro first use ⟨hwithin, -⟩ -
    exact hwithin.elim hne hother

end Outline

/-! ## Registrations -/

namespace Subscriptions

variable {subscriptions : Subscriptions} {chosen : Subscriber → Bool} {subscriber : Subscriber}

/-- Adding a subscriber that is not chosen. -/
theorem among_add (h : chosen subscriber = false) (node : NodeId) :
    (subscriptions.add node subscriber).among chosen = subscriptions.among chosen := by
  unfold add among
  split
  · rfl
  · simp [h]

/-- Dropping a subscriber that is not chosen. -/
theorem among_drop_from? (h : chosen subscriber = false) (held : Option NodeId) :
    (subscriptions.dropFrom? held subscriber).among chosen = subscriptions.among chosen := by
  cases held with
  | none => rfl
  | some node =>
      unfold dropFrom? drop among
      rw [List.filter_filter]
      refine List.filter_congr (fun entry _ => ?_)
      by_cases hentry : entry = (node, subscriber)
      · simp [hentry, h]
      · simp [hentry]

end Subscriptions

/-- Moving the subscription of a reference that is not chosen. -/
theorem among_move_subscription {chosen : Subscriber → Bool} {ref : RefId}
    (h : chosen (.reference ref) = false) (standings : Standings) (subscriptions : Subscriptions)
    (node : NodeId) : (moveSubscription standings subscriptions ref node).2.among chosen =
      subscriptions.among chosen := by
  simp only [moveSubscription]
  split
  · exact Subscriptions.among_add h node
  · rw [Subscriptions.among_drop_from? h, Subscriptions.among_add h]

/-- How far the resolution of a reference has come. An attempt that ends never brings it back. -/
def Status.rank : Status → Nat
  | .unresolved => 0
  | .failed => 1
  | .inProgress => 2
  | .resolved _ _ => 3

namespace Pass

/-- References keep their standing or come further, and only the registrations of those that
come further are touched. -/
structure Climbs (before after : Pass) : Prop where
  rises : ∀ ref, after.standing ref = before.standing ref ∨
    (before.standing ref).status.rank < (after.standing ref).status.rank
  others : ∀ chosen : Subscriber → Bool,
    (∀ ref, after.standing ref ≠ before.standing ref → chosen (.reference ref) = false) →
    after.subscriptions.among chosen = before.subscriptions.among chosen

theorem Climbs.refl (pass : Pass) : Climbs pass pass :=
  ⟨fun _ => Or.inl rfl, fun _ _ => rfl⟩

theorem Climbs.trans {first second third : Pass} (h : Climbs first second)
    (k : Climbs second third) : Climbs first third := by
  -- What has come further on the way does not come back, so it has changed in the end.
  have hchanged : ∀ ref, second.standing ref ≠ first.standing ref ∨
      third.standing ref ≠ second.standing ref →
      (first.standing ref).status.rank < (third.standing ref).status.rank := by
    intro ref hchanged
    rcases h.rises ref with hfirst | hfirst
    · rcases k.rises ref with hsecond | hsecond
      · exact absurd hsecond (hchanged.resolve_left (fun hne => hne hfirst))
      · rwa [hfirst] at hsecond
    · rcases k.rises ref with hsecond | hsecond
      · rwa [hsecond]
      · omega
  have hne : ∀ ref, (first.standing ref).status.rank < (third.standing ref).status.rank →
      third.standing ref ≠ first.standing ref := by
    intro ref hlt heq
    rw [heq] at hlt
    omega
  refine ⟨fun ref => ?_, fun chosen hchosen => ?_⟩
  · by_cases hsame : second.standing ref = first.standing ref ∧
        third.standing ref = second.standing ref
    · exact Or.inl (hsame.2.trans hsame.1)
    · exact Or.inr (hchanged ref (not_and_or.1 hsame))
  · rw [k.others chosen (fun ref hsecond => hchosen ref (hne ref (hchanged ref (Or.inr hsecond)))),
      h.others chosen (fun ref hfirst => hchosen ref (hne ref (hchanged ref (Or.inl hfirst))))]

end Pass

namespace Outline

variable {outline : Outline} {mode : Mode} {ref : RefId} {chosen : Subscriber → Bool}

/-- Settling a reference touches no registration but its own. -/
theorem among_commit (h : chosen (.reference ref) = false) (hit : Hit) (pass : Pass) :
    (outline.commit mode ref hit pass).2.subscriptions.among chosen =
      pass.subscriptions.among chosen := by
  rcases outline.commit_cases mode ref hit pass with
    ⟨-, hsubscriptions⟩ | ⟨node, kind, -, -, -, hsubscriptions⟩
  · rw [hsubscriptions]
  · rw [hsubscriptions, among_move_subscription h]

/-- A reference that a search settles comes further, or had failed and fails again. -/
theorem climbs_conclude {pass : Pass} {found : Option Hit × Pass}
    (hbegin : (pass.standing ref).mayBegin mode.retriesFailed = true)
    (hsearch : Pass.Climbs (pass.setStanding ref (pass.standing ref).start) found.2)
    (hkept : found.2.standing ref = (pass.standing ref).start) :
    Pass.Climbs pass (outline.conclude mode ref found).2 := by
  obtain ⟨hit, searched⟩ := found
  have hopen : (pass.standing ref).status = .unresolved ∨ (pass.standing ref).status = .failed := by
    cases hstatus : (pass.standing ref).status <;> simp_all [Standing.mayBegin]
  have hsame : ∀ {other}, ref ≠ other →
      ((outline.conclude mode ref (hit, searched)).2.standing other = pass.standing other ↔
        searched.standing other = (pass.setStanding ref (pass.standing ref).start).standing other) := by
    intro other hne
    rw [standing_conclude_of_ne _ hne, Pass.standing_set_standing_of_ne _ _ hne]
  refine ⟨fun other => ?_, fun chosen hchosen => ?_⟩
  · by_cases hne : ref = other
    · subst hne
      cases hit with
      | some hit =>
          right
          show _ < ((outline.commit mode ref hit searched).2.standing ref).status.rank
          rw [status_commit_self]
          rcases hopen with hopen | hopen <;> simp [hopen, Status.rank]
      | none =>
          have hstanding : (outline.conclude mode ref (none, searched)).2.standing ref =
              (pass.standing ref).fail := by
            show (searched.giveUp ref).standing ref = _
            rw [Pass.standing_give_up_self, hkept]
            rfl
          rw [hstanding]
          rcases hopen with hopen | hopen
          · right
            simp [hopen, Standing.fail, Status.rank]
          · left
            rw [Standing.fail, ← hopen]
    · rw [hsame hne, standing_conclude_of_ne _ hne, ← Pass.standing_set_standing_of_ne pass _ hne]
      exact hsearch.rises other
  · have hsearched : searched.subscriptions.among chosen = pass.subscriptions.among chosen := by
      refine hsearch.others chosen (fun other hother => ?_)
      by_cases hne : ref = other
      · subst hne
        exact absurd (hkept.trans (Pass.standing_set_standing_self ..).symm) hother
      · exact hchosen other (fun heq => hother ((hsame hne).1 heq))
    cases hit with
    | some hit =>
        have hself : chosen (.reference ref) = false := by
          refine hchosen ref (fun heq => ?_)
          have hstatus := congrArg Standing.status heq
          rw [conclude, status_commit_self] at hstatus
          rcases hopen with hopen | hopen <;> rw [hopen] at hstatus <;> cases hstatus
        exact (among_commit hself hit searched).trans hsearched
    | none => exact hsearched

/-- An attempt only brings references further if the requests that it makes do. -/
theorem attempt_climbs {resolver : Resolver}
    (hadvances : ∀ ref start pass, Pass.Advances pass (resolver ref start pass).2)
    (hresolver : ∀ ref start pass, Pass.Climbs pass (resolver ref start pass).2)
    (ref : RefId) (start : Option NodeId) (pass : Pass) :
    Pass.Climbs pass (outline.attempt mode resolver ref start pass).2 := by
  rcases attempt_cases resolver ref start pass with hsame | ⟨use, -, hbegin, hattempt⟩
  · rw [hsame]
    exact .refl pass
  · rw [hattempt]
    have hsearch := Probe.first_map_run_keeps Pass.Climbs.refl Pass.Climbs.trans
      (Scope.queries outline use.name (start.getD ref.owner))
      (fun ref start _ _ => hresolver ref start)
      (pass.setStanding ref (pass.standing ref).start)
    have hkept := Probe.first_map_run_keeps Pass.Advances.refl Pass.Advances.trans
      (Scope.queries outline use.name (start.getD ref.owner))
      (fun ref start _ _ => hadvances ref start)
      (pass.setStanding ref (pass.standing ref).start)
    -- The reference is in progress, with its subscription, when the search is over.
    replace hkept := hkept.eq_of_not_open
      (by rw [Pass.standing_set_standing_self, Standing.may_begin_start])
    rw [Pass.standing_set_standing_self] at hkept
    generalize Probe.first _ _ = found at hsearch hkept ⊢
    exact climbs_conclude hbegin hsearch hkept

/-- A request only brings references further. -/
theorem resolve_climbs (ref : RefId) (start : Option NodeId) (pass : Pass) :
    Pass.Climbs pass (outline.resolve mode ref start pass).2 := by
  suffices hdepth : ∀ depth ref start pass,
      Pass.Climbs pass (outline.resolveWithin mode depth ref start pass).2 from
    hdepth _ ref start pass
  intro depth
  induction depth with
  | zero => exact attempt_climbs (fun _ _ pass => .refl pass) (fun _ _ pass => .refl pass)
  | succ depth ih => exact attempt_climbs (resolve_within_advances depth) ih

/-- A batch request subscribes nobody and drops no subscription. -/
theorem unsubscribing_invariant (outline : Outline) (subscriptions : Subscriptions)
    (held : RefId → Option NodeId) :
    Pass.Invariant outline .batch (fun pass => pass.subscriptions = subscriptions ∧
      ∀ ref, (pass.standing ref).subscription = held ref) (fun _ _ => True) := by
  -- Each step sets the status of one reference.
  have hset : ∀ {pass : Pass} {ref : RefId} {standing : Standing},
      (∀ ref, (pass.standing ref).subscription = held ref) →
      standing.subscription = (pass.standing ref).subscription →
      ∀ other, ((pass.setStanding ref standing).standing other).subscription = held other := by
    intro pass ref standing h hsame other
    by_cases hne : ref = other
    · subst hne
      rw [Pass.standing_set_standing_self, hsame, h]
    · rw [Pass.standing_set_standing_of_ne _ _ hne, h]
  refine ⟨fun h _ _ => ⟨h.1, hset h.2 rfl⟩, fun _ _ => trivial, fun _ _ _ _ _ => trivial, ?_,
    fun h _ _ => ⟨h.1, hset h.2 rfl⟩⟩
  intro pass ref hit h _ _ _
  simp only [commit]
  split <;> exact ⟨h.1, hset h.2 rfl⟩

end Outline

namespace Index

/-- What a request may write. In every index that operations lead to, it leaves the outline, the
notifications and the listeners. The references that it may change are its own, the supertypes of
the classes around the node where the search starts, and the first bounds of type parameters that
are around this node or belong to a method or class around it; if the search starts at the
reference itself, they all belong to the file of the reference. A batch request leaves every
registration and every subscription; in either mode the registrations of all that does not change
stay, in the same order. -/
theorem resolve_confined {index : Index} (hreachable : index.Reachable) (mode : Mode) (ref : RefId)
    (start : Option NodeId) (health : Health) :
    let after := (index.resolve mode ref start health).2.1
    (after.outline = index.outline ∧ after.outbox = index.outbox ∧
      after.listeners = index.listeners) ∧
    (∀ other, after.standing other ≠ index.standing other →
      other = ref ∨ index.outline.LeadsTo (start.getD ref.owner) other) ∧
    (start = none → ∀ other, after.standing other ≠ index.standing other →
      index.outline.fileOf? other.owner = index.outline.fileOf? ref.owner) ∧
    (mode = .batch → after.subscriptions = index.subscriptions ∧
      ∀ other, (after.standing other).subscription = (index.standing other).subscription) ∧
    (∀ chosen : Subscriber → Bool,
      (∀ other, after.standing other ≠ index.standing other → chosen (.reference other) = false) →
      after.subscriptions.among chosen = index.subscriptions.among chosen) := by
  intro after
  have hwell := hreachable.well_formed
  have hchanged : ∀ other, after.standing other ≠ index.standing other →
      other = ref ∨ index.outline.LeadsTo (start.getD ref.owner) other := by
    intro other hother
    by_contra hwithin
    obtain ⟨hne, hleads⟩ := not_or.1 hwithin
    exact hother (hwell.standing_resolve_of_not_leads_to hne hleads (index.pass health))
  refine ⟨⟨rfl, rfl, rfl⟩, hchanged, ?_, ?_, ?_⟩
  · intro hstart other hother
    rcases hchanged other hother with rfl | hleads
    · rfl
    · rw [hleads.file_of?_eq hwell, hstart]
      rfl
  · intro hmode
    subst hmode
    exact (Outline.unsubscribing_invariant index.outline index.subscriptions
      (fun other => (index.standing other).subscription)).resolve ref start ⟨rfl, fun _ => rfl⟩
  · exact (@Outline.resolve_climbs index.outline mode ref start (index.pass health)).others

/-- A method returns its own type parameter, which is bounded by one of the class, which is bounded
by a class of another file. A listener is on the other file. -/
def nestedBounds : List Operation :=
  [.insertFile
    { path := ⟨"p/A.java"⟩
      package := "p"
      classes :=
        [{ name := "A"
           supertypes := [.text "Base"]
           typeParams := [{ name := "T", bounds := [.text "B"] }]
           methods :=
            [{ name := "m"
               returnType := .text "U"
               typeParams := [{ name := "U", bounds := [.text "T"] }] }] }] },
   .insertFile { path := ⟨"p/B.java"⟩, package := "p", classes := [{ name := "B" }] },
   .newListener,
   .subscribe 7 (.listener 0)]

/-- The request changes both bounds and the supertype as well as the return type, all in the same
file, and the listener stays where it is. -/
theorem nested_bounds_confined :
    let index := afterHistory nestedBounds
    let after := (index.resolve .live (.returnType 5) none {}).2.1
    let changed : List RefId := [.returnType 5, ⟨6, .bound 0⟩, ⟨4, .bound 0⟩, ⟨3, .supertype 0⟩]
    index.Reachable ∧
    (∀ ref ∈ changed, after.standing ref ≠ index.standing ref) ∧
    (∀ ref ∈ changed, index.outline.fileOf? ref.owner = index.outline.fileOf? 5) ∧
    after.subscriptions.among (· == .listener 0) = index.subscriptions.among (· == .listener 0) := by
  intro index after changed
  have hreachable : index.Reachable := ⟨nestedBounds, rfl⟩
  have hchanged : ∀ ref ∈ changed, after.standing ref ≠ index.standing ref := by decide +kernel
  obtain ⟨-, -, hfile, -, hothers⟩ := resolve_confined hreachable .live (.returnType 5) none {}
  exact ⟨hreachable, hchanged, fun ref href => hfile rfl ref (hchanged ref href),
    hothers _ (fun _ _ => rfl)⟩

end Index

end CanonicalNames
