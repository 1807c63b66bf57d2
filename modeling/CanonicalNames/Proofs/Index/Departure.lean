import CanonicalNames.Proofs.Index.Outbox
import CanonicalNames.Proofs.Index.Representation

/-!
# Who hears of a class that leaves

A reference that is resolved to a class is registered on the file of the class, or on the class
where it lies in no file (`Outline.restOf`). Every live request sees to it, also for the bounds
and supertypes that it comes across (`watches_invariant`).

The file of a class stays the same as long as the class is there (`Continues.file_of?_eq`), so
that whatever happens before the removal, the reference hears of the file when the file leaves:
`removal_of_class_is_told`. It does not hear of what leaves the file, the class included:
`class_leaves_file_untold`.
-/

namespace CanonicalNames

namespace Outline

variable {outline before after : Outline} {name : String} {hit : Hit} {id top low : NodeId}

/-- What a reference rests on that was resolved to a class. -/
def restOf (outline : Outline) (found : NodeId) : NodeId :=
  (outline.fileOf? found).getD found

/-- A class in a hit was found by its path. -/
def Found (outline : Outline) (hit : Hit) : Prop :=
  ∀ found, hit = .declared found → ∃ path, outline.lookupType? path = some found

theorem found_of_declared (h : Scope.declared outline name = some hit) : outline.Found hit := by
  obtain ⟨found, hfound, rfl⟩ := Option.map_eq_some_iff.1 h
  rintro _ ⟨⟩
  exact ⟨name, hfound⟩

/-- Every class that a query finds was found by its path. -/
def QueryFound (outline : Outline) : Query → Prop
  | .settled found => ∀ hit, found = some hit → outline.Found hit
  | .asking _ _ read => ∀ canonical watch hit, read canonical watch = some hit → outline.Found hit

theorem query_found_of_mem_queries {anchor : NodeId} {query : Query}
    (hquery : query ∈ Scope.queries outline name anchor) : outline.QueryFound query := by
  refine Scope.forall_mem_queries (motive := outline.QueryFound) nofun (fun hit hhit => ?_)
    (fun path hit hhit => found_of_declared hhit) (fun param => ?_)
    (fun classId position canonical watch hit hhit => found_of_declared hhit)
    (fun imports hit hhit => ?_) (fun imports hit hhit => ?_) anchor query hquery
  · unfold Scope.builtin at hhit
    split at hhit
    · obtain rfl := Option.some.inj hhit
      exact nofun
    · cases hhit
  · unfold Scope.parameterQuery
    repeat' split
    · rintro hit ⟨⟩
      exact nofun
    · rintro canonical watch hit ⟨⟩
      exact nofun
    all_goals exact nofun
  · obtain ⟨found, -, rfl⟩ := Option.map_eq_some_iff.1 hhit
    dsimp only
    rcases hdeclared : Scope.declared outline (Dotted.replaceFirst name found.path) with _ | hit
    · exact nofun
    · exact found_of_declared hdeclared
  · obtain ⟨found, -, hdeclared⟩ := List.exists_of_findSome?_eq_some hhit
    exact found_of_declared hdeclared

/-- Files and classes take subscribers. -/
theorem takes_rest_of {path : String} {found : NodeId}
    (hfound : outline.lookupType? path = some found) : outline.Takes (outline.restOf found) := by
  unfold restOf
  rcases hfile : outline.fileOf? found with _ | file
  · exact ⟨.classDecl, kind?_of_lookup_type? hfound, by decide⟩
  · exact takes_of_file_of? hfile

/-- A node that is still there has the file that it had. -/
theorem Continues.file_of?_eq (h : Continues before after) (hwell : before.WellFormed)
    (hwell' : after.WellFormed) (hlt : id < before.places.size)
    (hid : after.contains id = true) : after.fileOf? id = before.fileOf? id := by
  induction id using Nat.strong_induction_on with
  | _ id ih =>
      obtain ⟨node, hnode⟩ := Option.isSome_iff_exists.1 hid
      obtain ⟨old, hold, hface⟩ := h.same hlt hnode
      have hkind : after.kind? id = before.kind? id := by simp [kind?, hnode, hold, hface.kind]
      have hparent : after.parent? id = before.parent? id := by
        simp [parent?, hnode, hold, hface.parent]
      rw [hwell.file_of?_eq, hwell'.file_of?_eq, hkind, hparent]
      split
      · rfl
      · rcases hup : before.parent? id with _ | parent
        · rfl
        · have hbelow := hwell.parent_lt hup
          exact ih parent hbelow (Nat.lt_trans hbelow hlt)
            (hwell'.contains_of_parent? (hparent.trans hup))

/-- The file of a node is the node or above it. -/
theorem WellFormed.below_file_of? (h : outline.WellFormed) {file : NodeId}
    (hfile : outline.fileOf? id = some file) : outline.Below id file := by
  induction id using Nat.strong_induction_on with
  | _ id ih =>
      rw [h.file_of?_eq] at hfile
      split at hfile
      · obtain rfl := Option.some.inj hfile
        rfl
      · obtain ⟨parent, hparent, hup⟩ := Option.bind_eq_some_iff.1 hfile
        exact (ih parent (h.parent_lt hparent) hup).head hparent

/-- Of two nodes above one node, one is above the other. -/
theorem Below.total {left right : NodeId} (h : outline.Below low left)
    (k : outline.Below low right) : outline.Below left right ∨ outline.Below right left :=
  Relation.ReflTransGen.total_of_right_unique
    (fun _ _ _ hfirst hsecond => Option.some.inj (hfirst.symm.trans hsecond)) h k

end Outline

/-! ## Requests -/

/-- Every reference that was resolved to a class since `before` is registered on what it rests
on. -/
def Pass.Watches (outline : Outline) (pass before : Pass) : Prop :=
  ∀ ref canonical, (pass.standing ref).status = .resolved canonical .declared →
    (before.standing ref).status = .resolved canonical .declared ∨
      ∃ found, outline.lookupType? canonical = some found ∧
        pass.subscriptions.holds (outline.restOf found) (.reference ref) = true

section Watches

variable {outline : Outline} {before pass after : Pass} {ref other : RefId} {node : NodeId}

/-- References keep their registrations when another one moves its own. -/
theorem holds_move_of_ne (standings : Standings) (subscriptions : Subscriptions)
    (hne : ref ≠ other) (place : NodeId) :
    (moveSubscription standings subscriptions ref node).2.holds place (.reference other) =
      subscriptions.holds place (.reference other) := by
  have hadded : (subscriptions.add node (.reference ref)).holds place (.reference other) =
      subscriptions.holds place (.reference other) := by
    rw [Bool.eq_iff_iff, Subscriptions.holds_add_iff]
    simp [Ne.symm hne]
  simp only [moveSubscription]
  split
  · exact hadded
  · rw [← hadded, Bool.eq_iff_iff, Subscriptions.holds_drop_from?_iff]
    simp [Ne.symm hne]

/-- A reference that moves is registered on the node to which it moves. -/
theorem holds_move_self (standings : Standings) (subscriptions : Subscriptions) (ref : RefId)
    (node : NodeId) :
    (moveSubscription standings subscriptions ref node).2.holds node (.reference ref) = true := by
  have hadded : (subscriptions.add node (.reference ref)).holds node (.reference ref) = true :=
    Subscriptions.holds_add_iff.2 (Or.inr ⟨rfl, rfl⟩)
  simp only [moveSubscription]
  split
  · exact hadded
  · next hmoved =>
      exact Subscriptions.holds_drop_from?_iff.2 ⟨hadded, fun heq => hmoved heq.1⟩

/-- Settling a reference leaves the registrations of the others. -/
theorem holds_commit_of_ne {mode : Mode} (hit : Hit) (pass : Pass) (hne : ref ≠ other)
    (node : NodeId) :
    (outline.commit mode ref hit pass).2.subscriptions.holds node (.reference other) =
      pass.subscriptions.holds node (.reference other) := by
  rcases outline.commit_cases mode ref hit pass with
    ⟨-, hsubscriptions⟩ | ⟨_, kind, -, -, -, hsubscriptions⟩
  · rw [hsubscriptions]
  · rw [hsubscriptions, holds_move_of_ne _ _ hne]

/-- A reference that is settled in live mode is registered on what the hit rests on. -/
theorem holds_commit_live {hit : Hit} (hrest : (outline.outcome hit).2.2 = some node)
    (htakes : outline.Takes node) (pass : Pass) (ref : RefId) :
    (outline.commit .live ref hit pass).2.subscriptions.holds node (.reference ref) = true := by
  simp only [Outline.commit, hrest, Pass.watch, htakes.check_subscribable]
  exact holds_move_self ..

/-- What changes neither registrations nor what is resolved to classes. -/
theorem Pass.Watches.keep (h : pass.Watches outline before)
    (hsubscriptions : after.subscriptions = pass.subscriptions)
    (hkept : ∀ ref canonical, (after.standing ref).status = .resolved canonical .declared →
      after.standing ref = pass.standing ref) : after.Watches outline before := by
  intro ref canonical hstatus
  rw [hsubscriptions]
  exact h ref canonical (hkept ref canonical hstatus ▸ hstatus)

/-- Live requests register references on what they rest on. -/
theorem watches_invariant (hwell : outline.WellFormed) (before : Pass) :
    Pass.Invariant outline .live (fun pass => pass.Watches outline before)
      (fun _ hit => outline.Found hit) where
  start {pass ref} h _ _ := by
    refine h.keep rfl (fun other canonical hstatus => ?_)
    by_cases hne : ref = other
    · subst hne
      rw [Pass.standing_set_standing_self] at hstatus
      cases hstatus
    · exact Pass.standing_set_standing_of_ne _ _ hne
  settled _ hquery := Outline.query_found_of_mem_queries hquery _ rfl
  asked _ hquery _ _ hread := Outline.query_found_of_mem_queries hquery _ _ _ hread
  commit {pass ref hit} h hsound _ _ := by
    intro other canonical hstatus
    by_cases hne : ref = other
    · subst hne
      rw [Outline.status_commit_self] at hstatus
      cases hit with
      | declared found =>
          obtain ⟨path, hpath⟩ := hsound found rfl
          have hcanonical : (outline.path? found).getD "" = canonical := by
            simpa [Outline.outcome] using hstatus
          rw [hwell.path?_of_lookup_type? hpath, Option.getD_some] at hcanonical
          subst hcanonical
          exact Or.inr ⟨found, hpath,
            holds_commit_live rfl (Outline.takes_rest_of hpath) pass ref⟩
      | _ => cases hstatus
    · rw [Outline.standing_commit_of_ne hit pass hne] at hstatus
      refine (h other canonical hstatus).imp_right ?_
      rintro ⟨found, hfound, hholds⟩
      exact ⟨found, hfound, (holds_commit_of_ne hit pass hne _).trans hholds⟩
  giveUp {pass ref} h _ _ := by
    refine h.keep rfl (fun other canonical hstatus => ?_)
    by_cases hne : ref = other
    · subst hne
      rw [Pass.standing_give_up_self] at hstatus
      cases hstatus
    · exact Pass.standing_give_up_of_ne pass hne

end Watches

namespace Index

variable {index after : Index} {id : NodeId} {ref : RefId} {canonical : String}

/-- A request to resolve references and to keep the outcomes up to date. -/
def Operation.isLive : Operation → Bool
  | .resolve .live _ _ => true
  | .resolveUnder .live _ => true
  | _ => false

/-- A live request leaves the outline, and registers what it resolves to a class. -/
theorem watches_run (hwell : index.outline.WellFormed) {request : Operation}
    (hlive : request.isLive = true) :
    (request.run index).outline = index.outline ∧
      ((request.run index).pass {}).Watches index.outline (index.pass {}) := by
  have hstart : (index.pass {}).Watches index.outline (index.pass {}) :=
    fun _ _ hstatus => Or.inl hstatus
  have hinvariant := watches_invariant hwell (index.pass {})
  cases request with
  | resolve mode ref start =>
      cases mode with
      | live => exact ⟨rfl, (hinvariant.resolve ref start hstart).keep rfl (fun _ _ _ => rfl)⟩
      | batch => cases hlive
  | resolveUnder mode node =>
      cases mode with
      | live => exact ⟨rfl, (hinvariant.resolve_methods _ hstart).keep rfl (fun _ _ _ => rfl)⟩
      | batch => cases hlive
  | _ => cases hlive

/-- A present node other than the root can be removed. -/
theorem exists_remove (hne : id ≠ Outline.rootId) (hid : index.outline.contains id = true) :
    ∃ leaving after, index.remove id = .ok (leaving, after) := by
  obtain ⟨node, hnode⟩ := Option.isSome_iff_exists.1 hid
  exact ⟨_, _, by simp only [remove, if_neg hne, hnode]; rfl⟩

/-- What is told of the nodes that leave. -/
theorem mem_departures_of_iff {leaving : List NodeId} {subscriber : Subscriber} {node : NodeId} :
    ⟨subscriber, .removed node⟩ ∈ departuresOf index leaving ↔
      node ∈ leaving ∧ index.subscriptions.holds node subscriber = true := by
  simp [departuresOf, Subscriptions.mem_on_iff, and_comm]

/-- Who is registered on what a class rests on hears of the removal of every node at or above the
class that is not strictly inside its file. -/
theorem told_of_holds {found : NodeId} (hwell : index.outline.WellFormed)
    (hseated : Seated index.outline index.subscriptions)
    (hholds : index.subscriptions.holds (index.outline.restOf found) (.reference ref) = true)
    (hne : id ≠ Outline.rootId) (hid : index.outline.contains id = true)
    (hbelow : index.outline.Below found id)
    (hstrict : ∀ file, index.outline.fileOf? found = some file → index.outline.Below id file →
      id = file) :
    ∃ leaving after, index.remove id = .ok (leaving, after) ∧
      after.outbox = index.outbox ++ departuresOf index leaving ∧
      ⟨.reference ref, .removed (index.outline.restOf found)⟩ ∈ departuresOf index leaving := by
  have hrest : index.outline.Below (index.outline.restOf found) id := by
    unfold Outline.restOf
    rcases hcase : index.outline.fileOf? found with _ | file
    · exact hbelow
    · rcases (hwell.below_file_of? hcase).total hbelow with hin | hout
      · exact hin
      · rw [hstrict file hcase hout]
        exact .refl file
  obtain ⟨leaving, after, hremove⟩ := exists_remove hne hid
  obtain ⟨-, hleaving, houtbox, -⟩ := departures_of_remove hwell hseated hremove
  exact ⟨leaving, after, hremove, houtbox,
    mem_departures_of_iff.2 ⟨(hleaving _).2 hrest, hholds⟩⟩

/-- A reference that a live request resolved to a class hears of the removal of every node at or
above the class that is not strictly inside the file of the class, whatever happened in between,
if its registrations are still those that the request left. It hears that the file has left, or
the class itself if it lies in no file. -/
theorem removal_of_class_is_told (history : List Operation) {request : Operation}
    (hlive : request.isLive = true)
    (hbefore : ((afterHistory history).standing ref).status ≠ .resolved canonical .declared)
    (hafter : ((request.run (afterHistory history)).standing ref).status =
      .resolved canonical .declared) :
    ∃ found, (afterHistory history).outline.lookupType? canonical = some found ∧
      ∀ (later : List Operation) (index : Index),
        later.foldl Operation.run (request.run (afterHistory history)) = index →
        (∀ node, index.subscriptions.holds node (.reference ref) =
          (request.run (afterHistory history)).subscriptions.holds node (.reference ref)) →
        ∀ id, id ≠ Outline.rootId → index.outline.contains id = true →
          index.outline.Below found id →
          (∀ file, index.outline.fileOf? found = some file → index.outline.Below id file →
            id = file) →
          ∃ leaving after, index.remove id = .ok (leaving, after) ∧
            after.outbox = index.outbox ++ departuresOf index leaving ∧
            ⟨.reference ref, .removed (index.outline.restOf found)⟩ ∈
              departuresOf index leaving := by
  have hwell : (afterHistory history).outline.WellFormed :=
    well_formed_foldl_run Outline.well_formed_empty history
  have hconcise : (afterHistory history).outline.Concise :=
    (continues_foldl_run history Outline.well_formed_empty Outline.concise_empty).1
  have hseated : Seated (afterHistory history).outline (afterHistory history).subscriptions :=
    (outbox_foldl_run Outline.well_formed_empty (fun _ _ h => by cases h) history).1
  obtain ⟨houtline, hwatches⟩ := watches_run hwell hlive
  obtain ⟨found, hfound, hholds⟩ := (hwatches ref canonical hafter).resolve_left hbefore
  refine ⟨found, hfound, ?_⟩
  rintro later index rfl hsame id hne hid hbelow hstrict
  have hwell' := well_formed_run hwell request
  have hlater := well_formed_foldl_run hwell' later
  have hcontinues := (continues_foldl_run later hwell' (continues_run request hwell hconcise).1).2
  refine told_of_holds hlater (outbox_foldl_run hwell' (outbox_run hwell hseated request).1 later).1
    ?_ hne hid hbelow hstrict
  -- The class has the file that it had when it was found.
  obtain ⟨top, htop⟩ := Option.isSome_iff_exists.1 hid
  obtain ⟨node, hnode⟩ := Outline.exists_node?_of_below htop hbelow
  obtain ⟨old, hold, -⟩ := Option.map_eq_some_iff.1 (Outline.kind?_of_lookup_type? hfound)
  rw [hsame, Outline.restOf, hcontinues.file_of?_eq hwell' hlater
    (Outline.lt_size_of_node? (by rw [houtline]; exact hold)) (by simp [Outline.contains, hnode]),
    houtline]
  exact hholds

/-- A method that returns a class of another package. -/
def neighbours : List Operation :=
  [.insertFile
    { path := ⟨"p/A.java"⟩
      package := "p"
      classes := [{ name := "A", methods := [{ name := "m", returnType := .text "q.B" }] }] },
   .insertFile { path := ⟨"q/B.java"⟩, package := "q", classes := [{ name := "B" }] }]

/-- The request for the return type of the method. -/
def neighbourRequest : Operation :=
  .resolve .live (.returnType 4) none

theorem neighbour_is_found :
    ((afterHistory neighbours).standing (.returnType 4)).status = .unresolved ∧
      ((neighbourRequest.run (afterHistory neighbours)).standing (.returnType 4)).status =
        .resolved "q.B" .declared ∧
      (afterHistory neighbours).outline.lookupType? "q.B" = some 7 := by
  decide +kernel

/-- The class is given a nested one after the request. -/
def neighboursLater : Index :=
  (Operation.insertClass 7 { name := "C" }).run (neighbourRequest.run (afterHistory neighbours))

/-- When the package is removed then, the method hears of the file. -/
theorem removal_of_package_is_told :
    ∃ leaving after, neighboursLater.remove 5 = .ok (leaving, after) ∧
      ⟨.reference (.returnType 4), .removed 6⟩ ∈ after.outbox := by
  obtain ⟨hopen, hresolved, hclass⟩ := neighbour_is_found
  obtain ⟨found, hfound, htold⟩ := @removal_of_class_is_told (.returnType 4) "q.B" neighbours
    neighbourRequest rfl (by rw [hopen]; exact nofun) hresolved
  obtain rfl : found = 7 := Option.some.inj (hfound.symm.trans hclass)
  have hwell : neighboursLater.outline.WellFormed :=
    well_formed_run (well_formed_run (well_formed_foldl_run Outline.well_formed_empty neighbours)
      neighbourRequest) _
  have hsame : neighboursLater.subscriptions =
      (neighbourRequest.run (afterHistory neighbours)).subscriptions := by
    decide +kernel
  have hup : neighboursLater.outline.parent? 7 = some 6 ∧
      neighboursLater.outline.parent? 6 = some 5 ∧
      neighboursLater.outline.fileOf? 7 = some 6 := by
    decide +kernel
  have hstrict : ∀ file, neighboursLater.outline.fileOf? 7 = some file →
      neighboursLater.outline.Below 5 file → 5 = file := by
    intro file hfile hbelow
    obtain rfl : 6 = file := Option.some.inj (hup.2.2.symm.trans hfile)
    exact absurd (hwell.le_of_below hbelow) (by decide)
  have hlater : [Operation.insertClass 7 { name := "C" }].foldl Operation.run
      (neighbourRequest.run (afterHistory neighbours)) = neighboursLater := by
    simp only [List.foldl_cons, List.foldl_nil, neighboursLater]
  obtain ⟨leaving, after, hremove, houtbox, hmem⟩ := htold _ neighboursLater hlater
    (fun node => by rw [hsame]) 5 (by decide) (by decide +kernel)
    (.head hup.1 (.single hup.2.1)) hstrict
  rw [Outline.restOf, hup.2.2] at hmem
  refine ⟨leaving, after, hremove, ?_⟩
  rw [houtbox]
  exact List.mem_append_right _ hmem

/-- The method does not hear of the class when the class alone is removed from its file, though it
was resolved to it and nothing happened since. -/
theorem class_leaves_file_untold :
    ((afterHistory neighbours).standing (.returnType 4)).status = .unresolved ∧
    ((neighbourRequest.run (afterHistory neighbours)).standing (.returnType 4)).status =
      .resolved "q.B" .declared ∧
    (afterHistory neighbours).outline.lookupType? "q.B" = some 7 ∧
    ¬ (neighbourRequest.run (afterHistory neighbours)).outline.Below 4 7 ∧
    ∃ leaving after, (neighbourRequest.run (afterHistory neighbours)).remove 7 =
        .ok (leaving, after) ∧
      ∀ event, ⟨.reference (.returnType 4), event⟩ ∉ after.outbox := by
  have hwell : (neighbourRequest.run (afterHistory neighbours)).outline.WellFormed :=
    well_formed_run (well_formed_foldl_run Outline.well_formed_empty neighbours) neighbourRequest
  have hquiet : ((neighbourRequest.run (afterHistory neighbours)).remove 7).toOption.map
      (fun result => result.2.outbox) = some [] := by
    decide +kernel
  obtain ⟨hopen, hresolved, hclass⟩ := neighbour_is_found
  refine ⟨hopen, hresolved, hclass, fun hbelow => absurd (hwell.le_of_below hbelow) (by decide), ?_⟩
  rcases hremove : (neighbourRequest.run (afterHistory neighbours)).remove 7 with
    error | ⟨leaving, after⟩
  · rw [hremove] at hquiet
    cases hquiet
  · rw [hremove] at hquiet
    have houtbox : after.outbox = [] := by simpa [Except.toOption] using hquiet
    exact ⟨leaving, after, rfl, by simp [houtbox]⟩

end Index

end CanonicalNames
