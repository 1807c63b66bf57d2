import CanonicalNames.Proofs.Index.Representation
import CanonicalNames.Proofs.Outline.Address

/-!
# Candidates of a lookup across operations

A dotted name may lead to several nodes, and which of them answers first depends on the order in
which a lookup meets them: children under their segment, then those inside the files, at every
level. `Outline.Induced part whole` says that `part` is `whole` restricted to some of its nodes,
with the order of children kept. A lookup in `part` then is the lookup in `whole` restricted to
these nodes (`Induced.lookup_all_eq`).

An attachment makes a larger outline in which the old one is induced, and a removal leaves an
outline induced in the old one, so that no operation moves a node past another in the answer to
a name, or hides it: `candidates_keep_order`.
-/

namespace CanonicalNames

/-- Where elements that do not count contribute nothing, they may be left out first. -/
theorem flat_map_filter_of_nil {α β : Type} {counts : α → Bool} {parts : α → List β} {xs : List α}
    (h : ∀ x ∈ xs, counts x = false → parts x = []) :
    (xs.filter counts).flatMap parts = xs.flatMap parts := by
  induction xs with
  | nil => rfl
  | cons x rest ih =>
      have ih := ih (fun other hother => h other (List.mem_cons_of_mem _ hother))
      cases hx : counts x with
      | true => rw [List.filter_cons_of_pos hx, List.flatMap_cons, List.flatMap_cons, ih]
      | false =>
          rw [List.filter_cons_of_neg (by simp [hx]), List.flatMap_cons,
            h x (List.mem_cons_self ..) hx, List.nil_append, ih]

namespace Outline

variable {part middle whole outline : Outline} {id child parent : NodeId} {node found : Node}

/-- The first outline is the second one restricted to some of its nodes: they have the same face,
and of their children those are left that are nodes of the first outline, in order. -/
def Induced (part whole : Outline) : Prop :=
  ∀ ⦃id node⦄, part.node? id = some node →
    ∃ found, whole.node? id = some found ∧ node.SameFace found ∧
      node.children = found.children.filter part.contains

/-- The children of a node that pass a test, in order; none where there is no node. -/
def childrenWith (outline : Outline) (test : NodeId → Bool) (id : NodeId) : List NodeId :=
  match outline.node? id with
  | some node => node.children.filter test
  | none => []

/-- What is seen from a node are children under a segment, then such children of its files. -/
theorem WellFormed.visible_children_eq (h : outline.WellFormed) (id : NodeId) (segment : String) :
    outline.visibleChildren id segment = outline.childrenWith (outline.isVisible segment) id ++
      (outline.childrenWith outline.isFile id).flatMap
        (outline.childrenWith (outline.isVisible segment)) := by
  unfold visibleChildren
  rcases hnode : outline.node? id with _ | node
  · simp [childrenWith, hnode]
  · simp only [childrenWith, hnode, h.named hnode, h.files hnode]
    congr 1
    refine List.flatMap_congr (fun file _ => ?_)
    rcases hfile : outline.node? file with _ | fileNode
    · simp [childrenWith, hfile]
    · simp [childrenWith, hfile, h.named hfile]

theorem WellFormed.induced_refl (h : outline.WellFormed) : Induced outline outline := by
  intro id node hnode
  refine ⟨node, hnode, .refl node, (List.filter_eq_self.2 (fun child hchild => ?_)).symm⟩
  obtain ⟨below, hbelow, -⟩ := h.child hnode hchild
  exact contains_of_node? hbelow

namespace Induced

theorem within (h : Induced part whole) : Within part whole := by
  intro id node hnode
  obtain ⟨found, hfound, hface, -⟩ := h hnode
  exact ⟨found, hfound, hface.symm⟩

theorem trans (h : Induced part middle) (k : Induced middle whole) : Induced part whole := by
  intro id node hnode
  obtain ⟨mid, hmid, hface, hchildren⟩ := h hnode
  obtain ⟨found, hfound, hface', hchildren'⟩ := k hmid
  refine ⟨found, hfound, hface.trans hface', ?_⟩
  rw [hchildren, hchildren', List.filter_filter]
  apply List.filter_congr
  intro child _
  cases hpart : part.contains child with
  | false => simp
  | true => simp [h.within.contains hpart]

/-! ## One step of a lookup -/

/-- What stands above a node of the part is a node of the part. -/
theorem contains_parent (h : Induced part whole) (hpart : part.WellFormed)
    (hchild : part.contains child = true) (hparent : whole.parent? child = some parent) :
    part.contains parent = true := by
  obtain ⟨node, hnode⟩ := Option.isSome_iff_exists.1 hchild
  obtain ⟨found, hfound, hface, -⟩ := h hnode
  have hup : part.parent? child = some parent := by
    simpa [parent?, hnode, hfound, hface.parent] using hparent
  obtain ⟨above, habove, -⟩ := hpart.node?_of_parent? hup
  exact contains_of_node? habove

/-- A node of the part is seen as it is in the whole. -/
theorem is_visible_and_contains (h : Induced part whole) (segment : String) (id : NodeId) :
    (part.contains id && whole.isVisible segment id) = part.isVisible segment id := by
  rcases hnode : part.node? id with _ | node
  · simp [contains, isVisible, hnode]
  · obtain ⟨found, hfound, hface, -⟩ := h hnode
    simp [contains, isVisible, hnode, hfound, hface.kind, hface.segment]

theorem is_file_and_contains (h : Induced part whole) (id : NodeId) :
    (part.contains id && whole.isFile id) = part.isFile id := by
  rcases hnode : part.node? id with _ | node
  · simp [contains, isFile, kind?, hnode]
  · obtain ⟨found, hfound, hface, -⟩ := h hnode
    simp [contains, isFile, kind?, hnode, hfound, hface.kind]

/-- A test of children that the part decides as the whole does picks in the part what is left of
what it picks in the whole. -/
theorem filter_children_with (h : Induced part whole) (hpart : part.WellFormed)
    (hwhole : whole.WellFormed) {test test' : NodeId → Bool}
    (htest : ∀ child, (part.contains child && test child) = test' child) (id : NodeId) :
    (whole.childrenWith test id).filter part.contains = part.childrenWith test' id := by
  rcases hfound : whole.node? id with _ | found
  · have habsent : part.node? id = none := by
      rcases hnode : part.node? id with _ | node
      · rfl
      · obtain ⟨found, hfound', -⟩ := h hnode
        rw [hfound] at hfound'
        cases hfound'
    simp [childrenWith, hfound, habsent]
  · simp only [childrenWith, hfound]
    rcases hnode : part.node? id with _ | node
    · -- A child that is left would have its parent in the part.
      simp only [List.filter_eq_nil_iff, List.mem_filter]
      rintro child ⟨hchild, -⟩ hleft
      have hup := h.contains_parent hpart hleft (hwhole.parent?_of_mem_children hfound hchild)
      simp [contains, hnode] at hup
    · obtain ⟨found', hfound', -, hchildren⟩ := h hnode
      obtain rfl := Option.some.inj (hfound.symm.trans hfound')
      simp only [hchildren, List.filter_filter]
      apply List.filter_congr
      intro child _
      rw [← htest child, Bool.and_right_comm, Bool.and_self]

/-- What is seen from a node in the part is what is left of what is seen in the whole. -/
theorem filter_visible_children (h : Induced part whole) (hpart : part.WellFormed)
    (hwhole : whole.WellFormed) (id : NodeId) (segment : String) :
    (whole.visibleChildren id segment).filter part.contains = part.visibleChildren id segment := by
  have hnamed := h.filter_children_with hpart hwhole (h.is_visible_and_contains segment)
  have hfiles := h.filter_children_with hpart hwhole h.is_file_and_contains id
  rw [hwhole.visible_children_eq, hpart.visible_children_eq, List.filter_append, hnamed, ← hfiles,
    List.filter_flatMap, flat_map_filter_of_nil (fun file _ hfile => ?_)]
  · simp only [hnamed]
  · simp only [contains, Option.isSome_eq_false_iff, Option.isNone_iff_eq_none] at hfile
    simp [childrenWith, hfile]

/-! ## All steps -/

/-- One segment further in the part, from what is left of the candidates. -/
theorem filter_follow (h : Induced part whole) (hpart : part.WellFormed)
    (hwhole : whole.WellFormed) (candidates : List NodeId) (segment : String) :
    (whole.follow candidates segment).filter part.contains =
      part.follow (candidates.filter part.contains) segment := by
  rw [follow, follow, List.filter_flatMap, flat_map_filter_of_nil (fun id _ habsent => ?_)]
  · simp only [h.filter_visible_children hpart hwhole]
  · simp only [contains, Option.isSome_eq_false_iff, Option.isNone_iff_eq_none] at habsent
    simp [visibleChildren, habsent]

theorem filter_foldl_follow (h : Induced part whole) (hpart : part.WellFormed)
    (hwhole : whole.WellFormed) (segments : List String) (candidates : List NodeId) :
    (segments.foldl whole.follow candidates).filter part.contains =
      segments.foldl part.follow (candidates.filter part.contains) := by
  induction segments generalizing candidates with
  | nil => rfl
  | cons segment rest ih =>
      rw [List.foldl_cons, List.foldl_cons, ih, h.filter_follow hpart hwhole]

/-- A name leads in the part to what is left of where it leads in the whole, in the same order. -/
theorem lookup_all_eq (h : Induced part whole) (hpart : part.WellFormed)
    (hwhole : whole.WellFormed) (name : String) :
    part.lookupAll name = (whole.lookupAll name).filter part.contains := by
  rw [Outline.lookup_all_eq, Outline.lookup_all_eq]
  split
  · rfl
  · obtain ⟨root, hroot, -⟩ := hpart.root
    rw [h.filter_foldl_follow hpart hwhole, List.filter_cons_of_pos (contains_of_node? hroot),
      List.filter_nil]

end Induced

end Outline

/-! ## Operations -/

namespace Index

open Outline (Induced Continues)

variable {index after : Index} {id : NodeId}

/-- The outline before an attachment is induced in the one after it. -/
theorem Attachment.induced (new : index.Attachment) (hwell : index.outline.WellFormed) :
    Induced index.outline new.outline := by
  intro id node hnode
  have hne : id ≠ index.outline.places.size := Nat.ne_of_lt (Outline.lt_size_of_node? hnode)
  obtain ⟨same, hsame, -, hchildren⟩ := hwell.induced_refl hnode
  obtain rfl := Option.some.inj (hnode.symm.trans hsame)
  have hgrown := Outline.node?_attach new.content new.segment new.present new.above.path id
  rw [if_neg hne, hnode, Option.map_some] at hgrown
  refine ⟨_, hgrown, ?_⟩
  split
  · -- The parent lists the new node last, and that was no node before.
    have hnew : index.outline.contains index.outline.places.size = false := by
      simp [Outline.contains, Outline.node?]
    refine ⟨(node.same_face_add_child ..).symm, ?_⟩
    rw [Node.children_add_child, List.filter_append, ← hchildren]
    simp [hnew]
  · exact ⟨.refl node, hchildren⟩

theorem Grows.induced {Admits : NodeId → Content → Prop} (h : Grows Admits index after)
    (hwell : index.outline.WellFormed) : Induced index.outline after.outline := by
  refine (h.preserves (motive := fun other => other.outline.WellFormed ∧
    Induced index.outline other.outline) (fun middle new _ hmiddle => ?_)
    ⟨hwell, hwell.induced_refl⟩).2
  exact ⟨new.well_formed hmiddle.1, hmiddle.2.trans (new.induced hmiddle.1)⟩

/-- The outline that a removal leaves is induced in the one before it. -/
theorem Removed.induced (h : Removed index after id) : Induced after.outline index.outline := by
  intro other left hleft
  obtain ⟨node, hnode, -, hface, hchildren⟩ := h.trimmed.survivor hleft
  exact ⟨node, hnode, hface, hchildren⟩

/-- Restricted to the nodes that both outlines have, a name leads to the same nodes in the same
order. -/
def SameCandidates (before after : Outline) : Prop :=
  ∀ name, (after.lookupAll name).filter before.contains =
    (before.lookupAll name).filter after.contains

/-- What is found is present. -/
theorem contains_of_mem_lookup_all {outline : Outline} (hwell : outline.WellFormed) {name : String}
    (h : id ∈ outline.lookupAll name) : outline.contains id = true := by
  obtain ⟨node, hnode, -⟩ := Option.map_eq_some_iff.1 (hwell.path?_of_mem_lookup_all h)
  exact Outline.contains_of_node? hnode

/-- No operation reorders or hides what is left of the answers to a name. -/
theorem same_candidates_run (operation : Operation) (hwell : index.outline.WellFormed) :
    SameCandidates index.outline (operation.run index).outline := by
  have hafter := well_formed_run hwell operation
  -- Of two outlines, one of which is induced in the other, the smaller gives the common answer.
  have hinduced : ∀ {part whole : Outline}, part.WellFormed → whole.WellFormed →
      Induced part whole → ∀ name, (whole.lookupAll name).filter part.contains =
        (part.lookupAll name).filter whole.contains := by
    intro part whole hpart hwhole h name
    rw [← h.lookup_all_eq hpart hwhole name, List.filter_eq_self.2]
    exact fun id hid => h.within.contains (contains_of_mem_lookup_all hpart hid)
  intro name
  rcases run_cases operation index with hgrows | ⟨id, leaving, hremove⟩ | hsame
  · exact hinduced hwell hafter (hgrows.induced hwell) name
  · exact (hinduced hafter hwell (removed_of_remove hwell hremove).induced name).symm
  · rw [hsame]

/-- A node that is there before and after was there in between. -/
theorem contains_between {before middle after : Outline} (h : Continues before middle)
    (k : Continues middle after) (hbefore : before.contains id = true)
    (hafter : after.contains id = true) : middle.contains id = true := by
  obtain ⟨old, hold⟩ := Option.isSome_iff_exists.1 hbefore
  obtain ⟨node, hnode⟩ := Option.isSome_iff_exists.1 hafter
  obtain ⟨found, hfound, -⟩ :=
    k.same (Nat.lt_of_lt_of_le (Outline.lt_size_of_node? hold) h.size_le) hnode
  exact Outline.contains_of_node? hfound

theorem SameCandidates.trans {before middle after : Outline} (h : SameCandidates before middle)
    (k : SameCandidates middle after) (hfirst : Continues before middle)
    (hsecond : Continues middle after) (hbefore : before.WellFormed) (hafter : after.WellFormed) :
    SameCandidates before after := by
  intro name
  -- Answers that are left at the other end were there in between.
  have hback : (after.lookupAll name).filter before.contains =
      ((after.lookupAll name).filter middle.contains).filter before.contains := by
    rw [List.filter_filter]
    refine List.filter_congr (fun id hid => ?_)
    cases hleft : before.contains id with
    | false => rfl
    | true => rw [contains_between hfirst hsecond hleft (contains_of_mem_lookup_all hafter hid)]; rfl
  have hforth : (before.lookupAll name).filter after.contains =
      ((before.lookupAll name).filter middle.contains).filter after.contains := by
    rw [List.filter_filter]
    refine List.filter_congr (fun id hid => ?_)
    cases hleft : after.contains id with
    | false => rfl
    | true => rw [contains_between hfirst hsecond (contains_of_mem_lookup_all hbefore hid) hleft]; rfl
  calc (after.lookupAll name).filter before.contains
      = ((middle.lookupAll name).filter after.contains).filter before.contains := by
        rw [hback, k name]
    _ = ((middle.lookupAll name).filter before.contains).filter after.contains :=
        List.filter_comm ..
    _ = (before.lookupAll name).filter after.contains := by rw [h name, hforth]

theorem same_candidates_foldl_run (history : List Operation) (hwell : index.outline.WellFormed)
    (hconcise : index.outline.Concise) :
    SameCandidates index.outline (history.foldl Operation.run index).outline := by
  induction history generalizing index with
  | nil => exact fun _ => rfl
  | cons operation rest ih =>
      have hmiddle := well_formed_run hwell operation
      obtain ⟨hconcise', hfirst⟩ := continues_run operation hwell hconcise
      exact (same_candidates_run operation hwell).trans (ih hmiddle hconcise') hfirst
        (continues_foldl_run rest hmiddle hconcise').2 hwell (well_formed_foldl_run hmiddle rest)

/-- After any history and whatever operations come next, failed ones included, a name leads to
the nodes to which it led before, as far as both outlines have them, and in the same order. -/
theorem candidates_keep_order (history more : List Operation) (name : String) :
    ((afterHistory (history ++ more)).outline.lookupAll name).filter
        (afterHistory history).outline.contains =
      ((afterHistory history).outline.lookupAll name).filter
        (afterHistory (history ++ more)).outline.contains := by
  have hreachable : (afterHistory history).Reachable := ⟨history, rfl⟩
  have hhistory : afterHistory (history ++ more) =
      more.foldl Operation.run (afterHistory history) := List.foldl_append
  rw [hhistory]
  exact same_candidates_foldl_run more hreachable.well_formed hreachable.concise name

end Index

end CanonicalNames
