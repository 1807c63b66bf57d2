import CanonicalNames.Index.Remove
import CanonicalNames.Proofs.Outline.Descent

/-!
# Removal of a node with everything below it

`Cut before after top parent` says that `after` is `before` without the nodes below `top`,
and with `top` taken off its parent. A cut keeps an outline well formed. Removal is a cut
at the node to remove, followed by cuts at package segments that are left without children;
`remove_outline` says so, and what any number of such cuts leaves is in `Trimmed`.
-/

namespace CanonicalNames

namespace Node

variable (node : Node) (child : NodeId)

theorem same_face_drop_child : SameFace (node.dropChild child) node := ⟨rfl, rfl, rfl, rfl⟩

theorem children_drop_child :
    (node.dropChild child).children = node.children.filter (fun other => !(other == child)) := rfl

end Node

namespace Outline

variable {outline before after : Outline} {id top parent other : NodeId} {node : Node}

/-! ## Taking nodes out -/

/-- A node that is taken out is gone, and every other node stays. -/
theorem node?_drop_node (id other : NodeId) :
    (outline.dropNode id).node? other = if other = id then none else outline.node? other := by
  simp only [dropNode]
  by_cases hother : other = id
  · subst hother
    rw [if_pos rfl]
    by_cases hlt : other < outline.places.size
    · exact node?_set_place_self none hlt
    · have hsize : (outline.setPlace other none).places.size ≤ other := by
        simpa [setPlace] using Nat.not_lt.1 hlt
      exact (congrArg Option.join (Array.getElem?_eq_none hsize))
  · rw [if_neg hother]
    exact node?_set_place_of_ne none (Ne.symm hother)

/-- The table of source paths lists the present files. -/
def FilesAgree (outline : Outline) : Prop :=
  ∀ path id, outline.fileAt? path = some id ↔ ∃ node source package imports,
    outline.node? id = some node ∧ node.content = .declared (.file source package imports) ∧
      (source == path) = true

/-- A file that is taken out is taken out of the table. -/
theorem FilesAgree.drop_node (h : outline.FilesAgree) (id : NodeId) :
    (outline.dropNode id).FilesAgree := by
  intro path file
  simp only [node?_drop_node]
  have hfiles : (outline.dropNode id).fileAt? path = some file ↔
      outline.fileAt? path = some file ∧ file ≠ id := by
    simp only [fileAt?, dropNode]
    split
    · next source package imports helement =>
        obtain ⟨node, hnode, hcontent⟩ := Option.bind_eq_some_iff.1 helement
        have hcontent : node.content = .declared (.file source package imports) := by
          cases hc : node.content <;> simp_all [Node.element?, Content.element?]
        cases hsource : source == path with
        | true =>
            have hid : outline.fileAt? path = some id :=
              (h path id).2 ⟨node, source, package, imports, hnode, hcontent, hsource⟩
            rw [Table.find?_erase_of_beq _ hsource]
            constructor
            · intro hfound
              cases hfound
            · rintro ⟨hfound, hne⟩
              exact absurd (Option.some.inj (hfound.symm.trans hid)) hne
        | false =>
            rw [Table.find?_erase_of_not_beq _ hsource]
            refine ⟨fun hfound => ⟨hfound, ?_⟩, And.left⟩
            rintro rfl
            obtain ⟨node', source', package', imports', hnode', hcontent', hbeq⟩ :=
              (h path file).1 hfound
            rw [hnode, Option.some.injEq] at hnode'
            rw [← hnode', hcontent] at hcontent'
            cases hcontent'
            rw [hsource] at hbeq
            cases hbeq
    · next hnot =>
        refine ⟨fun hfound => ⟨hfound, ?_⟩, And.left⟩
        rintro rfl
        obtain ⟨node, source, package, imports, hnode, hcontent, _⟩ := (h path file).1 hfound
        exact hnot source package imports (by simp [element?, hnode, Node.element?, hcontent,
          Content.element?])
  rw [hfiles, h path file]
  constructor
  · rintro ⟨⟨node, source, package, imports, hnode, hrest⟩, hne⟩
    exact ⟨node, source, package, imports, by rw [if_neg hne]; exact hnode, hrest⟩
  · rintro ⟨node, source, package, imports, hnode, hrest⟩
    split at hnode
    · cases hnode
    · next hne => exact ⟨⟨node, source, package, imports, hnode, hrest⟩, hne⟩

/-- Taking out the nodes of a list. -/
theorem node?_foldl_drop_node (ids : List NodeId) (other : NodeId) :
    (ids.foldl dropNode outline).node? other = if other ∈ ids then none else outline.node? other := by
  induction ids generalizing outline with
  | nil => simp
  | cons id rest ih =>
      rw [List.foldl_cons, ih, node?_drop_node]
      by_cases hrest : other ∈ rest <;> by_cases hid : other = id <;> simp [hrest, hid]

theorem FilesAgree.foldl_drop_node (h : outline.FilesAgree) (ids : List NodeId) :
    (ids.foldl dropNode outline).FilesAgree := by
  induction ids generalizing outline with
  | nil => exact h
  | cons id rest ih => exact ih (h.drop_node id)

@[simp] theorem size_drop_node (id : NodeId) :
    (outline.dropNode id).places.size = outline.places.size := by
  simp [dropNode, setPlace]

theorem size_foldl_drop_node (ids : List NodeId) :
    (ids.foldl dropNode outline).places.size = outline.places.size := by
  induction ids generalizing outline with
  | nil => rfl
  | cons id rest ih => rw [List.foldl_cons, ih, size_drop_node]

@[simp] theorem size_detach (parent child : NodeId) :
    (outline.detach parent child).places.size = outline.places.size := by
  simp only [detach, update]
  split <;> simp [setPlace]

@[simp] theorem file_at_detach (parent child : NodeId) (path : SourcePath) :
    (outline.detach parent child).fileAt? path = outline.fileAt? path := by
  simp only [fileAt?, detach, update]
  split <;> rfl

/-! ## Cuts -/

/-- `after` is `before` without the nodes below `top`, and with `top` taken off `parent`. -/
structure Cut (before after : Outline) (top parent : NodeId) : Prop where
  parent_eq : before.parent? top = some parent
  gone : ∀ {id}, before.Below id top → after.node? id = none
  kept : ∀ {id}, ¬ before.Below id top → after.node? id = (before.node? id).map (fun node =>
    if id = parent then node.dropChild top else node)
  files : after.FilesAgree
  size : after.places.size = before.places.size

namespace Cut

/-- A node of the outline after a cut was there before, not below the top of the cut. -/
theorem survivor (hcut : Cut before after top parent) (h : after.node? id = some node) :
    ∃ old, before.node? id = some old ∧ ¬ before.Below id top ∧
      node = if id = parent then old.dropChild top else old := by
  by_cases hbelow : before.Below id top
  · rw [hcut.gone hbelow] at h
    cases h
  · rw [hcut.kept hbelow] at h
    obtain ⟨old, hold, rfl⟩ := Option.map_eq_some_iff.1 h
    exact ⟨old, hold, hbelow, rfl⟩

/-- A node of the outline after a cut has the face that it had before. -/
theorem survivor_face (hcut : Cut before after top parent) (h : after.node? id = some node) :
    ∃ old, before.node? id = some old ∧ ¬ before.Below id top ∧ node.SameFace old := by
  obtain ⟨old, hold, hbelow, rfl⟩ := hcut.survivor h
  exact ⟨old, hold, hbelow, (old.same_face_drop_child top).ite⟩

/-- A node that is not below the top of a cut keeps its content, segment, parent and path. -/
theorem exists_node? (hcut : Cut before after top parent) (h : before.node? id = some node)
    (hbelow : ¬ before.Below id top) :
    ∃ left, after.node? id = some left ∧ left.SameFace node ∧
      ∀ child ∈ node.children, ¬ before.Below child top → child ∈ left.children := by
  refine ⟨_, by rw [hcut.kept hbelow, h, Option.map_some], (node.same_face_drop_child top).ite, ?_⟩
  intro child hchild hnot
  split
  · rw [Node.children_drop_child, List.mem_filter]
    have hne : child ≠ top := fun heq => hnot (heq ▸ .refl _)
    exact ⟨hchild, by simpa using hne⟩
  · exact hchild

/-- The top of a cut is listed by its parent only. -/
theorem top_not_mem_children (hcut : Cut before after top parent) (hwell : before.WellFormed)
    (h : before.node? id = some node) (hne : id ≠ parent) : top ∉ node.children := by
  intro hmem
  have hup := hwell.parent?_of_mem_children h hmem
  rw [hcut.parent_eq, Option.some.injEq] at hup
  exact hne hup.symm

/-- Whatever lists children of a node that is not the parent does not list the top. -/
theorem filter_ne_top (hcut : Cut before after top parent) (hwell : before.WellFormed)
    (h : before.node? id = some node) (hne : id ≠ parent) {listed : List NodeId}
    (hlisted : ∀ child ∈ listed, child ∈ node.children) :
    listed.filter (fun child => !(child == top)) = listed := by
  rw [List.filter_eq_self]
  intro child hchild
  have hneTop : child ≠ top := by
    rintro rfl
    exact hcut.top_not_mem_children hwell h hne (hlisted child hchild)
  simpa using hneTop

/-- The children after a cut are those before it without the top. -/
theorem mem_children (hcut : Cut before after top parent) (hwell : before.WellFormed)
    (h : after.node? id = some node) {old : Node} (hold : before.node? id = some old) :
    node.children = old.children.filter (fun child => !(child == top)) := by
  obtain ⟨old', hold', _, rfl⟩ := hcut.survivor h
  rw [hold, Option.some.injEq] at hold'
  subst hold'
  split
  · rfl
  · next hne => exact (hcut.filter_ne_top hwell hold hne (fun _ hchild => hchild)).symm

/-- The children under a segment after a cut are those before it without the top. -/
theorem named_eq (hcut : Cut before after top parent) (hwell : before.WellFormed)
    (h : after.node? id = some node) {old : Node} (hold : before.node? id = some old)
    (segment : String) :
    node.named segment = (old.named segment).filter (fun child => !(child == top)) := by
  obtain ⟨old', hold', _, rfl⟩ := hcut.survivor h
  rw [hold, Option.some.injEq] at hold'
  subst hold'
  split
  · exact old.named_drop_child top (hwell.unique hold) segment
  · next hne =>
      refine (hcut.filter_ne_top hwell hold hne (fun child hchild => ?_)).symm
      rw [hwell.named hold] at hchild
      exact (List.mem_filter.1 hchild).1

/-- The files of a node after a cut are those before it without the top. -/
theorem files_eq (hcut : Cut before after top parent) (hwell : before.WellFormed)
    (h : after.node? id = some node) {old : Node} (hold : before.node? id = some old) :
    node.files = old.files.filter (fun child => !(child == top)) := by
  obtain ⟨old', hold', _, rfl⟩ := hcut.survivor h
  rw [hold, Option.some.injEq] at hold'
  subst hold'
  split
  · rfl
  · next hne =>
      refine (hcut.filter_ne_top hwell hold hne (fun child hchild => ?_)).symm
      rw [hwell.files hold] at hchild
      exact (List.mem_filter.1 hchild).1

end Cut

namespace WellFormed

/-- A listed child of a node that is left is left too. -/
theorem not_below_of_mem_children (hwell : before.WellFormed)
    {old : Node} (hold : before.node? id = some old) (hbelow : ¬ before.Below id top)
    (hchild : other ∈ old.children.filter (fun child => !(child == top))) :
    ¬ before.Below other top := by
  obtain ⟨hmem, hne⟩ := List.mem_filter.1 hchild
  intro hother
  rcases hother.cases_head with heq | ⟨up, hup, hrest⟩
  · simp [heq] at hne
  · rw [hwell.parent?_of_mem_children hold hmem, Option.some.injEq] at hup
    exact hbelow (hup ▸ hrest)

/-- A child that a cut leaves to a node is left with its face. -/
theorem exists_left_of_cut (h : before.WellFormed) (hcut : Cut before after top parent)
    {old : Node} (hold : before.node? id = some old) (hbelow : ¬ before.Below id top)
    (hchild : other ∈ old.children.filter (fun child => !(child == top))) :
    ∃ below left, before.node? other = some below ∧ after.node? other = some left ∧
      left.SameFace below ∧ below.parent = some id := by
  obtain ⟨below, hnode, hparent⟩ := h.child hold (List.mem_filter.1 hchild).1
  obtain ⟨left, hleft, hface, _⟩ := hcut.exists_node? hnode
    (h.not_below_of_mem_children hold hbelow hchild)
  exact ⟨below, left, hnode, hleft, hface, hparent⟩

/-- The children that a cut leaves to a node are seen as before by whatever sees faces only. -/
theorem filter_children_cut (h : before.WellFormed) (hcut : Cut before after top parent)
    {old : Node} (hold : before.node? id = some old) (hbelow : ¬ before.Below id top)
    {seen seenBefore : NodeId → Bool}
    (hseen : ∀ {child left below}, after.node? child = some left →
      before.node? child = some below → left.SameFace below → seen child = seenBefore child) :
    (old.children.filter (fun child => !(child == top))).filter seen =
      (old.children.filter seenBefore).filter (fun child => !(child == top)) := by
  rw [List.filter_comm _ seenBefore]
  apply List.filter_congr
  intro child hchild
  obtain ⟨below, left, hbefore, hafter, hface, _⟩ := h.exists_left_of_cut hcut hold hbelow hchild
  exact hseen hafter hbefore hface

/-- A cut keeps an outline well formed. -/
theorem cut (h : before.WellFormed) (hcut : Cut before after top parent) : after.WellFormed := by
  have hlt := h.parent_lt hcut.parent_eq
  have hroot : ¬ before.Below rootId top := fun hbelow =>
    absurd (Nat.lt_of_le_of_lt (Nat.zero_le parent) hlt)
      (Nat.not_lt.2 (h.le_of_below hbelow))
  constructor
  case root =>
    obtain ⟨node, hnode, hcontent, hparent, hpath⟩ := h.root
    obtain ⟨left, hleft, hface, _⟩ := hcut.exists_node? hnode hroot
    exact ⟨left, hleft, hface.content.trans hcontent, hface.parent.trans hparent,
      hface.path.trans hpath⟩
  case linked =>
    intro id node hnode hne
    obtain ⟨old, hold, hbelow, hface⟩ := hcut.survivor_face hnode
    obtain ⟨up, above, hparent, hplt, habove, hmem⟩ := h.linked hold hne
    have hup : ¬ before.Below up top := fun hup =>
      hbelow (hup.head (parent?_of_node? hold hparent))
    obtain ⟨left, hleft, _, hchildren⟩ := hcut.exists_node? habove hup
    exact ⟨up, left, hface.parent.trans hparent, hplt, hleft, hchildren id hmem hbelow⟩
  case child =>
    intro id node child hnode hmem
    obtain ⟨old, hold, hbelow, _⟩ := hcut.survivor hnode
    rw [hcut.mem_children h hnode hold] at hmem
    obtain ⟨below, left, _, hleft, hface, hparent⟩ := h.exists_left_of_cut hcut hold hbelow hmem
    exact ⟨left, hleft, hface.parent.trans hparent⟩
  case nodup =>
    intro id node hnode
    obtain ⟨old, hold, _⟩ := hcut.survivor hnode
    rw [hcut.mem_children h hnode hold]
    exact (h.nodup hold).filter _
  case named =>
    intro id node hnode segment
    obtain ⟨old, hold, hbelow, _⟩ := hcut.survivor hnode
    rw [hcut.named_eq h hnode hold, hcut.mem_children h hnode hold, h.named hold]
    exact (h.filter_children_cut hcut hold hbelow
      (fun hleft hbefore hface => is_visible_congr hleft hbefore hface segment)).symm
  case files =>
    intro id node hnode
    obtain ⟨old, hold, hbelow, _⟩ := hcut.survivor hnode
    rw [hcut.files_eq h hnode hold, hcut.mem_children h hnode hold, h.files hold]
    exact (h.filter_children_cut hcut hold hbelow is_file_congr).symm
  case unique =>
    intro id node hnode
    obtain ⟨old, hold, _, rfl⟩ := hcut.survivor hnode
    split
    · exact old.unique_drop_child _ (h.unique hold)
    · exact h.unique hold
  case path =>
    intro id node up above hnode hparent habove
    obtain ⟨old, hold, _, hface⟩ := hcut.survivor_face hnode
    obtain ⟨oldAbove, holdAbove, _, hfaceAbove⟩ := hcut.survivor_face habove
    rw [hface.path, hface.kind, hface.segment, hfaceAbove.path]
    exact h.path hold (hface.parent.symm.trans hparent) holdAbove
  case content =>
    intro id node hnode hne
    obtain ⟨old, hold, _, hface⟩ := hcut.survivor_face hnode
    rw [hface.content]
    exact h.content hold hne
  case segment =>
    intro id node element hnode hcontent
    obtain ⟨old, hold, _, hface⟩ := hcut.survivor_face hnode
    exact hface.segment.trans (h.segment hold (hface.content.symm.trans hcontent))
  case fileAt => exact @(hcut.files)

end WellFormed

/-- Taking out exactly the nodes below a node, and the node off its parent, is a cut. -/
theorem WellFormed.cut_of_mem_iff (h : outline.WellFormed) {leaving : List NodeId}
    (hparent : outline.parent? top = some parent)
    (hleaving : ∀ id, id ∈ leaving ↔ outline.Below id top) :
    Cut outline ((leaving.foldl dropNode outline).detach parent top) top parent := by
  have hup : ¬ outline.Below parent top := fun hbelow =>
    Nat.lt_irrefl _ (Nat.lt_of_lt_of_le (h.parent_lt hparent) (h.le_of_below hbelow))
  refine ⟨hparent, ?_, ?_, ?_, ?_⟩
  · intro id hbelow
    have hne : id ≠ parent := fun heq => hup (heq ▸ hbelow)
    rw [detach, node?_update, if_neg hne, node?_foldl_drop_node, if_pos ((hleaving id).2 hbelow)]
  · intro id hbelow
    rw [detach, node?_update, node?_foldl_drop_node, if_neg (fun hmem => hbelow ((hleaving id).1 hmem))]
    by_cases hid : id = parent
    · simp [hid]
    · simp [hid]
  · intro path id
    rw [file_at_detach, FilesAgree.foldl_drop_node (fun _ _ => h.fileAt) leaving path id]
    -- The parent is the only node that changes, and it keeps its content.
    by_cases hid : id = parent
    · simp only [detach, node?_update, if_pos hid]
      constructor
      · rintro ⟨node, source, package, imports, hnode, hcontent, hbeq⟩
        exact ⟨node.dropChild top, source, package, imports, by simp [hnode], hcontent, hbeq⟩
      · rintro ⟨node, source, package, imports, hnode, hcontent, hbeq⟩
        obtain ⟨old, hold, rfl⟩ := Option.map_eq_some_iff.1 hnode
        exact ⟨old, source, package, imports, hold, hcontent, hbeq⟩
    · simp only [detach, node?_update, if_neg hid]
  · rw [size_detach, size_foldl_drop_node]

/-! ## Pruning -/

/-- What a removal leaves: nothing below `top`, and of the rest everything but package
segments; nodes that are left lose the children that are not. -/
structure Trimmed (before after : Outline) (top : NodeId) : Prop where
  gone : ∀ {id}, before.Below id top → after.node? id = none
  kept : ∀ {id node}, before.node? id = some node → ¬ before.Below id top →
    node.kind ≠ .package → ∃ left, after.node? id = some left
  survivor : ∀ {id left}, after.node? id = some left →
    ∃ node, before.node? id = some node ∧ ¬ before.Below id top ∧ left.SameFace node ∧
      left.children = node.children.filter after.contains
  size : after.places.size = before.places.size

/-- A cut leaves everything that is not below its top. -/
theorem WellFormed.trimmed_of_cut (h : before.WellFormed) (hcut : Cut before after top parent) :
    Trimmed before after top := by
  refine ⟨hcut.gone, ?_, ?_, hcut.size⟩
  · intro id node hnode hbelow _
    obtain ⟨left, hleft, _⟩ := hcut.exists_node? hnode hbelow
    exact ⟨left, hleft⟩
  · intro id left hleft
    obtain ⟨node, hnode, hbelow, hface⟩ := hcut.survivor_face hleft
    refine ⟨node, hnode, hbelow, hface, ?_⟩
    rw [hcut.mem_children h hleft hnode]
    apply List.filter_congr
    intro child hchild
    cases htop : child == top with
    | true =>
        rw [eq_of_beq htop]
        simp [contains, hcut.gone (Below.refl top)]
    | false =>
        obtain ⟨_, found, _, hfound, _⟩ := h.exists_left_of_cut hcut hnode hbelow
          (List.mem_filter.2 ⟨hchild, by simp [htop]⟩)
        rw [contains_of_node? hfound]
        rfl

/-- A package segment without children may be cut off as well. -/
theorem Trimmed.cut_package {left : Outline} (h : Trimmed before after top)
    (hwell : after.WellFormed) (hnode : after.node? id = some node) (hkind : node.kind = .package)
    (hchildren : node.children = []) (hcut : Cut after left id parent) :
    Trimmed before left top := by
  have hbelow : ∀ {other}, after.Below other id → other = id := by
    intro other hother
    simpa [hchildren] using (hwell.below_iff hnode).1 hother
  refine ⟨?_, ?_, ?_, hcut.size.trans h.size⟩
  · intro other hother
    rcases hfound : left.node? other with _ | found
    · rfl
    · obtain ⟨old, hold, _⟩ := hcut.survivor hfound
      rw [h.gone hother] at hold
      cases hold
  · intro other old hold hother hpackage
    obtain ⟨found, hfound⟩ := h.kept hold hother hpackage
    have hne : ¬ after.Below other id := by
      intro hbelow'
      obtain rfl := hbelow hbelow'
      obtain ⟨old', hold', _, hface, _⟩ := h.survivor hnode
      rw [hold, Option.some.injEq] at hold'
      subst hold'
      exact hpackage (hface.kind.symm.trans hkind)
    obtain ⟨found', hfound', _⟩ := hcut.exists_node? hfound hne
    exact ⟨found', hfound'⟩
  · intro other found hfound
    obtain ⟨mid, hmid, _, hface, hchildren'⟩ := (hwell.trimmed_of_cut hcut).survivor hfound
    obtain ⟨old, hold, hother, hface', hchildren''⟩ := h.survivor hmid
    refine ⟨old, hold, hother, hface.trans hface', ?_⟩
    rw [hchildren', hchildren'', List.filter_filter]
    apply List.filter_congr
    intro child _
    cases hleft : left.contains child with
    | false => simp
    | true =>
        obtain ⟨found', hfound'⟩ := Option.isSome_iff_exists.1 hleft
        obtain ⟨old', hold', _⟩ := hcut.survivor hfound'
        simp [contains, hold']

/-- Pruning keeps an outline well formed and takes out package segments only. -/
theorem Trimmed.prune (h : Trimmed before outline top) (hwell : outline.WellFormed) (steps : Nat)
    (id : NodeId) :
    (outline.prune steps id).WellFormed ∧ Trimmed before (outline.prune steps id) top := by
  induction steps generalizing outline id with
  | zero => exact ⟨hwell, h⟩
  | succ steps ih =>
      unfold Outline.prune
      split
      · exact ⟨hwell, h⟩
      · next node hnode =>
          split
          · next hpackage =>
              split
              · next parent hparent =>
                  have hup : outline.parent? id = some parent := by simp [parent?, hnode, hparent]
                  have hcut : Cut outline ((outline.dropNode id).detach parent id) id parent := by
                    refine @WellFormed.cut_of_mem_iff _ _ _ hwell [id] hup (fun other => ?_)
                    rw [hwell.below_iff hnode]
                    simp [hpackage.2]
                  exact ih (h.cut_package hwell hnode hpackage.1 hpackage.2 hcut)
                    (hwell.cut hcut) parent
              · exact ⟨hwell, h⟩
          · exact ⟨hwell, h⟩

end Outline

end CanonicalNames
