import CanonicalNames.Proofs.Index.Changes

/-!
# The representation of an outline

An outline stores every link more than once: in the node that names its parent, in the
parent's list of children, in the parent's index by segment or its list of files, and for
files in the table of source paths. `Outline.Coherent` says what each of these holds, one in
terms of the others, down to the entries of the index by segment. `Outline.Continues` says
that numbers are never used again: a node that is present later under a number handed out
before is the node that had it then. After any history of operations the outline is coherent,
and it continues every outline before it (`coherent_after_history`).
-/

namespace CanonicalNames

/-- What stands in a list after an insertion stood there before or has the new value. -/
theorem Table.mem_of_mem_insert_entry {κ α : Type} [BEq κ] {key : κ} {value : α}
    {entries : List (κ × α)} {entry : κ × α} (h : entry ∈ insertEntry key value entries) :
    entry ∈ entries ∨ entry.2 = value := by
  induction entries with
  | nil =>
      obtain rfl := List.mem_singleton.1 h
      exact Or.inr rfl
  | cons first rest ih =>
      rw [insertEntry] at h
      split at h
      · rcases List.mem_cons.1 h with rfl | h
        · exact Or.inr rfl
        · exact Or.inl (List.mem_cons_of_mem _ h)
      · rcases List.mem_cons.1 h with rfl | h
        · exact Or.inl (List.mem_cons_self ..)
        · exact (ih h).imp_left (List.mem_cons_of_mem _)

/-! ## No segment without a child -/

namespace Node

/-- Every segment that is listed has a child. -/
def Concise (node : Node) : Prop :=
  ∀ entry ∈ node.bySegment.entries, entry.2 ≠ []

variable {node : Node}

theorem Concise.add_child (h : node.Concise) (child : NodeId) (kind : Kind) (segment : String) :
    (node.addChild child kind segment).Concise := by
  unfold addChild
  split
  · exact h
  · intro entry hentry
    rcases Table.mem_of_mem_insert_entry hentry with hold | hnew
    · exact h entry hold
    · rw [hnew]
      simp

/-- A segment leaves the index with its last child. -/
theorem concise_drop_child (node : Node) (child : NodeId) : (node.dropChild child).Concise := by
  intro entry hentry
  obtain ⟨old, -, hold⟩ := List.mem_filterMap.1 hentry
  split at hold
  · cases hold
  · next hrest =>
      obtain rfl := Option.some.inj hold
      exact hrest

end Node

namespace Outline

/-- Every node lists only segments that have a child. -/
def Concise (outline : Outline) : Prop :=
  ∀ id node, outline.node? id = some node → node.Concise

variable {outline before middle after : Outline}

theorem concise_empty : empty.Concise := by
  intro id node hnode entry hentry
  rw [(eq_root_of_node?_empty hnode).2] at hentry
  cases hentry

theorem Concise.drop_node (h : outline.Concise) (id : NodeId) : (outline.dropNode id).Concise := by
  intro other node hnode
  rw [node?_drop_node] at hnode
  split at hnode
  · cases hnode
  · exact h _ _ hnode

theorem Concise.foldl_drop_node (h : outline.Concise) (ids : List NodeId) :
    (ids.foldl dropNode outline).Concise := by
  induction ids generalizing outline with
  | nil => exact h
  | cons id rest ih => exact ih (h.drop_node id)

theorem Concise.detach (h : outline.Concise) (parent child : NodeId) :
    (outline.detach parent child).Concise := by
  intro id node hnode
  rw [Outline.detach, node?_update] at hnode
  split at hnode
  · obtain ⟨old, -, rfl⟩ := Option.map_eq_some_iff.1 hnode
    exact old.concise_drop_child child
  · exact h _ _ hnode

theorem Concise.prune (h : outline.Concise) (steps : Nat) (id : NodeId) :
    (outline.prune steps id).Concise := by
  induction steps generalizing outline id with
  | zero => exact h
  | succ steps ih =>
      unfold Outline.prune
      split
      · exact h
      · split
        · split
          · exact ih ((h.drop_node id).detach _ id) _
          · exact h
        · exact h

/-! ## What an outline stores -/

/-- Each of the places where links are stored holds what follows from the others. -/
structure Coherent (outline : Outline) : Prop where
  root : ∃ node, outline.node? rootId = some node ∧ node.content = .root ∧
    node.parent = none ∧ node.path = ""
  /-- Any other node stands once among the children of a node with a smaller number. -/
  linked : ∀ {id node}, outline.node? id = some node → id ≠ rootId →
    ∃ parent above, node.parent = some parent ∧ parent < id ∧
      outline.node? parent = some above ∧ above.children.count id = 1
  child : ∀ {id node child}, outline.node? id = some node → child ∈ node.children →
    ∃ below, outline.node? child = some below ∧ below.parent = some id
  /-- The index by segment has one list for each segment of a child that is not a file, and it
  holds those children in order. -/
  bySegment : ∀ {id node}, outline.node? id = some node → node.bySegment.Unique ∧
    ∀ segment ids, (segment, ids) ∈ node.bySegment.entries ↔
      ids = node.children.filter (outline.isVisible segment) ∧ ids ≠ []
  files : ∀ {id node}, outline.node? id = some node →
    node.files = node.children.filter outline.isFile
  path : ∀ {id node parent above}, outline.node? id = some node → node.parent = some parent →
    outline.node? parent = some above →
    node.path = if node.kind = .file then above.path else Dotted.join above.path node.segment
  fileAt : ∀ {path id}, outline.fileAt? path = some id ↔ ∃ node source package imports,
    outline.node? id = some node ∧ node.content = .declared (.file source package imports) ∧
      (source == path) = true

/-- The lists of a concise index by segment are those that its lookups find. -/
theorem WellFormed.coherent (h : outline.WellFormed) (hconcise : outline.Concise) :
    outline.Coherent where
  root := h.root
  linked hnode hne := by
    obtain ⟨parent, above, hparent, hlt, habove, hmem⟩ := h.linked hnode hne
    exact ⟨parent, above, hparent, hlt, habove, List.count_eq_one_of_mem (h.nodup habove) hmem⟩
  child := h.child
  bySegment {id node} hnode := by
    refine ⟨h.unique hnode, fun segment ids => ?_⟩
    have hfind : node.bySegment.find? segment = some ids ↔ (segment, ids) ∈ node.bySegment.entries := by
      rw [(h.unique hnode).find?_eq_some_iff]
      constructor
      · rintro ⟨⟨key, value⟩, hentry, hkey, rfl⟩
        obtain rfl : key = segment := eq_of_beq hkey
        exact hentry
      · exact fun hentry => ⟨_, hentry, beq_self_eq_true segment, rfl⟩
    rw [← hfind, ← h.named hnode segment, Node.named]
    constructor
    · intro hfound
      exact ⟨by rw [hfound]; rfl, hconcise _ _ hnode _ (hfind.1 hfound)⟩
    · rintro ⟨rfl, hne⟩
      rcases hfound : node.bySegment.find? segment with _ | found
      · rw [hfound] at hne
        exact absurd rfl hne
      · rfl
  files := h.files
  path := h.path
  fileAt := h.fileAt

/-! ## Numbers are not used again -/

/-- A node of the later outline under a number that the earlier one has handed out is the node
that had it then; a number whose node has left stays empty. -/
structure Continues (before after : Outline) : Prop where
  size_le : before.places.size ≤ after.places.size
  same : ∀ {id node}, id < before.places.size → after.node? id = some node →
    ∃ old, before.node? id = some old ∧ node.SameFace old

namespace Continues

theorem refl (outline : Outline) : Continues outline outline :=
  ⟨Nat.le_refl _, fun _ hnode => ⟨_, hnode, .refl _⟩⟩

theorem trans (h : Continues before middle) (k : Continues middle after) :
    Continues before after := by
  refine ⟨Nat.le_trans h.size_le k.size_le, fun hlt hnode => ?_⟩
  obtain ⟨found, hfound, hface⟩ := k.same (Nat.lt_of_lt_of_le hlt h.size_le) hnode
  obtain ⟨old, hold, hface'⟩ := h.same hlt hfound
  exact ⟨old, hold, hface.trans hface'⟩

end Continues

end Outline

/-! ## Histories -/

namespace Index

open Outline (Coherent Concise Continues)

variable {index after : Index}

theorem Attachment.concise (new : index.Attachment) (h : index.outline.Concise) :
    new.outline.Concise := by
  intro id node hnode
  rcases Outline.attach_cases new.content new.segment new.present hnode with
    ⟨-, rfl⟩ | ⟨old, hold, -, rfl⟩
  · exact nofun
  · split
    · exact (h _ _ hold).add_child _ _ _
    · exact h _ _ hold

/-- A new node takes the next number. -/
theorem Attachment.continues (new : index.Attachment) : Continues index.outline new.outline := by
  refine ⟨by rw [new.size_outline]; omega, fun hlt hnode => ?_⟩
  rcases new.cases hnode with ⟨rfl, -⟩ | ⟨old, hold, -, hface⟩
  · omega
  · exact ⟨old, hold, hface⟩

theorem concise_remove {id : NodeId} {leaving : List NodeId} (hwell : index.outline.WellFormed)
    (h : index.remove id = .ok (leaving, after)) (hconcise : index.outline.Concise) :
    after.outline.Concise := by
  obtain ⟨parent, -, -, rfl⟩ := remove_eq hwell h
  exact ((hconcise.foldl_drop_node leaving).detach parent id).prune (parent + 1) parent

theorem Removed.continues {id : NodeId} (h : Removed index after id) :
    Continues index.outline after.outline := by
  refine ⟨Nat.le_of_eq h.trimmed.size.symm, fun _ hnode => ?_⟩
  obtain ⟨old, hold, -, hface, -⟩ := h.trimmed.survivor hnode
  exact ⟨old, hold, hface⟩

/-- Every operation keeps outlines concise and continues them. -/
theorem continues_run (operation : Operation) (hwell : index.outline.WellFormed)
    (hconcise : index.outline.Concise) :
    (operation.run index).outline.Concise ∧
      Continues index.outline (operation.run index).outline := by
  rcases run_cases operation index with hgrows | ⟨id, leaving, hremove⟩ | hsame
  · refine hgrows.preserves (motive := fun other => other.outline.Concise ∧
      Continues index.outline other.outline) (fun middle new _ h => ?_) ⟨hconcise, .refl _⟩
    exact ⟨new.concise h.1, h.2.trans new.continues⟩
  · exact ⟨concise_remove hwell hremove hconcise, (removed_of_remove hwell hremove).continues⟩
  · rw [hsame]
    exact ⟨hconcise, .refl _⟩

theorem continues_foldl_run (history : List Operation) (hwell : index.outline.WellFormed)
    (hconcise : index.outline.Concise) :
    (history.foldl Operation.run index).outline.Concise ∧
      Continues index.outline (history.foldl Operation.run index).outline := by
  induction history generalizing index with
  | nil => exact ⟨hconcise, .refl _⟩
  | cons operation rest ih =>
      obtain ⟨hconcise', hcontinues⟩ := continues_run operation hwell hconcise
      obtain ⟨hlast, hrest⟩ := ih (well_formed_run hwell operation) hconcise'
      exact ⟨hlast, hcontinues.trans hrest⟩

theorem Reachable.concise (h : index.Reachable) : index.outline.Concise := by
  obtain ⟨history, rfl⟩ := h
  exact (continues_foldl_run history Outline.well_formed_empty Outline.concise_empty).1

/-- After any history, operations that failed included, the places where the outline stores its
links agree, and whatever happens later, no number that was handed out comes to denote another
node. -/
theorem coherent_after_history (history more : List Operation) :
    (afterHistory history).outline.Coherent ∧
      Continues (afterHistory history).outline (afterHistory (history ++ more)).outline := by
  have hwell : (afterHistory history).outline.WellFormed :=
    well_formed_foldl_run Outline.well_formed_empty history
  have hconcise : (afterHistory history).outline.Concise :=
    (continues_foldl_run history Outline.well_formed_empty Outline.concise_empty).1
  refine ⟨hwell.coherent hconcise, ?_⟩
  rw [afterHistory, afterHistory, List.foldl_append]
  exact (continues_foldl_run more hwell hconcise).2

end Index

end CanonicalNames
