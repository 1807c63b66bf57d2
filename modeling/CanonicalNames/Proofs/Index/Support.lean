import CanonicalNames.Proofs.Index.Registry

/-!
# What resolved references rest on

A resolved reference rests on something in the outline: on a class in the file that it is
subscribed to, on the absence of a class that only an import names, or, through a type
parameter, on whatever the bound rests on. `Outline.Supports` says what that is for each
origin. Edits take support away, and then the reference is told: between refreshes every
resolved reference is supported or named by a notification that nobody has taken yet. That is
`Index.Guarded`, and this module shows that attaching nodes, removing files, taking
notifications in and resolving in live mode keep it.
-/

namespace CanonicalNames

namespace Outline

variable {outline part whole : Outline} {id file : NodeId} {node : Node}

/-! ## Files, paths and lookups in a part of an outline -/

/-- A part shows its nodes as the whole does. -/
theorem Within.map_eq {α : Type} {view : Node → α} (h : Within part whole)
    (hview : ∀ {left right : Node}, left.SameFace right → view left = view right)
    (hid : part.contains id = true) : (whole.node? id).map view = (part.node? id).map view := by
  obtain ⟨node, hnode⟩ := Option.isSome_iff_exists.1 hid
  obtain ⟨found, hfound, hface⟩ := h id node hnode
  rw [hnode, hfound, Option.map_some, Option.map_some, hview hface]

theorem Within.kind?_eq (h : Within part whole) (hid : part.contains id = true) :
    whole.kind? id = part.kind? id :=
  h.map_eq Node.SameFace.kind hid

theorem Within.path?_eq (h : Within part whole) (hid : part.contains id = true) :
    whole.path? id = part.path? id :=
  h.map_eq Node.SameFace.path hid

theorem Within.parent?_eq (h : Within part whole) (hid : part.contains id = true) :
    whole.parent? id = part.parent? id := by
  have hparent := h.map_eq Node.SameFace.parent hid
  obtain ⟨node, hnode⟩ := Option.isSome_iff_exists.1 hid
  obtain ⟨found, hfound, -⟩ := h id node hnode
  simpa [Outline.parent?, hnode, hfound] using hparent

/-- The file of a node is the node itself or the file of its parent. -/
theorem WellFormed.file_of?_eq (h : outline.WellFormed) (id : NodeId) : outline.fileOf? id =
    if outline.kind? id = some .file then some id
    else (outline.parent? id).bind outline.fileOf? := by
  by_cases hkind : outline.kind? id = some .file
  · simp [fileOf?, hkind]
  · rw [if_neg hkind]
    rcases hparent : outline.parent? id with _ | parent
    · have hnone : outline.ancestors id = [] := climb_eq_nil hparent
      simp [fileOf?, hkind, hnone]
    · simp [fileOf?, hkind, h.ancestors_eq_cons hparent]

theorem kind?_of_file_of? (h : outline.fileOf? id = some file) : outline.kind? file = some .file := by
  simpa using List.find?_some h

theorem kind?_of_lookup_type? {path : String} (h : outline.lookupType? path = some id) :
    outline.kind? id = some .classDecl := by
  simpa using List.find?_some h

/-- The file of a node is above it, and so is every file below which the node lies. -/
theorem WellFormed.file_of?_below {top : NodeId} (h : outline.WellFormed)
    (htop : outline.isFile top = true) (hbelow : outline.Below id top)
    (hfile : outline.fileOf? id = some file) : outline.Below file top := by
  induction hbelow using Relation.ReflTransGen.head_induction_on with
  | refl =>
      rw [h.file_of?_eq, if_pos (by simpa [isFile] using htop)] at hfile
      obtain rfl := Option.some.inj hfile
      rfl
  | head hstep hrest ih =>
      rw [h.file_of?_eq] at hfile
      split at hfile
      · obtain rfl := Option.some.inj hfile
        exact hrest.head hstep
      · rw [hstep, Option.bind_some] at hfile
        exact ih hfile

/-- A node has the same file in a part and in the whole. -/
theorem Within.file_of?_eq (h : Within part whole) (hwell : part.WellFormed)
    (hwell' : whole.WellFormed) (hid : part.contains id = true) :
    whole.fileOf? id = part.fileOf? id := by
  induction id using Nat.strong_induction_on with
  | _ id ih =>
      rw [hwell.file_of?_eq, hwell'.file_of?_eq, h.kind?_eq hid, h.parent?_eq hid]
      split
      · rfl
      · rcases hparent : part.parent? id with _ | parent
        · rfl
        · exact ih parent (hwell.parent_lt hparent) (hwell.contains_of_parent? hparent)

/-- What is visible in a part is visible in the whole. -/
theorem Within.visible_children_subset (h : Within part whole) (hwell : part.WellFormed)
    (hwell' : whole.WellFormed) (id : NodeId) (segment : String) :
    part.visibleChildren id segment ⊆ whole.visibleChildren id segment := by
  have hchild : ∀ {up child node found}, part.node? up = some node → whole.node? up = some found →
      child ∈ node.children → child ∈ found.children := by
    intro up child node found hnode hfound hmem
    obtain ⟨above, habove, hmem'⟩ :=
      hwell'.node?_of_parent? (h.parent? (hwell.parent?_of_mem_children hnode hmem))
    obtain rfl := Option.some.inj (hfound.symm.trans habove)
    exact hmem'
  have hvisible : ∀ {child}, part.isVisible segment child = true →
      whole.isVisible segment child = true := by
    intro child hseen
    unfold isVisible at hseen
    split at hseen
    · next node hnode =>
        obtain ⟨found, hfound, hface⟩ := h _ node hnode
        simpa [isVisible, hfound, hface.kind, hface.segment] using hseen
    · cases hseen
  intro child hmem
  rcases hnode : part.node? id with _ | node
  · simp [visibleChildren, hnode] at hmem
  · obtain ⟨found, hfound, -⟩ := h id node hnode
    rw [hwell'.mem_visible_children_iff hfound]
    rcases (hwell.mem_visible_children_iff hnode).1 hmem with
      ⟨hmem, hseen⟩ | ⟨file, fileNode, hfile, hkind, hfileNode, hmem, hseen⟩
    · exact Or.inl ⟨hchild hnode hfound hmem, hvisible hseen⟩
    · obtain ⟨fileFound, hfileFound, -⟩ := h file fileNode hfileNode
      refine Or.inr ⟨file, fileFound, hchild hnode hfound hfile, ?_, hfileFound,
        hchild hfileNode hfileFound hmem, hvisible hseen⟩
      simpa [isFile] using h.kind? (by simpa [isFile] using hkind)

theorem Within.foldl_follow_subset (h : Within part whole) (hwell : part.WellFormed)
    (hwell' : whole.WellFormed) (segments : List String) {left right : List NodeId}
    (hsubset : left ⊆ right) : segments.foldl part.follow left ⊆ segments.foldl whole.follow right := by
  induction segments generalizing left right with
  | nil => exact hsubset
  | cons segment rest ih =>
      refine ih (fun id hid => ?_)
      obtain ⟨above, habove, hmem⟩ := List.mem_flatMap.1 hid
      exact List.mem_flatMap.2
        ⟨above, hsubset habove, h.visible_children_subset hwell hwell' above segment hmem⟩

/-- A class that is not found in the whole is not found in a part. -/
theorem Within.lookup_type?_eq_none (h : Within part whole) (hwell : part.WellFormed)
    (hwell' : whole.WellFormed) {name : String} (hnone : whole.lookupType? name = none) :
    part.lookupType? name = none := by
  rcases hfound : part.lookupType? name with _ | found
  · rfl
  · have hknows : part.knows name = true := by simp [knows, hfound]
    obtain ⟨hname, id, hid, hkind⟩ := knows_iff_exists_class.1 hknows
    have hwhole : whole.knows name = true := knows_iff_exists_class.2 ⟨hname, id,
      h.foldl_follow_subset hwell hwell' _ (List.Subset.refl _) hid, h.kind? hkind⟩
    simp [knows, hnone] at hwhole

/-- Everything lies below the root. -/
theorem WellFormed.root_mem_ancestors (h : outline.WellFormed) (hnode : outline.node? id = some node)
    (hne : id ≠ rootId) : rootId ∈ outline.ancestors id := by
  induction id using Nat.strong_induction_on generalizing node with
  | _ id ih =>
      obtain ⟨parent, above, hparent, hlt, habove, -⟩ := h.linked hnode hne
      rw [h.ancestors_eq_cons (parent?_of_node? hnode hparent), List.mem_cons]
      by_cases hroot : parent = rootId
      · exact Or.inl hroot.symm
      · exact Or.inr (ih parent hlt habove hroot)

/-! ## Elements lie in files -/

/-- Elements stand below files and other elements. -/
def Housed (outline : Outline) : Prop :=
  ∀ id node, outline.node? id = some node → node.kind.isOwned = true →
    ∃ parent above, node.parent = some parent ∧ outline.node? parent = some above ∧
      above.kind.isGround = false

theorem Housed.exists_file (h : outline.Housed) (hwell : outline.WellFormed)
    (hnode : outline.node? id = some node) (hground : node.kind.isGround = false) :
    ∃ file, outline.fileOf? id = some file := by
  induction id using Nat.strong_induction_on generalizing node with
  | _ id ih =>
      rw [hwell.file_of?_eq]
      by_cases hkind : node.kind = .file
      · exact ⟨id, by simp [kind?, hnode, hkind]⟩
      · have howned : node.kind.isOwned = true := by
          revert hground hkind
          cases node.kind <;> decide
        obtain ⟨parent, above, hparent, habove, hground'⟩ := h id node hnode howned
        have hup := parent?_of_node? hnode hparent
        obtain ⟨file, hfile⟩ := ih parent (hwell.parent_lt hup) habove hground'
        exact ⟨file, by simp [kind?, hnode, hkind, hup, hfile]⟩

/-! ## Support -/

/-- What a reference that is resolved to a canonical name and is subscribed to `held` rests on,
by its origin. -/
def Supports (outline : Outline) (canonical : String) : Origin → Option NodeId → Prop
  | .primitive, held => held = none
  | .declared, held => ∃ file id, held = some file ∧ outline.fileOf? id = some file ∧
      outline.kind? id = some .classDecl ∧ outline.path? id = some canonical
  | .typeParameter, held => ∃ node, held = some node ∧ outline.contains node = true
  | .dependency, held => held = some rootId ∧ outline.lookupType? canonical = none

variable {canonical : String} {origin : Origin} {held : Option NodeId}

/-- More nodes leave support in place, except for what rests on an absence. -/
theorem Supports.grow (h : part.Supports canonical origin held) (hwithin : Within part whole)
    (hwell : part.WellFormed) (hwell' : whole.WellFormed) (horigin : origin ≠ .dependency) :
    whole.Supports canonical origin held := by
  cases origin with
  | primitive => exact h
  | declared =>
      obtain ⟨file, id, hheld, hfile, hkind, hpath⟩ := h
      have hid := contains_of_kind? hkind
      exact ⟨file, id, hheld, (hwithin.file_of?_eq hwell hwell' hid).trans hfile,
        hwithin.kind? hkind, hwithin.path? hpath⟩
  | typeParameter =>
      obtain ⟨node, hheld, hnode⟩ := h
      exact ⟨node, hheld, hwithin.contains hnode⟩
  | dependency => exact absurd rfl horigin

/-- Fewer nodes leave support in place, if the node subscribed to is left and so are the classes
in it. -/
theorem Supports.shrink (h : whole.Supports canonical origin held) (hwithin : Within part whole)
    (hwell : part.WellFormed) (hwell' : whole.WellFormed)
    (hheld : ∀ node, held = some node → part.contains node = true)
    (hclass : ∀ id, whole.kind? id = some .classDecl → whole.fileOf? id = held →
      part.contains id = true) : part.Supports canonical origin held := by
  cases origin with
  | primitive => exact h
  | declared =>
      obtain ⟨file, id, rfl, hfile, hkind, hpath⟩ := h
      have hid := hclass id hkind hfile
      exact ⟨file, id, rfl, (hwithin.file_of?_eq hwell hwell' hid).symm.trans hfile,
        (hwithin.kind?_eq hid).symm.trans hkind, (hwithin.path?_eq hid).symm.trans hpath⟩
  | typeParameter =>
      obtain ⟨node, rfl, -⟩ := h
      exact ⟨node, rfl, hheld node rfl⟩
  | dependency => exact ⟨h.1, hwithin.lookup_type?_eq_none hwell hwell' h.2⟩

end Outline

/-! ## Notifications -/

/-- Some notification of a list is for a reference. -/
def Named (notifications : List Notification) (ref : RefId) : Prop :=
  ∃ notification ∈ notifications, notification.subscriber = .reference ref

theorem Named.append_left {front : List Notification} {ref : RefId} (h : Named front ref)
    (back : List Notification) : Named (front ++ back) ref := by
  obtain ⟨notification, hmem, hself⟩ := h
  exact ⟨notification, List.mem_append_left _ hmem, hself⟩

theorem Named.append_right {back : List Notification} {ref : RefId} (h : Named back ref)
    (front : List Notification) : Named (front ++ back) ref := by
  obtain ⟨notification, hmem, hself⟩ := h
  exact ⟨notification, List.mem_append_right _ hmem, hself⟩

/-- Whoever is registered on a node hears of an event there. -/
theorem Subscriptions.named_notices {subscriptions : Subscriptions} {node : NodeId} {ref : RefId}
    (h : subscriptions.holds node (.reference ref) = true) (event : Event) :
    Named (subscriptions.notices node event) ref := by
  refine ⟨{ subscriber := .reference ref, event }, List.mem_map_of_mem ?_, rfl⟩
  exact List.mem_map.2 ⟨_, List.mem_filter.2 ⟨holds_iff_mem.1 h, by simp⟩, rfl⟩

namespace Index

variable {index after : Index} {ref : RefId} {node id : NodeId}

/-- The subscribers of the root hear of every new node. -/
theorem Attachment.named_arrivals (new : index.Attachment) (hwell : index.outline.WellFormed)
    (h : index.subscriptions.holds Outline.rootId (.reference ref) = true) :
    Named new.result.outbox ref := by
  refine Named.append_right ?_ _
  have hgrown := new.well_formed hwell
  obtain ⟨root, hroot, hcontent, -⟩ := hgrown.root
  have hne : index.outline.places.size ≠ Outline.rootId := by
    obtain ⟨old, hold, -⟩ := hwell.root
    exact Nat.ne_of_gt (Outline.lt_size_of_node? hold)
  obtain ⟨notification, hmem, hself⟩ := Subscriptions.named_notices h
    (.added index.outline.places.size Outline.rootId)
  refine ⟨notification, List.mem_flatMap.2 ⟨Outline.rootId, List.mem_filter.2 ⟨?_, ?_⟩, hmem⟩, hself⟩
  · exact hgrown.root_mem_ancestors new.node?_new hne
  · simp [Outline.kind?, hroot, Node.kind, hcontent, Content.kind, Kind.isSubscribable]

/-- The subscribers of nodes that leave hear of it, and what was said before stays said. -/
theorem named_foldl_dismiss (nodes : List NodeId)
    (h : Named index.outbox ref ∨
      node ∈ nodes ∧ index.subscriptions.holds node (.reference ref) = true) :
    Named (nodes.foldl dismiss index).outbox ref := by
  induction nodes generalizing index with
  | nil => exact h.resolve_right (fun hnode => List.not_mem_nil hnode.1)
  | cons first rest ih =>
      refine ih ?_
      rcases h with hnamed | ⟨hmem, hholds⟩
      · exact Or.inl (hnamed.append_left _)
      · by_cases hfirst : node = first
        · subst hfirst
          exact Or.inl ((Subscriptions.named_notices hholds _).append_right _)
        · exact Or.inr ⟨(List.mem_cons.1 hmem).resolve_left hfirst,
            Subscriptions.holds_clear_iff.2 ⟨hholds, hfirst⟩⟩

theorem outbox_foldl_release_all (nodes : List NodeId) :
    (nodes.foldl releaseAll index).outbox = index.outbox := by
  have hrelease : ∀ (refs : List RefId) (index : Index),
      (refs.foldl release index).outbox = index.outbox := by
    intro refs
    induction refs with
    | nil => exact fun _ => rfl
    | cons ref rest ih => exact fun index => ih (index.release ref)
  induction nodes generalizing index with
  | nil => rfl
  | cons first rest ih => exact (ih).trans (hrelease _ index)

/-! ## Supported or named -/

/-- Every resolved reference is supported or named by a notification that was not taken yet. -/
structure Guarded (index : Index) : Prop where
  well : index.outline.WellFormed
  housed : index.outline.Housed
  agrees : index.Agrees
  loose : ∀ ref, (index.standing ref).isResolved = false → (index.standing ref).subscription = none
  supported : ∀ ref canonical origin, (index.outline.use? ref).isSome = true →
    (index.standing ref).status = .resolved canonical origin →
    index.outline.Supports canonical origin (index.standing ref).subscription ∨
      Named index.outbox ref

theorem guarded_empty : Guarded {} where
  well := Outline.well_formed_empty
  housed id node hnode howned := by
    rw [(Outline.eq_root_of_node?_empty hnode).2] at howned
    cases howned
  agrees := enrolled_empty
  loose _ _ := rfl
  supported _ _ _ _ := nofun

/-- An existing reference that is subscribed to a present node is registered there. -/
theorem Guarded.holds (h : Guarded index) (huse : (index.outline.use? ref).isSome = true)
    (hnamed : (index.standing ref).subscription = some node)
    (hnode : index.outline.contains node = true) :
    index.subscriptions.holds node (.reference ref) = true :=
  (h.agrees.held node ref).2 ⟨hnode, huse, hnamed⟩

/-- The node that a supported reference is subscribed to is present. -/
theorem contains_of_supports {outline : Outline} {canonical : String} {origin : Origin}
    (hwell : outline.WellFormed) (h : outline.Supports canonical origin (some node)) :
    outline.contains node = true := by
  cases origin with
  | primitive => cases h
  | declared =>
      obtain ⟨file, id, ⟨⟩, hfile, -⟩ := h
      exact Outline.contains_of_kind? (Outline.kind?_of_file_of? hfile)
  | typeParameter =>
      obtain ⟨_, ⟨⟩, hnode⟩ := h
      exact hnode
  | dependency =>
      obtain rfl := Option.some.inj h.1
      exact hwell.contains_root

/-- One more node keeps resolved references supported or named, if an element goes into a
file. -/
theorem Guarded.attach (h : Guarded index) (new : index.Attachment)
    (hground : new.content.kind.isOwned = true → new.above.kind.isGround = false) :
    Guarded new.result where
  well := new.well_formed h.well
  housed id node hnode howned := by
    rcases new.cases hnode with ⟨rfl, rfl⟩ | ⟨old, hold, -, hface⟩
    · obtain ⟨grown, hgrown, hface⟩ := new.within _ _ new.present
      exact ⟨new.parent, grown, rfl, hgrown, by rw [hface.kind, hground howned]⟩
    · obtain ⟨parent, above, hparent, habove, hkind⟩ := h.housed id old hold (hface.kind ▸ howned)
      obtain ⟨grown, hgrown, hface'⟩ := new.within _ _ habove
      exact ⟨parent, grown, hface.parent.trans hparent, hgrown, by rw [hface'.kind, hkind]⟩
  agrees := h.agrees.attach new
  loose := h.loose
  supported ref canonical origin huse hstatus := by
    -- A reference that is new is not resolved.
    have hold : (index.outline.use? ref).isSome = true := by
      by_contra hnone
      have hblank : index.standing ref = {} := h.agrees.absent ref (by simpa using hnone)
      rw [show new.result.standing ref = {} from hblank] at hstatus
      cases hstatus
    rcases h.supported ref canonical origin hold hstatus with hsupports | hnamed
    · by_cases horigin : origin = .dependency
      · subst horigin
        have hholds := h.holds hold hsupports.1 h.well.contains_root
        exact Or.inr (new.named_arrivals h.well hholds)
      · exact Or.inl (hsupports.grow new.within h.well (new.well_formed h.well) horigin)
    · exact Or.inr (hnamed.append_left _)

/-- Removing a file keeps resolved references supported or named. -/
theorem Guarded.remove {leaving : List NodeId} (h : Guarded index)
    (hfile : index.outline.isFile id = true) (hremove : index.remove id = .ok (leaving, after)) :
    Guarded after := by
  have hremoved := removed_of_remove h.well hremove
  have hagrees := h.agrees.remove h.well hremove
  -- Whoever is subscribed to a node that leaves is told.
  have htold : ∀ ref node, Named index.outbox ref ∨ index.outline.Below node id ∧
      index.subscriptions.holds node (.reference ref) = true → Named after.outbox ref := by
    intro ref node hcases
    obtain ⟨parent, -, hleaving, rfl⟩ := remove_eq h.well hremove
    show Named (leaving.foldl releaseAll _).outbox ref
    rw [outbox_foldl_release_all]
    exact named_foldl_dismiss leaving (hcases.imp_right (fun hnode =>
      ⟨(hleaving node).2 hnode.1, hnode.2⟩))
  refine ⟨hremoved.well, ?_, hagrees, ?_, ?_⟩
  · intro other left hleft howned
    obtain ⟨old, hold, -, hface, -⟩ := hremoved.trimmed.survivor hleft
    obtain ⟨parent, above, hparent, habove, hkind⟩ := h.housed other old hold (hface.kind ▸ howned)
    obtain ⟨-, left', hleft'⟩ :=
      hremoved.exists_parent hleft (Outline.parent?_of_node? hold hparent)
    obtain ⟨old', hold', -, hface', -⟩ := hremoved.trimmed.survivor hleft'
    obtain rfl := Option.some.inj (habove.symm.trans hold')
    exact ⟨parent, left', hface.parent.trans hparent, hleft', by rw [hface'.kind, hkind]⟩
  · intro ref hresolved
    rcases hremoved.standing ref with hblank | hsame
    · rw [hblank]
    · rw [hsame] at hresolved ⊢
      exact h.loose ref hresolved
  · intro ref canonical origin huse hstatus
    obtain ⟨hold, hbelow⟩ := hremoved.is_some_use?_iff.1 huse
    rw [hremoved.kept hbelow] at hstatus ⊢
    rcases h.supported ref canonical origin hold hstatus with hsupports | hnamed
    · by_cases hleft : ∀ node, (index.standing ref).subscription = some node →
          after.outline.contains node = true
      · refine Or.inl (hsupports.shrink hremoved.within hremoved.well h.well hleft ?_)
        -- A class whose file is left is left.
        intro low hkind hfileOf
        have hlow : ¬ index.outline.Below low id := by
          intro hlow
          obtain ⟨node, hnode, hclass⟩ := Option.map_eq_some_iff.1 hkind
          obtain ⟨file, hfound⟩ := h.housed.exists_file h.well hnode (by rw [hclass]; rfl)
          have hpresent := hleft file (hfileOf.symm.trans hfound)
          have hgone := hremoved.trimmed.gone (h.well.file_of?_below hfile hlow hfound)
          simp [Outline.contains, hgone] at hpresent
        exact Outline.contains_of_kind? (hremoved.kind? hkind hlow (by decide))
      · simp only [not_forall] at hleft
        obtain ⟨node, hnamed, hgone⟩ := hleft
        rw [hnamed] at hsupports
        have hholds := h.holds hold hnamed (contains_of_supports h.well hsupports)
        obtain ⟨kind, hkind, hpackage⟩ := h.agrees.present node _ hholds
        refine Or.inr (htold ref node (Or.inr ⟨?_, hholds⟩))
        by_contra hnode
        exact hgone (Outline.contains_of_kind? (hremoved.kind? hkind hnode hpackage))
    · exact Or.inr (htold ref ref.owner (Or.inl hnamed))

theorem Guarded.remove_file (h : Guarded index) {path : SourcePath}
    {leaving : Option (List NodeId)} (hremove : index.removeFile path = .ok (leaving, after)) :
    Guarded after := by
  unfold removeFile at hremove
  rcases hfile : index.outline.fileAt? path with _ | id
  · rw [hfile] at hremove
    cases hremove
    exact h
  · rw [hfile] at hremove
    dsimp only at hremove
    rcases hrun : index.remove id with error | ⟨left, middle⟩
    · rw [hrun] at hremove
      cases hremove
    · rw [hrun] at hremove
      cases hremove
      exact h.remove (h.well.is_file_of_file_at hfile) hrun

/-- Inserting a file keeps resolved references supported or named, also if it fails midway. -/
theorem Guarded.insert_file (h : Guarded index) (file : FileDecl) :
    Guarded (reached (insertFile file) index) := by
  obtain ⟨middle, -, hfirst, hrest⟩ := grows_insert_file file index
  have hmiddle : Guarded middle := by
    refine hfirst.preserves (fun _ new hadmits hguarded => hguarded.attach new ?_) h
    rcases hadmits with hcontent | hcontent <;> rw [hcontent] <;> exact nofun
  rcases hrest with hrun | ⟨id, -, hfile, hgrows⟩
  · exact hrun ▸ hmiddle
  · -- Below the file and what follows it there is neither the root nor a package.
    refine (hgrows.preserves (motive := fun index => Guarded index ∧ ∀ low node,
      low = id ∨ middle.outline.places.size ≤ low → index.outline.node? low = some node →
        node.kind.isGround = false) (fun last new hadmits hlast => ⟨?_, ?_⟩) ⟨hmiddle, ?_⟩).1
    · exact hlast.1.attach new (fun _ => hlast.2 _ _ hadmits.1 new.present)
    · intro low node hlow hnode
      rcases new.cases hnode with ⟨-, rfl⟩ | ⟨old, hold, -, hface⟩
      · have howned := hadmits.2
        show new.content.kind.isGround = false
        revert howned
        cases new.content.kind <;> decide
      · rw [hface.kind]
        exact hlast.2 low old hlow hold
    · intro low node hlow hnode
      rcases hlow with rfl | hle
      · have hkind : node.kind = .file := by
          simpa [Outline.isFile, Outline.kind?, hnode] using hfile
        rw [hkind]
        rfl
      · exact absurd (Outline.lt_size_of_node? hnode) (Nat.not_lt.2 hle)

/-! ## Resolution -/

/-- A change of one reference keeps all others supported or named. -/
theorem Guarded.change (h : Guarded index) (ref : RefId) (houtline : after.outline = index.outline)
    (hagrees : after.Agrees)
    (hother : ∀ other, other ≠ ref → after.standing other = index.standing other)
    (houtbox : ∀ other, other ≠ ref → Named index.outbox other → Named after.outbox other)
    (hloose : (after.standing ref).isResolved = false → (after.standing ref).subscription = none)
    (hsupported : ∀ canonical origin, (after.standing ref).status = .resolved canonical origin →
      after.outline.Supports canonical origin (after.standing ref).subscription) : Guarded after where
  well := houtline ▸ h.well
  housed := houtline ▸ h.housed
  agrees := hagrees
  loose other hresolved := by
    by_cases hself : other = ref
    · exact hself ▸ hloose (hself ▸ hresolved)
    · rw [hother other hself] at hresolved ⊢
      exact h.loose other hresolved
  supported other canonical origin huse hstatus := by
    by_cases hself : other = ref
    · subst hself
      exact Or.inl (hsupported canonical origin hstatus)
    · rw [hother other hself] at hstatus ⊢
      rw [houtline] at huse ⊢
      exact (h.supported other canonical origin huse hstatus).imp_right (houtbox other hself)

end Index

namespace Outline

variable {outline : Outline} {name : String} {hit : Hit} {node : NodeId}

/-- A node that takes subscribers. -/
def Takes (outline : Outline) (node : NodeId) : Prop :=
  ∃ kind, outline.kind? node = some kind ∧ kind ≠ .package

/-- A reference that is settled on the hit rests on what supports it. -/
def Genuine (outline : Outline) (hit : Hit) : Prop :=
  outline.Supports (outline.outcome hit).1 (outline.outcome hit).2.1 (outline.outcome hit).2.2 ∧
    ∀ node, (outline.outcome hit).2.2 = some node → outline.Takes node

theorem takes_of_file_of? {file : NodeId} (h : outline.fileOf? node = some file) :
    outline.Takes file :=
  ⟨.file, kind?_of_file_of? h, by decide⟩

theorem Takes.contains (h : outline.Takes node) : outline.contains node = true := by
  obtain ⟨kind, hkind, -⟩ := h
  exact Outline.contains_of_kind? hkind

/-- A subscription to a node that takes subscribers is not refused. -/
theorem Takes.check_subscribable (h : outline.Takes node) :
    outline.checkSubscribable node = .ok () := by
  obtain ⟨kind, hkind, hpackage⟩ := h
  simp [checkSubscribable, hkind, Kind.isSubscribable, hpackage]

/-- A class that is found lies in a file. -/
theorem Housed.genuine_declared (h : outline.Housed) (hwell : outline.WellFormed)
    (hhit : Scope.declared outline name = some hit) : outline.Genuine hit := by
  obtain ⟨id, hid, rfl⟩ := Option.map_eq_some_iff.1 hhit
  have hkind := kind?_of_lookup_type? hid
  obtain ⟨found, hfound, hclass⟩ := Option.map_eq_some_iff.1 hkind
  obtain ⟨file, hfile⟩ := h.exists_file hwell hfound (by rw [hclass]; rfl)
  have hpath : outline.path? id = some ((outline.path? id).getD "") := by simp [path?, hfound]
  refine ⟨⟨file, id, by simp [outcome, hfile], hfile, hkind, hpath⟩, fun node hnode => ?_⟩
  obtain rfl : file = node := by simpa [outcome, hfile] using hnode
  exact takes_of_file_of? hfile

/-- A type parameter rests on what its bound is subscribed to, or on its own file. -/
theorem Housed.genuine_type_parameter (h : outline.Housed) (hwell : outline.WellFormed)
    {param : NodeId} {paramName canonical : String} {bounds : List TypeUse} {watch : Option NodeId}
    (hparam : outline.element? param = some (.typeParameter paramName bounds))
    (hwatch : ∀ node, watch = some node → outline.Takes node) :
    outline.Genuine (.typeParameter param canonical watch) := by
  have hrest : ∃ node, (watch <|> outline.fileOf? param) = some node ∧ outline.Takes node := by
    cases watch with
    | some node => exact ⟨node, rfl, hwatch node rfl⟩
    | none =>
        obtain ⟨found, hfound, hat⟩ := Option.bind_eq_some_iff.1 hparam
        obtain ⟨file, hfile⟩ := h.exists_file hwell hfound (by rw [kind_of_element? hat]; rfl)
        exact ⟨file, hfile, takes_of_file_of? hfile⟩
  obtain ⟨node, hnode, htakes⟩ := hrest
  refine ⟨⟨node, hnode, htakes.contains⟩, fun other hother => ?_⟩
  obtain rfl : node = other := Option.some.inj (hnode.symm.trans hother)
  exact htakes

/-- A query finds only what supports a reference, if the reference that it asks for is subscribed
to a node that takes subscribers. -/
def QueryGenuine (outline : Outline) : Query → Prop
  | .settled found => ∀ hit, found = some hit → outline.Genuine hit
  | .asking _ _ read => ∀ canonical watch hit, (∀ node, watch = some node → outline.Takes node) →
      read canonical watch = some hit → outline.Genuine hit

theorem Housed.parameter_query (h : outline.Housed) (hwell : outline.WellFormed) (param : NodeId) :
    outline.QueryGenuine (Scope.parameterQuery outline name param) := by
  unfold Scope.parameterQuery
  split
  · next paramName bounds hparam =>
      split
      · split
        · rintro hit ⟨⟩
          exact h.genuine_type_parameter hwell hparam nofun
        · rintro canonical watch hit hwatch ⟨⟩
          exact h.genuine_type_parameter hwell hparam hwatch
      · exact nofun
  · exact nofun

/-- An import names a class that is found or one that is absent. -/
theorem Housed.genuine_single_import (h : outline.Housed) (hwell : outline.WellFormed)
    {imports : List Import} (hhit : Scope.singleImport outline imports name = some hit) :
    outline.Genuine hit := by
  obtain ⟨found, -, rfl⟩ := Option.map_eq_some_iff.1 hhit
  dsimp only
  rcases hdeclared : Scope.declared outline (Dotted.replaceFirst name found.path) with _ | hit
  · have hnone : outline.lookupType? (Dotted.replaceFirst name found.path) = none := by
      simpa [Scope.declared] using hdeclared
    refine ⟨⟨rfl, hnone⟩, fun node hnode => ?_⟩
    obtain ⟨root, hroot, hcontent, -⟩ := hwell.root
    obtain rfl : rootId = node := Option.some.inj hnode
    exact ⟨.root, by simp [kind?, hroot, Node.kind, hcontent, Content.kind], by decide⟩
  · exact h.genuine_declared hwell hdeclared

theorem Housed.genuine_wildcard_import (h : outline.Housed) (hwell : outline.WellFormed)
    {imports : List Import} (hhit : Scope.wildcardImport outline imports name = some hit) :
    outline.Genuine hit := by
  obtain ⟨found, -, hdeclared⟩ := List.exists_of_findSome?_eq_some hhit
  exact h.genuine_declared hwell hdeclared

/-- Every query of a search finds only what supports a reference. -/
theorem Housed.queries (h : outline.Housed) (hwell : outline.WellFormed) {anchor : NodeId}
    {query : Query} (hquery : query ∈ Scope.queries outline name anchor) :
    outline.QueryGenuine query := by
  refine Scope.forall_mem_queries (motive := outline.QueryGenuine) nofun (fun hit hhit => ?_)
    (fun path hit hhit => h.genuine_declared hwell hhit) (h.parameter_query hwell)
    (fun classId position canonical watch hit _ hhit => h.genuine_declared hwell hhit)
    (fun imports hit hhit => h.genuine_single_import hwell hhit)
    (fun imports hit hhit => h.genuine_wildcard_import hwell hhit) anchor query hquery
  unfold Scope.builtin at hhit
  split at hhit
  · obtain rfl := Option.some.inj hhit
    exact ⟨rfl, fun _ hrest => by cases hrest⟩
  · cases hhit

/-- A reference that is settled in live mode is subscribed to what the hit rests on. -/
theorem standing_commit_live (pass : Pass) (ref : RefId)
    (htakes : ∀ node, (outline.outcome hit).2.2 = some node → outline.Takes node) :
    (outline.commit .live ref hit pass).2.standing ref =
      { status := .resolved (outline.outcome hit).1 (outline.outcome hit).2.1
        subscription := (outline.outcome hit).2.2 <|> (pass.standing ref).subscription } := by
  have hkept : ∀ origin : Origin,
      (if origin = .dependency then { pass with health := pass.health.countDependency }
        else pass).standing ref = pass.standing ref := by
    intro origin
    split <;> rfl
  simp only [commit]
  rcases hrest : (outline.outcome hit).2.2 with _ | node
  · simp only [Pass.standing_set_standing_self, hkept]
    rfl
  · simp only [Pass.watch, (htakes node hrest).check_subscribable]
    simp only [Pass.standing, moveSubscription, Standings.of_insert, if_true, Pass.setStanding]
    rfl

end Outline

namespace Index

theorem standing_after_pass (index : Index) (pass : Pass) (ref : RefId) :
    (index.afterPass pass).standing ref = pass.standing ref := rfl

/-- Requests in live mode keep resolved references supported, once notifications are taken. -/
theorem guarded_invariant (index : Index) (hempty : index.outbox = []) :
    Pass.Invariant index.outline .live (fun pass => Guarded (index.afterPass pass))
      (fun _ hit => index.outline.Genuine hit) := by
  have hagrees := enrolled_invariant index.outline .live
  have hunnamed : ∀ ref, ¬ Named index.outbox ref := by
    rintro ref ⟨notification, hmem, -⟩
    rw [hempty] at hmem
    cases hmem
  -- A reference without a canonical name is not subscribed to anything.
  have hunsettled : ∀ {pass : Pass} {ref : RefId}, Guarded (index.afterPass pass) →
      (pass.standing ref).isResolved = false → (pass.standing ref).subscription = none :=
    fun h hresolved => h.loose _ hresolved
  constructor
  case start =>
    intro pass ref h huse hbegin
    have hresolved := (Standing.may_begin_true_iff.1 (Standing.may_begin_true hbegin)).1
    refine h.change ref rfl (hagrees.start h.agrees huse hbegin) ?_ (fun _ _ hnamed => hnamed) ?_ ?_
    · exact fun other hne => Pass.standing_set_standing_of_ne pass _ (Ne.symm hne)
    · intro _
      rw [standing_after_pass, Pass.standing_set_standing_self]
      exact hunsettled h hresolved
    · intro canonical origin hstatus
      rw [standing_after_pass, Pass.standing_set_standing_self] at hstatus
      cases hstatus
  case settled =>
    exact fun h hquery => h.housed.queries h.well hquery _ rfl
  case asked =>
    intro pass name anchor asked start read canonical hit h hquery huse hcanonical hread
    refine h.housed.queries h.well hquery canonical _ hit (fun node hnode => ?_) hread
    obtain ⟨origin, hstatus⟩ : ∃ origin, (pass.standing asked).status = .resolved canonical origin := by
      unfold Standing.canonical? at hcanonical
      split at hcanonical
      · next found origin hstatus => exact ⟨origin, Option.some.inj hcanonical ▸ hstatus⟩
      · cases hcanonical
    have hsupports := (h.supported asked canonical origin huse hstatus).resolve_right (hunnamed asked)
    rw [standing_after_pass, hnode] at hsupports
    exact h.agrees.present node _ (h.holds huse hnode (contains_of_supports h.well hsupports))
  case commit =>
    intro pass ref hit h hgenuine huse hprogress
    have hnone : (pass.standing ref).subscription = none :=
      hunsettled h (by simp [Standing.isResolved, Standing.canonical?, hprogress])
    have hself : (index.outline.commit .live ref hit pass).2.standing ref =
        { status := .resolved (index.outline.outcome hit).1 (index.outline.outcome hit).2.1
          subscription := (index.outline.outcome hit).2.2 } := by
      rw [Outline.standing_commit_live pass ref hgenuine.2, hnone]
      simp
    refine h.change ref rfl (hagrees.commit h.agrees trivial huse hprogress) ?_
      (fun _ _ hnamed => hnamed) ?_ ?_
    · exact fun other hne => Outline.standing_commit_of_ne hit pass (Ne.symm hne)
    · intro hresolved
      rw [standing_after_pass, hself] at hresolved
      cases hresolved
    · intro canonical origin hstatus
      rw [standing_after_pass, hself] at hstatus ⊢
      cases hstatus
      exact hgenuine.1
  case giveUp =>
    intro pass ref h huse hprogress
    have hself : (pass.giveUp ref).standing ref = (pass.standing ref).fail :=
      pass.standing_give_up_self
    refine h.change ref rfl (hagrees.giveUp h.agrees huse hprogress) ?_ (fun _ _ hnamed => hnamed) ?_ ?_
    · exact fun other hne => pass.standing_give_up_of_ne (Ne.symm hne)
    · intro _
      rw [standing_after_pass, hself]
      exact hunsettled h (by simp [Standing.isResolved, Standing.canonical?, hprogress])
    · intro canonical origin hstatus
      rw [standing_after_pass, hself] at hstatus
      cases hstatus

end Index

end CanonicalNames
