import CanonicalNames.Proofs.Index.Edits

/-!
# What operations do to an outline

Whatever an insertion has done when it ends, in success or in failure, it has done by
attaching nodes one at a time. An `Attachment` holds what is needed to attach one node, and
`Grows Admits index after` says that `after` was made from `index` by attachments that
`Admits` allows. What is inserted by path goes down from the root first, through nodes that are
there and packages that are made (`Way`). A file goes in two stages: first packages and the file
itself, then what lies inside it (`grows_insert_file`).

Insertions and removals apart, no operation touches the outline: `run_cases` says so, and a fact
about the outline after all operations is a fact about one attachment and one removal.
-/

namespace CanonicalNames

/-! ## Parts of an outline -/

theorem Node.SameFace.symm {left right : Node} (h : SameFace left right) : SameFace right left :=
  ⟨h.content.symm, h.segment.symm, h.parent.symm, h.path.symm⟩

namespace Outline

/-- Every node of the first outline stands in the second one with the same face. -/
def Within (part whole : Outline) : Prop :=
  ∀ id node, part.node? id = some node → ∃ found, whole.node? id = some found ∧ found.SameFace node

namespace Within

variable {part whole : Outline} {id : NodeId}

theorem contains (h : Within part whole) (hid : part.contains id = true) :
    whole.contains id = true := by
  obtain ⟨node, hnode⟩ := Option.isSome_iff_exists.1 hid
  obtain ⟨found, hfound, -⟩ := h id node hnode
  exact contains_of_node? hfound

theorem kind? {kind : Kind} (h : Within part whole) (hkind : part.kind? id = some kind) :
    whole.kind? id = some kind := by
  obtain ⟨node, hnode, rfl⟩ := Option.map_eq_some_iff.1 hkind
  obtain ⟨found, hfound, hface⟩ := h id node hnode
  simp [Outline.kind?, hfound, hface.kind]

theorem path? {path : String} (h : Within part whole) (hpath : part.path? id = some path) :
    whole.path? id = some path := by
  obtain ⟨node, hnode, rfl⟩ := Option.map_eq_some_iff.1 hpath
  obtain ⟨found, hfound, hface⟩ := h id node hnode
  simp [Outline.path?, hfound, hface.path]

theorem parent? {parent : NodeId} (h : Within part whole) (hparent : part.parent? id = some parent) :
    whole.parent? id = some parent := by
  obtain ⟨node, hnode, hup⟩ := Option.bind_eq_some_iff.1 hparent
  obtain ⟨found, hfound, hface⟩ := h id node hnode
  simp [Outline.parent?, hfound, hface.parent, hup]

theorem use? {ref : RefId} {use : TypeUse} (h : Within part whole)
    (huse : part.use? ref = some use) : whole.use? ref = some use := by
  obtain ⟨element, helement, hslot⟩ := Option.bind_eq_some_iff.1 huse
  obtain ⟨node, hnode, hat⟩ := Option.bind_eq_some_iff.1 helement
  obtain ⟨found, hfound, hface⟩ := h ref.owner node hnode
  simp [Outline.use?, Outline.element?, hfound, hface.element?, hat, hslot]

end Within

/-- The node to which a segment leads on the way down to a parent: for a file a package, for
anything else the first child that is seen. -/
def next? (outline : Outline) (forFile : Bool) (id : NodeId) (segment : String) : Option NodeId :=
  if forFile then outline.childPackage? id segment else (outline.visibleChildren id segment).head?

end Outline

namespace Index

/-! ## Attachments -/

/-- A node that can be attached to an index. -/
structure Attachment (index : Index) where
  parent : NodeId
  above : Node
  content : Content
  segment : String
  present : index.outline.node? parent = some above
  content_ne : content ≠ .root
  segment_eq : ∀ element, content = .declared element → segment = element.segment
  segment_ne : segment ≠ ""
  free : ∀ source package imports, content = .declared (.file source package imports) →
    index.outline.fileAt? source = none

namespace Attachment

variable {index : Index} (new : index.Attachment)

/-- The outline with the node. -/
def outline : Outline :=
  (index.outline.attach new.parent new.above.path new.content new.segment).2

/-- The index with the node; the subscribers above it are told. -/
def result : Index :=
  { index with
    outline := new.outline
    outbox := index.outbox ++ arrivals new.outline index.subscriptions index.outline.places.size }

@[simp] theorem outline_result : new.result.outline = new.outline := rfl

@[simp] theorem size_outline : new.outline.places.size = index.outline.places.size + 1 :=
  Outline.size_attach ..

theorem well_formed (hwell : index.outline.WellFormed) : new.outline.WellFormed :=
  hwell.attach new.present new.content_ne new.segment_eq new.free

/-- A node of the grown outline is the new one, or an old one with the same face. -/
theorem cases {id : NodeId} {node : Node} (h : new.outline.node? id = some node) :
    (id = index.outline.places.size ∧
        node = Outline.newNode new.parent new.above.path new.content new.segment) ∨
      ∃ old, index.outline.node? id = some old ∧ id ≠ index.outline.places.size ∧
        node.SameFace old :=
  Outline.attach_face_cases new.content new.segment new.present h

/-- The old nodes are still there. -/
theorem within : Outline.Within index.outline new.outline := by
  intro id node hnode
  obtain ⟨grown, hgrown, hface, -⟩ :=
    Outline.exists_node?_attach new.content new.segment new.present new.above.path hnode
  exact ⟨grown, hgrown, hface⟩

/-- The new node is there. -/
theorem node?_new : new.outline.node? index.outline.places.size =
    some (Outline.newNode new.parent new.above.path new.content new.segment) :=
  Outline.node?_attach_new new.content new.segment new.present new.above.path

/-- What can be attached is attached. -/
theorem attach_eq : attach new.parent new.content new.segment index =
    .ok index.outline.places.size new.result := by
  simp only [attach, new.present]
  rfl

end Attachment

/-- `after` was made by attachments that are allowed; `Admits parent content` allows a node
with a content below a parent. -/
inductive Grows (Admits : NodeId → Content → Prop) (index : Index) : Index → Prop where
  | refl : Grows Admits index index
  | attach {middle : Index} (h : Grows Admits index middle) (new : middle.Attachment)
      (hadmits : Admits new.parent new.content) : Grows Admits index new.result

namespace Grows

variable {Admits Allows : NodeId → Content → Prop} {index middle after : Index} {α β : Type}

theorem trans (h : Grows Admits index middle) (k : Grows Admits middle after) :
    Grows Admits index after := by
  induction k with
  | refl => exact h
  | attach _ new hadmits ih => exact ih.attach new hadmits

theorem mono (h : Grows Admits index after)
    (hmono : ∀ {parent content}, Admits parent content → Allows parent content) :
    Grows Allows index after := by
  induction h with
  | refl => exact .refl
  | attach _ new hadmits ih => exact ih.attach new (hmono hadmits)

/-- What one attachment preserves, growth preserves. -/
theorem preserves {motive : Index → Prop} (h : Grows Admits index after)
    (hstep : ∀ (middle : Index) (new : middle.Attachment), Admits new.parent new.content →
      motive middle → motive new.result) (hindex : motive index) : motive after := by
  induction h with
  | refl => exact hindex
  | attach _ new hadmits ih => exact hstep _ new hadmits ih

theorem size_le (h : Grows Admits index after) :
    index.outline.places.size ≤ after.outline.places.size := by
  induction h with
  | refl => exact Nat.le_refl _
  | attach _ new _ ih =>
      rw [Attachment.outline_result, Attachment.size_outline]
      omega

theorem well_formed (h : Grows Admits index after) (hwell : index.outline.WellFormed) :
    after.outline.WellFormed :=
  h.preserves (fun _ new _ => new.well_formed) hwell

/-- Growth by one edit and then by the next. -/
theorem bind {edit : Edit α} {next : α → Edit β} (h : Grows Admits index (reached edit index))
    (hnext : ∀ value middle, edit index = .ok value middle →
      Grows Admits middle (reached (next value) middle)) :
    Grows Admits index (reached (edit >>= next) index) := by
  simp only [reached, Bind.bind, EStateM.bind] at h hnext ⊢
  rcases hrun : edit index with ⟨value, middle⟩ | ⟨error, middle⟩
  · rw [hrun] at h
    exact h.trans (hnext value middle hrun)
  · rw [hrun] at h
    exact h

end Grows

/-! ## Single elements -/

variable {index after : Index} {parent id : NodeId}

/-- Attaching an element succeeds, or it fails and does nothing. -/
theorem insert_child_cases (parent : NodeId) (element : Element) (index : Index) :
    (∃ error, insertChild parent element index = .error error index) ∨
      ∃ new : index.Attachment, new.parent = parent ∧ new.content = .declared element ∧
        insertChild parent element index = .ok index.outline.places.size new.result := by
  rcases hfault : insertFault? index.outline element with _ | fault
  · rcases habove : index.outline.node? parent with _ | above
    · exact Or.inl ⟨.unknownNode parent, by simp only [insertChild, hfault, attach, habove]⟩
    · let new : index.Attachment :=
        { parent, above, content := .declared element, segment := element.segment
          present := habove
          content_ne := fun h => by cases h
          segment_eq := by
            rintro _ ⟨⟩
            rfl
          segment_ne := by
            intro hempty
            simp [insertFault?, hempty] at hfault
          free := by
            rintro source package imports ⟨⟩
            have hcontains : index.outline.files.contains source = false := by
              simpa [insertFault?, Element.segment, fileMarker] using hfault
            rw [Table.contains_eq_is_some_find?] at hcontains
            simpa [Outline.fileAt?] using hcontains }
      refine Or.inr ⟨new, rfl, rfl, ?_⟩
      rw [← new.attach_eq]
      simp only [insertChild, hfault, new]
  · exact Or.inl ⟨.invalidInput fault, by simp only [insertChild, hfault]⟩

theorem grows_insert_child {Admits : NodeId → Content → Prop} (parent : NodeId) (element : Element)
    (index : Index) (hadmits : Admits parent (.declared element)) :
    Grows Admits index (reached (insertChild parent element) index) := by
  rcases insert_child_cases parent element index with ⟨error, hrun⟩ | ⟨new, rfl, hcontent, hrun⟩
  · simp only [reached, hrun]
    exact .refl
  · simp only [reached, hrun]
    exact .attach .refl new (hcontent ▸ hadmits)

/-- One segment on the way down leads to a node that is there, or to a new package; from a node
that is not there it leads nowhere. -/
theorem descend_cons_cases (forFile : Bool) (parent : NodeId) {segment : String}
    (rest : List String) (hsegment : segment ≠ "") (index : Index) :
    (∃ child, index.outline.next? forFile parent segment = some child ∧
        descend forFile parent (segment :: rest) index = descend forFile child rest index) ∨
      index.outline.next? forFile parent segment = none ∧
        ((∃ new : index.Attachment, new.parent = parent ∧ new.content = .package ∧
            new.segment = segment ∧ descend forFile parent (segment :: rest) index =
              descend forFile index.outline.places.size rest new.result) ∨
          index.outline.node? parent = none ∧
            ∃ error, descend forFile parent (segment :: rest) index = .error error index) := by
  rcases hnext : index.outline.next? forFile parent segment with _ | child
  · have hnext' := hnext
    unfold Outline.next? at hnext'
    refine Or.inr ⟨rfl, ?_⟩
    rcases habove : index.outline.node? parent with _ | above
    · exact Or.inr ⟨rfl, .unknownNode parent, by simp only [descend, hnext', attach, habove]⟩
    · let new : index.Attachment :=
        { parent, above, content := .package, segment, present := habove
          content_ne := fun h => by cases h
          segment_eq := fun _ h => by cases h
          segment_ne := hsegment
          free := fun _ _ _ h => by cases h }
      have hattach : attach parent .package segment index = .ok _ new.result := new.attach_eq
      exact Or.inl ⟨new, rfl, rfl, rfl, by simp only [descend, hnext', hattach]⟩
  · unfold Outline.next? at hnext
    exact Or.inl ⟨child, rfl, by simp only [descend, hnext]⟩

/-- The way down to a parent adds packages only. -/
theorem grows_descend (forFile : Bool) (parent : NodeId) {segments : List String}
    (hsegments : ∀ segment ∈ segments, segment ≠ "") (index : Index) :
    Grows (fun _ content => content = .package) index
      (reached (descend forFile parent segments) index) := by
  induction segments generalizing parent index with
  | nil => exact .refl
  | cons segment rest ih =>
      have hrest := fun other hother => hsegments other (List.mem_cons_of_mem segment hother)
      unfold reached at ih ⊢
      rcases descend_cons_cases forFile parent rest (hsegments segment (List.mem_cons_self ..)) index
        with ⟨child, -, hrun⟩ | ⟨-, ⟨new, -, hcontent, -, hrun⟩ | ⟨-, error, hrun⟩⟩
      · rw [hrun]
        exact ih child hrest index
      · rw [hrun]
        exact (Grows.attach .refl new hcontent).trans (ih _ hrest new.result)
      · rw [hrun]
        exact .refl

/-- The way down from a node of an index by segments, through nodes that are there and packages
that are made, to a node and the index with these packages. -/
inductive Way (forFile : Bool) (id : NodeId) (after : Index) :
    Index → NodeId → List String → Prop where
  | done : Way forFile id after after id []
  | there {index : Index} {parent child : NodeId} {segment : String} {rest : List String}
      (hnext : index.outline.next? forFile parent segment = some child)
      (h : Way forFile id after index child rest) :
      Way forFile id after index parent (segment :: rest)
  | made {index : Index} {rest : List String} (new : index.Attachment)
      (hnext : index.outline.next? forFile new.parent new.segment = none)
      (hcontent : new.content = .package)
      (h : Way forFile id after new.result index.outline.places.size rest) :
      Way forFile id after index new.parent (new.segment :: rest)

theorem way_of_descend {forFile : Bool} {segments : List String}
    (hsegments : ∀ segment ∈ segments, segment ≠ "")
    (hrun : descend forFile parent segments index = .ok id after) :
    Way forFile id after index parent segments := by
  induction segments generalizing index parent with
  | nil =>
      cases hrun
      exact .done
  | cons segment rest ih =>
      have hrest := fun other hother => hsegments other (List.mem_cons_of_mem segment hother)
      rcases descend_cons_cases forFile parent rest (hsegments segment (List.mem_cons_self ..)) index
        with ⟨child, hnext, hstep⟩ | ⟨hnext, ⟨new, rfl, hcontent, rfl, hstep⟩ | ⟨-, error, hstep⟩⟩ <;>
        rw [hstep] at hrun
      · exact .there hnext (ih hrest hrun)
      · exact .made new hnext hcontent (ih hrest hrun)
      · cases hrun

theorem Way.grows {forFile : Bool} {segments : List String}
    (h : Way forFile id after index parent segments) :
    Grows (fun _ content => content = .package) index after := by
  induction h with
  | done => exact .refl
  | there _ _ ih => exact ih
  | made new _ hcontent _ ih => exact (Grows.attach .refl new hcontent).trans ih

/-- What is inserted by path is attached at the end of its way. -/
theorem insert_at_ok {path : String} {element : Element}
    (hrun : insertAt path element index = .ok id after) :
    ∃ above parent middle, parentPath? path element = some above ∧
      Way (element.kind == .file) parent middle index Outline.rootId (Dotted.segments above) ∧
      ∃ new : middle.Attachment, new.parent = parent ∧ new.content = .declared element ∧
        id = middle.outline.places.size ∧ after = new.result := by
  unfold insertAt at hrun
  rcases habove : parentPath? path element with _ | above
  · rw [habove] at hrun
    cases hrun
  · rw [habove] at hrun
    dsimp only at hrun
    split at hrun
    · next parent middle hdescend =>
        refine ⟨above, parent, middle, rfl,
          way_of_descend (@Dotted.ne_empty_of_mem_segments above) hdescend, ?_⟩
        rcases insert_child_cases parent element middle with
          ⟨error, hchild⟩ | ⟨new, hparent, hcontent, hchild⟩
        · rw [hchild] at hrun
          cases hrun
        · rw [hchild] at hrun
          cases hrun
          exact ⟨new, hparent, hcontent, rfl, rfl⟩
    · cases hrun

/-- Inserting by path adds packages and the element. -/
theorem grows_insert_at (path : String) (element : Element) (index : Index) :
    Grows (fun _ content => content = .package ∨ content = .declared element) index
      (reached (insertAt path element) index) := by
  simp only [reached, insertAt]
  rcases parentPath? path element with _ | above
  · exact .refl
  · have hdescend := grows_descend (element.kind == .file) Outline.rootId
      (@Dotted.ne_empty_of_mem_segments above) index
    simp only [reached] at hdescend
    dsimp only
    rcases hrun : descend (element.kind == .file) Outline.rootId (Dotted.segments above) index
      with ⟨parent, middle⟩ | ⟨error, middle⟩
    · rw [hrun] at hdescend
      exact (hdescend.mono Or.inl).trans (grows_insert_child parent element middle (Or.inr rfl))
    · rw [hrun] at hdescend
      exact hdescend.mono Or.inl

/-! ## Declarations with parts -/

/-- Elements of a file go below `top` or below what was attached after `size` nodes. -/
def Inside (top size parent : NodeId) (content : Content) : Prop :=
  (parent = top ∨ size ≤ parent) ∧ content.kind.isOwned = true

theorem is_owned_of_is_inner {element : Element} (h : Branch.isInner element = true) :
    (Content.declared element).kind.isOwned = true := by
  cases element <;> first | rfl | cases h

mutual

/-- Planting a branch attaches its elements at and below the parent. -/
theorem grows_plant {top size parent : NodeId} {index : Index} (branch : Branch)
    (hinner : branch.all Branch.isInner = true) (hparent : parent = top ∨ size ≤ parent)
    (hsize : size ≤ index.outline.places.size) :
    Grows (Inside top size) index (reached (plant parent branch) index) := by
  match branch with
  | .mk element children =>
      simp only [Branch.all, Bool.and_eq_true] at hinner
      unfold plant
      refine (grows_insert_child parent element index
        ⟨hparent, is_owned_of_is_inner hinner.1⟩).bind (fun id middle hrun => ?_)
      -- The parts go below the node just attached, whose number is not below `size`.
      rcases insert_child_cases parent element index with ⟨error, hrun'⟩ | ⟨new, -, -, hrun'⟩
      · rw [hrun] at hrun'
        cases hrun'
      · rw [hrun] at hrun'
        cases hrun'
        refine Grows.bind (grows_plant_all children hinner.2 (Or.inr hsize) ?_) (fun _ _ _ => .refl)
        rw [Attachment.outline_result, Attachment.size_outline]
        exact Nat.le_succ_of_le hsize

theorem grows_plant_all {top size parent : NodeId} {index : Index} (branches : List Branch)
    (hinner : Branch.allOf Branch.isInner branches = true) (hparent : parent = top ∨ size ≤ parent)
    (hsize : size ≤ index.outline.places.size) :
    Grows (Inside top size) index (reached (plantAll parent branches) index) := by
  match branches with
  | [] => exact .refl
  | branch :: rest =>
      simp only [Branch.allOf, Bool.and_eq_true] at hinner
      unfold plantAll
      have hfirst : Grows (Inside top size) index (reached (plant parent branch) index) :=
        grows_plant branch hinner.1 hparent hsize
      refine hfirst.bind (fun id middle hrun => ?_)
      simp only [reached, hrun] at hfirst
      exact grows_plant_all rest hinner.2 hparent (Nat.le_trans hsize hfirst.size_le)

end

theorem grows_insert_method (owner : NodeId) (method : MethodDecl) (index : Index) :
    Grows (Inside owner index.outline.places.size) index
      (reached (insertMethod owner method) index) := by
  rw [insert_method_eq_plant]
  have hinner := all_of_is_inner_methods [method]
  simp only [List.map_cons, List.map_nil, Branch.allOf, Bool.and_true] at hinner
  exact grows_plant _ hinner (Or.inl rfl) (Nat.le_refl _)

theorem grows_insert_class (parent : NodeId) (decl : ClassDecl) (index : Index) :
    Grows (Inside parent index.outline.places.size) index
      (reached (insertClass parent decl) index) := by
  rw [insert_class_eq_plant]
  exact grows_plant _ (all_is_inner_class decl) (Or.inl rfl) (Nat.le_refl _)

/-- Inserting a file first attaches packages and the file, then elements inside the file. -/
theorem grows_insert_file (file : FileDecl) (index : Index) :
    ∃ middle, reached (insertAt file.package file.toElement) index = middle ∧
      Grows (fun _ content => content = .package ∨ content = .declared file.toElement)
        index middle ∧
      (reached (insertFile file) index = middle ∨
        ∃ id, insertAt file.package file.toElement index = .ok id middle ∧
          middle.outline.isFile id = true ∧
          Grows (Inside id middle.outline.places.size) middle (reached (insertFile file) index)) := by
  have hat := grows_insert_at file.package file.toElement index
  unfold insertFile
  simp only [reached, bind, EStateM.bind] at hat ⊢
  rcases hrun : insertAt file.package file.toElement index with ⟨id, middle⟩ | ⟨error, middle⟩
  · rw [hrun] at hat
    refine ⟨middle, rfl, hat, Or.inr ⟨id, rfl, ?_, ?_⟩⟩
    · -- The file was attached last.
      obtain ⟨_, _, _, -, -, new, -, hcontent, rfl, rfl⟩ := insert_at_ok hrun
      simp [Outline.isFile, Outline.kind?, new.node?_new, Outline.newNode, Node.kind, hcontent,
        Content.kind, Element.kind, FileDecl.toElement]
    · have hparts : Grows (Inside id middle.outline.places.size) middle
          (reached (plantAll id (ClassDecl.toBranches file.classes)) middle) :=
        grows_plant_all _ (all_of_is_inner_classes file.classes) (Or.inl rfl) (Nat.le_refl _)
      rw [← insert_classes_eq_plant_all] at hparts
      simp only [reached] at hparts
      rcases hall : insertClasses id file.classes middle with ⟨_, last⟩ | ⟨error, last⟩ <;>
        rw [hall] at hparts <;> simp only [hall] <;> exact hparts
  · rw [hrun] at hat
    exact ⟨middle, rfl, hat, Or.inl (by simp only)⟩

/-! ## Removal -/

/-- What is left was there before. -/
theorem Removed.within (h : Removed index after id) : Outline.Within after.outline index.outline := by
  intro other left hleft
  obtain ⟨node, hnode, -, hface, -⟩ := h.trimmed.survivor hleft
  exact ⟨node, hnode, hface.symm⟩

/-- What is not below the removed node is left, unless it is a package. -/
theorem Removed.kind? {kind : Kind} {other : NodeId} (h : Removed index after id)
    (hkind : index.outline.kind? other = some kind) (hbelow : ¬ index.outline.Below other id)
    (hpackage : kind ≠ .package) : after.outline.kind? other = some kind := by
  obtain ⟨node, hnode, rfl⟩ := Option.map_eq_some_iff.1 hkind
  obtain ⟨left, hleft⟩ := h.trimmed.kept hnode hbelow hpackage
  obtain ⟨old, hold, -, hface, -⟩ := h.trimmed.survivor hleft
  obtain rfl := Option.some.inj (hnode.symm.trans hold)
  simp [Outline.kind?, hleft, hface.kind]

/-- The references that are left are those outside the removed node. -/
theorem Removed.is_some_use?_iff {ref : RefId} (h : Removed index after id) :
    (after.outline.use? ref).isSome = true ↔
      (index.outline.use? ref).isSome = true ∧ ¬ index.outline.Below ref.owner id := by
  constructor
  · intro huse
    obtain ⟨use, huse⟩ := Option.isSome_iff_exists.1 huse
    obtain ⟨left, hleft, -⟩ := Outline.owned_of_use? huse
    obtain ⟨-, -, hbelow, -⟩ := h.trimmed.survivor hleft
    exact ⟨by rw [h.within.use? huse]; rfl, hbelow⟩
  · rintro ⟨huse, hbelow⟩
    obtain ⟨use, huse⟩ := Option.isSome_iff_exists.1 huse
    obtain ⟨node, hnode, howned⟩ := Outline.owned_of_use? huse
    have hpackage : node.kind ≠ .package := by
      intro hkind
      rw [hkind] at howned
      cases howned
    obtain ⟨left, hleft⟩ := h.trimmed.kept hnode hbelow hpackage
    obtain ⟨old, hold, -, hface, -⟩ := h.trimmed.survivor hleft
    obtain rfl := Option.some.inj (hnode.symm.trans hold)
    rw [use?_of_same_face hnode hleft hface, huse]
    rfl

/-! ## Operations -/

/-- Whatever a file's insertion has done, it has done by attachments. -/
theorem grows_of_insert_file (file : FileDecl) (index : Index) :
    Grows (fun _ _ => True) index (reached (insertFile file) index) := by
  obtain ⟨middle, -, hfirst, hrun | ⟨id, -, -, hrest⟩⟩ := grows_insert_file file index
  · exact hrun ▸ hfirst.mono (fun _ => trivial)
  · exact (hfirst.mono (fun _ => trivial)).trans (hrest.mono (fun _ => trivial))

/-- Insertions grow an index, whether they succeed or fail. -/
theorem grows_insertion {operation : Operation} (hinsert : operation.isInsertion = true)
    (index : Index) : Grows (fun _ _ => True) index (operation.run index) := by
  cases operation with
  | insertFile file => exact grows_of_insert_file file index
  | insertAt path element => exact (grows_insert_at path element index).mono (fun _ => trivial)
  | insertChild parent element => exact grows_insert_child parent element index trivial
  | insertMethod owner method =>
      exact (grows_insert_method owner method index).mono (fun _ => trivial)
  | insertClass parent decl => exact (grows_insert_class parent decl index).mono (fun _ => trivial)
  | _ => cases hinsert

/-- An operation attaches nodes, removes a node with everything below it, or leaves the outline
as it is. -/
theorem run_cases (operation : Operation) (index : Index) :
    Grows (fun _ _ => True) index (operation.run index) ∨
      (∃ id leaving, index.remove id = .ok (leaving, operation.run index)) ∨
      (operation.run index).outline = index.outline := by
  rcases (effect_run index operation).outline_cases with ⟨hinsert, -⟩ | hrest
  · exact Or.inl (grows_insertion hinsert index)
  · exact Or.inr hrest

end Index

end CanonicalNames
