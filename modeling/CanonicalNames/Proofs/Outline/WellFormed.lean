import CanonicalNames.Outline.Walk
import CanonicalNames.Proofs.Table

/-!
# Well-formed outlines

The links of an outline are kept on both sides: a node names its parent, and the parent
lists the node among its children, in its index by segment or in its list of files; files
are in the table of source paths as well. `Outline.WellFormed` says that the two sides
agree, that parents have smaller numbers than their children, and that paths follow from
the path of the parent. This module shows that attaching a node keeps an outline well
formed; removal is in `CanonicalNames.Proofs.Outline.Removal`.
-/

namespace CanonicalNames

namespace Node

/-- Two nodes that differ at most in their children. -/
structure SameFace (left right : Node) : Prop where
  content : left.content = right.content
  segment : left.segment = right.segment
  parent : left.parent = right.parent
  path : left.path = right.path

theorem SameFace.refl (node : Node) : SameFace node node := ⟨rfl, rfl, rfl, rfl⟩

theorem SameFace.trans {first second third : Node} (h : SameFace first second)
    (k : SameFace second third) : SameFace first third :=
  ⟨h.content.trans k.content, h.segment.trans k.segment, h.parent.trans k.parent,
    h.path.trans k.path⟩

theorem SameFace.kind {left right : Node} (h : SameFace left right) : left.kind = right.kind :=
  congrArg Content.kind h.content

theorem SameFace.element? {left right : Node} (h : SameFace left right) :
    left.element? = right.element? :=
  congrArg Content.element? h.content

/-- A node that changes in its children at most keeps its face. -/
theorem SameFace.ite {left right : Node} {changes : Prop} [Decidable changes]
    (h : SameFace left right) : SameFace (if changes then left else right) right := by
  split
  · exact h
  · exact .refl right

variable (node : Node) (child : NodeId) (kind : Kind) (segment : String)

/-! ## One more child -/

@[simp] theorem content_add_child :
    (node.addChild child kind segment).content = node.content := by
  unfold addChild
  split <;> rfl

@[simp] theorem segment_add_child :
    (node.addChild child kind segment).segment = node.segment := by
  unfold addChild
  split <;> rfl

@[simp] theorem parent_add_child :
    (node.addChild child kind segment).parent = node.parent := by
  unfold addChild
  split <;> rfl

@[simp] theorem path_add_child : (node.addChild child kind segment).path = node.path := by
  unfold addChild
  split <;> rfl

@[simp] theorem children_add_child :
    (node.addChild child kind segment).children = node.children ++ [child] := by
  unfold addChild
  split <;> rfl

theorem same_face_add_child : SameFace (node.addChild child kind segment) node := by
  constructor <;> simp

/-- A file is listed among the files of its parent. -/
theorem files_add_child : (node.addChild child kind segment).files =
    node.files ++ if kind = .file then [child] else [] := by
  unfold addChild
  split <;> simp_all

/-- Any other child is listed under its segment. -/
theorem named_add_child (name : String) : (node.addChild child kind segment).named name =
    node.named name ++ if kind ≠ .file ∧ segment = name then [child] else [] := by
  unfold addChild
  by_cases hkind : kind = .file
  · simp [hkind, named]
  · by_cases hname : segment = name
    · subst hname
      simp [hkind, named, Table.find?_insert_of_beq]
    · have hne : (segment == name) = false := by simpa using hname
      simp [hkind, hname, named, Table.find?_insert_of_not_beq _ _ hne]

theorem unique_add_child (h : node.bySegment.Unique) :
    (node.addChild child kind segment).bySegment.Unique := by
  unfold addChild
  split
  · exact h
  · exact h.insert ..

/-! ## One child less -/

/-- The entries that are left when a child is taken out of each. -/
private theorem find?_filter_map_without (entries : List (String × List NodeId)) (name : String)
    (h : Table.Unique ⟨entries⟩) :
    ((⟨entries.filterMap (fun entry =>
      match without entry.2 child with
      | [] => none
      | rest => some (entry.1, rest))⟩ : Table String (List NodeId)).find? name).getD [] =
      without (((⟨entries⟩ : Table String (List NodeId)).find? name).getD []) child := by
  induction entries with
  | nil => rfl
  | cons entry rest ih =>
      obtain ⟨hentry, hrest⟩ := List.pairwise_cons.1 h
      have ih := ih hrest
      simp only [Table.find?] at ih ⊢
      cases hkey : entry.1 == name with
      | true =>
          have hname : entry.1 = name := by simpa using hkey
          have hnone : rest.find? (fun other => other.1 == name) = none := by
            simp only [List.find?_eq_none]
            intro other hother hsame
            have hne := hentry other hother
            rw [hname, ← eq_of_beq hsame, beq_self_eq_true] at hne
            cases hne
          rw [List.find?_cons_of_pos (by simpa using hkey)]
          rw [hnone] at ih
          cases hleft : without entry.2 child with
          | nil =>
              rw [List.filterMap_cons_none (by simp [hleft]), Option.map_some, Option.getD_some,
                hleft]
              exact ih
          | cons first others =>
              rw [List.filterMap_cons_some (by simp [hleft]; rfl)]
              simp [hkey, hleft]
      | false =>
          rw [List.find?_cons_of_neg (by simp [hkey]), ← ih]
          cases hleft : without entry.2 child with
          | nil => rw [List.filterMap_cons_none (by simp [hleft])]
          | cons first others =>
              rw [List.filterMap_cons_some (by simp [hleft]; rfl),
                List.find?_cons_of_neg (by simp [hkey])]

/-- A child is taken off the list of every segment. -/
theorem named_drop_child (h : node.bySegment.Unique) (name : String) :
    (node.dropChild child).named name = without (node.named name) child :=
  find?_filter_map_without child node.bySegment.entries name h

theorem unique_drop_child (h : node.bySegment.Unique) :
    (node.dropChild child).bySegment.Unique := by
  refine List.Pairwise.filterMap _ ?_ h
  intro entry other hne left hleft right hright
  split at hleft
  · cases hleft
  · split at hright
    · cases hright
    · cases hleft
      cases hright
      exact hne

end Node

namespace Outline

/-- A present file. -/
def isFile (outline : Outline) (id : NodeId) : Bool :=
  outline.kind? id == some .file

/-- A present node that is not a file and has a segment. -/
def isVisible (outline : Outline) (segment : String) (id : NodeId) : Bool :=
  match outline.node? id with
  | some node => node.kind != .file && node.segment == segment
  | none => false

section Faces

variable {before after : Outline} {id : NodeId} {old new : Node}

/-- A node is seen under its segment by its face alone. -/
theorem is_visible_congr (hnew : after.node? id = some new) (hold : before.node? id = some old)
    (hface : new.SameFace old) (segment : String) :
    after.isVisible segment id = before.isVisible segment id := by
  simp [isVisible, hnew, hold, hface.segment, hface.kind]

/-- A node is seen to be a file by its face alone. -/
theorem is_file_congr (hnew : after.node? id = some new) (hold : before.node? id = some old)
    (hface : new.SameFace old) : after.isFile id = before.isFile id := by
  simp [isFile, kind?, hnew, hold, hface.kind]

end Faces

/-- The two sides of every link agree. -/
structure WellFormed (outline : Outline) : Prop where
  root : ∃ node, outline.node? rootId = some node ∧ node.content = .root ∧
    node.parent = none ∧ node.path = ""
  linked : ∀ {id node}, outline.node? id = some node → id ≠ rootId →
    ∃ parent above, node.parent = some parent ∧ parent < id ∧
      outline.node? parent = some above ∧ id ∈ above.children
  child : ∀ {id node child}, outline.node? id = some node → child ∈ node.children →
    ∃ below, outline.node? child = some below ∧ below.parent = some id
  nodup : ∀ {id node}, outline.node? id = some node → node.children.Nodup
  named : ∀ {id node}, outline.node? id = some node → ∀ segment,
    node.named segment = node.children.filter (outline.isVisible segment)
  files : ∀ {id node}, outline.node? id = some node →
    node.files = node.children.filter outline.isFile
  unique : ∀ {id node}, outline.node? id = some node → node.bySegment.Unique
  path : ∀ {id node parent above}, outline.node? id = some node → node.parent = some parent →
    outline.node? parent = some above →
    node.path = if node.kind = .file then above.path else Dotted.join above.path node.segment
  content : ∀ {id node}, outline.node? id = some node → id ≠ rootId → node.content ≠ .root
  segment : ∀ {id node element}, outline.node? id = some node →
    node.content = .declared element → node.segment = element.segment
  fileAt : ∀ {path id}, outline.fileAt? path = some id ↔ ∃ node source package imports,
    outline.node? id = some node ∧ node.content = .declared (.file source package imports) ∧
      (source == path) = true

variable {outline : Outline} {id parent other : NodeId} {node above : Node}

/-- There is nothing but the root in the empty outline. -/
theorem eq_root_of_node?_empty (h : empty.node? id = some node) :
    id = rootId ∧ node = { content := .root, segment := "", parent := none, path := "" } := by
  have hlt := lt_size_of_node? h
  obtain rfl : id = 0 := by simpa [empty] using hlt
  exact ⟨rfl, by simpa [node?, empty] using h.symm⟩

/-- The root alone is a well-formed outline. -/
theorem well_formed_empty : WellFormed empty := by
  have hnode := @eq_root_of_node?_empty
  constructor
  · exact ⟨_, rfl, rfl, rfl, rfl⟩
  all_goals intro id node
  case linked => intro h hne; exact absurd (hnode h).1 hne
  case child => intro child h hmem; rw [(hnode h).2] at hmem; cases hmem
  case nodup => intro h; rw [(hnode h).2]; exact List.nodup_nil
  case named => intro h segment; rw [(hnode h).2]; rfl
  case files => intro h; rw [(hnode h).2]; rfl
  case unique => intro h; rw [(hnode h).2]; exact Table.unique_empty
  case path => intro parent above h hparent; rw [(hnode h).2] at hparent; cases hparent
  case content => intro h hne; exact absurd (hnode h).1 hne
  case segment => intro element h hcontent; rw [(hnode h).2] at hcontent; cases hcontent
  case fileAt =>
    constructor
    · intro h
      cases h
    · rintro ⟨_, _, _, _, h, hcontent, _⟩
      rw [(hnode h).2] at hcontent
      cases hcontent

theorem contains_of_node? (h : outline.node? id = some node) : outline.contains id = true := by
  simp [contains, h]

theorem contains_of_kind? {kind : Kind} (h : outline.kind? id = some kind) :
    outline.contains id = true := by
  obtain ⟨node, hnode, -⟩ := Option.map_eq_some_iff.1 h
  exact contains_of_node? hnode

theorem WellFormed.kind?_root (h : outline.WellFormed) : outline.kind? rootId = some .root := by
  obtain ⟨root, hroot, hcontent, -⟩ := h.root
  simp [kind?, hroot, Node.kind, hcontent, Content.kind]

theorem WellFormed.contains_root (h : outline.WellFormed) : outline.contains rootId = true :=
  contains_of_kind? h.kind?_root

theorem parent?_of_node? (hnode : outline.node? id = some node)
    (hparent : node.parent = some parent) : outline.parent? id = some parent := by
  simp [parent?, hnode, hparent]

/-- A present node has a parent with a smaller number. -/
theorem WellFormed.parent_lt (h : outline.WellFormed)
    (hparent : outline.parent? id = some parent) : parent < id := by
  obtain ⟨node, hnode, hup⟩ := Option.bind_eq_some_iff.1 hparent
  by_cases hid : id = rootId
  · subst hid
    obtain ⟨root, hroot, _, hnone, _⟩ := h.root
    rw [hnode, Option.some.injEq] at hroot
    rw [← hroot, hup] at hnone
    cases hnone
  · obtain ⟨other, _, hother, hlt, _⟩ := h.linked hnode hid
    rw [hup, Option.some.injEq] at hother
    exact hother ▸ hlt

/-- The number of the next node is listed nowhere. -/
theorem WellFormed.size_not_mem_children (h : outline.WellFormed)
    (hnode : outline.node? id = some node) : outline.places.size ∉ node.children := by
  intro hmem
  obtain ⟨below, hbelow, _⟩ := h.child hnode hmem
  exact Nat.lt_irrefl _ (lt_size_of_node? hbelow)

/-! ## Attaching a node -/

/-- The node that `attach` adds below a node with the given path. -/
def newNode (parent : NodeId) (parentPath : String) (content : Content) (segment : String) : Node where
  content
  segment
  parent := some parent
  path := if content.kind = .file then parentPath else Dotted.join parentPath segment

section Attach

variable (content : Content) (segment : String)

@[simp] theorem size_attach (parentPath : String) :
    (outline.attach parent parentPath content segment).2.places.size = outline.places.size + 1 := by
  simp only [attach, update]
  split <;> simp [setPlace]

/-- Attaching adds one node, makes it a child of its parent and changes nothing else. -/
theorem node?_attach (habove : outline.node? parent = some above) (parentPath : String)
    (other : NodeId) :
    (outline.attach parent parentPath content segment).2.node? other =
      if other = outline.places.size then some (newNode parent parentPath content segment)
      else (outline.node? other).map (fun node =>
        if other = parent then node.addChild outline.places.size content.kind segment else node) := by
  have hlt := lt_size_of_node? habove
  simp only [attach, node?_update]
  have hgrown : ∀ files x, (Outline.mk (outline.places.push
      (some (newNode parent parentPath content segment))) files).node? x =
      if x = outline.places.size then some (newNode parent parentPath content segment)
      else outline.node? x := by
    intro files x
    simp only [node?, Array.getElem?_push]
    split <;> rfl
  simp only [newNode] at hgrown ⊢
  rw [hgrown]
  by_cases hother : other = parent
  · subst hother
    simp [Nat.ne_of_lt hlt]
  · simp [hother]

theorem node?_attach_new (habove : outline.node? parent = some above) (parentPath : String) :
    (outline.attach parent parentPath content segment).2.node? outline.places.size =
      some (newNode parent parentPath content segment) := by
  rw [node?_attach content segment habove, if_pos rfl]

/-- A node of a grown outline is the new one, or an old one that has one more child if it is
the parent. -/
theorem attach_cases (habove : outline.node? parent = some above) {parentPath : String}
    (h : (outline.attach parent parentPath content segment).2.node? id = some node) :
    (id = outline.places.size ∧ node = newNode parent parentPath content segment) ∨
      ∃ old, outline.node? id = some old ∧ id ≠ outline.places.size ∧
        node = if id = parent then old.addChild outline.places.size content.kind segment else old := by
  rw [node?_attach content segment habove] at h
  split at h
  · next hid => exact Or.inl ⟨hid, by simpa using h.symm⟩
  · next hid =>
      obtain ⟨old, hold, rfl⟩ := Option.map_eq_some_iff.1 h
      exact Or.inr ⟨old, hold, hid, rfl⟩

/-- A node of a grown outline is the new one, or it has the face of an old one. -/
theorem attach_face_cases (habove : outline.node? parent = some above) {parentPath : String}
    (h : (outline.attach parent parentPath content segment).2.node? id = some node) :
    (id = outline.places.size ∧ node = newNode parent parentPath content segment) ∨
      ∃ old, outline.node? id = some old ∧ id ≠ outline.places.size ∧ node.SameFace old := by
  rcases attach_cases content segment habove h with hnew | ⟨old, hold, hne, rfl⟩
  · exact Or.inl hnew
  · exact Or.inr ⟨old, hold, hne, (old.same_face_add_child ..).ite⟩

/-- An old node keeps its kind and segment in a grown outline. -/
theorem exists_node?_attach (habove : outline.node? parent = some above) (parentPath : String)
    (h : outline.node? id = some node) :
    ∃ grown, (outline.attach parent parentPath content segment).2.node? id = some grown ∧
      grown.SameFace node ∧ ∀ child ∈ node.children, child ∈ grown.children := by
  have hne := Nat.ne_of_lt (lt_size_of_node? h)
  refine ⟨_, by rw [node?_attach content segment habove, if_neg hne, h, Option.map_some], ?_⟩
  split
  · exact ⟨node.same_face_add_child .., fun child hchild => by simp [hchild]⟩
  · exact ⟨.refl node, fun child hchild => hchild⟩

/-- The children that a node had are seen as before by whatever sees faces only. -/
theorem WellFormed.filter_children_attach (h : outline.WellFormed)
    (habove : outline.node? parent = some above) (parentPath : String)
    (hnode : outline.node? id = some node) {seen seenBefore : NodeId → Bool}
    (hseen : ∀ {child new old},
      (outline.attach parent parentPath content segment).2.node? child = some new →
      outline.node? child = some old → new.SameFace old → seen child = seenBefore child) :
    node.children.filter seen = node.children.filter seenBefore := by
  apply List.filter_congr
  intro child hchild
  obtain ⟨below, hbelow, _⟩ := h.child hnode hchild
  obtain ⟨grown, hgrown, hface, _⟩ := exists_node?_attach content segment habove parentPath hbelow
  exact hseen hgrown hbelow hface

variable {content segment}

/-- The file table after attaching a node. -/
theorem file_at_attach {parentPath : String} {path : SourcePath} :
    (outline.attach parent parentPath content segment).2.fileAt? path = some id ↔
      (∃ source package imports, content = .declared (.file source package imports) ∧
        (source == path) = true ∧ id = outline.places.size) ∨
      (∀ source package imports, content = .declared (.file source package imports) →
        (source == path) = false) ∧ outline.fileAt? path = some id := by
  by_cases hcontent : ∃ source package imports, content = .declared (.file source package imports)
  · obtain ⟨source, package, imports, rfl⟩ := hcontent
    have hfiles : (outline.attach parent parentPath (.declared (.file source package imports))
        segment).2.files = outline.files.insert source outline.places.size := by
      simp only [attach, update]
      split <;> rfl
    simp only [fileAt?, hfiles]
    cases hsource : source == path with
    | true =>
        rw [Table.find?_insert_of_beq _ _ hsource, Option.some.injEq]
        constructor
        · exact fun h => Or.inl ⟨source, package, imports, rfl, hsource, h.symm⟩
        · rintro (⟨_, _, _, _, _, rfl⟩ | ⟨hne, _⟩)
          · rfl
          · rw [hne source package imports rfl] at hsource
            cases hsource
    | false =>
        rw [Table.find?_insert_of_not_beq _ _ hsource]
        constructor
        · refine fun h => Or.inr ⟨?_, h⟩
          rintro _ _ _ ⟨⟩
          exact hsource
        · rintro (⟨_, _, _, ⟨⟩, hbeq, _⟩ | ⟨_, h⟩)
          · rw [hsource] at hbeq
            cases hbeq
          · exact h
  · have hnot : ∀ source package imports, content ≠ .declared (.file source package imports) :=
      fun source package imports hc => hcontent ⟨source, package, imports, hc⟩
    have hfiles : (outline.attach parent parentPath content segment).2.files = outline.files := by
      simp only [attach, update]
      split <;> split <;> rfl
    simp only [fileAt?, hfiles]
    constructor
    · exact fun h => Or.inr ⟨fun source package imports hc => absurd hc (hnot source package imports), h⟩
    · rintro (⟨source, package, imports, hc, _⟩ | ⟨_, h⟩)
      · exact absurd hc (hnot source package imports)
      · exact h

namespace WellFormed

/-- Paths follow from the path of the parent in the grown outline as well. -/
theorem path_attach (h : outline.WellFormed) (habove : outline.node? parent = some above)
    {up : Node}
    (hnode : (outline.attach parent above.path content segment).2.node? id = some node)
    (hparent : node.parent = some other)
    (hup : (outline.attach parent above.path content segment).2.node? other = some up) :
    node.path = if node.kind = .file then up.path else Dotted.join up.path node.segment := by
  rcases attach_face_cases content segment habove hnode with ⟨rfl, rfl⟩ | ⟨old, hold, _, hface⟩
  · obtain rfl : parent = other := Option.some.inj hparent
    obtain ⟨grown, hgrown, hface, _⟩ :=
      exists_node?_attach content segment habove above.path habove
    obtain rfl : grown = up := Option.some.inj (hgrown.symm.trans hup)
    rw [hface.path]
    rfl
  · rw [hface.parent] at hparent
    rcases attach_face_cases content segment habove hup with ⟨rfl, _⟩ | ⟨oldUp, holdUp, _, hfaceUp⟩
    · exact absurd (h.parent_lt (parent?_of_node? hold hparent))
        (Nat.lt_asymm (lt_size_of_node? hold))
    · rw [hface.path, hface.kind, hface.segment, hfaceUp.path]
      exact h.path hold hparent holdUp

/-- The file table agrees with the files of the grown outline, if a new file's path is free. -/
theorem file_at_attach_iff (h : outline.WellFormed) (habove : outline.node? parent = some above)
    {parentPath : String}
    (hfree : ∀ source package imports, content = .declared (.file source package imports) →
      outline.fileAt? source = none) {path : SourcePath} :
    (outline.attach parent parentPath content segment).2.fileAt? path = some id ↔
      ∃ node source package imports,
        (outline.attach parent parentPath content segment).2.node? id = some node ∧
          node.content = .declared (.file source package imports) ∧ (source == path) = true := by
  rw [file_at_attach]
  constructor
  · rintro (⟨source, package, imports, rfl, hbeq, rfl⟩ | ⟨_, hold⟩)
    · exact ⟨_, source, package, imports, node?_attach_new _ _ habove _, rfl, hbeq⟩
    · obtain ⟨node, source, package, imports, hnode, hcontent, hbeq⟩ := h.fileAt.1 hold
      obtain ⟨grown, hgrown, hface, _⟩ :=
        exists_node?_attach content segment habove parentPath hnode
      exact ⟨grown, source, package, imports, hgrown, hface.content.trans hcontent, hbeq⟩
  · rintro ⟨node, source, package, imports, hnode, hcontent, hbeq⟩
    rcases attach_face_cases content segment habove hnode with ⟨rfl, rfl⟩ | ⟨old, hold, _, hface⟩
    · exact Or.inl ⟨source, package, imports, hcontent, hbeq, rfl⟩
    · rw [hface.content] at hcontent
      have hpath := h.fileAt.2 ⟨old, source, package, imports, hold, hcontent, hbeq⟩
      refine Or.inr ⟨fun source' package' imports' hc => ?_, hpath⟩
      -- The new file's path is free, so it is not the path of an old file.
      have hnone := hfree source' package' imports' hc
      cases hbeq' : source' == path with
      | false => rfl
      | true =>
          have hsame := h.fileAt.2 ⟨old, source, package, imports, hold, hcontent,
            PartialEquivBEq.trans hbeq (PartialEquivBEq.symm hbeq')⟩
          rw [hnone] at hsame
          cases hsame

/-- Attaching a node keeps an outline well formed, if a file's path is free. -/
theorem attach (h : outline.WellFormed) (habove : outline.node? parent = some above)
    (hroot : content ≠ .root)
    (hsegment : ∀ element, content = .declared element → segment = element.segment)
    (hfree : ∀ source package imports, content = .declared (.file source package imports) →
      outline.fileAt? source = none) :
    (outline.attach parent above.path content segment).2.WellFormed := by
  have hlt := lt_size_of_node? habove
  have hnew := node?_attach_new content segment habove above.path
  constructor
  case root =>
    obtain ⟨node, hnode, hcontent, hparent, hpath⟩ := h.root
    obtain ⟨grown, hgrown, hface, _⟩ :=
      exists_node?_attach content segment habove above.path hnode
    exact ⟨grown, hgrown, hface.content.trans hcontent, hface.parent.trans hparent,
      hface.path.trans hpath⟩
  case linked =>
    intro id node hnode hne
    rcases attach_face_cases content segment habove hnode with ⟨rfl, rfl⟩ | ⟨old, hold, _, hface⟩
    · refine ⟨parent, above.addChild outline.places.size content.kind segment, rfl, hlt, ?_, by simp⟩
      rw [node?_attach content segment habove, if_neg (Nat.ne_of_lt hlt), habove, Option.map_some,
        if_pos rfl]
    · obtain ⟨p, up, hparent, hplt, hup, hmem⟩ := h.linked hold hne
      obtain ⟨grown, hgrown, _, hchildren⟩ :=
        exists_node?_attach content segment habove above.path hup
      exact ⟨p, grown, hface.parent.trans hparent, hplt, hgrown, hchildren id hmem⟩
  case child =>
    intro id node child hnode hmem
    rcases attach_cases content segment habove hnode with ⟨rfl, rfl⟩ | ⟨old, hold, _, rfl⟩
    · cases hmem
    · have hcases : child ∈ old.children ∨ child = outline.places.size ∧ id = parent := by
        split at hmem
        · next hid => simpa [hid] using hmem
        · exact Or.inl hmem
      rcases hcases with hmem | ⟨rfl, rfl⟩
      · obtain ⟨below, hbelow, hparent⟩ := h.child hold hmem
        obtain ⟨grown, hgrown, hface, _⟩ :=
          exists_node?_attach content segment habove above.path hbelow
        exact ⟨grown, hgrown, hface.parent.trans hparent⟩
      · exact ⟨_, hnew, rfl⟩
  case nodup =>
    intro id node hnode
    rcases attach_cases content segment habove hnode with ⟨rfl, rfl⟩ | ⟨old, hold, _, rfl⟩
    · exact List.nodup_nil
    · split
      · rw [Node.children_add_child]
        refine List.nodup_append.2 ⟨h.nodup hold, List.pairwise_singleton _ _, ?_⟩
        rintro child hchild _ hnew rfl
        exact h.size_not_mem_children hold (List.mem_singleton.1 hnew ▸ hchild)
      · exact h.nodup hold
  case named =>
    intro id node hnode name
    rcases attach_cases content segment habove hnode with ⟨rfl, rfl⟩ | ⟨old, hold, _, rfl⟩
    · rfl
    · have hseen := h.filter_children_attach content segment habove above.path hold
        (fun hgrown hbefore hface => is_visible_congr hgrown hbefore hface name)
      split
      · rw [Node.named_add_child, Node.children_add_child, List.filter_append, hseen, h.named hold]
        congr 1
        simp only [List.filter_cons, List.filter_nil, isVisible, hnew]
        simp [newNode, Node.kind]
      · rw [hseen, h.named hold]
  case files =>
    intro id node hnode
    rcases attach_cases content segment habove hnode with ⟨rfl, rfl⟩ | ⟨old, hold, _, rfl⟩
    · rfl
    · have hseen :=
        h.filter_children_attach content segment habove above.path hold is_file_congr
      split
      · rw [Node.files_add_child, Node.children_add_child, List.filter_append, hseen, h.files hold]
        congr 1
        simp only [List.filter_cons, List.filter_nil, isFile, kind?, hnew]
        simp [newNode, Node.kind]
      · rw [hseen, h.files hold]
  case unique =>
    intro id node hnode
    rcases attach_cases content segment habove hnode with ⟨rfl, rfl⟩ | ⟨old, hold, _, rfl⟩
    · exact Table.unique_empty
    · split
      · exact old.unique_add_child _ _ _ (h.unique hold)
      · exact h.unique hold
  case path => exact h.path_attach habove
  case content =>
    intro id node hnode hne
    rcases attach_face_cases content segment habove hnode with ⟨rfl, rfl⟩ | ⟨old, hold, _, hface⟩
    · exact hroot
    · rw [hface.content]
      exact h.content hold hne
  case segment =>
    intro id node element hnode hcontent
    rcases attach_face_cases content segment habove hnode with ⟨rfl, rfl⟩ | ⟨old, hold, _, hface⟩
    · exact hsegment element hcontent
    · exact hface.segment.trans (h.segment hold (hface.content.symm.trans hcontent))
  case fileAt => exact h.file_at_attach_iff habove hfree

end WellFormed

end Attach

end Outline

end CanonicalNames
