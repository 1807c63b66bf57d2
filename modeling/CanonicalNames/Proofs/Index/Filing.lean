import CanonicalNames.Proofs.Index.Branch
import CanonicalNames.Proofs.Outline.Lookup

/-!
# An outline made of files

When every node of an outline came in with a file, the outline is determined by the
declarations of its files: packages stand above files, files bear the branches of their
declarations, and everything else lies below a file. `Outline.Filing outline source?` says
so, where `source?` gives the declarations by path. Inserting a file at a free path keeps
this and leaves what lies below other files (`FileAdded.filing`); so does removing one
(`Removed.filing`).
-/

namespace CanonicalNames

/-- The kinds of nodes that stand above files. -/
def Kind.isGround (kind : Kind) : Bool :=
  kind == .root || kind == .package

/-- The package is a valid name, and everything declared in the file has a name. -/
def FileDecl.isInsertable (file : FileDecl) : Bool :=
  Dotted.isValid file.package && Branch.allOf Branch.isPlain (ClassDecl.toBranches file.classes)

namespace Outline

/-- The segments of the packages from the root to a node. -/
inductive Trail (outline : Outline) : NodeId → List String → Prop where
  | root : Trail outline rootId []
  | package {id parent : NodeId} {node : Node} {trail : List String}
      (hnode : outline.node? id = some node) (hkind : node.kind = .package)
      (hparent : node.parent = some parent) (h : Trail outline parent trail) :
      Trail outline id (trail ++ [node.segment])

/-- Packages and files stand below the root or a package. -/
structure Grounded (outline : Outline) : Prop where
  well : outline.WellFormed
  parent : ∀ {id node}, outline.node? id = some node → node.kind = .package ∨ node.kind = .file →
    ∃ parent above, node.parent = some parent ∧ outline.node? parent = some above ∧
      above.kind.isGround = true

/-- An outline is made of the files with the given declarations. -/
structure Filing (outline : Outline) (source? : SourcePath → Option FileDecl) : Prop where
  ground : outline.Grounded
  housed : ∀ {id node}, outline.node? id = some node → node.kind.isGround = false →
    ∃ file, outline.isFile file = true ∧ outline.Below id file
  filed : ∀ {path file}, outline.fileAt? path = some file →
    ∃ decl, source? path = some decl ∧ outline.Bears file decl.toBranch ∧
      ∃ parent, outline.parent? file = some parent ∧
        outline.Trail parent (Dotted.segments decl.package)
  indexed : ∀ {path decl}, source? path = some decl →
    decl.isInsertable = true ∧ (decl.path == path) = true ∧
      ∃ file, outline.fileAt? path = some file

variable {outline after : Outline} {source? : SourcePath → Option FileDecl}
  {id low high file parent : NodeId} {node above : Node} {trail : List String}

/-- The root alone is an outline of no files. -/
theorem filing_empty : empty.Filing (fun _ => none) := by
  refine ⟨⟨well_formed_empty, fun hnode hkind => ?_⟩, fun hnode hkind => ?_, nofun, nofun⟩
  · rw [(eq_root_of_node?_empty hnode).2] at hkind
    rcases hkind with hkind | hkind <;> cases hkind
  · rw [(eq_root_of_node?_empty hnode).2] at hkind
    cases hkind

/-! ## Above and below files -/

/-- Nothing at or below a file is the root or a package. -/
theorem Grounded.not_ground_of_below (h : outline.Grounded) (hfile : outline.isFile high = true)
    (hbelow : outline.Below low high) (hnode : outline.node? low = some node) :
    node.kind.isGround = false := by
  induction hbelow using Relation.ReflTransGen.head_induction_on generalizing node with
  | refl =>
      simp only [isFile, kind?, hnode, Option.map_some, beq_iff_eq, Option.some.injEq] at hfile
      rw [hfile]
      rfl
  | head hstep _ ih =>
      obtain ⟨above, habove, _⟩ := h.well.node?_of_parent? hstep
      obtain ⟨found, hfound, hparent⟩ := Option.bind_eq_some_iff.1 hstep
      rw [hnode, Option.some.injEq] at hfound
      subst hfound
      rcases hkind : node.kind.isGround with _ | _
      · rfl
      · -- The root has no parent, and the parent of a package is not below a file.
        have hcases : node.kind = .root ∨ node.kind = .package := by
          simpa [Kind.isGround] using hkind
        rcases hcases with hroot | hpackage
        · exact absurd hroot (h.well.kind_ne_root hstep hnode)
        · obtain ⟨up, upNode, hup, hupNode, hground⟩ := h.parent hnode (Or.inl hpackage)
          rw [hparent, Option.some.injEq] at hup
          subst hup
          rw [ih hupNode] at hground
          cases hground

/-- Files do not stand below files. -/
theorem Grounded.eq_of_below (h : outline.Grounded) (hlow : outline.isFile low = true)
    (hhigh : outline.isFile high = true) (hbelow : outline.Below low high) : low = high := by
  rcases hbelow.cases_head with heq | ⟨up, hstep, hrest⟩
  · exact heq
  · obtain ⟨found, hfound, hparent⟩ := Option.bind_eq_some_iff.1 hstep
    simp only [isFile, kind?, hfound, Option.map_some, beq_iff_eq, Option.some.injEq] at hlow
    obtain ⟨up', upNode, hup, hupNode, hground⟩ := h.parent hfound (Or.inr hlow)
    rw [hparent, Option.some.injEq] at hup
    subst hup
    rw [h.not_ground_of_below hhigh hrest hupNode] at hground
    cases hground

/-- What lies below a file belongs to it. -/
theorem Grounded.file_of?_of_below (h : outline.Grounded) (hfile : outline.isFile file = true)
    (hbelow : outline.Below low file) : outline.fileOf? low = some file := by
  induction hbelow using Relation.ReflTransGen.head_induction_on with
  | refl => exact List.find?_cons_of_pos hfile
  | head hstep hrest ih =>
      next low up =>
        have hnot : ¬ outline.isFile low = true := by
          intro hlow
          have heq := h.eq_of_below hlow hfile (hrest.head hstep)
          have hlt := Nat.lt_of_le_of_lt (h.well.le_of_below hrest) (h.well.parent_lt hstep)
          exact Nat.lt_irrefl _ (heq ▸ hlt)
        rw [fileOf?, h.well.ancestors_eq_cons hstep]
        exact (List.find?_cons_of_neg hnot).trans ih

/-- A file in the table is a file. -/
theorem WellFormed.is_file_of_file_at (h : outline.WellFormed) {path : SourcePath}
    (hfile : outline.fileAt? path = some file) : outline.isFile file = true := by
  obtain ⟨node, source, package, imports, hnode, hcontent, _⟩ := h.fileAt.1 hfile
  simp [isFile, kind?, hnode, Node.kind, hcontent, Content.kind, Element.kind]

/-- Equal paths find the same file. -/
theorem WellFormed.file_at_congr (h : outline.WellFormed)
    {path other : SourcePath} (hpath : (path == other) = true) :
    outline.fileAt? path = outline.fileAt? other := by
  ext file
  rw [h.fileAt, h.fileAt]
  refine exists_congr (fun node => exists_congr (fun source => exists_congr (fun _ =>
    exists_congr (fun _ => and_congr_right (fun _ => and_congr_right (fun _ => ?_))))))
  exact ⟨fun hsource => PartialEquivBEq.trans hsource hpath,
    fun hsource => PartialEquivBEq.trans hsource (PartialEquivBEq.symm hpath)⟩

/-- A file has no owner. -/
theorem owner?_of_is_file (h : outline.isFile id = true) : outline.owner? id = none := by
  rcases hnode : outline.node? id with _ | node
  · simp [owner?, hnode]
  · simp only [isFile, kind?, hnode, Option.map_some, beq_iff_eq, Option.some.injEq] at h
    simp [owner?, hnode, h, Kind.isOwned]

/-- Trails stay where faces stay. -/
theorem Trail.mono (h : outline.Trail id trail)
    (hkeep : ∀ {id node}, outline.node? id = some node →
      ∃ grown, after.node? id = some grown ∧ grown.SameFace node) : after.Trail id trail := by
  induction h with
  | root => exact .root
  | package hnode hkind hparent _ ih =>
      obtain ⟨grown, hgrown, hface⟩ := hkeep hnode
      rw [← hface.segment]
      exact .package hgrown (hface.kind.trans hkind) (hface.parent.trans hparent) ih

/-- A child that is added to the root or a package keeps packages and files grounded, if it is
one of them or stands elsewhere. -/
theorem Grounded.of_kept (h : outline.Grounded) (hwell : after.WellFormed)
    (hkeep : ∀ {id node}, outline.node? id = some node →
      ∃ grown, after.node? id = some grown ∧ grown.SameFace node)
    (hnew : ∀ {id node}, after.node? id = some node → outline.node? id = none →
      node.kind = .package ∨ node.kind = .file →
      ∃ parent above, node.parent = some parent ∧ after.node? parent = some above ∧
        above.kind.isGround = true) : after.Grounded := by
  refine ⟨hwell, fun {id node} hnode hkind => ?_⟩
  rcases hold : outline.node? id with _ | old
  · exact hnew hnode hold hkind
  · obtain ⟨grown, hgrown, hface⟩ := hkeep hold
    rw [hnode, Option.some.injEq] at hgrown
    subst hgrown
    obtain ⟨up, above, hup, habove, hground⟩ := h.parent hold (hface.kind ▸ hkind)
    obtain ⟨grown', hgrown', hface'⟩ := hkeep habove
    exact ⟨up, grown', hface.parent.trans hup, hgrown', by rw [hface'.kind, hground]⟩

end Outline

namespace Index

open Outline (Grounded Filing Trail)

variable {index middle after : Index} {id parent file : NodeId} {above node : Node}
  {source? : SourcePath → Option FileDecl} {trail : List String}

/-! ## The packages of a file -/

/-- `after` is `index` with more nodes, and of the old nodes only the root and packages have
changed. -/
structure Grown (index after : Index) : Prop where
  size_le : index.outline.places.size ≤ after.outline.places.size
  kept : ∀ {id node}, index.outline.node? id = some node →
    ∃ grown, after.outline.node? id = some grown ∧ grown.SameFace node ∧
      (node.kind.isGround = false → grown = node)
  absent : ∀ {id}, id < index.outline.places.size → index.outline.node? id = none →
    after.outline.node? id = none
  standings : after.standings = index.standings
  subscriptions : after.subscriptions = index.subscriptions

theorem Grown.refl (index : Index) : Grown index index :=
  ⟨Nat.le_refl _, fun {_ node} hnode => ⟨node, hnode, .refl node, fun _ => rfl⟩,
    fun _ hnone => hnone, rfl, rfl⟩

theorem Grown.trans (h : Grown index middle) (k : Grown middle after) : Grown index after := by
  refine ⟨Nat.le_trans h.size_le k.size_le, fun {id node} hnode => ?_,
    fun hlt hnone => k.absent (Nat.lt_of_lt_of_le hlt h.size_le) (h.absent hlt hnone),
    k.standings.trans h.standings, k.subscriptions.trans h.subscriptions⟩
  obtain ⟨grown, hgrown, hface, hsame⟩ := h.kept hnode
  obtain ⟨final, hfinal, hface', hsame'⟩ := k.kept hgrown
  refine ⟨final, hfinal, hface'.trans hface, fun hkind => ?_⟩
  rw [hsame' (by rw [hface.kind, hkind]), hsame hkind]

/-- Old nodes keep their faces. -/
theorem Grown.face (h : Grown index after) (hnode : index.outline.node? id = some node) :
    ∃ grown, after.outline.node? id = some grown ∧ grown.SameFace node := by
  obtain ⟨grown, hgrown, hface, _⟩ := h.kept hnode
  exact ⟨grown, hgrown, hface⟩

/-- A new node has a new number. -/
theorem Grown.size_le_of_new (h : Grown index after) (hnode : after.outline.node? id = some node)
    (hnone : index.outline.node? id = none) : index.outline.places.size ≤ id := by
  by_contra hlt
  rw [h.absent (Nat.lt_of_not_le hlt) hnone] at hnode
  cases hnode

/-- Planting below the root or a package changes no other old node. -/
theorem Planted.grown {ids : List NodeId} (h : Planted index after parent ids)
    (habove : index.outline.node? parent = some above) (hground : above.kind.isGround = true) :
    Grown index after := by
  refine ⟨h.size_le, fun {id node} hnode => ?_, fun {id} hlt hnone => ?_, h.standings,
    h.subscriptions⟩
  case refine_2 =>
    have hne : id ≠ parent := by
      rintro rfl
      rw [habove] at hnone
      cases hnone
    rw [h.frame hlt hne, hnone]
  obtain ⟨grown, hgrown, hface⟩ := h.exists_node? hnode
  refine ⟨grown, hgrown, hface, fun hkind => ?_⟩
  have hne : id ≠ parent := by
    rintro rfl
    rw [habove, Option.some.injEq] at hnode
    rw [hnode, hkind] at hground
    cases hground
  rw [h.frame (Outline.lt_size_of_node? hnode) hne, hnode, Option.some.injEq] at hgrown
  exact hgrown.symm

/-- The node to which the segments of a package lead, and what is known of the outline with that
package. -/
structure Paved (index after : Index) (id : NodeId) (trail : List String) : Prop where
  grown : Grown index after
  ground : after.outline.Grounded
  new : ∀ {id node}, after.outline.node? id = some node → index.outline.places.size ≤ id →
    node.kind = .package
  fileAt : ∀ path, after.outline.fileAt? path = index.outline.fileAt? path
  node : ∃ node, after.outline.node? id = some node ∧ node.kind.isGround = true
  trail : after.outline.Trail id trail

/-- A new package below the root or a package. -/
theorem paved_attach (h : index.outline.Grounded)
    (habove : index.outline.node? parent = some above) (hground : above.kind.isGround = true)
    (htrail : index.outline.Trail parent trail) (segment : String) :
    ∃ id after, attach parent .package segment index = .ok id after ∧
      Paved index after id (trail ++ [segment]) := by
  obtain ⟨after, hrun, hplanted, hnode, houtline⟩ := @planted_attach index parent above h.well
    habove .package segment (fun h => by cases h) (fun _ h => by cases h)
    (fun _ _ _ h => by cases h)
  have hgrown := hplanted.grown habove hground
  have hnew : ∀ {id node}, after.outline.node? id = some node →
      index.outline.places.size ≤ id → id = index.outline.places.size ∧
        node = Outline.newNode parent above.path .package segment := by
    intro id node hid hle
    have hsize := Outline.lt_size_of_node? hid
    rw [houtline, Outline.size_attach] at hsize
    obtain rfl := Nat.le_antisymm (Nat.le_of_lt_succ hsize) hle
    rw [hnode, Option.some.injEq] at hid
    exact ⟨rfl, hid.symm⟩
  refine ⟨_, after, hrun, hgrown, ?_, ?_, ?_, ⟨_, hnode, rfl⟩, ?_⟩
  · refine h.of_kept hplanted.well hgrown.face ?_
    intro id node hid hnone _
    obtain ⟨-, rfl⟩ := hnew hid (hgrown.size_le_of_new hid hnone)
    obtain ⟨grown, hgrown', hface, _⟩ := hgrown.kept habove
    exact ⟨parent, grown, rfl, hgrown', by rw [hface.kind, hground]⟩
  · intro id node hid hle
    obtain ⟨-, rfl⟩ := hnew hid hle
    rfl
  · intro path
    ext file
    rw [houtline, Outline.file_at_attach]
    simp
  · exact .package hnode rfl rfl (htrail.mono hgrown.face)

theorem Paved.trans {segments : List String} (h : Paved index middle parent trail)
    (k : Paved middle after id segments) : Paved index after id segments := by
  refine ⟨h.grown.trans k.grown, k.ground, fun {id node} hid hle => ?_,
    fun path => (k.fileAt path).trans (h.fileAt path), k.node, k.trail⟩
  rcases Nat.lt_or_ge id middle.outline.places.size with hlt | hge
  · rcases hold : middle.outline.node? id with _ | old
    · rw [k.grown.absent hlt hold] at hid
      cases hid
    · obtain ⟨grown, hgrown, hface⟩ := k.grown.face hold
      rw [hid, Option.some.injEq] at hgrown
      rw [hgrown, hface.kind]
      exact h.new hold hle
  · exact k.new hid hge

/-- The packages of a file can be followed or made. -/
theorem paved_descend (h : index.outline.Grounded)
    (habove : index.outline.node? parent = some above) (hground : above.kind.isGround = true)
    (htrail : index.outline.Trail parent trail) (segments : List String) :
    ∃ id after, descend true parent segments index = .ok id after ∧
      Paved index after id (trail ++ segments) := by
  induction segments generalizing index parent above trail with
  | nil =>
      refine ⟨parent, index, rfl, .refl index, h, fun hid hle => ?_, fun _ => rfl,
        ⟨above, habove, hground⟩, by simpa using htrail⟩
      exact absurd (Outline.lt_size_of_node? hid) (Nat.not_lt.2 hle)
  | cons segment rest ih =>
      simp only [descend, if_true]
      rcases hfound : index.outline.childPackage? parent segment with _ | child
      · obtain ⟨child, middle, hrun, hpaved⟩ := paved_attach h habove hground htrail segment
        obtain ⟨node, hnode, hkind⟩ := hpaved.node
        obtain ⟨id, after, hrun', hpaved'⟩ := ih hpaved.ground hnode hkind hpaved.trail
        refine ⟨id, after, by simp only [hrun, hrun'], ?_⟩
        simpa using hpaved.trans hpaved'
      · obtain ⟨node, hnode, hkind, hparent, hsegment⟩ := h.well.node?_of_child_package? hfound
        have hchild : index.outline.Trail child (trail ++ [segment]) :=
          hsegment ▸ .package hnode hkind hparent htrail
        obtain ⟨id, after, hrun, hpaved⟩ := ih h hnode (by rw [hkind]; rfl) hchild
        exact ⟨id, after, hrun, by simpa using hpaved⟩

/-! ## Inserting a file -/

/-- Where the nodes of files do not change, nothing below a file changes. -/
theorem Grown.same_below (hgrown : Grown index after) (h : index.outline.Grounded)
    (hfile : index.outline.isFile file = true) :
    index.outline.SameBelow after.outline file := by
  intro low node hlow hnode
  obtain ⟨grown, hfound, _, hsame⟩ := hgrown.kept hnode
  obtain rfl := hsame (h.not_ground_of_below hfile hlow hnode)
  exact ⟨grown, hfound, .refl grown, rfl⟩

/-- Old nodes lie below what they lay below. -/
theorem Grown.below (hgrown : Grown index after) {low high : NodeId}
    (hbelow : index.outline.Below low high) : after.outline.Below low high := by
  refine hbelow.mono (fun {child up} hup => ?_)
  obtain ⟨node, hnode, hparent⟩ := Option.bind_eq_some_iff.1 hup
  obtain ⟨grown, hfound, hface⟩ := hgrown.face hnode
  simp [Outline.parent?, hfound, hface.parent, hparent]

/-- The outline with one more file that bears the branch of a declaration. -/
structure FileAdded (index after : Index) (decl : FileDecl) (id : NodeId) : Prop where
  grown : Grown index after
  ground : after.outline.Grounded
  new : ∀ {low node}, after.outline.node? low = some node → index.outline.node? low = none →
    node.kind = .package ∨ after.outline.Below low id
  bears : after.outline.Bears id decl.toBranch
  trail : ∃ parent, after.outline.parent? id = some parent ∧
    after.outline.Trail parent (Dotted.segments decl.package)
  fileAt : ∀ {path file}, after.outline.fileAt? path = some file ↔
    (decl.path == path) = true ∧ file = id ∨
      (decl.path == path) = false ∧ index.outline.fileAt? path = some file
  fresh : index.outline.places.size ≤ id

/-- A file goes below its package. -/
theorem insert_at_file {decl : FileDecl} (hvalid : Dotted.isValid decl.package = true)
    (hdescend : descend true Outline.rootId (Dotted.segments decl.package) index =
      .ok parent middle) :
    insertAt decl.package decl.toElement index = insertChild parent decl.toElement middle := by
  have hkind : decl.toElement.kind = .file := rfl
  simp only [insertAt, parentPath?, hvalid, hkind, Bool.not_true, Bool.false_eq_true, if_false,
    if_true, beq_self_eq_true, hdescend]

/-- A file can be attached to any present node, if its path is free. -/
theorem insert_child_file {decl : FileDecl} (hfree : index.outline.fileAt? decl.path = none) :
    insertChild parent decl.toElement index =
      attach parent (.declared decl.toElement) decl.toElement.segment index := by
  have hcontains : index.outline.files.contains decl.path = false := by
    rw [Table.contains_eq_is_some_find?]
    exact congrArg Option.isSome hfree
  have hfault : insertFault? index.outline decl.toElement = none := by
    simp [insertFault?, Element.segment, FileDecl.toElement, fileMarker, hcontains]
  simp only [insertChild, hfault]

/-- Below a file that bears plain branches there are neither packages nor files. -/
theorem eq_of_below_file (hwell : after.outline.WellFormed) {decl : FileDecl}
    (hbears : after.outline.Bears file decl.toBranch)
    (hplain : Branch.allOf Branch.isPlain (ClassDecl.toBranches decl.classes) = true)
    (hbelow : after.outline.Below id file) (hnode : after.outline.node? id = some node)
    (hkind : node.kind = .package ∨ node.kind = .file) : id = file := by
  obtain ⟨top, htop, _, hall⟩ := hbears
  rcases (hwell.below_iff htop).1 hbelow with heq | ⟨child, hchild, hlow⟩
  · exact heq
  · obtain ⟨found, element, hfound, hcontent, hinner⟩ :=
      hall.element_of_below hwell hplain hchild hlow
    rw [hnode, Option.some.injEq] at hfound
    subst hfound
    rw [Node.kind, hcontent] at hkind
    cases element <;> simp [Content.kind, Element.kind, Branch.isPlain, Branch.isInner] at hkind hinner

/-- A file with names for everything can be inserted at a free path. -/
theorem insert_file_of_insertable (h : index.outline.Grounded) {decl : FileDecl}
    (hfree : index.outline.fileAt? decl.path = none) (hinsertable : decl.isInsertable = true) :
    ∃ id after, insertFile decl index = .ok id after ∧ FileAdded index after decl id := by
  simp only [FileDecl.isInsertable, Bool.and_eq_true] at hinsertable
  obtain ⟨hvalid, hplain⟩ := hinsertable
  obtain ⟨root, hroot, hcontent, _⟩ := h.well.root
  obtain ⟨parent, middle, hdescend, hpaved⟩ := paved_descend h hroot
    (by rw [Node.kind, hcontent]; rfl) .root (Dotted.segments decl.package)
  obtain ⟨above, habove, hground⟩ := hpaved.node
  have hfree' : middle.outline.fileAt? decl.path = none := (hpaved.fileAt _).trans hfree
  obtain ⟨third, hattach, hfile, hnode, houtline⟩ := @planted_attach middle parent above
    hpaved.ground.well habove (.declared decl.toElement) decl.toElement.segment
    (fun h => by cases h) (by rintro _ ⟨⟩; rfl) (by rintro _ _ _ ⟨⟩; exact hfree')
  obtain ⟨ids, after, hplant, hparts, hbears, hfiles⟩ :=
    plant_all_of_plain hfile.well hnode (ClassDecl.toBranches decl.classes) hplain
  have hall := hfile.nest hparts
  have hgrown := hall.grown habove hground
  have hbranch : after.outline.Bears middle.outline.places.size decl.toBranch := by
    obtain ⟨old, grown, hold, hfound, hface, hchildren⟩ := hparts.above
    rw [hnode, Option.some.injEq] at hold
    subst hold
    exact ⟨grown, hfound, hface.content, hchildren ▸ hbears⟩
  have hparent : after.outline.parent? middle.outline.places.size = some parent :=
    hall.parent?_of_mem (List.mem_singleton_self _)
  have hrooted : ∀ {low node}, after.outline.node? low = some node →
      middle.outline.node? low = none → after.outline.Below low middle.outline.places.size := by
    intro low node hlow hnone
    obtain ⟨top, htop, hbelow⟩ := hall.rooted hlow (hgrown.size_le_of_new hlow hnone)
    exact List.mem_singleton.1 htop ▸ hbelow
  refine ⟨middle.outline.places.size, after, ?_, hpaved.grown.trans hgrown, ?_, ?_, hbranch,
    ⟨parent, hparent, by simpa using hpaved.trail.mono hgrown.face⟩, ?_, hpaved.grown.size_le⟩
  · simp only [insertFile, insert_classes_eq_plant_all, bind, EStateM.bind,
      insert_at_file hvalid hdescend, insert_child_file hfree', hattach, hplant]
    rfl
  · refine hpaved.ground.of_kept hall.well hgrown.face (fun {low node} hlow hnone hkind => ?_)
    obtain rfl := eq_of_below_file hall.well hbranch hplain (hrooted hlow hnone) hlow hkind
    obtain ⟨grown, hfound, hface⟩ := hgrown.face habove
    refine ⟨parent, grown, ?_, hfound, by rw [hface.kind, hground]⟩
    simpa [Outline.parent?, hlow] using hparent
  · intro low node hlow hnone
    rcases hold : middle.outline.node? low with _ | old
    · exact Or.inr (hrooted hlow hold)
    · obtain ⟨grown, hfound, hface⟩ := hgrown.face hold
      rw [hlow, Option.some.injEq] at hfound
      rw [hfound, hface.kind]
      exact Or.inl (hpaved.new hold (hpaved.grown.size_le_of_new hold hnone))
  · intro path file
    rw [hfiles, houtline, Outline.file_at_attach, hpaved.fileAt]
    constructor
    · rintro (⟨_, _, _, ⟨⟩, hpath, hid⟩ | ⟨hne, hold⟩)
      · exact Or.inl ⟨hpath, hid⟩
      · exact Or.inr ⟨hne _ _ _ rfl, hold⟩
    · rintro (⟨hpath, hid⟩ | ⟨hne, hold⟩)
      · exact Or.inl ⟨_, _, _, rfl, hpath, hid⟩
      · refine Or.inr ⟨?_, hold⟩
        rintro _ _ _ ⟨⟩
        exact hne

/-- Only a file with names for everything can be inserted. -/
theorem insertable_of_insert_file {decl : FileDecl} (h : insertFile decl index = .ok id after) :
    decl.isInsertable = true := by
  simp only [insertFile, insert_classes_eq_plant_all, bind, EStateM.bind] at h
  split at h
  · next found middle hat =>
      split at h
      · next hplant =>
          have hplain := plain_of_plant_all _ (all_of_is_inner_classes decl.classes) hplant
          have hvalid : Dotted.isValid decl.package = true := by
            unfold insertAt at hat
            split at hat
            · cases hat
            · next hpath =>
                unfold parentPath? at hpath
                split at hpath
                · cases hpath
                · next hvalid => simpa using hvalid
          simp [FileDecl.isInsertable, hvalid, hplain]
      · cases h
  · cases h

/-- An outline of files is one of files when one more is inserted at a free path. -/
theorem FileAdded.filing {decl : FileDecl} (hadded : FileAdded index after decl id)
    (h : Filing index.outline source?) (hinsertable : decl.isInsertable = true) :
    Filing after.outline (fun path => if decl.path == path then some decl else source? path) := by
  have hfile : after.outline.isFile id = true :=
    hadded.ground.well.is_file_of_file_at
      (hadded.fileAt.2 (Or.inl ⟨BEq.refl decl.path, rfl⟩))
  refine ⟨hadded.ground, ?_, ?_, ?_⟩
  · intro low node hlow hkind
    rcases hold : index.outline.node? low with _ | old
    · rcases hadded.new hlow hold with hpackage | hbelow
      · rw [hpackage] at hkind
        cases hkind
      · exact ⟨id, hfile, hbelow⟩
    · obtain ⟨grown, hgrown, hface⟩ := hadded.grown.face hold
      rw [hlow, Option.some.injEq] at hgrown
      subst hgrown
      obtain ⟨file, hisFile, hbelow⟩ := h.housed hold (hface.kind ▸ hkind)
      refine ⟨file, ?_, hadded.grown.below hbelow⟩
      obtain ⟨fileNode, hfileNode, hfileKind⟩ := Option.map_eq_some_iff.1 (eq_of_beq hisFile)
      obtain ⟨grown, hgrown, hface⟩ := hadded.grown.face hfileNode
      simp [Outline.isFile, Outline.kind?, hgrown, hface.kind, hfileKind]
  · intro path file hfound
    rcases hadded.fileAt.1 hfound with ⟨hpath, rfl⟩ | ⟨hpath, hold⟩
    · exact ⟨decl, by simp [hpath], hadded.bears, hadded.trail⟩
    · obtain ⟨old, hsource, hbears, parent, hparent, htrail⟩ := h.filed hold
      have hsame := hadded.grown.same_below h.ground (h.ground.well.is_file_of_file_at hold)
      refine ⟨old, by simp [hpath, hsource], hbears.congr h.ground.well hsame, parent, ?_,
        htrail.mono hadded.grown.face⟩
      obtain ⟨node, hnode, hup⟩ := Option.bind_eq_some_iff.1 hparent
      obtain ⟨grown, hgrown, hface⟩ := hadded.grown.face hnode
      simp [Outline.parent?, hgrown, hface.parent, hup]
  · intro path found hfound
    split at hfound
    · next hpath =>
        cases hfound
        exact ⟨hinsertable, hpath, id, hadded.fileAt.2 (Or.inl ⟨hpath, rfl⟩)⟩
    · next hpath =>
        obtain ⟨hold, hbeq, file, hfile⟩ := h.indexed hfound
        exact ⟨hold, hbeq, file, hadded.fileAt.2 (Or.inr ⟨by simpa using hpath, hfile⟩)⟩

/-! ## Removing a file -/

namespace Removed

variable {top low high : NodeId}

/-- The parent of a node that is left is left. -/
theorem exists_parent (h : Removed index after top) (hnode : after.outline.node? id = some node)
    (hparent : index.outline.parent? id = some parent) :
    after.outline.parent? id = some parent ∧ ∃ above, after.outline.node? parent = some above := by
  obtain ⟨old, hold, _, hface, _⟩ := h.trimmed.survivor hnode
  obtain ⟨old', hold', hup⟩ := Option.bind_eq_some_iff.1 hparent
  rw [hold, Option.some.injEq] at hold'
  subst hold'
  have hstep : after.outline.parent? id = some parent := by
    simp [Outline.parent?, hnode, hface.parent, hup]
  obtain ⟨above, habove, _⟩ := h.well.node?_of_parent? hstep
  exact ⟨hstep, above, habove⟩

/-- Nodes that are left lie below what they lay below. -/
theorem below (h : Removed index after top) (hbelow : index.outline.Below low high)
    (hnode : after.outline.node? low = some node) : after.outline.Below low high := by
  induction hbelow using Relation.ReflTransGen.head_induction_on generalizing node with
  | refl => rfl
  | head hstep _ ih =>
      obtain ⟨hstep', above, habove⟩ := h.exists_parent hnode hstep
      exact (ih habove).head hstep'

/-- Nodes that are left keep their trails. -/
theorem trail_eq (h : Removed index after top) (htrail : index.outline.Trail id trail)
    (hnode : after.outline.node? id = some node) : after.outline.Trail id trail := by
  induction htrail generalizing node with
  | root => exact .root
  | package hold hkind hparent _ ih =>
      obtain ⟨old, hold', _, hface, _⟩ := h.trimmed.survivor hnode
      rw [hold, Option.some.injEq] at hold'
      subst hold'
      obtain ⟨_, above, habove⟩ := h.exists_parent hnode (Outline.parent?_of_node? hold hparent)
      rw [← hface.segment]
      exact .package hnode (hface.kind.trans hkind) (hface.parent.trans hparent) (ih habove)

/-- Packages and files are grounded in what is left. -/
theorem grounded (h : Removed index after top) (hground : index.outline.Grounded) :
    after.outline.Grounded := by
  refine ⟨h.well, fun {id node} hnode hkind => ?_⟩
  obtain ⟨old, hold, _, hface, _⟩ := h.trimmed.survivor hnode
  obtain ⟨up, above, hup, habove, hkind'⟩ := hground.parent hold (hface.kind ▸ hkind)
  obtain ⟨_, left, hleft⟩ := h.exists_parent hnode (Outline.parent?_of_node? hold hup)
  obtain ⟨old', hold', _, hface', _⟩ := h.trimmed.survivor hleft
  rw [habove, Option.some.injEq] at hold'
  subst hold'
  exact ⟨up, left, hface.parent.trans hup, hleft, by rw [hface'.kind, hkind']⟩

/-- Nothing lies below two files. -/
theorem not_below_of_file (hground : index.outline.Grounded)
    (htop : index.outline.isFile top = true) (hfile : index.outline.isFile file = true)
    (hne : file ≠ top) (hlow : index.outline.Below low file) : ¬ index.outline.Below low top := by
  intro hlow'
  have hunique : Relator.RightUnique
      (fun child parent => index.outline.parent? child = some parent) := by
    intro _ _ _ hleft hright
    rw [hleft, Option.some.injEq] at hright
    exact hright
  rcases Relation.ReflTransGen.total_of_right_unique hunique hlow hlow' with hbelow | hbelow
  · exact hne (hground.eq_of_below hfile htop hbelow)
  · exact hne (hground.eq_of_below htop hfile hbelow).symm

/-- What lies below another file is left as it was. -/
theorem same_below (h : Removed index after top) (hground : index.outline.Grounded)
    (htop : index.outline.isFile top = true) (hfile : index.outline.isFile file = true)
    (hne : file ≠ top) : index.outline.SameBelow after.outline file := by
  have hleft : ∀ {low node}, index.outline.Below low file → index.outline.node? low = some node →
      ∃ left, after.outline.node? low = some left := by
    intro low node hlow hnode
    refine h.trimmed.kept hnode (not_below_of_file hground htop hfile hne hlow) ?_
    intro hpackage
    have hkind := hground.not_ground_of_below hfile hlow hnode
    rw [hpackage] at hkind
    cases hkind
  intro low node hlow hnode
  obtain ⟨left, hfound⟩ := hleft hlow hnode
  obtain ⟨old, hold, _, hface, hchildren⟩ := h.trimmed.survivor hfound
  rw [hnode, Option.some.injEq] at hold
  subst hold
  refine ⟨left, hfound, hface, ?_⟩
  rw [hchildren, List.filter_eq_self]
  intro child hchild
  obtain ⟨below, hbelow, _⟩ := hground.well.child hnode hchild
  have hstep := hground.well.parent?_of_mem_children hnode hchild
  obtain ⟨found, hfound'⟩ := hleft (hlow.head hstep) hbelow
  simp [Outline.contains, hfound']

/-- The files that are left. -/
theorem file_at_iff (h : Removed index after top) (hground : index.outline.Grounded)
    {path : SourcePath} (htop : index.outline.fileAt? path = some top) {other : SourcePath} :
    after.outline.fileAt? other = some file ↔
      (path == other) = false ∧ index.outline.fileAt? other = some file := by
  have hwell := hground.well
  have hisFile := hwell.is_file_of_file_at htop
  constructor
  · intro hfile
    obtain ⟨node, source, package, imports, hnode, hcontent, hbeq⟩ := h.well.fileAt.1 hfile
    obtain ⟨old, hold, hbelow, hface, _⟩ := h.trimmed.survivor hnode
    have hfound : index.outline.fileAt? other = some file :=
      hwell.fileAt.2 ⟨old, source, package, imports, hold, hface.content.symm.trans hcontent, hbeq⟩
    refine ⟨?_, hfound⟩
    cases hpath : path == other with
    | false => rfl
    | true =>
        rw [← hwell.file_at_congr hpath, htop, Option.some.injEq] at hfound
        exact absurd (hfound ▸ .refl top) hbelow
  · rintro ⟨hpath, hfile⟩
    have hne : file ≠ top := by
      rintro rfl
      obtain ⟨_, _, _, _, hnode, hcontent, hbeq⟩ := hwell.fileAt.1 htop
      obtain ⟨_, _, _, _, hnode', hcontent', hbeq'⟩ := hwell.fileAt.1 hfile
      rw [hnode, Option.some.injEq] at hnode'
      rw [← hnode', hcontent] at hcontent'
      cases hcontent'
      rw [PartialEquivBEq.trans (PartialEquivBEq.symm hbeq) hbeq'] at hpath
      cases hpath
    obtain ⟨node, source, package, imports, hnode, hcontent, hbeq⟩ := hwell.fileAt.1 hfile
    obtain ⟨left, hleft, hface, _⟩ := h.same_below hground hisFile
      (hwell.is_file_of_file_at hfile) hne (.refl file) hnode
    exact h.well.fileAt.2 ⟨left, source, package, imports, hleft, hface.content.trans hcontent, hbeq⟩

/-- An outline of files is one of files when one of them is removed. -/
theorem filing (hremoved : Removed index after top) (h : Filing index.outline source?)
    {path : SourcePath} (htop : index.outline.fileAt? path = some top) :
    Filing after.outline (fun other => if path == other then none else source? other) := by
  have hwell := h.ground.well
  have hisFile := hwell.is_file_of_file_at htop
  refine ⟨hremoved.grounded h.ground, ?_, ?_, ?_⟩
  · intro low node hnode hkind
    obtain ⟨old, hold, hbelow, hface, _⟩ := hremoved.trimmed.survivor hnode
    obtain ⟨file, hfile, hlow⟩ := h.housed hold (hface.kind ▸ hkind)
    have hne : file ≠ top := fun heq => hbelow (heq ▸ hlow)
    obtain ⟨fileNode, hfileNode, hfileKind⟩ := Option.map_eq_some_iff.1 (eq_of_beq hfile)
    obtain ⟨left, hleft, hface', _⟩ :=
      hremoved.same_below h.ground hisFile hfile hne (.refl file) hfileNode
    refine ⟨file, ?_, hremoved.below hlow hnode⟩
    simp [Outline.isFile, Outline.kind?, hleft, hface'.kind, hfileKind]
  · intro other file hfile
    obtain ⟨hpath, hfound⟩ := (hremoved.file_at_iff h.ground htop).1 hfile
    obtain ⟨decl, hsource, hbears, parent, hparent, htrail⟩ := h.filed hfound
    have hne : file ≠ top := by
      rintro rfl
      obtain ⟨node, _, _, _, hnode, _⟩ := hremoved.well.fileAt.1 hfile
      rw [hremoved.trimmed.gone (.refl file)] at hnode
      cases hnode
    have hsame := hremoved.same_below h.ground hisFile (hwell.is_file_of_file_at hfound) hne
    obtain ⟨node, hnode, _⟩ := Option.bind_eq_some_iff.1 hparent
    obtain ⟨left, hleft, _, _⟩ := hsame (.refl file) hnode
    obtain ⟨hparent', above, habove⟩ := hremoved.exists_parent hleft hparent
    exact ⟨decl, by simp [hpath, hsource], hbears.congr hwell hsame, parent, hparent',
      hremoved.trail_eq htrail habove⟩
  · intro other decl hdecl
    split at hdecl
    · cases hdecl
    · next hpath =>
        obtain ⟨hinsertable, hbeq, file, hfile⟩ := h.indexed hdecl
        exact ⟨hinsertable, hbeq, file,
          (hremoved.file_at_iff h.ground htop).2 ⟨by simpa using hpath, hfile⟩⟩

end Removed

end Index

end CanonicalNames
