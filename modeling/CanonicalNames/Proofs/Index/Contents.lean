import CanonicalNames.Proofs.Index.Filing
import CanonicalNames.Proofs.Outline.Region

/-!
# What the files of an outline contain

What an outline of files says is read off the declarations of its files without any number
of a node. Bounds lead back in the outline only where they do so in a declaration
(`Filing.acyclic_bounds`), a file has the path of its package (`Filing.path_of_file_at`), and
the known class paths are those that the declarations give (`Filing.knows_iff`).
-/

namespace CanonicalNames

namespace Branch

/-- A type named in a declaration. -/
def linkOf (use : TypeUse) : Link :=
  { name := use.name }

/-- The type parameter at the top of a branch. -/
def param? : Branch → Option Param
  | mk (.typeParameter name bounds) _ => some { name, bound := bounds.head?.map linkOf }
  | _ => none

/-- The type parameters among branches. -/
def params (branches : List Branch) : List Param :=
  branches.filterMap param?

mutual

/-- No owner of type parameters in a branch has bounds that lead back. -/
def AcyclicBounds : Branch → Prop
  | mk _ children => Meaning.Acyclic (params children) ∧ AcyclicBoundsAll children

/-- No owner of type parameters in the branches has bounds that lead back. -/
def AcyclicBoundsAll : List Branch → Prop
  | [] => True
  | branch :: rest => AcyclicBounds branch ∧ AcyclicBoundsAll rest

end

/-- One segment further from every branch. -/
def follow (branches : List Branch) (segment : String) : List Branch :=
  branches.flatMap (fun branch =>
    branch.children.filter (fun child => child.element.segment == segment))

theorem all_of_iff {property : Element → Bool} {branches : List Branch} :
    allOf property branches = true ↔ ∀ branch ∈ branches, branch.all property = true := by
  induction branches with
  | nil => simp [allOf]
  | cons branch rest ih => simp [allOf, ih]

theorem all_of_children {property : Element → Bool} {branch : Branch}
    (h : branch.all property = true) : allOf property branch.children = true := by
  obtain ⟨element, children⟩ := branch
  simp only [all, Bool.and_eq_true] at h
  exact h.2

end Branch

/-- A file declares a class at a list of segments. -/
def FileDecl.Declares (file : FileDecl) (segments : List String) : Prop :=
  ∃ inner, segments = Dotted.segments file.package ++ inner ∧
    ∃ branch ∈ inner.foldl Branch.follow [file.toBranch], branch.element.kind = .classDecl

/-- No owner of type parameters in a file has bounds that lead back. -/
def FileDecl.AcyclicBounds (file : FileDecl) : Prop :=
  file.toBranch.AcyclicBounds

namespace Outline

variable {outline after : Outline} {source? : SourcePath → Option FileDecl}
  {id low file : NodeId} {node : Node}

/-! ## Type parameters and paths -/

/-- The type parameters of a node are those of the branches that its children bear. -/
theorem BearsAll.filter_map_param_at {ids : List NodeId} {branches : List Branch}
    (h : outline.BearsAll ids branches) :
    (ids.filter (fun id => outline.kind? id == some .typeParameter)).filterMap
        (outline.paramAt? (fun _ => none)) = Branch.params branches := by
  induction ids generalizing branches with
  | nil =>
      cases branches with
      | nil => rfl
      | cons => exact h.elim
  | cons id rest ih =>
      cases branches with
      | nil => exact h.elim
      | cons branch others =>
          obtain ⟨element, children⟩ := branch
          obtain ⟨⟨node, hnode, hcontent, _⟩, hrest⟩ := h
          have hkind : outline.kind? id = some element.kind := by
            simp [kind?, hnode, Node.kind, hcontent, Content.kind]
          have helement : outline.element? id = some element := by
            simp [element?, hnode, Node.element?, hcontent, Content.element?]
          have ih := ih hrest
          cases element with
          | typeParameter name bounds =>
              rw [List.filter_cons_of_pos (by simp [hkind, Element.kind])]
              have hparam : outline.paramAt? (fun _ => none) id =
                  some { name, bound := bounds.head?.map Branch.linkOf } := by
                simp only [paramAt?, helement, boundAt]
                rfl
              rw [List.filterMap_cons_some hparam, ih]
              rfl
          | _ =>
              rw [List.filter_cons_of_neg (by simp [hkind, Element.kind]), ih]
              rfl

theorem params_of_eq {children : List Branch} (hnode : outline.node? id = some node)
    (h : outline.BearsAll node.children children) :
    outline.paramsOf (fun _ => none) id = Branch.params children := by
  simp only [paramsOf, typeParameters, childrenOfKind, hnode]
  exact h.filter_map_param_at

/-- The path of the root or a package is joined from its trail. -/
theorem WellFormed.path_of_trail (h : outline.WellFormed) {trail : List String}
    (htrail : outline.Trail id trail) (hnode : outline.node? id = some node) :
    node.path = trail.foldl Dotted.join "" := by
  induction htrail generalizing node with
  | root =>
      obtain ⟨root, hroot, _, _, hpath⟩ := h.root
      rw [hnode, Option.some.injEq] at hroot
      rw [hroot, hpath]
      rfl
  | package hfound hkind hparent _ ih =>
      rw [hnode, Option.some.injEq] at hfound
      subst hfound
      obtain ⟨above, habove, _⟩ := h.node?_of_parent? (parent?_of_node? hnode hparent)
      rw [h.path hnode hparent habove, if_neg (by rw [hkind]; exact nofun), ih habove,
        List.foldl_concat]

/-- A file has the path of its package. -/
theorem Filing.path_of_file_at (h : outline.Filing source?) {path : SourcePath} {decl : FileDecl}
    (hfile : outline.fileAt? path = some file) (hsource : source? path = some decl)
    (hnode : outline.node? file = some node) : node.path = decl.package := by
  obtain ⟨found, hfound, _, parent, hparent, htrail⟩ := h.filed hfile
  rw [hsource, Option.some.injEq] at hfound
  subst hfound
  have hinsertable := (h.indexed hsource).1
  simp only [FileDecl.isInsertable, Bool.and_eq_true] at hinsertable
  have hisFile := h.ground.well.is_file_of_file_at hfile
  simp only [isFile, kind?, hnode, Option.map_some, beq_iff_eq, Option.some.injEq] at hisFile
  obtain ⟨above, habove, _⟩ := h.ground.well.node?_of_parent? hparent
  simp only [parent?, hnode, Option.bind_some] at hparent
  rw [h.ground.well.path hnode hparent habove, if_pos hisFile,
    h.ground.well.path_of_trail htrail habove, Dotted.foldl_join_segments hinsertable.1]

/-! ## Bounds -/

mutual

/-- Below a node that bears a branch bounds lead back only where they do so in the branch. -/
theorem Bears.acyclic_of_below (hwell : outline.WellFormed) {id low : NodeId} {branch : Branch}
    (h : outline.Bears id branch) (hacyclic : branch.AcyclicBounds)
    (hlow : outline.Below low id) : Meaning.Acyclic (outline.paramsOf (fun _ => none) low) := by
  match branch, h with
  | .mk element children, ⟨node, hnode, hcontent, hall⟩ =>
      rcases (hwell.below_iff hnode).1 hlow with rfl | ⟨child, hchild, hbelow⟩
      · rw [params_of_eq hnode hall]
        exact hacyclic.1
      · exact hall.acyclic_of_below hwell hacyclic.2 hchild hbelow

theorem BearsAll.acyclic_of_below (hwell : outline.WellFormed) {low child : NodeId}
    {ids : List NodeId} {branches : List Branch} (h : outline.BearsAll ids branches)
    (hacyclic : Branch.AcyclicBoundsAll branches) (hchild : child ∈ ids)
    (hlow : outline.Below low child) :
    Meaning.Acyclic (outline.paramsOf (fun _ => none) low) := by
  match ids, branches, h with
  | id :: ids, branch :: branches, ⟨hfirst, hrest⟩ =>
      rcases List.mem_cons.1 hchild with rfl | hchild
      · exact hfirst.acyclic_of_below hwell hacyclic.1 hlow
      · exact hrest.acyclic_of_below hwell hacyclic.2 hchild hlow

end

/-- A child of the root or of a package is a package or a file. -/
theorem Filing.child_of_ground (h : outline.Filing source?) (hnode : outline.node? id = some node)
    (hground : node.kind.isGround = true) {child : NodeId} (hchild : child ∈ node.children)
    {below : Node} (hbelow : outline.node? child = some below) :
    below.kind = .package ∨ below.kind = .file := by
  have hparent := h.ground.well.parent?_of_mem_children hnode hchild
  rcases hkind : below.kind.isGround with _ | _
  · obtain ⟨file, hfile, hlow⟩ := h.housed hbelow hkind
    rcases hlow.cases_head with heq | ⟨up, hstep, hrest⟩
    · rw [← heq] at hfile
      simp only [isFile, kind?, hbelow, Option.map_some, beq_iff_eq, Option.some.injEq] at hfile
      exact Or.inr hfile
    · rw [hparent, Option.some.injEq] at hstep
      subst hstep
      rw [h.ground.not_ground_of_below hfile hrest hnode] at hground
      cases hground
  · have hcases : below.kind = .root ∨ below.kind = .package := by
      simpa [Kind.isGround] using hkind
    exact Or.inl (hcases.resolve_left (h.ground.well.kind_ne_root hparent hbelow))

/-- A file in the outline is in the table. -/
theorem WellFormed.file_at_of_is_file (h : outline.WellFormed) (hfile : outline.isFile file = true) :
    ∃ path, outline.fileAt? path = some file := by
  obtain ⟨node, hnode, hkind⟩ := Option.map_eq_some_iff.1 (eq_of_beq hfile)
  rcases hcontent : node.content with _ | _ | element
  · simp [Node.kind, hcontent, Content.kind] at hkind
  · simp [Node.kind, hcontent, Content.kind] at hkind
  · cases element with
    | file path package imports =>
        exact ⟨path, h.fileAt.2 ⟨node, path, package, imports, hnode, hcontent, BEq.refl path⟩⟩
    | _ => simp [Node.kind, hcontent, Content.kind, Element.kind] at hkind

/-- Bounds lead back in an outline of files only where they do so in a declaration. -/
theorem Filing.acyclic_bounds (h : outline.Filing source?)
    (hacyclic : ∀ path decl, source? path = some decl → decl.AcyclicBounds) :
    outline.AcyclicBounds (fun _ => none) := by
  intro owner
  rcases hnode : outline.node? owner with _ | node
  · simp only [paramsOf, typeParameters, childrenOfKind, hnode]
    exact Meaning.acyclic_nil
  · rcases hkind : node.kind.isGround with _ | _
    · obtain ⟨file, hfile, hlow⟩ := h.housed hnode hkind
      obtain ⟨path, hpath⟩ := h.ground.well.file_at_of_is_file hfile
      obtain ⟨decl, hsource, hbears, _⟩ := h.filed hpath
      exact hbears.acyclic_of_below h.ground.well (hacyclic path decl hsource) hlow
    · have hnil : outline.typeParameters owner = [] := by
        simp only [typeParameters, childrenOfKind, hnode, List.filter_eq_nil_iff]
        intro child hchild hparam
        obtain ⟨below, hbelow, _⟩ := h.ground.well.child hnode hchild
        simp only [kind?, hbelow, Option.map_some, beq_iff_eq, Option.some.injEq] at hparam
        rcases h.child_of_ground hnode hkind hchild hbelow with hother | hother <;>
          rw [hother] at hparam <;> cases hparam
      rw [paramsOf, hnil]
      exact Meaning.acyclic_nil

/-! ## Class paths -/

theorem BearsAll.append {left right : List NodeId} {front back : List Branch}
    (h : outline.BearsAll left front) (k : outline.BearsAll right back) :
    outline.BearsAll (left ++ right) (front ++ back) := by
  rw [bears_all_iff] at h k ⊢
  exact List.rel_append h k

/-- What a branch has at its top, the node that bears it has. -/
theorem Bears.content {branch : Branch} (h : outline.Bears id branch) :
    ∃ node, outline.node? id = some node ∧ node.content = .declared branch.element := by
  obtain ⟨element, children⟩ := branch
  obtain ⟨node, hnode, hcontent, _⟩ := h
  exact ⟨node, hnode, hcontent⟩

/-- The visible ones among nodes that bear branches are those with the segment. -/
theorem BearsAll.filter_is_visible (hwell : outline.WellFormed) (segment : String)
    {ids : List NodeId} {branches : List Branch} (h : outline.BearsAll ids branches)
    (hplain : Branch.allOf Branch.isPlain branches = true) :
    ids.filter outline.isFile = [] ∧ outline.BearsAll (ids.filter (outline.isVisible segment))
      (branches.filter (fun branch => branch.element.segment == segment)) := by
  induction ids generalizing branches with
  | nil =>
      cases branches with
      | nil => exact ⟨rfl, trivial⟩
      | cons => exact h.elim
  | cons id rest ih =>
      cases branches with
      | nil => exact h.elim
      | cons branch others =>
          obtain ⟨hfirst, hrest⟩ := h
          simp only [Branch.allOf, Bool.and_eq_true] at hplain
          obtain ⟨hfiles, hothers⟩ := ih hrest hplain.2
          obtain ⟨node, hnode, hcontent⟩ := hfirst.content
          have hsegment := hwell.segment hnode hcontent
          have hkind : node.kind ≠ .file := by
            obtain ⟨element, children⟩ := branch
            simp only [Branch.all, Branch.isPlain, Branch.isInner, Bool.and_eq_true,
              bne_iff_ne] at hplain
            rw [Node.kind, hcontent]
            exact hplain.1.1.1
          have hfile : outline.isFile id = false := by
            simpa [isFile, kind?, hnode] using hkind
          have hvisible : outline.isVisible segment id =
              (branch.element.segment == segment) := by
            simp [isVisible, hnode, hsegment, hkind]
          simp only [List.filter_cons, hfile, hvisible, Bool.false_eq_true, if_false]
          refine ⟨hfiles, ?_⟩
          split
          · exact ⟨hfirst, hothers⟩
          · exact hothers

/-- One segment further from nodes that bear branches is one segment further in the branches. -/
theorem BearsAll.follow (hwell : outline.WellFormed) (segment : String) {ids : List NodeId}
    {branches : List Branch} (h : outline.BearsAll ids branches)
    (hplain : ∀ branch ∈ branches, Branch.allOf Branch.isPlain branch.children = true) :
    outline.BearsAll (outline.follow ids segment) (Branch.follow branches segment) := by
  induction ids generalizing branches with
  | nil =>
      cases branches with
      | nil => trivial
      | cons => exact h.elim
  | cons id rest ih =>
      cases branches with
      | nil => exact h.elim
      | cons branch others =>
          obtain ⟨hfirst, hrest⟩ := h
          have hothers := ih hrest (fun other hother => hplain other (List.mem_cons_of_mem _ hother))
          refine BearsAll.append ?_ hothers
          have hchildren := hplain branch (List.mem_cons_self ..)
          obtain ⟨element, children⟩ := branch
          obtain ⟨node, hnode, hcontent, hall⟩ := hfirst
          obtain ⟨hfiles, hvisible⟩ := hall.filter_is_visible hwell segment hchildren
          simp only [visibleChildren, hnode, hwell.named hnode, hwell.files hnode, hfiles,
            List.flatMap_nil, List.append_nil]
          exact hvisible

/-- Segments lead from nodes that bear branches to where they lead in the branches. -/
theorem BearsAll.foldl_follow (hwell : outline.WellFormed) (segments : List String)
    {ids : List NodeId} {branches : List Branch} (h : outline.BearsAll ids branches)
    (hplain : ∀ branch ∈ branches, Branch.allOf Branch.isPlain branch.children = true) :
    outline.BearsAll (segments.foldl outline.follow ids) (segments.foldl Branch.follow branches) := by
  induction segments generalizing ids branches with
  | nil => exact h
  | cons segment rest ih =>
      refine ih (h.follow hwell segment hplain) ?_
      intro branch hbranch
      obtain ⟨above, habove, hmem⟩ := List.mem_flatMap.1 hbranch
      exact Branch.all_of_children
        (Branch.all_of_iff.1 (hplain above habove) branch (List.mem_filter.1 hmem).1)

/-- A node has one trail. -/
theorem WellFormed.trail_unique (h : outline.WellFormed) {trail other : List String}
    (htrail : outline.Trail id trail) (hother : outline.Trail id other) : trail = other := by
  induction htrail generalizing other with
  | root =>
      cases hother with
      | root => rfl
      | package hnode hkind _ _ =>
          obtain ⟨root, hroot, hcontent, _⟩ := h.root
          rw [hnode, Option.some.injEq] at hroot
          rw [hroot, Node.kind, hcontent] at hkind
          cases hkind
  | package hnode hkind hparent _ ih =>
      cases hother with
      | root =>
          obtain ⟨root, hroot, hcontent, _⟩ := h.root
          rw [hnode, Option.some.injEq] at hroot
          rw [hroot, Node.kind, hcontent] at hkind
          cases hkind
      | package hnode' _ hparent' hrest' =>
          rw [hnode, Option.some.injEq] at hnode'
          subst hnode'
          rw [hparent, Option.some.injEq] at hparent'
          subst hparent'
          rw [ih hrest']

/-- A trail leads to its node. -/
theorem WellFormed.mem_foldl_follow_of_trail (h : outline.WellFormed) {trail : List String}
    (htrail : outline.Trail id trail) : id ∈ trail.foldl outline.follow [rootId] := by
  induction htrail with
  | root => exact List.mem_singleton_self _
  | package hnode hkind hparent _ ih =>
      rw [List.foldl_concat]
      obtain ⟨above, habove, hmem⟩ := h.node?_of_parent? (parent?_of_node? hnode hparent)
      refine List.mem_flatMap.2 ⟨_, ih, (h.mem_visible_children_iff habove).2 (Or.inl ⟨hmem, ?_⟩)⟩
      simp [isVisible, hnode, hkind]

theorem foldl_follow_subset {left right : List NodeId} (hsubset : left ⊆ right)
    (segments : List String) :
    segments.foldl outline.follow left ⊆ segments.foldl outline.follow right := by
  induction segments generalizing left right with
  | nil => exact hsubset
  | cons segment rest ih =>
      refine ih (fun id hid => ?_)
      obtain ⟨above, habove, hmem⟩ := List.mem_flatMap.1 hid
      exact List.mem_flatMap.2 ⟨above, hsubset habove, hmem⟩

/-- Segments lead below the nodes that they start from. -/
theorem WellFormed.below_of_mem_foldl_follow (h : outline.WellFormed) {candidates : List NodeId}
    (segments : List String) (hid : id ∈ segments.foldl outline.follow candidates) :
    ∃ top ∈ candidates, outline.Below id top := by
  induction segments generalizing candidates with
  | nil => exact ⟨id, hid, .refl id⟩
  | cons segment rest ih =>
      obtain ⟨child, hchild, hbelow⟩ := ih hid
      obtain ⟨above, habove, hvisible⟩ := List.mem_flatMap.1 hchild
      refine ⟨above, habove, hbelow.trans ?_⟩
      cases hnode : outline.node? above with
      | none => simp [visibleChildren, hnode] at hvisible
      | some node =>
          rcases (h.mem_visible_children_iff hnode).1 hvisible with
            ⟨hmem, -⟩ | ⟨file, fileNode, hmem, -, hfileNode, hinside, -⟩
          · exact .single (h.parent?_of_mem_children hnode hmem)
          · exact .head (h.parent?_of_mem_children hfileNode hinside)
              (.single (h.parent?_of_mem_children hnode hmem))

/-- Where segments lead in an outline of files: along packages, or into a file from its
package. -/
theorem Filing.foldl_follow_cases (h : outline.Filing source?) (segments : List String)
    (hid : id ∈ segments.foldl outline.follow [rootId]) :
    (∃ node, outline.node? id = some node ∧ node.kind.isGround = true ∧
        outline.Trail id segments) ∨
      ∃ path file decl inner, outline.fileAt? path = some file ∧ source? path = some decl ∧
        segments = Dotted.segments decl.package ++ inner ∧
        id ∈ inner.foldl outline.follow [file] := by
  have hwell := h.ground.well
  induction segments using List.reverseRecOn generalizing id with
  | nil =>
      obtain rfl := List.mem_singleton.1 hid
      obtain ⟨root, hroot, hcontent, _⟩ := hwell.root
      exact Or.inl ⟨root, hroot, by rw [Node.kind, hcontent]; rfl, .root⟩
  | append_singleton segments segment ih =>
      rw [List.foldl_concat] at hid
      obtain ⟨up, hup, hvisible⟩ := List.mem_flatMap.1 hid
      rcases ih hup with ⟨above, habove, hground, htrail⟩ |
        ⟨path, file, decl, inner, hfile, hsource, hsegments, hinner⟩
      · rcases (hwell.mem_visible_children_iff habove).1 hvisible with
          ⟨hmem, hseen⟩ | ⟨file, fileNode, hmem, hisFile, hfileNode, hchild, hseen⟩
        · obtain ⟨node, hnode, hparent⟩ := hwell.child habove hmem
          simp only [isVisible, hnode, Bool.and_eq_true, bne_iff_ne, beq_iff_eq] at hseen
          have hkind := (h.child_of_ground habove hground hmem hnode).resolve_right hseen.1
          refine Or.inl ⟨node, hnode, by rw [hkind]; rfl, hseen.2 ▸ ?_⟩
          exact .package hnode hkind hparent htrail
        · obtain ⟨path, hpath⟩ := hwell.file_at_of_is_file hisFile
          obtain ⟨decl, hsource, _, parent, hparent, htrail'⟩ := h.filed hpath
          have hparent' := hwell.parent?_of_mem_children habove hmem
          rw [hparent, Option.some.injEq] at hparent'
          subst hparent'
          refine Or.inr ⟨path, file, decl, [segment], hpath, hsource, ?_, ?_⟩
          · rw [hwell.trail_unique htrail htrail']
          · refine List.mem_flatMap.2 ⟨file, List.mem_singleton_self _, ?_⟩
            exact (hwell.mem_visible_children_iff hfileNode).2 (Or.inl ⟨hchild, hseen⟩)
      · refine Or.inr ⟨path, file, decl, inner ++ [segment], hfile, hsource, ?_, ?_⟩
        · rw [hsegments, List.append_assoc]
        · rw [List.foldl_concat]
          exact List.mem_flatMap.2 ⟨up, hinner, hvisible⟩

/-- What segments lead to inside a file, they lead to from its package. -/
theorem Filing.mem_foldl_follow_of_file (h : outline.Filing source?) {path : SourcePath}
    {decl : FileDecl} (hfile : outline.fileAt? path = some file) (hsource : source? path = some decl)
    {inner : List String} (hinner : inner ≠ []) (hid : id ∈ inner.foldl outline.follow [file]) :
    id ∈ (Dotted.segments decl.package ++ inner).foldl outline.follow [rootId] := by
  have hwell := h.ground.well
  obtain ⟨found, hfound, hbears, parent, hparent, htrail⟩ := h.filed hfile
  rw [hsource, Option.some.injEq] at hfound
  subst hfound
  obtain ⟨segment, rest, rfl⟩ := List.exists_cons_of_ne_nil hinner
  rw [List.foldl_append, List.foldl_cons]
  refine foldl_follow_subset ?_ rest hid
  intro child hchild
  obtain ⟨top, htop, hvisible⟩ := List.mem_flatMap.1 hchild
  obtain rfl := List.mem_singleton.1 htop
  obtain ⟨above, habove, hmem⟩ := hwell.node?_of_parent? hparent
  have hisFile := hwell.is_file_of_file_at hfile
  obtain ⟨node, hnode, _⟩ := Option.map_eq_some_iff.1 (eq_of_beq hisFile)
  refine List.mem_flatMap.2 ⟨parent, hwell.mem_foldl_follow_of_trail htrail,
    (hwell.mem_visible_children_iff habove).2 (Or.inr ⟨top, node, hmem, hisFile, hnode, ?_⟩)⟩
  rcases (hwell.mem_visible_children_iff hnode).1 hvisible with
    hdirect | ⟨inside, _, hinside, hinsideFile, _⟩
  · exact hdirect
  · -- A file inside a file there is not.
    have hstep := hwell.parent?_of_mem_children hnode hinside
    have hsame := h.ground.eq_of_below hinsideFile hisFile (.single hstep)
    exact absurd (hwell.parent_lt hstep) (hsame ▸ Nat.lt_irrefl _)

/-- Nodes that bear branches have the kinds that the branches have at their tops. -/
theorem BearsAll.exists_kind_iff {ids : List NodeId} {branches : List Branch}
    (h : outline.BearsAll ids branches) (kind : Kind) :
    (∃ id ∈ ids, outline.kind? id = some kind) ↔
      ∃ branch ∈ branches, branch.element.kind = kind := by
  induction ids generalizing branches with
  | nil =>
      cases branches with
      | nil => simp
      | cons => exact h.elim
  | cons id rest ih =>
      cases branches with
      | nil => exact h.elim
      | cons branch others =>
          obtain ⟨hfirst, hrest⟩ := h
          obtain ⟨node, hnode, hcontent⟩ := hfirst.content
          have hkind : outline.kind? id = some branch.element.kind := by
            simp [kind?, hnode, Node.kind, hcontent, Content.kind]
          simp [hkind, ih hrest]

/-- A class is found inside a file exactly where its declaration has one. -/
theorem Filing.exists_class_iff (h : outline.Filing source?) {path : SourcePath} {decl : FileDecl}
    (hfile : outline.fileAt? path = some file) (hsource : source? path = some decl)
    (inner : List String) :
    (∃ id ∈ inner.foldl outline.follow [file], outline.kind? id = some .classDecl) ↔
      ∃ branch ∈ inner.foldl Branch.follow [decl.toBranch],
        branch.element.kind = .classDecl := by
  obtain ⟨found, hfound, hbears, _⟩ := h.filed hfile
  rw [hsource, Option.some.injEq] at hfound
  subst hfound
  have hinsertable := (h.indexed hsource).1
  simp only [FileDecl.isInsertable, Bool.and_eq_true] at hinsertable
  have hall : outline.BearsAll (inner.foldl outline.follow [file])
      (inner.foldl Branch.follow [decl.toBranch]) :=
    BearsAll.foldl_follow h.ground.well inner ⟨hbears, trivial⟩
      (fun branch hbranch => List.mem_singleton.1 hbranch ▸ hinsertable.2)
  exact hall.exists_kind_iff .classDecl

/-- A name is known when its segments lead to a class. -/
theorem knows_iff_exists_class {name : String} :
    outline.knows name = true ↔ (name ≠ "" ∧ Dotted.isValid name = true) ∧
      ∃ id ∈ (Dotted.segments name).foldl outline.follow [rootId],
        outline.kind? id = some .classDecl := by
  unfold knows lookupType? lookupAll
  by_cases hname : name = ""
  · simp [hname]
  · by_cases hvalid : Dotted.isValid name = true
    · simp [hname, hvalid, List.find?_isSome]
    · simp [hname, hvalid]

/-- The known class paths of an outline of files are those that its declarations give. -/
theorem Filing.knows_iff (h : outline.Filing source?) (name : String) :
    outline.knows name = true ↔ (name ≠ "" ∧ Dotted.isValid name = true) ∧
      ∃ path decl, source? path = some decl ∧ decl.Declares (Dotted.segments name) := by
  rw [knows_iff_exists_class]
  refine and_congr_right (fun _ => ⟨?_, ?_⟩)
  · rintro ⟨id, hid, hkind⟩
    rcases h.foldl_follow_cases _ hid with ⟨node, hnode, hground, _⟩ |
      ⟨path, file, decl, inner, hfile, hsource, hsegments, hinner⟩
    · simp only [kind?, hnode, Option.map_some, Option.some.injEq] at hkind
      rw [hkind] at hground
      cases hground
    · exact ⟨path, decl, hsource, inner, hsegments,
        (h.exists_class_iff hfile hsource inner).1 ⟨id, hinner, hkind⟩⟩
  · rintro ⟨path, decl, hsource, inner, hsegments, hbranch⟩
    obtain ⟨_, _, file, hfile⟩ := h.indexed hsource
    obtain ⟨id, hid, hkind⟩ := (h.exists_class_iff hfile hsource inner).2 hbranch
    have hinner : inner ≠ [] := by
      rintro rfl
      obtain rfl := List.mem_singleton.1 hid
      have hisFile := h.ground.well.is_file_of_file_at hfile
      rw [isFile, hkind] at hisFile
      cases hisFile
    rw [hsegments]
    exact ⟨id, h.mem_foldl_follow_of_file hfile hsource hinner hid, hkind⟩

/-- Two outlines of the same files know the same class paths. -/
theorem Filing.knows_eq (h : outline.Filing source?) (h' : after.Filing source?) :
    outline.knows = after.knows := by
  funext name
  rw [Bool.eq_iff_iff, h.knows_iff, h'.knows_iff]

end Outline

end CanonicalNames
