import CanonicalNames.Proofs.Index.Reachable

/-!
# Branches of an outline

A branch is a declaration as a tree of elements. Inserting a declaration is planting its
branch: the element first, then the branches of its parts below it, in order
(`insert_class_eq_plant`). `Outline.Bears` says that a node of an outline stands at the top
of a branch, and `Planted` says all that planting does to an index: it adds the branch below
the given node and touches nothing else.
-/

namespace CanonicalNames

/-- An element and the branches of everything declared directly in it. -/
inductive Branch where
  | mk (element : Element) (children : List Branch)

namespace Branch

/-- The element at the top. -/
def element : Branch → Element
  | mk element _ => element

/-- The branches below the top. -/
def children : Branch → List Branch
  | mk _ children => children

mutual

/-- Every element of a branch has a property. -/
def all (property : Element → Bool) : Branch → Bool
  | mk element children => property element && allOf property children

/-- Every element of the branches has a property. -/
def allOf (property : Element → Bool) : List Branch → Bool
  | [] => true
  | branch :: rest => all property branch && allOf property rest

end

theorem all_of_append (property : Element → Bool) (left right : List Branch) :
    allOf property (left ++ right) = (allOf property left && allOf property right) := by
  induction left with
  | nil => simp [allOf]
  | cons branch rest ih => simp [allOf, ih, Bool.and_assoc]

/-- An element that stands inside a file. -/
def isInner (element : Element) : Bool :=
  element.kind != .file

/-- An element inside a file that has a name. -/
def isPlain (element : Element) : Bool :=
  isInner element && !element.segment.isEmpty

end Branch

/-- A type parameter as a branch. -/
def TypeParamDecl.toBranch (param : TypeParamDecl) : Branch :=
  .mk param.toElement []

/-- A method with its type parameters as a branch. -/
def MethodDecl.toBranch (method : MethodDecl) : Branch :=
  .mk method.toElement (method.typeParams.map TypeParamDecl.toBranch)

mutual

/-- A class with everything declared in it as a branch. -/
def ClassDecl.toBranch : ClassDecl → Branch
  | ⟨name, supertypes, typeParams, methods, classes⟩ =>
    .mk (.classDecl name (supertypes.map WrittenType.toUse))
      (typeParams.map TypeParamDecl.toBranch ++ ClassDecl.toBranches classes ++
        methods.map MethodDecl.toBranch)

/-- Classes as branches. -/
def ClassDecl.toBranches : List ClassDecl → List Branch
  | [] => []
  | decl :: rest => decl.toBranch :: ClassDecl.toBranches rest

end

/-- A file with everything declared in it as a branch. -/
def FileDecl.toBranch (file : FileDecl) : Branch :=
  .mk file.toElement (ClassDecl.toBranches file.classes)

theorem all_of_is_inner_type_params (params : List TypeParamDecl) :
    Branch.allOf Branch.isInner (params.map TypeParamDecl.toBranch) = true := by
  induction params with
  | nil => rfl
  | cons param rest ih => exact ih

theorem all_of_is_inner_methods (methods : List MethodDecl) :
    Branch.allOf Branch.isInner (methods.map MethodDecl.toBranch) = true := by
  induction methods with
  | nil => rfl
  | cons method rest ih =>
      simp only [List.map_cons, Branch.allOf, MethodDecl.toBranch, Branch.all,
        all_of_is_inner_type_params, ih, Bool.and_true]
      rfl

mutual

theorem all_is_inner_class : (decl : ClassDecl) → decl.toBranch.all Branch.isInner = true
  | ⟨_, _, typeParams, methods, classes⟩ => by
      simp only [ClassDecl.toBranch, Branch.all, Branch.all_of_append, all_of_is_inner_type_params,
        all_of_is_inner_methods, all_of_is_inner_classes classes, Bool.and_true]
      rfl

/-- No element inside a file is a file. -/
theorem all_of_is_inner_classes :
    (classes : List ClassDecl) → Branch.allOf Branch.isInner (ClassDecl.toBranches classes) = true
  | [] => rfl
  | decl :: rest => by
      simp [ClassDecl.toBranches, Branch.allOf, all_is_inner_class decl,
        all_of_is_inner_classes rest]

end

/-! ## Planting -/

namespace Index

mutual

/-- Inserts a branch below a node. -/
def plant (parent : NodeId) : Branch → Edit NodeId
  | .mk element children => do
    let id ← insertChild parent element
    plantAll id children
    return id

/-- Inserts branches below a node one after the other. -/
def plantAll (parent : NodeId) : List Branch → Edit Unit
  | [] => pure ()
  | branch :: rest => do
    let _ ← plant parent branch
    plantAll parent rest

end

theorem plant_all_append (parent : NodeId) (left right : List Branch) :
    plantAll parent (left ++ right) = (do plantAll parent left; plantAll parent right) := by
  induction left with
  | nil => simp [plantAll]
  | cons branch rest ih => simp [plantAll, ih]

theorem insert_type_params_eq_plant_all (owner : NodeId) (params : List TypeParamDecl) :
    insertTypeParams owner params = plantAll owner (params.map TypeParamDecl.toBranch) := by
  induction params with
  | nil => simp [insertTypeParams, plantAll]
  | cons param rest ih =>
      simp [insertTypeParams, plantAll, ih, TypeParamDecl.toBranch, plant]

theorem insert_method_eq_plant (owner : NodeId) (method : MethodDecl) :
    insertMethod owner method = plant owner method.toBranch := by
  simp [insertMethod, MethodDecl.toBranch, plant, insert_type_params_eq_plant_all]

theorem insert_methods_eq_plant_all (owner : NodeId) (methods : List MethodDecl) :
    insertMethods owner methods = plantAll owner (methods.map MethodDecl.toBranch) := by
  induction methods with
  | nil => simp [insertMethods, plantAll]
  | cons method rest ih => simp [insertMethods, plantAll, ih, insert_method_eq_plant]

mutual

/-- Inserting a class plants its branch. -/
theorem insert_class_eq_plant (parent : NodeId) :
    (decl : ClassDecl) → insertClass parent decl = plant parent decl.toBranch
  | ⟨name, supertypes, typeParams, methods, classes⟩ => by
      simp [insertClass, ClassDecl.toBranch, plant, plant_all_append,
        insert_type_params_eq_plant_all, insert_methods_eq_plant_all,
        insert_classes_eq_plant_all]

theorem insert_classes_eq_plant_all (parent : NodeId) :
    (classes : List ClassDecl) →
      insertClasses parent classes = plantAll parent (ClassDecl.toBranches classes)
  | [] => by simp [insertClasses, ClassDecl.toBranches, plantAll]
  | decl :: rest => by
      simp [insertClasses, ClassDecl.toBranches, plantAll, insert_class_eq_plant,
        insert_classes_eq_plant_all]

end

end Index

/-! ## Nodes that stand for branches -/

namespace Outline

mutual

/-- A node stands at the top of a branch. -/
def Bears (outline : Outline) (id : NodeId) : Branch → Prop
  | .mk element children =>
    ∃ node, outline.node? id = some node ∧ node.content = .declared element ∧
      BearsAll outline node.children children

/-- The nodes of a list stand at the tops of branches. -/
def BearsAll (outline : Outline) : List NodeId → List Branch → Prop
  | [], [] => True
  | id :: ids, branch :: branches => Bears outline id branch ∧ BearsAll outline ids branches
  | _, _ => False

end

variable {outline other : Outline} {id : NodeId}

/-- Nodes stand for branches one by one. -/
theorem bears_all_iff {ids : List NodeId} {branches : List Branch} :
    outline.BearsAll ids branches ↔ List.Forall₂ outline.Bears ids branches := by
  induction ids generalizing branches with
  | nil => cases branches <;> simp [BearsAll]
  | cons id ids ih => cases branches <;> simp [BearsAll, ih]

mutual

/-- What lies below a node decides which branch it bears. -/
theorem Bears.congr (hwell : outline.WellFormed) {id : NodeId} {branch : Branch}
    (h : outline.Bears id branch) (hsame : outline.SameBelow other id) : other.Bears id branch := by
  match branch, h with
  | .mk element children, ⟨node, hnode, hcontent, hall⟩ =>
      obtain ⟨left, hleft, hface, hchildren⟩ := hsame (.refl id) hnode
      refine ⟨left, hleft, hface.content.trans hcontent, hchildren ▸ ?_⟩
      refine hall.congr hwell (fun child hchild => hsame.mono ?_)
      exact .single (hwell.parent?_of_mem_children hnode hchild)

theorem BearsAll.congr (hwell : outline.WellFormed) {ids : List NodeId} {branches : List Branch}
    (h : outline.BearsAll ids branches) (hsame : ∀ id ∈ ids, outline.SameBelow other id) :
    other.BearsAll ids branches := by
  match ids, branches, h with
  | [], [], _ => trivial
  | id :: ids, branch :: branches, ⟨hfirst, hrest⟩ =>
      exact ⟨hfirst.congr hwell (hsame id (List.mem_cons_self ..)),
        hrest.congr hwell (fun other hother => hsame other (List.mem_cons_of_mem _ hother))⟩

end

mutual

/-- What lies below a node that bears a branch is an element of the branch. -/
theorem Bears.element_of_below (hwell : outline.WellFormed) {property : Element → Bool}
    {id low : NodeId} {branch : Branch} (h : outline.Bears id branch)
    (hall : branch.all property = true) (hlow : outline.Below low id) :
    ∃ node element, outline.node? low = some node ∧ node.content = .declared element ∧
      property element = true := by
  match branch, h with
  | .mk element children, ⟨node, hnode, hcontent, hbears⟩ =>
      simp only [Branch.all, Bool.and_eq_true] at hall
      rcases (hwell.below_iff hnode).1 hlow with rfl | ⟨child, hchild, hbelow⟩
      · exact ⟨node, element, hnode, hcontent, hall.1⟩
      · exact hbears.element_of_below hwell hall.2 hchild hbelow

theorem BearsAll.element_of_below (hwell : outline.WellFormed) {property : Element → Bool}
    {low child : NodeId} {ids : List NodeId} {branches : List Branch}
    (h : outline.BearsAll ids branches) (hall : Branch.allOf property branches = true)
    (hchild : child ∈ ids) (hlow : outline.Below low child) :
    ∃ node element, outline.node? low = some node ∧ node.content = .declared element ∧
      property element = true := by
  match ids, branches, h with
  | id :: ids, branch :: branches, ⟨hfirst, hrest⟩ =>
      simp only [Branch.allOf, Bool.and_eq_true] at hall
      rcases List.mem_cons.1 hchild with rfl | hchild
      · exact hfirst.element_of_below hwell hall.1 hlow
      · exact hrest.element_of_below hwell hall.2 hchild hlow

end

/-- Nodes that keep their parents keep what they lie below. -/
theorem Below.mono {low high : NodeId} (h : outline.Below low high)
    (hkeep : ∀ {child parent}, outline.parent? child = some parent →
      other.parent? child = some parent) : other.Below low high := by
  induction h with
  | refl => rfl
  | tail _ hstep ih => exact ih.tail (hkeep hstep)

end Outline

/-! ## What planting does -/

namespace Index

variable {index middle after : Index} {parent id : NodeId} {ids more : List NodeId} {above : Node}

/-- `after` is `index` with new nodes below `parent`, the topmost of which are `ids`. -/
structure Planted (index after : Index) (parent : NodeId) (ids : List NodeId) : Prop where
  well : after.outline.WellFormed
  size_le : index.outline.places.size ≤ after.outline.places.size
  frame : ∀ {id}, id < index.outline.places.size → id ≠ parent →
    after.outline.node? id = index.outline.node? id
  above : ∃ old grown, index.outline.node? parent = some old ∧
    after.outline.node? parent = some grown ∧ grown.SameFace old ∧
    grown.children = old.children ++ ids
  fresh : ∀ id ∈ ids, index.outline.places.size ≤ id
  rooted : ∀ {id node}, after.outline.node? id = some node → index.outline.places.size ≤ id →
    ∃ top ∈ ids, after.outline.Below id top
  standings : after.standings = index.standings
  subscriptions : after.subscriptions = index.subscriptions

namespace Planted

theorem refl (hwell : index.outline.WellFormed) (habove : index.outline.node? parent = some above) :
    Planted index index parent [] where
  well := hwell
  size_le := Nat.le_refl _
  frame _ _ := rfl
  above := ⟨above, above, habove, habove, .refl above, by simp⟩
  fresh := by simp
  rooted hnode hle := absurd (Outline.lt_size_of_node? hnode) (Nat.not_lt.2 hle)
  standings := rfl
  subscriptions := rfl

/-- An old node is still there. -/
theorem exists_node? (h : Planted index after parent ids) {node : Node}
    (hnode : index.outline.node? id = some node) :
    ∃ grown, after.outline.node? id = some grown ∧ grown.SameFace node := by
  by_cases hid : id = parent
  · obtain ⟨old, grown, hold, hgrown, hface, _⟩ := h.above
    subst hid
    rw [hnode, Option.some.injEq] at hold
    subst hold
    exact ⟨grown, hgrown, hface⟩
  · exact ⟨node, (h.frame (Outline.lt_size_of_node? hnode) hid).trans hnode, .refl node⟩

/-- Old nodes lie below what they lay below. -/
theorem below (h : Planted index after parent ids) {low high : NodeId}
    (hbelow : index.outline.Below low high) : after.outline.Below low high := by
  refine hbelow.mono (fun {child up} hup => ?_)
  obtain ⟨node, hnode, hparent⟩ := Option.bind_eq_some_iff.1 hup
  obtain ⟨grown, hgrown, hface⟩ := h.exists_node? hnode
  simp [Outline.parent?, hgrown, hface.parent, hparent]

/-- The parent has a place. -/
theorem parent_lt (h : Planted index after parent ids) : parent < index.outline.places.size := by
  obtain ⟨old, _, hold, _⟩ := h.above
  exact Outline.lt_size_of_node? hold

/-- A listed top is a child of the parent. -/
theorem parent?_of_mem (h : Planted index after parent ids) {top : NodeId} (htop : top ∈ ids) :
    after.outline.parent? top = some parent := by
  obtain ⟨old, grown, _, hgrown, _, hchildren⟩ := h.above
  exact h.well.parent?_of_mem_children hgrown (by simp [hchildren, htop])

/-- More branches below the same parent. -/
theorem append (h : Planted index middle parent ids) (k : Planted middle after parent more) :
    Planted index after parent (ids ++ more) where
  well := k.well
  size_le := Nat.le_trans h.size_le k.size_le
  frame hlt hne := (k.frame (Nat.lt_of_lt_of_le hlt h.size_le) hne).trans (h.frame hlt hne)
  above := by
    obtain ⟨old, grown, hold, hgrown, hface, hchildren⟩ := h.above
    obtain ⟨old', final, hold', hfinal, hface', hchildren'⟩ := k.above
    rw [hgrown, Option.some.injEq] at hold'
    subst hold'
    exact ⟨old, final, hold, hfinal, hface'.trans hface, by rw [hchildren', hchildren, List.append_assoc]⟩
  fresh id hid := by
    rcases List.mem_append.1 hid with hid | hid
    · exact h.fresh id hid
    · exact Nat.le_trans h.size_le (k.fresh id hid)
  rooted {id node} hnode hle := by
    rcases Nat.lt_or_ge id middle.outline.places.size with hlt | hge
    · have hne : id ≠ parent := fun heq => Nat.lt_irrefl _ (Nat.lt_of_lt_of_le h.parent_lt (heq ▸ hle))
      obtain ⟨top, htop, hbelow⟩ := h.rooted ((k.frame hlt hne).symm.trans hnode) hle
      exact ⟨top, List.mem_append_left _ htop, k.below hbelow⟩
    · obtain ⟨top, htop, hbelow⟩ := k.rooted hnode hge
      exact ⟨top, List.mem_append_right _ htop, hbelow⟩
  standings := k.standings.trans h.standings
  subscriptions := k.subscriptions.trans h.subscriptions

/-- More branches below a new node. -/
theorem nest (h : Planted index middle parent [id]) (k : Planted middle after id more) :
    Planted index after parent [id] where
  well := k.well
  size_le := Nat.le_trans h.size_le k.size_le
  frame {other} hlt hne := by
    have hother : other ≠ id := fun heq =>
      Nat.lt_irrefl _ (Nat.lt_of_lt_of_le hlt (heq ▸ h.fresh id (List.mem_singleton_self id)))
    exact (k.frame (Nat.lt_of_lt_of_le hlt h.size_le) hother).trans (h.frame hlt hne)
  above := by
    obtain ⟨old, grown, hold, hgrown, hface, hchildren⟩ := h.above
    have hne : parent ≠ id := fun heq =>
      Nat.lt_irrefl _ (Nat.lt_of_lt_of_le h.parent_lt (heq ▸ h.fresh id (List.mem_singleton_self id)))
    exact ⟨old, grown, hold,
      (k.frame (Nat.lt_of_lt_of_le h.parent_lt h.size_le) hne).trans hgrown, hface, hchildren⟩
  fresh := h.fresh
  rooted {other node} hnode hle := by
    refine ⟨id, List.mem_singleton_self id, ?_⟩
    rcases Nat.lt_or_ge other middle.outline.places.size with hlt | hge
    · by_cases hother : other = id
      · rw [hother]
      · obtain ⟨top, htop, hbelow⟩ := h.rooted ((k.frame hlt hother).symm.trans hnode) hle
        obtain rfl := List.mem_singleton.1 htop
        exact k.below hbelow
    · obtain ⟨top, htop, hbelow⟩ := k.rooted hnode hge
      exact hbelow.tail (k.parent?_of_mem htop)
  standings := k.standings.trans h.standings
  subscriptions := k.subscriptions.trans h.subscriptions

end Planted

/-- Attaching a node plants it alone. -/
theorem planted_attach (hwell : index.outline.WellFormed)
    (habove : index.outline.node? parent = some above) {content : Content} {segment : String}
    (hroot : content ≠ .root)
    (hsegment : ∀ element, content = .declared element → segment = element.segment)
    (hfree : ∀ source package imports, content = .declared (.file source package imports) →
      index.outline.fileAt? source = none) :
    ∃ after, attach parent content segment index = .ok index.outline.places.size after ∧
      Planted index after parent [index.outline.places.size] ∧
      after.outline.node? index.outline.places.size =
        some (Outline.newNode parent above.path content segment) ∧
      after.outline = (index.outline.attach parent above.path content segment).2 := by
  have hgrown := hwell.attach habove hroot hsegment hfree
  have hnode := Outline.node?_attach content segment habove above.path
  have hlt := Outline.lt_size_of_node? habove
  refine ⟨{ index with
      outline := (index.outline.attach parent above.path content segment).2
      outbox := index.outbox ++ arrivals (index.outline.attach parent above.path content segment).2
        index.subscriptions index.outline.places.size },
    by simp only [attach, habove]; rfl, ⟨hgrown, ?_, ?_, ?_, ?_, ?_, rfl, rfl⟩, ?_, rfl⟩
  · exact (Outline.size_attach content segment above.path) ▸ Nat.le_succ _
  · intro id hid hne
    simp only
    rw [hnode, if_neg (Nat.ne_of_lt hid)]
    simp [hne]
  · refine ⟨above, above.addChild index.outline.places.size content.kind segment, habove, ?_,
      above.same_face_add_child .., by simp⟩
    simp only
    rw [hnode, if_neg (Nat.ne_of_lt hlt), habove, Option.map_some, if_pos rfl]
  · intro id hid
    exact List.mem_singleton.1 hid ▸ Nat.le_refl _
  · intro id node hid hle
    have hsize := Outline.lt_size_of_node? hid
    rw [Outline.size_attach content segment above.path] at hsize
    obtain rfl := Nat.le_antisymm (Nat.le_of_lt_succ hsize) hle
    exact ⟨_, List.mem_singleton_self _, .refl _⟩
  · simp only
    rw [hnode, if_pos rfl]

/-- A plain element can be attached to any present node. -/
theorem planted_insert_child (hwell : index.outline.WellFormed)
    (habove : index.outline.node? parent = some above) {element : Element}
    (hplain : Branch.isPlain element = true) :
    ∃ after, insertChild parent element index = .ok index.outline.places.size after ∧
      Planted index after parent [index.outline.places.size] ∧
      after.outline.node? index.outline.places.size =
        some (Outline.newNode parent above.path (.declared element) element.segment) ∧
      ∀ path, after.outline.fileAt? path = index.outline.fileAt? path := by
  simp only [Branch.isPlain, Branch.isInner, Bool.and_eq_true, bne_iff_ne,
    Bool.not_eq_true'] at hplain
  obtain ⟨hkind, hname⟩ := hplain
  have hnofile : ∀ source package imports,
      Content.declared element ≠ .declared (.file source package imports) := by
    rintro source package imports ⟨⟩
    exact hkind rfl
  obtain ⟨after, hrun, hplanted, hnode, houtline⟩ := @planted_attach index parent above hwell
    habove (.declared element) element.segment (fun h => by cases h) (by rintro _ ⟨⟩; rfl)
    (fun source package imports h => absurd h (hnofile source package imports))
  refine ⟨after, ?_, hplanted, hnode, fun path => ?_⟩
  · have hfault : insertFault? index.outline element = none := by
      unfold insertFault?
      rw [if_neg (by simp [hname])]
      cases element with
      | file => exact absurd rfl hkind
      | _ => rfl
    simpa only [insertChild, hfault] using hrun
  · ext file
    rw [houtline, Outline.file_at_attach]
    constructor
    · rintro (⟨source, package, imports, h, _⟩ | ⟨_, h⟩)
      · exact absurd h (hnofile source package imports)
      · exact h
    · exact fun h => Or.inr
        ⟨fun source package imports h' => absurd h' (hnofile source package imports), h⟩

/-- Planting below a node does not touch what lies below nodes with greater numbers. -/
theorem Planted.same_below (hwell : index.outline.WellFormed) (h : Planted index after parent ids)
    {top : NodeId} (hlt : parent < top) : index.outline.SameBelow after.outline top := by
  intro low node hlow hnode
  refine ⟨node, ?_, .refl node, rfl⟩
  rw [h.frame (Outline.lt_size_of_node? hnode)
    (Nat.ne_of_gt (Nat.lt_of_lt_of_le hlt (hwell.le_of_below hlow))), hnode]

mutual

/-- A plain branch can be planted below any present node. -/
theorem plant_of_plain {index : Index} {parent : NodeId} {above : Node}
    (hwell : index.outline.WellFormed) (habove : index.outline.node? parent = some above)
    (branch : Branch) (hplain : branch.all Branch.isPlain = true) :
    ∃ id after, plant parent branch index = .ok id after ∧ Planted index after parent [id] ∧
      after.outline.Bears id branch ∧
      ∀ path, after.outline.fileAt? path = index.outline.fileAt? path := by
  match branch with
  | .mk element children =>
      simp only [Branch.all, Bool.and_eq_true] at hplain
      obtain ⟨middle, hrun, hplanted, hnode, hfiles⟩ := planted_insert_child hwell habove hplain.1
      obtain ⟨ids, after, hrun', hplanted', hbears, hfiles'⟩ :=
        plant_all_of_plain hplanted.well hnode children hplain.2
      refine ⟨index.outline.places.size, after, ?_, hplanted.nest hplanted', ?_,
        fun path => (hfiles' path).trans (hfiles path)⟩
      · simp only [plant, bind, EStateM.bind, hrun, hrun']
        rfl
      · obtain ⟨old, grown, hold, hgrown, hface, hchildren⟩ := hplanted'.above
        rw [hnode, Option.some.injEq] at hold
        subst hold
        exact ⟨grown, hgrown, hface.content, hchildren ▸ hbears⟩

theorem plant_all_of_plain {index : Index} {parent : NodeId} {above : Node}
    (hwell : index.outline.WellFormed) (habove : index.outline.node? parent = some above)
    (branches : List Branch) (hplain : Branch.allOf Branch.isPlain branches = true) :
    ∃ ids after, plantAll parent branches index = .ok () after ∧
      Planted index after parent ids ∧ after.outline.BearsAll ids branches ∧
      ∀ path, after.outline.fileAt? path = index.outline.fileAt? path := by
  match branches with
  | [] => exact ⟨[], index, rfl, .refl hwell habove, trivial, fun _ => rfl⟩
  | branch :: rest =>
      simp only [Branch.allOf, Bool.and_eq_true] at hplain
      obtain ⟨id, middle, hrun, hplanted, hbears, hfiles⟩ :=
        plant_of_plain hwell habove branch hplain.1
      obtain ⟨_, grown, _, hgrown, _⟩ := hplanted.above
      obtain ⟨ids, after, hrun', hplanted', hbears', hfiles'⟩ :=
        plant_all_of_plain hplanted.well hgrown rest hplain.2
      have hlt : parent < id :=
        Nat.lt_of_lt_of_le hplanted.parent_lt (hplanted.fresh id (List.mem_singleton_self id))
      refine ⟨id :: ids, after, ?_, hplanted.append hplanted',
        ⟨hbears.congr hplanted.well (hplanted'.same_below hplanted.well hlt), hbears'⟩,
        fun path => (hfiles' path).trans (hfiles path)⟩
      simp only [plantAll, bind, EStateM.bind, hrun, hrun']

end

/-- An element that could be inserted has a name. -/
theorem segment_of_insert_child {element : Element}
    (h : insertChild parent element index = .ok id after) : element.segment.isEmpty = false := by
  unfold insertChild at h
  rcases hfault : insertFault? index.outline element with _ | fault
  · unfold insertFault? at hfault
    split at hfault
    · cases hfault
    · next hname => simpa using hname
  · simp [hfault] at h

mutual

/-- A branch that could be planted is plain, if it has no files. -/
theorem plain_of_plant (branch : Branch) (hinner : branch.all Branch.isInner = true)
    {index after : Index} {parent id : NodeId} (h : plant parent branch index = .ok id after) :
    branch.all Branch.isPlain = true := by
  match branch with
  | .mk element children =>
      simp only [Branch.all, Bool.and_eq_true] at hinner ⊢
      simp only [plant, bind, EStateM.bind] at h
      split at h
      · next found middle hinsert =>
          refine ⟨by simp [Branch.isPlain, hinner.1, segment_of_insert_child hinsert], ?_⟩
          split at h
          · next hall => exact plain_of_plant_all children hinner.2 hall
          · cases h
      · cases h

theorem plain_of_plant_all (branches : List Branch)
    (hinner : Branch.allOf Branch.isInner branches = true) {index after : Index} {parent : NodeId}
    (h : plantAll parent branches index = .ok () after) :
    Branch.allOf Branch.isPlain branches = true := by
  match branches with
  | [] => rfl
  | branch :: rest =>
      simp only [Branch.allOf, Bool.and_eq_true] at hinner ⊢
      simp only [plantAll, bind, EStateM.bind] at h
      split at h
      · next hfirst =>
          exact ⟨plain_of_plant branch hinner.1 hfirst, plain_of_plant_all rest hinner.2 h⟩
      · cases h

end

end Index

end CanonicalNames
