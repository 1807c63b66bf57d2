import CanonicalNames.Proofs.Listing.Loading

/-!
# The methods of a listing

A method goes a long way from an entry of a listing to a node of the outline: through the class of
its file that the entry is added to, the branch of that file, and the nodes that bear the branch.
On every part of the way it keeps its path and its written type, and no method is lost or comes
twice. Branches list their methods in declaration order (`Branch.signatures`), the nodes that bear a
branch are listed the same (`Outline.Bears.methods_under`), and an entry that is added to a class
adds its methods to the list (`ClassDecl.signatures_change_at`), which is that of the entries but
for the order (`Listing.signatures_file_of`).
-/

namespace CanonicalNames

/-! ## Methods of a branch -/

/-- The path and the written return type of an element at a path, if it is a method. -/
def Element.signature? (path : String) : Element → Option (String × TypeUse)
  | .method _ returnType => some (path, returnType)
  | _ => none

namespace Branch

mutual

/-- The methods of a branch whose top has the given path, in declaration order. -/
def signatures (path : String) : Branch → List (String × TypeUse)
  | mk element children => (element.signature? path).toList ++ signaturesAll path children

/-- The methods of branches below a path. -/
def signaturesAll (path : String) : List Branch → List (String × TypeUse)
  | [] => []
  | branch :: rest =>
    signatures (Dotted.join path branch.element.segment) branch ++ signaturesAll path rest

end

theorem signatures_all_append (path : String) (left right : List Branch) :
    signaturesAll path (left ++ right) = signaturesAll path left ++ signaturesAll path right := by
  induction left with
  | nil => rfl
  | cons branch rest ih => simp only [List.cons_append, signaturesAll, ih, List.append_assoc]

theorem signatures_all_type_params (path : String) (params : List TypeParamDecl) :
    signaturesAll path (params.map TypeParamDecl.toBranch) = [] := by
  induction params with
  | nil => rfl
  | cons param rest ih =>
      rw [List.map_cons, signaturesAll, ih]
      rfl

end Branch

/-- The path and the written return type of a method below a path. -/
def MethodDecl.signature (path : String) (method : MethodDecl) : String × TypeUse :=
  (Dotted.join path method.name, method.returnType.toUse)

theorem Branch.signatures_all_methods (path : String) (methods : List MethodDecl) :
    signaturesAll path (methods.map MethodDecl.toBranch) =
      methods.map (MethodDecl.signature path) := by
  induction methods with
  | nil => rfl
  | cons method rest ih =>
      simp only [List.map_cons, signaturesAll, ih, MethodDecl.toBranch, signatures,
        signatures_all_type_params]
      rfl

namespace Outline

variable {outline : Outline}

/-- A node is a method with the given path and written return type. -/
def HasSignature (outline : Outline) (method : NodeId) (signature : String × TypeUse) : Prop :=
  outline.path? method = some signature.1 ∧
    outline.use? (.returnType method) = some signature.2

/-- The methods at and below a node are the node itself, if it is one, and those below its
children. -/
theorem WellFormed.methods_under_eq (h : outline.WellFormed) {id : NodeId} {node : Node}
    (hnode : outline.node? id = some node) : outline.methodsUnder id =
      [id].filter (fun node => outline.kind? node == some .method) ++
        node.children.flatMap outline.methodsUnder := by
  rw [methodsUnder, h.preorder_eq_cons hnode, ← List.singleton_append, List.filter_append,
    List.filter_flatMap]
  rfl

mutual

/-- The methods below a node that bears a branch are those of the branch. -/
theorem Bears.methods_under (hwell : outline.WellFormed) {id : NodeId} {node : Node}
    {branch : Branch} (h : outline.Bears id branch) (hnode : outline.node? id = some node)
    (hinner : Branch.allOf Branch.isInner branch.children = true) :
    List.Forall₂ outline.HasSignature (outline.methodsUnder id) (branch.signatures node.path) := by
  match branch, h with
  | .mk element children, ⟨found, hfound, hcontent, hbears⟩ =>
      obtain rfl : found = node := Option.some.inj (hfound.symm.trans hnode)
      rw [hwell.methods_under_eq hnode, Branch.signatures]
      refine List.rel_append ?_ (hbears.methods_under hwell hinner hnode
        (fun child => hwell.parent?_of_mem_children hnode))
      have hkind : outline.kind? id = some element.kind := by
        simp [kind?, hnode, Node.kind, hcontent, Content.kind]
      cases element with
      | method name returnType =>
          have hself : outline.HasSignature id (found.path, returnType) := by
            simp [HasSignature, path?, use?, RefId.returnType, element?, hnode, Node.element?,
              hcontent, Content.element?, Element.use?]
          simpa [hkind, Element.kind, Element.signature?] using hself
      | _ => simp [hkind, Element.kind, Element.signature?]

/-- The methods below the children of a node that bear branches are those of the branches. -/
theorem BearsAll.methods_under (hwell : outline.WellFormed) {ids : List NodeId}
    {branches : List Branch} (h : outline.BearsAll ids branches)
    (hinner : Branch.allOf Branch.isInner branches = true) {parent : NodeId} {above : Node}
    (habove : outline.node? parent = some above)
    (hids : ∀ id, id ∈ ids → outline.parent? id = some parent) :
    List.Forall₂ outline.HasSignature (ids.flatMap outline.methodsUnder)
      (Branch.signaturesAll above.path branches) := by
  match ids, branches, h with
  | [], [], _ => exact .nil
  | id :: ids, branch :: branches, ⟨hfirst, hrest⟩ =>
      simp only [Branch.allOf, Bool.and_eq_true] at hinner
      obtain ⟨node, hnode, hcontent⟩ := hfirst.content
      have hpath : node.path = Dotted.join above.path branch.element.segment := by
        have hparent := hids id (List.mem_cons_self ..)
        simp only [parent?, hnode, Option.bind_some] at hparent
        have hkind : node.kind ≠ .file := by
          obtain ⟨element, children⟩ := branch
          simp only [Branch.all, Branch.isInner, Bool.and_eq_true, bne_iff_ne] at hinner
          rw [Node.kind, hcontent]
          exact hinner.1.1
        rw [hwell.path hnode hparent habove, if_neg hkind, hwell.segment hnode hcontent]
      rw [List.flatMap_cons, Branch.signaturesAll, ← hpath]
      exact List.rel_append (hfirst.methods_under hwell hnode (Branch.all_of_children hinner.1))
        (hrest.methods_under hwell hinner.2 habove
          (fun other hother => hids other (List.mem_cons_of_mem _ hother)))

end

end Outline

/-! ## Methods of classes -/

namespace ClassDecl

theorem signatures_class (path : String) (decl : ClassDecl) :
    decl.toBranch.signatures path = Branch.signaturesAll path (toBranches decl.classes) ++
      decl.methods.map (MethodDecl.signature path) := by
  cases decl
  simp only [toBranch, Branch.signatures, Branch.signatures_all_append,
    Branch.signatures_all_type_params, Branch.signatures_all_methods]
  rfl

theorem segment_to_branch (decl : ClassDecl) : decl.toBranch.element.segment = decl.name := by
  cases decl
  rfl

/-- What is added in front of a list may as well be added at its end. -/
theorem perm_append_later {left changed added : List (String × TypeUse)}
    (h : changed.Perm (left ++ added)) (right : List (String × TypeUse)) :
    (changed ++ right).Perm (left ++ right ++ added) := by
  refine (h.append_right right).trans ?_
  rw [List.append_assoc, List.append_assoc]
  exact List.perm_append_comm.append_left left

/-- If a change adds methods to any class with a name, so does changing the class of a list. -/
theorem signatures_change_named {change : ClassDecl → ClassDecl} {name path : String}
    {added : List (String × TypeUse)} (hname : ∀ decl, (change decl).name = decl.name)
    (hchange : ∀ decl, ((change decl).toBranch.signatures (Dotted.join path name)).Perm
      (decl.toBranch.signatures (Dotted.join path name) ++ added)) (classes : List ClassDecl) :
    (Branch.signaturesAll path (toBranches (changeNamed name change classes))).Perm
      (Branch.signaturesAll path (toBranches classes) ++ added) := by
  rcases change_named_cases name change classes with
    ⟨front, decl, back, rfl, rfl, -, hchanged⟩ | ⟨-, hchanged⟩
  · simp only [hchanged, to_branches_eq_map, List.map_append, List.map_cons,
      Branch.signatures_all_append, Branch.signaturesAll, segment_to_branch, hname]
    rw [List.append_assoc]
    exact (perm_append_later (hchange decl) _).append_left _
  · have hnew := (hchange { name }).append_left (Branch.signaturesAll path (toBranches classes))
    rw [signatures_class _ { name }] at hnew
    simpa [hchanged, to_branches_eq_map, Branch.signatures_all_append, Branch.signaturesAll,
      segment_to_branch, hname] using hnew

/-- The methods of some classes after an entry is added are those before and those of the entry,
below the path of the entry. -/
theorem signatures_change_at (entry : ListedType) {segments : List String} (hne : segments ≠ [])
    (path : String) (classes : List ClassDecl) :
    (Branch.signaturesAll path (toBranches (changeAt entry.addTo segments classes))).Perm
      (Branch.signaturesAll path (toBranches classes) ++
        entry.methods.map (MethodDecl.signature (segments.foldl Dotted.join path))) := by
  induction segments generalizing path classes with
  | nil => exact absurd rfl hne
  | cons segment rest ih =>
      rw [change_at_cons]
      refine signatures_change_named (change_from_name name_add_to rest) (fun decl => ?_) classes
      cases rest with
      | nil => simp [changeFrom, ListedType.addTo, signatures_class]
      | cons next rest =>
          simp only [changeFrom, List.isEmpty_cons, Bool.false_eq_true, ↓reduceIte,
            signatures_class]
          exact perm_append_later
            (ih (List.cons_ne_nil next rest) (Dotted.join path segment) decl.classes) _

end ClassDecl

/-- The methods of a source file, by path and written return type. -/
def FileDecl.signatures (file : FileDecl) : List (String × TypeUse) :=
  Branch.signaturesAll file.package (ClassDecl.toBranches file.classes)

/-- The methods below a file of an outline are those of its declaration. -/
theorem Outline.Filing.methods_under {outline : Outline} {source? : SourcePath → Option FileDecl}
    (h : outline.Filing source?) {path : SourcePath} {file : NodeId}
    (hfile : outline.fileAt? path = some file) :
    ∃ decl, source? path = some decl ∧
      List.Forall₂ outline.HasSignature (outline.methodsUnder file) decl.signatures := by
  obtain ⟨decl, hsource, hbears, -⟩ := h.filed hfile
  obtain ⟨node, hnode, -⟩ := hbears.content
  have hmethods := hbears.methods_under h.ground.well hnode (all_of_is_inner_classes decl.classes)
  rw [h.path_of_file_at hfile hsource hnode] at hmethods
  exact ⟨decl, hsource, hmethods⟩

/-- The methods of an entry, by path and written return type. -/
def ListedType.signatures (entry : ListedType) : List (String × TypeUse) :=
  entry.methods.map (MethodDecl.signature (Dotted.join entry.package entry.name))

namespace Listing

/-- The methods of the file of some entries are those of the entries. -/
theorem signatures_file_of (path : SourcePath) {package : String} {entries : List ListedType}
    (hnames : ∀ entry ∈ entries, entry.name ≠ "" ∧ Dotted.isValid entry.name = true)
    (hpackage : ∀ entry ∈ entries, entry.package = package) :
    (Branch.signaturesAll package
      (ClassDecl.toBranches (fileOf path package entries).classes)).Perm
      (entries.flatMap ListedType.signatures) := by
  induction entries using List.reverseRecOn with
  | nil => exact .nil
  | append_singleton entries entry ih =>
      obtain ⟨hnames, hentry⟩ := List.forall_mem_append.1 hnames
      obtain ⟨hpackage, hsame⟩ := List.forall_mem_append.1 hpackage
      obtain ⟨hname, hvalid⟩ := hentry entry (List.mem_singleton_self _)
      obtain rfl := hsame entry (List.mem_singleton_self _)
      rw [file_of_concat, addEntry, List.flatMap_append, List.flatMap_singleton]
      refine (ClassDecl.signatures_change_at entry
        (Dotted.segments_ne_nil hvalid hname) _ _).trans ?_
      rw [Dotted.foldl_join_eq, Dotted.foldl_join_segments hvalid]
      exact (ih hnames hpackage).append_right _

/-- A method with the file that it stands in, by the components of its path. -/
def located (path : SourcePath) (signature : String × TypeUse) :
    String × List Component × TypeUse :=
  (signature.1, path.components, signature.2)

/-- The methods of the files of a listing are those of its entries. -/
theorem signatures_of_to_files {listing : Listing} {files : List FileDecl}
    (h : listing.toFiles = .ok files) :
    (files.flatMap (fun file => file.signatures.map (located file.path))).Perm
      (listing.types.flatMap (fun entry => entry.signatures.map (located entry.fileKey))) := by
  obtain ⟨hnames, -⟩ := exists_to_files_iff.1 ⟨files, h⟩
  obtain ⟨hdistinct, -, hfiles⟩ := files_of_to_files h
  have hfile : ∀ file ∈ files, (file.signatures.map (located file.path)).Perm
      ((listing.types.filter (·.fileKey == file.path)).flatMap
        (fun entry => entry.signatures.map (located entry.fileKey))) := by
    intro file hfile
    obtain ⟨hmade, hpackage⟩ := hfiles file hfile
    have hperm : file.signatures.Perm
        ((listing.types.filter (·.fileKey == file.path)).flatMap ListedType.signatures) := by
      rw [FileDecl.signatures, hmade, package_file_of, path_file_of]
      exact signatures_file_of file.path
        (fun entry hentry => hnames entry (List.mem_filter.1 hentry).1) (fun entry hentry =>
          hpackage entry (List.mem_filter.1 hentry).1 (List.mem_filter.1 hentry).2)
    refine (hperm.map (located file.path)).trans ?_
    rw [List.map_flatMap]
    refine List.Perm.flatMap_left _ (fun entry hentry => ?_)
    have hsame := SourcePath.beq_iff_components_eq.1 (List.mem_filter.1 hentry).2
    exact .of_eq (List.map_congr_left (fun signature _ => by rw [located, located, hsame]))
  have hcover : ∀ entry ∈ listing.types,
      (files.map FileDecl.path).contains entry.fileKey = true := by
    intro entry hentry
    obtain ⟨file, hfile, hpath⟩ := (exists_file_iff_of_to_files h _).2 ⟨entry, hentry, BEq.rfl⟩
    exact List.contains_iff_exists_mem_beq.2 ⟨_, List.mem_map_of_mem hfile, BEq.symm hpath⟩
  refine (List.Perm.flatMap_left files hfile).trans ?_
  refine .trans (.of_eq ?_) ((hdistinct.flat_map_filter_perm hcover).flatMap_right
    (fun entry => entry.signatures.map (located entry.fileKey)))
  rw [List.flatMap_map, List.flatMap_assoc]

end Listing

end CanonicalNames
