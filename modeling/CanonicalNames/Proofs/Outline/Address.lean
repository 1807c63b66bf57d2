import CanonicalNames.Proofs.Outline.Lookup

/-!
# Where a dotted name leads

A lookup follows a name from the root, one segment at a time, through packages, classes,
methods and the files between them. `Outline.Addressed` says which nodes a name stands for
without following anything: those that have the name as their path, stored when they were
attached, and no dot in any segment on the way. The two agree where no file stands directly
below another one (`WellFormed.mem_lookup_all_iff`), and a lookup meets no node twice and never
ends on a file, wherever files stand (`WellFormed.nodup_foldl_follow`,
`WellFormed.is_file_eq_false_of_mem_foldl_follow`).

Both directions go by the node above: `Outline.Shows` is the relation that one step of a lookup
follows, from a node to its children and past its files to theirs.
-/

namespace CanonicalNames

namespace Outline

variable {outline : Outline} {id parent child above other : NodeId} {node : Node}

/-- A node is seen from its parent and, if that is a file, from the parent of the file. -/
def Shows (outline : Outline) (above child : NodeId) : Prop :=
  outline.parent? child = some above ∨
    ∃ file, outline.isFile file = true ∧ outline.parent? child = some file ∧
      outline.parent? file = some above

/-- No file stands directly below a file. -/
def Flat (outline : Outline) : Prop :=
  ∀ id parent, outline.isFile id = true → outline.parent? id = some parent →
    outline.isFile parent = false

/-- Only the nodes that are present can be files. -/
theorem flat_iff : outline.Flat ↔ ∀ id < outline.places.size, outline.isFile id = true →
    (outline.parent? id).all (fun parent => !outline.isFile parent) = true := by
  constructor
  · intro h id _ hfile
    rcases hparent : outline.parent? id with _ | parent
    · rfl
    · simpa using h id parent hfile hparent
  · intro h id parent hfile hparent
    obtain ⟨node, hnode, -⟩ := Option.bind_eq_some_iff.1 hparent
    simpa [hparent] using h id (lt_size_of_node? hnode) hfile

instance : Decidable outline.Flat :=
  decidable_of_iff _ flat_iff.symm

/-- Every node but the root has a segment. -/
def Labelled (outline : Outline) : Prop :=
  ∀ id node, outline.node? id = some node → id ≠ rootId → node.segment ≠ ""

/-- Neither the node nor anything above it has a dot in its segment, files and the root apart. -/
def Undotted (outline : Outline) (id : NodeId) : Prop :=
  ∀ above ∈ id :: outline.ancestors id, ∀ node, outline.node? above = some node →
    node.kind ≠ .file → node.kind ≠ .root → '.' ∉ node.segment.toList

/-- A dotted name stands for a node: it is the node's path, the node is neither the root nor a
file, and there is no dot in a segment on the way. -/
def Addressed (outline : Outline) (name : String) (id : NodeId) : Prop :=
  ∃ node, outline.node? id = some node ∧ node.kind ≠ .root ∧ node.kind ≠ .file ∧
    node.path = name ∧ outline.Undotted id

/-! ## One step -/

theorem is_file_iff : outline.isFile id = true ↔ outline.kind? id = some .file := by
  simp [isFile]

/-- The children that are seen from a node, by their segment. -/
theorem WellFormed.mem_visible_children_iff_shows (h : outline.WellFormed) {segment : String} :
    child ∈ outline.visibleChildren above segment ↔
      outline.isVisible segment child = true ∧ outline.Shows above child := by
  rcases habove : outline.node? above with _ | node
  · -- Nothing stands below a node that is absent.
    have habsent : ∀ {low}, outline.parent? low ≠ some above := by
      intro low hlow
      obtain ⟨found, hfound, -⟩ := h.node?_of_parent? hlow
      rw [habove] at hfound
      cases hfound
    simp [visibleChildren, habove, Shows, habsent]
  · have hchild : ∀ {up upNode low}, outline.node? up = some upNode →
        (low ∈ upNode.children ↔ outline.parent? low = some up) := by
      intro up upNode low hup
      constructor
      · exact h.parent?_of_mem_children hup
      · intro hlow
        obtain ⟨found, hfound, hmem⟩ := h.node?_of_parent? hlow
        rw [hup, Option.some.injEq] at hfound
        exact hfound ▸ hmem
    rw [h.mem_visible_children_iff habove, hchild habove]
    constructor
    · rintro (⟨hup, hseen⟩ | ⟨file, fileNode, hfile, hkind, hfileNode, hmem, hseen⟩)
      · exact ⟨hseen, Or.inl hup⟩
      · exact ⟨hseen, Or.inr ⟨file, hkind, (hchild hfileNode).1 hmem, (hchild habove).1 hfile⟩⟩
    · rintro ⟨hseen, hup | ⟨file, hkind, hmem, hfile⟩⟩
      · exact Or.inl ⟨hup, hseen⟩
      · obtain ⟨fileNode, hfileNode, hmem'⟩ := h.node?_of_parent? hmem
        exact Or.inr ⟨file, fileNode, (hchild habove).2 hfile, hkind, hfileNode, hmem', hseen⟩

/-- A node is seen from one node that is not a file. -/
theorem Shows.unique (h : outline.Shows above child) (k : outline.Shows other child)
    (habove : outline.isFile above = false) (hother : outline.isFile other = false) :
    above = other := by
  rcases h with h | ⟨file, hkind, h, hfile⟩ <;> rcases k with k | ⟨file', hkind', k, hfile'⟩
  · exact Option.some.inj (h.symm.trans k)
  · obtain rfl := Option.some.inj (h.symm.trans k)
    rw [hkind'] at habove
    cases habove
  · obtain rfl := Option.some.inj (h.symm.trans k)
    rw [hkind] at hother
    cases hother
  · obtain rfl := Option.some.inj (h.symm.trans k)
    exact Option.some.inj (hfile.symm.trans hfile')

theorem is_file_eq_false_of_is_visible {segment : String}
    (h : outline.isVisible segment id = true) : outline.isFile id = false := by
  unfold isVisible at h
  split at h
  · next node hnode =>
      simp only [Bool.and_eq_true, bne_iff_ne] at h
      simpa [isFile, kind?, hnode] using h.1
  · cases h

/-- No child is seen twice from a node. -/
theorem WellFormed.nodup_visible_children (h : outline.WellFormed) (id : NodeId)
    (segment : String) : (outline.visibleChildren id segment).Nodup := by
  unfold visibleChildren
  split
  · exact List.nodup_nil
  · next node hnode =>
      have hnamed : ∀ {up upNode}, outline.node? up = some upNode →
          (upNode.named segment).Nodup ∧
            ∀ low ∈ upNode.named segment, outline.parent? low = some up := by
        intro up upNode hup
        rw [h.named hup]
        exact ⟨(h.nodup hup).filter _,
          fun low hlow => h.parent?_of_mem_children hup (List.mem_filter.1 hlow).1⟩
      have hfile : ∀ file ∈ node.files, outline.parent? file = some id := by
        rw [h.files hnode]
        exact fun file hfile => h.parent?_of_mem_children hnode (List.mem_filter.1 hfile).1
      refine List.nodup_append'.2 ⟨(hnamed hnode).1, List.nodup_flatMap.2 ⟨?_, ?_⟩, ?_⟩
      · intro file _
        split
        · next fileNode hfileNode => exact (hnamed hfileNode).1
        · exact List.nodup_nil
      · -- What lies in different files has different parents.
        have hfiles : node.files.Nodup := by
          rw [h.files hnode]
          exact (h.nodup hnode).filter _
        refine hfiles.imp (fun {left right} hne low hlow hlow' => hne ?_)
        dsimp only at hlow hlow'
        split at hlow
        · next leftNode hleftNode =>
            split at hlow'
            · next rightNode hrightNode =>
                have hleft := (hnamed hleftNode).2 low hlow
                rw [(hnamed hrightNode).2 low hlow', Option.some.injEq] at hleft
                exact hleft.symm
            · cases hlow'
        · cases hlow
      · -- A child of a file is no child of the node above the file.
        intro low hlow hlow'
        obtain ⟨file, hmem, hlow'⟩ := List.mem_flatMap.1 hlow'
        split at hlow'
        · next fileNode hfileNode =>
            have hsame := (hnamed hnode).2 low hlow
            rw [(hnamed hfileNode).2 low hlow', Option.some.injEq] at hsame
            have hlt := h.parent_lt (hfile file hmem)
            rw [hsame] at hlt
            exact Nat.lt_irrefl _ hlt
        · cases hlow'

/-! ## All steps -/

/-- One segment more leads to what is seen, by that segment, from where the others lead. -/
theorem WellFormed.mem_foldl_follow_concat_iff (h : outline.WellFormed) (segments : List String)
    (segment : String) (candidates : List NodeId) :
    id ∈ (segments ++ [segment]).foldl outline.follow candidates ↔
      outline.isVisible segment id = true ∧
        ∃ above ∈ segments.foldl outline.follow candidates, outline.Shows above id := by
  rw [List.foldl_concat]
  simp only [follow, List.mem_flatMap, h.mem_visible_children_iff_shows]
  constructor
  · rintro ⟨above, hmem, hseen, hshows⟩
    exact ⟨hseen, above, hmem, hshows⟩
  · rintro ⟨hseen, above, hmem, hshows⟩
    exact ⟨above, hmem, hseen, hshows⟩

/-- Segments lead to no file. -/
theorem WellFormed.is_file_eq_false_of_mem_foldl_follow (h : outline.WellFormed)
    (segments : List String) (hid : id ∈ segments.foldl outline.follow [rootId]) : outline.isFile id = false := by
  induction segments using List.reverseRecOn generalizing id with
  | nil =>
      obtain rfl := List.mem_singleton.1 hid
      simp [isFile, h.kind?_root]
  | append_singleton segments segment _ =>
      exact is_file_eq_false_of_is_visible
        ((h.mem_foldl_follow_concat_iff segments segment _).1 hid).1

/-- Segments lead to no node twice. -/
theorem WellFormed.nodup_foldl_follow (h : outline.WellFormed) (segments : List String) :
    (segments.foldl outline.follow [rootId]).Nodup := by
  induction segments using List.reverseRecOn with
  | nil => exact List.nodup_singleton _
  | append_singleton segments segment ih =>
      rw [List.foldl_concat, follow, List.nodup_flatMap]
      refine ⟨fun above _ => h.nodup_visible_children above segment, ?_⟩
      refine ih.imp_of_mem (fun {left right} hleft hright hne low hlow hlow' => hne ?_)
      exact (h.mem_visible_children_iff_shows.1 hlow).2.unique
        (h.mem_visible_children_iff_shows.1 hlow').2
        (h.is_file_eq_false_of_mem_foldl_follow segments hleft)
        (h.is_file_eq_false_of_mem_foldl_follow segments hright)

/-! ## Segments without dots -/

/-- A node has no dotted segment on its way if it has none itself and the node from which it is
seen has none on its way. -/
theorem WellFormed.undotted_iff (h : outline.WellFormed) (hnode : outline.node? id = some node)
    (hkind : node.kind ≠ .file) (hroot : node.kind ≠ .root) (hshows : outline.Shows above id) :
    outline.Undotted id ↔ '.' ∉ node.segment.toList ∧ outline.Undotted above := by
  have hself : (∀ found, outline.node? id = some found → found.kind ≠ .file →
      found.kind ≠ .root → '.' ∉ found.segment.toList) ↔ '.' ∉ node.segment.toList := by
    constructor
    · exact fun hall => hall node hnode hkind hroot
    · intro hdot found hfound _ _
      rw [hnode, Option.some.injEq] at hfound
      exact hfound ▸ hdot
  unfold Undotted
  rcases hshows with hup | ⟨file, hfile, hup, habove⟩
  · rw [h.ancestors_eq_cons hup, List.forall_mem_cons, hself]
  · have hskip : ∀ found, outline.node? file = some found → found.kind ≠ .file →
        found.kind ≠ .root → '.' ∉ found.segment.toList := by
      intro found hfound hnot
      exact absurd (by simpa [isFile, kind?, hfound] using hfile) hnot
    rw [h.ancestors_eq_cons hup, h.ancestors_eq_cons habove, List.forall_mem_cons, hself,
      List.forall_mem_cons]
    exact and_congr_right (fun _ => ⟨And.right, fun hrest => ⟨hskip, hrest⟩⟩)

theorem WellFormed.undotted_root (h : outline.WellFormed) : outline.Undotted rootId := by
  intro above habove node hnode _ hkind
  rw [h.ancestors_root] at habove
  obtain rfl := List.mem_singleton.1 habove
  have hsame := h.kind?_root
  rw [kind?, hnode, Option.map_some, Option.some.injEq] at hsame
  exact absurd hsame hkind

/-- What is seen somewhere is not the root. -/
theorem WellFormed.kind_ne_root_of_shows (h : outline.WellFormed) (hshows : outline.Shows above id)
    (hnode : outline.node? id = some node) : node.kind ≠ .root := by
  rcases hshows with hup | ⟨file, -, hup, -⟩
  · exact h.kind_ne_root hup hnode
  · exact h.kind_ne_root hup hnode

/-- Segments without dots lead to nodes with no dotted segment on their way. -/
theorem WellFormed.undotted_of_mem_foldl_follow (h : outline.WellFormed) (segments : List String)
    (hsegments : ∀ segment ∈ segments, '.' ∉ segment.toList)
    (hid : id ∈ segments.foldl outline.follow [rootId]) : outline.Undotted id := by
  induction segments using List.reverseRecOn generalizing id with
  | nil =>
      obtain rfl := List.mem_singleton.1 hid
      exact h.undotted_root
  | append_singleton segments segment ih =>
      obtain ⟨hseen, above, habove, hshows⟩ :=
        (h.mem_foldl_follow_concat_iff segments segment _).1 hid
      have hup := ih (fun other hother => hsegments other (List.mem_append_left _ hother)) habove
      unfold isVisible at hseen
      split at hseen
      · next node hnode =>
          simp only [Bool.and_eq_true, bne_iff_ne, beq_iff_eq] at hseen
          refine (h.undotted_iff hnode hseen.1 (h.kind_ne_root_of_shows hshows hnode) hshows).2
            ⟨?_, hup⟩
          rw [hseen.2]
          exact hsegments segment (by simp)
      · cases hseen

/-- Where files do not stand below files, a node other than a file is seen from a node other than
a file, and its path is the path of that node with its own segment. -/
theorem WellFormed.exists_shows (h : outline.WellFormed) (hflat : outline.Flat)
    (hnode : outline.node? id = some node) (hne : id ≠ rootId) (hkind : node.kind ≠ .file) :
    ∃ above aboveNode, outline.Shows above id ∧ above < id ∧
      outline.node? above = some aboveNode ∧ aboveNode.kind ≠ .file ∧
      node.path = Dotted.join aboveNode.path node.segment := by
  obtain ⟨parent, parentNode, hparent, hlt, hparentNode, -⟩ := h.linked hnode hne
  have hup := parent?_of_node? hnode hparent
  have hpath := h.path hnode hparent hparentNode
  rw [if_neg hkind] at hpath
  by_cases hfile : parentNode.kind = .file
  · have hisFile : outline.isFile parent = true := by simp [isFile, kind?, hparentNode, hfile]
    have hparentNe : parent ≠ rootId := by
      rintro rfl
      rw [is_file_iff, h.kind?_root] at hisFile
      cases hisFile
    obtain ⟨top, topNode, htop, hlt', htopNode, -⟩ := h.linked hparentNode hparentNe
    have hstep := parent?_of_node? hparentNode htop
    have htopKind : topNode.kind ≠ .file := by
      simpa [isFile, kind?, htopNode] using hflat parent top hisFile hstep
    refine ⟨top, topNode, Or.inr ⟨parent, hisFile, hup, hstep⟩, Nat.lt_trans hlt' hlt, htopNode,
      htopKind, ?_⟩
    rw [hpath, h.path hparentNode htop htopNode, if_pos hfile]
  · exact ⟨parent, parentNode, Or.inl hup, hlt, hparentNode, hfile, hpath⟩

/-- A node with no dotted segment on its way is where the segments of its path lead. -/
theorem WellFormed.mem_foldl_follow_of_undotted (h : outline.WellFormed) (hflat : outline.Flat)
    (hlabelled : outline.Labelled) (hnode : outline.node? id = some node)
    (hkind : node.kind ≠ .file) (hundotted : outline.Undotted id) :
    id ∈ (Dotted.segments node.path).foldl outline.follow [rootId] := by
  induction id using Nat.strong_induction_on generalizing node with
  | _ id ih =>
      by_cases hne : id = rootId
      · subst hne
        obtain ⟨root, hroot, -, -, hpath⟩ := h.root
        rw [hnode, Option.some.injEq] at hroot
        rw [hroot, hpath]
        exact List.mem_singleton_self _
      · obtain ⟨above, aboveNode, hshows, hlt, haboveNode, haboveKind, hpath⟩ :=
          h.exists_shows hflat hnode hne hkind
        obtain ⟨hdot, habove⟩ := (h.undotted_iff hnode hkind
          (h.kind_ne_root_of_shows hshows hnode) hshows).1 hundotted
        rw [hpath, Dotted.segments_join,
          Dotted.segments_of_not_mem (hlabelled id node hnode hne) hdot,
          h.mem_foldl_follow_concat_iff]
        exact ⟨by simp [isVisible, hnode, hkind], above, ih above hlt haboveNode haboveKind habove,
          hshows⟩

/-! ## Names -/

/-- A valid name leads to the nodes that it stands for. -/
theorem WellFormed.mem_lookup_all_iff (h : outline.WellFormed) (hflat : outline.Flat)
    (hlabelled : outline.Labelled) {name : String} (hne : name ≠ "")
    (hvalid : Dotted.isValid name = true) :
    id ∈ outline.lookupAll name ↔ outline.Addressed name id := by
  constructor
  · intro hid
    obtain ⟨node, hnode, hname⟩ := Option.map_eq_some_iff.1 (h.path?_of_mem_lookup_all hid)
    rw [lookup_all_eq, if_neg (by simp [hne, hvalid])] at hid
    refine ⟨node, hnode, ?_, ?_, hname, h.undotted_of_mem_foldl_follow _
      (fun _ => Dotted.dot_not_mem_of_mem_segments) hid⟩
    · -- The root has the empty path.
      intro hkind
      by_cases hroot : id = rootId
      · subst hroot
        obtain ⟨root, hroot, -, -, hempty⟩ := h.root
        rw [hnode, Option.some.injEq] at hroot
        exact hne (by rw [← hname, hroot, hempty])
      · obtain ⟨parent, above, hparent, -, -, -⟩ := h.linked hnode hroot
        exact h.kind_ne_root (parent?_of_node? hnode hparent) hnode hkind
    · simpa [isFile, kind?, hnode] using h.is_file_eq_false_of_mem_foldl_follow _ hid
  · rintro ⟨node, hnode, -, hkind, rfl, hundotted⟩
    rw [lookup_all_eq, if_neg (by simp [hne, hvalid])]
    exact h.mem_foldl_follow_of_undotted hflat hlabelled hnode hkind hundotted

end Outline

end CanonicalNames
