import CanonicalNames.Outline.Lookup
import CanonicalNames.Proofs.Dotted
import CanonicalNames.Proofs.Outline.Descent

/-!
# Lookups and paths

A node that is found under a valid dotted name has that name as its path
(`path?_of_lookup_type?`), so that the canonical name of a class is the name under which it
was found. Climbing from a node takes fewer steps than its number, so that the frames of a
node are the node followed by the frames of its owner (`frames_eq_cons`).
-/

namespace CanonicalNames

namespace Outline

variable {outline : Outline} {id parent child other : NodeId} {node : Node}

/-! ## Downward -/

/-- A visible child lies below the node or below one of its files, and has the segment. -/
theorem WellFormed.mem_visible_children_iff (h : outline.WellFormed)
    (hnode : outline.node? id = some node) {segment : String} :
    child ∈ outline.visibleChildren id segment ↔
      (child ∈ node.children ∧ outline.isVisible segment child = true) ∨
        ∃ file fileNode, file ∈ node.children ∧ outline.isFile file = true ∧
          outline.node? file = some fileNode ∧ child ∈ fileNode.children ∧
          outline.isVisible segment child = true := by
  simp only [visibleChildren, hnode, List.mem_append, h.named hnode, List.mem_filter,
    List.mem_flatMap, h.files hnode]
  refine or_congr_right ⟨?_, ?_⟩
  · rintro ⟨file, ⟨hfile, hkind⟩, hchild⟩
    obtain ⟨fileNode, hfileNode, _⟩ := h.child hnode hfile
    rw [hfileNode] at hchild
    simp only [h.named hfileNode, List.mem_filter] at hchild
    exact ⟨file, fileNode, hfile, hkind, hfileNode, hchild⟩
  · rintro ⟨file, fileNode, hfile, hkind, hfileNode, hchild⟩
    refine ⟨file, ⟨hfile, hkind⟩, ?_⟩
    simpa only [hfileNode, h.named hfileNode, List.mem_filter] using hchild

/-- A package to which a segment leads is a child with that segment. -/
theorem WellFormed.node?_of_child_package? (h : outline.WellFormed) {segment : String}
    (hchild : outline.childPackage? id segment = some child) :
    ∃ below, outline.node? child = some below ∧ below.kind = .package ∧
      below.parent = some id ∧ below.segment = segment := by
  unfold childPackage? at hchild
  split at hchild
  · next node hnode =>
      have hmem := List.mem_of_find?_eq_some hchild
      have hkind := List.find?_some hchild
      rw [h.named hnode, List.mem_filter] at hmem
      obtain ⟨below, hbelow, hparent⟩ := h.child hnode hmem.1
      simp only [kind?, hbelow, Option.map_some, beq_iff_eq, Option.some.injEq] at hkind
      exact ⟨below, hbelow, hkind, hparent, by simpa [isVisible, hbelow, hkind] using hmem.2⟩
  · cases hchild

/-- A visible child is present, and its path is that of the node with the segment joined. -/
theorem WellFormed.path_of_mem_visible_children (h : outline.WellFormed)
    (hnode : outline.node? id = some node) {segment : String}
    (hchild : child ∈ outline.visibleChildren id segment) :
    outline.path? child = some (Dotted.join node.path segment) := by
  have hstep : ∀ {up above}, outline.node? up = some above → child ∈ above.children →
      outline.isVisible segment child = true →
      outline.path? child = some (Dotted.join above.path segment) := by
    intro up above habove hmem hvisible
    obtain ⟨below, hbelow, hparent⟩ := h.child habove hmem
    simp only [isVisible, hbelow, Bool.and_eq_true, bne_iff_ne, beq_iff_eq] at hvisible
    have hpath := h.path hbelow hparent habove
    rw [if_neg hvisible.1, hvisible.2] at hpath
    simp [path?, hbelow, hpath]
  rcases (h.mem_visible_children_iff hnode).1 hchild with
    ⟨hmem, hvisible⟩ | ⟨file, fileNode, hfile, hkind, hfileNode, hmem, hvisible⟩
  · exact hstep hnode hmem hvisible
  · obtain ⟨below, hbelow, hparent⟩ := h.child hnode hfile
    rw [hfileNode, Option.some.injEq] at hbelow
    subst hbelow
    have hpath := h.path hfileNode hparent hnode
    simp only [isFile, kind?, hfileNode, Option.map_some, beq_iff_eq, Option.some.injEq] at hkind
    rw [if_pos hkind] at hpath
    rw [← hpath]
    exact hstep hfileNode hmem hvisible

/-- The nodes to which segments lead have the path that is joined from the segments. -/
theorem WellFormed.path_of_mem_foldl_follow (h : outline.WellFormed) {start : String}
    {candidates : List NodeId} (segments : List String)
    (hcandidates : ∀ candidate ∈ candidates, outline.path? candidate = some start)
    (hid : id ∈ segments.foldl outline.follow candidates) :
    outline.path? id = some (segments.foldl Dotted.join start) := by
  induction segments generalizing start candidates with
  | nil => exact hcandidates id hid
  | cons segment rest ih =>
      refine ih ?_ hid
      intro candidate hcandidate
      obtain ⟨up, hup, hvisible⟩ := List.mem_flatMap.1 hcandidate
      obtain ⟨above, habove, hpath⟩ := Option.map_eq_some_iff.1 (hcandidates up hup)
      rw [← hpath]
      exact h.path_of_mem_visible_children habove hvisible

/-- The nodes to which segments lead from the root have the path that is joined from them. -/
theorem WellFormed.path_of_mem_follow_root (h : outline.WellFormed) (segments : List String)
    (hid : id ∈ segments.foldl outline.follow [rootId]) :
    outline.path? id = some (segments.foldl Dotted.join "") := by
  obtain ⟨root, hroot, -, -, hpath⟩ := h.root
  refine h.path_of_mem_foldl_follow segments (fun candidate hcandidate => ?_) hid
  obtain rfl := List.mem_singleton.1 hcandidate
  simp [path?, hroot, hpath]

/-- A name that is empty or not valid leads nowhere; any other leads where its segments do. -/
theorem lookup_all_eq (name : String) : outline.lookupAll name =
    if name = "" ∨ Dotted.isValid name = false then []
    else (Dotted.segments name).foldl outline.follow [rootId] := by
  unfold lookupAll
  by_cases hname : name = ""
  · simp [hname]
  · by_cases hvalid : Dotted.isValid name = true <;> simp [hname, hvalid]

/-- A node has the path under which it is found. -/
theorem WellFormed.path?_of_mem_lookup_all (h : outline.WellFormed) {name : String}
    (hfound : id ∈ outline.lookupAll name) : outline.path? id = some name := by
  rw [lookup_all_eq] at hfound
  split at hfound
  · cases hfound
  · next hname =>
      rw [not_or, Bool.not_eq_false] at hname
      rw [h.path_of_mem_follow_root _ hfound, Dotted.foldl_join_segments hname.2]

/-- A class has the path under which it is found. -/
theorem WellFormed.path?_of_lookup_type? (h : outline.WellFormed) {name : String}
    (hfound : outline.lookupType? name = some id) : outline.path? id = some name :=
  h.path?_of_mem_lookup_all (List.mem_of_find?_eq_some hfound)

/-! ## Upward -/

/-- A node with a parent is not the root. -/
theorem WellFormed.kind_ne_root (h : outline.WellFormed)
    (hparent : outline.parent? id = some parent) (hnode : outline.node? id = some node) :
    node.kind ≠ .root := by
  have hne := Nat.ne_of_gt (Nat.lt_of_le_of_lt (Nat.zero_le _) (h.parent_lt hparent))
  have hcontent := h.content hnode hne
  rcases hc : node.content with _ | _ | element
  · exact absurd hc hcontent
  · simp [Node.kind, hc, Content.kind]
  · cases element <;> simp [Node.kind, hc, Content.kind, Element.kind]

/-- Where every step goes to a smaller number, a number is steps enough for a climb. -/
theorem climb_eq_of_le {next : NodeId → Option NodeId}
    (hnext : ∀ {id up}, next id = some up → up < id) {steps : Nat} (hsteps : id ≤ steps) :
    climb next steps id = climb next id id := by
  induction id using Nat.strong_induction_on generalizing steps with
  | _ id ih =>
      cases hup : next id with
      | none => cases steps <;> cases id <;> simp [climb, hup]
      | some up =>
          have hlt := hnext hup
          obtain ⟨fewer, rfl⟩ : ∃ fewer, id = fewer + 1 :=
            Nat.exists_eq_add_one.2 (Nat.lt_of_le_of_lt (Nat.zero_le _) hlt)
          obtain ⟨steps, rfl⟩ : ∃ less, steps = less + 1 :=
            Nat.exists_eq_add_one.2 (Nat.lt_of_lt_of_le (Nat.succ_pos _) hsteps)
          simp only [climb, hup]
          rw [ih up hlt (Nat.le_trans (Nat.le_of_lt_succ hlt) (Nat.le_of_succ_le_succ hsteps)),
            ih up hlt (Nat.le_of_lt_succ hlt)]

/-- A climb takes one step and climbs on from there. -/
theorem climb_eq_cons {next : NodeId → Option NodeId}
    (hnext : ∀ {id up}, next id = some up → up < id) {up : NodeId} (hup : next id = some up) :
    climb next id id = up :: climb next up up := by
  have hlt := hnext hup
  obtain ⟨fewer, rfl⟩ : ∃ fewer, id = fewer + 1 :=
    Nat.exists_eq_add_one.2 (Nat.lt_of_le_of_lt (Nat.zero_le _) hlt)
  simp only [climb, hup]
  rw [climb_eq_of_le hnext (Nat.le_of_lt_succ hlt)]

/-- A climb that takes no step. -/
theorem climb_eq_nil {next : NodeId → Option NodeId} (hup : next id = none) :
    climb next id id = [] := by
  cases id <;> simp [climb, hup]

/-- An owner is the parent. -/
theorem parent?_of_owner? (h : outline.owner? id = some parent) :
    outline.parent? id = some parent := by
  unfold owner? at h
  split at h
  · next node hnode =>
      split at h
      · simpa [parent?, hnode] using h
      · cases h
  · cases h

/-- The frames of a node are the node and the frames of its owner. -/
theorem WellFormed.frames_eq_cons (h : outline.WellFormed) (id : NodeId) :
    outline.frames id = id :: (outline.owner? id).elim [] outline.frames := by
  have hnext : ∀ {id up}, outline.owner? id = some up → up < id :=
    fun hup => h.parent_lt (parent?_of_owner? hup)
  unfold frames
  rcases hup : outline.owner? id with _ | up
  · rw [climb_eq_nil hup]
    rfl
  · rw [climb_eq_cons hnext hup]
    rfl

/-- There is nothing above the root. -/
theorem WellFormed.ancestors_root (h : outline.WellFormed) : outline.ancestors rootId = [] := by
  obtain ⟨root, hroot, -, hparent, -⟩ := h.root
  exact climb_eq_nil (by simp [parent?, hroot, hparent])

/-- The ancestors of a node are its parent and the ancestors of its parent. -/
theorem WellFormed.ancestors_eq_cons (h : outline.WellFormed)
    (hparent : outline.parent? id = some parent) :
    outline.ancestors id = parent :: outline.ancestors parent :=
  climb_eq_cons h.parent_lt hparent

end Outline

end CanonicalNames
