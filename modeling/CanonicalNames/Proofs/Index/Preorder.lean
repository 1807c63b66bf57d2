import CanonicalNames.Proofs.Index.Reachable

/-!
# The recursive walk

`outline.Visits id order` is the walk from a node by recursion: the node, and then the walks
from its children in turn. It knows of no list of nodes still to visit and of no bound on the
number of steps. In a well-formed outline the recursion ends from every node and has one result
(`Visits.unique`), which is `preorder` (`WellFormed.visits_preorder`); steps beyond the bound of
`preorder` change nothing (`WellFormed.walk_eq_preorder`).

Methods and references are collected along this walk. The references of one element come by the
positions of their slots (`pairwise_flat_map_refs_of`), and nothing is met twice, so that each
method and each type use below a node is listed exactly once: `walks_are_recursive`.
-/

namespace CanonicalNames

/-- The position of a slot among those of its element. -/
def Slot.position : Slot → Nat
  | .returnType => 0
  | .supertype position => position
  | .bound position => position

/-- Slots are listed by position. -/
theorem Element.pairwise_slots (element : Element) :
    element.slots.Pairwise (fun first second => first.position < second.position) := by
  cases element with
  | file path package imports => exact .nil
  | classDecl name supertypes => exact List.pairwise_map.2 List.pairwise_lt_range
  | method name returnType => exact List.pairwise_singleton ..
  | typeParameter name bounds => exact List.pairwise_map.2 List.pairwise_lt_range

/-- Of two references in the same element, the first has the smaller position. -/
def RefId.SlotsAscend (first second : RefId) : Prop :=
  first.owner = second.owner → first.slot.position < second.slot.position

/-- References whose slots ascend are not the same. -/
theorem RefId.SlotsAscend.ne {first second : RefId} (h : first.SlotsAscend second) :
    first ≠ second := by
  intro heq
  have hlt := h (congrArg RefId.owner heq)
  rw [heq] at hlt
  exact Nat.lt_irrefl _ hlt

namespace Outline

variable {outline : Outline} {id : NodeId}

/-! ## Recursion along the children -/

/-- The recursive walk from a node, and the order in which it meets nodes: first the node, then
what the walks from its children meet, child by child. Where no node is, nothing is met. -/
inductive Visits (outline : Outline) : NodeId → List NodeId → Prop where
  | absent {id : NodeId} : outline.node? id = none → Visits outline id []
  | present {id : NodeId} {node : Node} {within : NodeId → List NodeId} :
      outline.node? id = some node →
      (∀ child ∈ node.children, Visits outline child (within child)) →
      Visits outline id (id :: node.children.flatMap within)

/-- The recursive walk from a node meets nodes in one order only. -/
theorem Visits.unique {first second : List NodeId} (h : outline.Visits id first)
    (k : outline.Visits id second) : first = second := by
  induction h generalizing second with
  | absent habsent =>
      cases k with
      | absent => rfl
      | present hnode _ =>
          rw [habsent] at hnode
          cases hnode
  | present hnode _ ih =>
      cases k with
      | absent habsent =>
          rw [hnode] at habsent
          cases habsent
      | present hnode' hchildren =>
          rw [hnode, Option.some.injEq] at hnode'
          subst hnode'
          congr 1
          exact List.flatMap_congr (fun child hchild => ih child hchild (hchildren child hchild))

/-- The recursive walk ends from every node, and its order is preorder. -/
theorem WellFormed.visits_preorder (h : outline.WellFormed) (id : NodeId) :
    outline.Visits id (outline.preorder id) := by
  rcases hnode : outline.node? id with _ | node
  · rw [preorder_eq_nil hnode]
    exact .absent hnode
  · refine h.induction_on_children (motive := fun id => outline.Visits id (outline.preorder id))
      (fun id node hnode ih => ?_) hnode
    rw [h.preorder_eq_cons hnode]
    exact .present hnode ih

theorem WellFormed.visits_iff (h : outline.WellFormed) {order : List NodeId} :
    outline.Visits id order ↔ order = outline.preorder id := by
  constructor
  · exact fun hvisits => hvisits.unique (h.visits_preorder id)
  · intro heq
    rw [heq]
    exact h.visits_preorder id

/-- Where the steps of `preorder` end there is nothing left to visit. -/
theorem WellFormed.walk_eq_preorder (h : outline.WellFormed) (id : NodeId) (more : Nat) :
    outline.walk (fun children => children) (outline.places.size + 1 + more) [id] =
      outline.preorder id := by
  rcases hnode : outline.node? id with _ | node
  · rw [preorder_eq_nil hnode, Nat.add_right_comm]
    simp [walk, hnode]
  · have hpresent : outline.AllPresent [id] := by
      intro other hother
      obtain rfl := List.mem_singleton.1 hother
      exact ⟨node, hnode⟩
    have hload : outline.load [id] ≤ outline.places.size := load_singleton_le id
    exact h.walk_congr (fun ids => List.Perm.refl ids) hpresent (by omega) (by omega)

/-! ## What is listed -/

theorem WellFormed.mem_refs_under_iff (h : outline.WellFormed) {ref : RefId} :
    ref ∈ outline.refsUnder id ↔
      outline.Below ref.owner id ∧ (outline.use? ref).isSome = true := by
  simp only [refsUnder, List.mem_flatMap, h.mem_preorder_iff, Index.mem_refs_of_iff]
  constructor
  · intro ⟨owner, ⟨hbelow, _⟩, howner, huse⟩
    exact ⟨howner ▸ hbelow, huse⟩
  · intro ⟨hbelow, huse⟩
    obtain ⟨use, hsome⟩ := Option.isSome_iff_exists.1 huse
    obtain ⟨element, helement, _⟩ := Option.bind_eq_some_iff.1 hsome
    obtain ⟨node, hnode, _⟩ := Option.bind_eq_some_iff.1 helement
    exact ⟨ref.owner, ⟨hbelow, node, hnode⟩, rfl, huse⟩

/-- Collected from nodes that are all different, the references of each element are in the order
of its slots. -/
theorem pairwise_flat_map_refs_of {ids : List NodeId} (h : ids.Nodup) :
    (ids.flatMap outline.refsOf).Pairwise RefId.SlotsAscend := by
  refine List.pairwise_flatMap.2 ⟨fun id _ => ?_, h.imp fun hne first hfirst second hsecond => ?_⟩
  · unfold refsOf
    split
    · next element _ =>
        refine List.pairwise_map.2 (element.pairwise_slots.imp ?_)
        intro first second hlt _
        exact hlt
    · exact .nil
  · intro howner
    rw [(Index.mem_refs_of_iff.1 hfirst).1, (Index.mem_refs_of_iff.1 hsecond).1] at howner
    exact absurd howner hne

/-- No reference is collected twice from nodes that are all different. -/
theorem nodup_flat_map_refs_of {ids : List NodeId} (h : ids.Nodup) :
    (ids.flatMap outline.refsOf).Nodup :=
  (pairwise_flat_map_refs_of h).imp RefId.SlotsAscend.ne

end Outline

namespace Index

/-- From every node of a reachable index, present or not, the recursive walk ends and has one order;
the walk that keeps a list of nodes to visit comes to the same order, however many steps it is given
beyond its bound. The methods and the references under the node are those of the nodes in that
order, the references of an element in the order of its slots. Each method below the node and each
address below it that holds a type use is listed, nothing else is, and nothing is listed twice. -/
theorem walks_are_recursive {index : Index} (h : index.Reachable) (id : NodeId) :
    ∃ order, (∀ found, index.outline.Visits id found ↔ found = order) ∧
      (∀ more, index.outline.walk (fun children => children)
        (index.outline.places.size + 1 + more) [id] = order) ∧
      (index.outline.methodsUnder id =
          order.filter (fun low => index.outline.kind? low == some .method) ∧
        (index.outline.methodsUnder id).Nodup ∧
        ∀ low, low ∈ index.outline.methodsUnder id ↔
          index.outline.Below low id ∧ index.outline.kind? low = some .method) ∧
      index.outline.refsUnder id = order.flatMap index.outline.refsOf ∧
        (index.outline.refsUnder id).Pairwise RefId.SlotsAscend ∧
        (index.outline.refsUnder id).Nodup ∧
        ∀ ref, ref ∈ index.outline.refsUnder id ↔
          index.outline.Below ref.owner id ∧ (index.outline.use? ref).isSome = true := by
  have hwell := h.well_formed
  have hnodup := hwell.nodup_preorder id
  exact ⟨index.outline.preorder id, fun found => hwell.visits_iff, hwell.walk_eq_preorder id,
    ⟨rfl, hnodup.filter _, fun low => hwell.mem_methods_under_iff⟩, rfl,
    Outline.pairwise_flat_map_refs_of hnodup, Outline.nodup_flat_map_refs_of hnodup,
    fun ref => hwell.mem_refs_under_iff⟩

/-- Two files of a package. The nested class of the first gets a method when the second is there
already, so that its number is the greatest; then the class of the second file is removed. -/
def lateMethodHistory : List Operation :=
  [.insertFile
    { path := ⟨"p/A.java"⟩
      package := "p"
      classes :=
        [{ name := "A"
           supertypes := [.text "Base", .text "Other"]
           typeParams := [{ name := "T", bounds := [.text "Base", .text "Other"] }]
           classes := [{ name := "Inner" }]
           methods := [{ name := "own", returnType := .text "T" }] }] },
   .insertFile
    { path := ⟨"p/C.java"⟩
      package := "p"
      classes := [{ name := "C", methods := [{ name := "gone", returnType := .text "int" }] }] },
   .insertMethod 5
    { name := "late"
      returnType := .text "U"
      typeParams := [{ name := "U", bounds := [.text "T"] }] },
   .remove 8]

/-- The late method is met where it is declared, before the method of the class around it, and
nothing is met of the class that is gone. -/
theorem late_method_is_met_in_place :
    (afterHistory lateMethodHistory).outline.Visits 1 [1, 2, 3, 4, 5, 10, 11, 6, 7] ∧
    (afterHistory lateMethodHistory).outline.Visits 8 [] ∧
    (∀ low, (afterHistory lateMethodHistory).outline.Below low 1 ∧
      (afterHistory lateMethodHistory).outline.kind? low = some .method ↔ low = 10 ∨ low = 6) ∧
    (afterHistory lateMethodHistory).outline.refsUnder 1 =
      [⟨3, .supertype 0⟩, ⟨3, .supertype 1⟩, ⟨4, .bound 0⟩, ⟨4, .bound 1⟩, ⟨10, .returnType⟩,
        ⟨11, .bound 0⟩, ⟨6, .returnType⟩] := by
  have hreachable : (afterHistory lateMethodHistory).Reachable := ⟨_, rfl⟩
  obtain ⟨order, hvisits, hwalk, ⟨-, -, hmethods⟩, hrefs, -⟩ := walks_are_recursive hreachable 1
  obtain ⟨nothing, hgone, hstop, -⟩ := walks_are_recursive hreachable 8
  have horder : [1, 2, 3, 4, 5, 10, 11, 6, 7] = order := by
    rw [← hwalk 0]
    decide +kernel
  have hlisted : (afterHistory lateMethodHistory).outline.methodsUnder 1 = [10, 6] := by
    decide +kernel
  refine ⟨(hvisits _).2 horder, (hgone _).2 ?_, fun low => ?_, ?_⟩
  · rw [← hstop 0]
    decide +kernel
  · rw [← hmethods, hlisted]
    simp
  · rw [hrefs, ← horder]
    decide +kernel

end Index

end CanonicalNames
