import CanonicalNames.Proofs.Index.Departure
import CanonicalNames.Proofs.Outline.Address

/-!
# What a removal takes out

A removal takes out a node with everything below it, and then the package segments above that are
left without a child, from the nearest one upward. `Outline.Emptied` says which these are without
taking anything out: the longest run of ancestors, nearest first, of which each is a package and
has lost every child. Pruning takes out that run and nothing else (`WellFormed.emptied_prune`),
and so `remove_takes_out_exactly` says what is left of nodes and of references.
-/

namespace CanonicalNames

namespace Outline

variable {outline before middle after : Outline} {id parent other : NodeId} {node : Node}

/-! ## Packages that are left without a child -/

/-- A package of the first outline no child of which is in the second one. -/
def LeftChildless (before after : Outline) (above : NodeId) : Prop :=
  before.kind? above = some .package ∧
    ∀ child, before.parent? child = some above → after.contains child = false

/-- The longest beginning of a chain of nodes that consists of packages left without a child. -/
structure Emptied (before after : Outline) (chain run : List NodeId) : Prop where
  upward : run <+: chain
  childless : ∀ above ∈ run, LeftChildless before after above
  longest : ∀ above, run ++ [above] <+: chain → ¬ LeftChildless before after above

theorem LeftChildless.contains (h : LeftChildless before after id) : before.contains id = true :=
  contains_of_kind? h.1

/-- Between the two outlines it makes no difference which children have left already. -/
theorem left_childless_iff (hmiddle : Within middle before)
    (hafter : ∀ child, after.contains child = true → middle.contains child = true)
    (hid : middle.contains id = true) :
    LeftChildless before after id ↔ LeftChildless middle after id := by
  unfold LeftChildless
  rw [hmiddle.kind?_eq hid]
  refine and_congr_right (fun _ => ⟨fun h child hchild => h child (hmiddle.parent? hchild), ?_⟩)
  intro h child hchild
  by_cases hleft : middle.contains child = true
  · exact h child (by rw [← hmiddle.parent?_eq hleft, hchild])
  · -- A child that has left is not in the last outline either.
    simpa using mt (hafter child) hleft

/-- A chain of nodes that are present has the same longest beginning. -/
theorem Emptied.of_within {chain run : List NodeId} (h : Emptied middle after chain run)
    (hmiddle : Within middle before)
    (hafter : ∀ child, after.contains child = true → middle.contains child = true)
    (hchain : ∀ above ∈ chain, middle.contains above = true) : Emptied before after chain run := by
  refine ⟨h.upward, fun above habove => ?_, fun above hlonger hchildless => ?_⟩
  · exact (left_childless_iff hmiddle hafter (h.childless above habove).contains).2
      (h.childless above habove)
  · have habove : above ∈ chain := hlonger.subset (by simp)
    exact h.longest above hlonger
      ((left_childless_iff hmiddle hafter (hchain above habove)).1 hchildless)

/-- A package without a child is the first of a longer run. -/
theorem Emptied.cons {chain run : List NodeId} (h : Emptied before after chain run)
    (hid : LeftChildless before after id) : Emptied before after (id :: chain) (id :: run) := by
  refine ⟨List.cons_prefix_cons.2 ⟨rfl, h.upward⟩, ?_, fun above hlonger => ?_⟩
  · intro above habove
    rcases List.mem_cons.1 habove with rfl | habove
    · exact hid
    · exact h.childless above habove
  · exact h.longest above (List.cons_prefix_cons.1 hlonger).2

/-- A node that keeps a child, or is no package, ends the run before it. -/
theorem emptied_nil {chain : List NodeId} (hid : ¬ LeftChildless before after id) :
    Emptied before after (id :: chain) [] := by
  refine ⟨List.nil_prefix, fun above habove => (by cases habove), fun above hlonger => ?_⟩
  obtain rfl := (List.cons_prefix_cons.1 hlonger).1
  exact hid

/-! ## Pruning -/

/-- What holds of a node without a parent, and of every node if it holds of the parent, holds of
all nodes and their ancestors. -/
theorem WellFormed.induction_on_ancestors (h : outline.WellFormed)
    {motive : NodeId → List NodeId → Prop}
    (top : ∀ id, outline.parent? id = none → motive id [])
    (up : ∀ id parent, outline.parent? id = some parent →
      motive parent (outline.ancestors parent) → motive id (parent :: outline.ancestors parent))
    (id : NodeId) : motive id (outline.ancestors id) := by
  induction id using Nat.strong_induction_on with
  | _ id ih =>
      rcases hparent : outline.parent? id with _ | parent
      · rw [ancestors, climb_eq_nil hparent]
        exact top id hparent
      · rw [h.ancestors_eq_cons hparent]
        exact up id parent hparent (ih parent (h.parent_lt hparent))

/-- The ancestors of a node are present. -/
theorem WellFormed.contains_of_mem_ancestors (h : outline.WellFormed)
    (hother : other ∈ outline.ancestors id) : outline.contains other = true := by
  refine h.induction_on_ancestors
    (motive := fun _ chain => ∀ other ∈ chain, outline.contains other = true)
    (fun _ _ => nofun) (fun id parent hparent ih => ?_) id other hother
  exact List.forall_mem_cons.2 ⟨h.contains_of_parent? hparent, ih⟩

/-- A package is no root, and so it has a parent. -/
theorem WellFormed.exists_parent_of_package (h : outline.WellFormed)
    (hnode : outline.node? id = some node) (hkind : node.kind = .package) :
    ∃ parent, node.parent = some parent := by
  have hne : id ≠ rootId := by
    rintro rfl
    have hroot := h.kind?_root
    simp [kind?, hnode, hkind] at hroot
  obtain ⟨parent, -, hparent, -⟩ := h.linked hnode hne
  exact ⟨parent, hparent⟩

theorem Cut.within {top : NodeId} (h : Cut before after top parent) : Within after before := by
  intro id left hleft
  obtain ⟨node, hnode, -, rfl⟩ := h.survivor hleft
  exact ⟨node, hnode, (node.same_face_drop_child top).ite.symm⟩

theorem Cut.contains_iff {top : NodeId} (h : Cut before after top parent) :
    after.contains id = true ↔ before.contains id = true ∧ ¬ before.Below id top := by
  by_cases hbelow : before.Below id top
  · simp [contains, h.gone hbelow, hbelow]
  · simp [contains, h.kept hbelow, hbelow]

/-- Pruning from a node takes out the longest run of packages without a child, from the node
upward, and nothing else. -/
theorem WellFormed.emptied_prune (h : outline.WellFormed) (hid : outline.contains id = true)
    {steps : Nat} (hsteps : id < steps) :
    ∃ run, Emptied outline (outline.prune steps id) (id :: outline.ancestors id) run ∧
      ∀ other, (outline.prune steps id).contains other = true ↔
        outline.contains other = true ∧ other ∉ run := by
  induction steps generalizing outline id with
  | zero => exact absurd hsteps (Nat.not_lt_zero id)
  | succ steps ih =>
      obtain ⟨node, hnode⟩ := Option.isSome_iff_exists.1 hid
      by_cases hpackage : node.kind = .package ∧ node.children = []
      · obtain ⟨parent, hparent⟩ := h.exists_parent_of_package hnode hpackage.1
        have hup := parent?_of_node? hnode hparent
        have hbelow : ∀ other, outline.Below other id ↔ other = id := by
          intro other
          rw [h.below_iff hnode]
          simp [hpackage.2]
        have hcut : Cut outline ((outline.dropNode id).detach parent id) id parent :=
          @WellFormed.cut_of_mem_iff _ _ _ h [id] hup (fun other => by simp [hbelow])
        have hprune : outline.prune (steps + 1) id =
            ((outline.dropNode id).detach parent id).prune steps parent := by
          rw [Outline.prune]
          simp only [hnode, if_pos hpackage, hparent]
        obtain ⟨above, habove, -⟩ := h.node?_of_parent? hup
        have hleft := h.cut hcut
        have hlt := h.parent_lt hup
        have hpresent : ((outline.dropNode id).detach parent id).contains parent = true := by
          rw [hcut.contains_iff, hbelow]
          exact ⟨contains_of_node? habove, Nat.ne_of_lt hlt⟩
        obtain ⟨run, hrun, hcontains⟩ :=
          ih hleft hpresent (Nat.lt_of_lt_of_le hlt (Nat.le_of_lt_succ hsteps))
        rw [← hprune] at hrun hcontains
        refine ⟨id :: run, ?_, fun other => ?_⟩
        · rw [h.ancestors_eq_cons hup, hcut.within.ancestors_eq hleft h hpresent]
          refine (hrun.of_within hcut.within (fun child hchild => ((hcontains child).1 hchild).1)
            (List.forall_mem_cons.2 ⟨hpresent, fun _ => hleft.contains_of_mem_ancestors⟩)).cons
            ⟨by simp [kind?, hnode, hpackage.1], ?_⟩
          intro child hchild
          obtain ⟨node', hnode', hmem⟩ := h.node?_of_parent? hchild
          obtain rfl := Option.some.inj (hnode.symm.trans hnode')
          simp [hpackage.2] at hmem
        · rw [hcontains, hcut.contains_iff, hbelow]
          simp [and_assoc]
      · have hprune : outline.prune (steps + 1) id = outline := by
          rw [Outline.prune]
          simp only [hnode, if_neg hpackage]
        refine ⟨[], ?_, by simp [hprune]⟩
        rw [hprune]
        refine emptied_nil (fun hchildless => hpackage ⟨?_, ?_⟩)
        · simpa [kind?, hnode] using hchildless.1
        · refine List.eq_nil_iff_forall_not_mem.2 (fun child hchild => ?_)
          have hgone := hchildless.2 child (h.parent?_of_mem_children hnode hchild)
          obtain ⟨below, hbelow, -⟩ := h.child hnode hchild
          simp [contains, hbelow] at hgone

end Outline

/-! ## Removal -/

namespace Index

open Outline (Emptied)

variable {index after : Index} {id : NodeId}

/-- A removal takes out the nodes below the removed one and the packages above that are left
without a child. -/
theorem emptied_of_remove {leaving : List NodeId} (hwell : index.outline.WellFormed)
    (h : index.remove id = .ok (leaving, after)) :
    ∃ run, Emptied index.outline after.outline (index.outline.ancestors id) run ∧
      ∀ other, after.outline.contains other = true ↔
        index.outline.contains other = true ∧ other ∉ leaving ∧ other ∉ run := by
  obtain ⟨parent, hup, hleaving, rfl⟩ := remove_eq hwell h
  have hcut := hwell.cut_of_mem_iff hup hleaving
  have hleft := hwell.cut hcut
  obtain ⟨above, habove, -⟩ := hwell.node?_of_parent? hup
  have hpresent :
      ((leaving.foldl Outline.dropNode index.outline).detach parent id).contains parent = true := by
    rw [hcut.contains_iff]
    refine ⟨Outline.contains_of_node? habove, fun hbelow => ?_⟩
    exact Nat.lt_irrefl _ (Nat.lt_of_lt_of_le (hwell.parent_lt hup) (hwell.le_of_below hbelow))
  obtain ⟨run, hrun, hcontains⟩ := hleft.emptied_prune hpresent (Nat.lt_succ_self parent)
  refine ⟨run, ?_, fun other => ?_⟩
  · rw [hwell.ancestors_eq_cons hup, hcut.within.ancestors_eq hleft hwell hpresent]
    exact hrun.of_within hcut.within (fun child hchild => ((hcontains child).1 hchild).1)
      (List.forall_mem_cons.2 ⟨hpresent, fun _ => hleft.contains_of_mem_ancestors⟩)
  · rw [hcontains, hcut.contains_iff, ← hleaving, and_assoc]

/-- Removing a node that is present and not the root succeeds. It returns the node and what lies
below it, each once, and takes out these and the longest run of packages, from the parent upward,
that are left without a child. What is left keeps its face and the order of the children that are
left, and references outside the nodes returned keep their standing. Removing the root or an
absent node fails and changes nothing. -/
theorem remove_takes_out_exactly (h : index.Reachable) (id : NodeId) :
    (id ≠ Outline.rootId → index.outline.contains id = true →
      ∃ leaving after run, index.remove id = .ok (leaving, after) ∧
        leaving.Nodup ∧ (∀ other, other ∈ leaving ↔ index.outline.Below other id) ∧
        Emptied index.outline after.outline (index.outline.ancestors id) run ∧
        (∀ other, after.outline.contains other = true ↔
          index.outline.contains other = true ∧ other ∉ leaving ∧ other ∉ run) ∧
        (∀ other left, after.outline.node? other = some left →
          ∃ node, index.outline.node? other = some node ∧ left.SameFace node ∧
            left.children = node.children.filter after.outline.contains) ∧
        ∀ ref, ref.owner ∉ leaving → after.standing ref = index.standing ref) ∧
    (id = Outline.rootId → index.remove id = .error (.invalidInput .rootRemoval)) ∧
    (index.outline.contains id = false → index.remove id = .error (.unknownNode id)) ∧
    (id = Outline.rootId ∨ index.outline.contains id = false →
      (Operation.remove id).run index = index) := by
  have hwell := h.well_formed
  have hroot : id = Outline.rootId → index.remove id = .error (.invalidInput .rootRemoval) :=
    fun hid => by simp only [remove, if_pos hid]
  have hunknown : index.outline.contains id = false → index.remove id = .error (.unknownNode id) := by
    intro hid
    have hne : id ≠ Outline.rootId := by
      rintro rfl
      obtain ⟨root, hroot, -⟩ := hwell.root
      simp [Outline.contains, hroot] at hid
    have hnode : index.outline.node? id = none := by simpa [Outline.contains] using hid
    simp only [remove, if_neg hne, hnode]
  refine ⟨fun hne hid => ?_, hroot, hunknown, ?_⟩
  · obtain ⟨leaving, after, hremove⟩ := exists_remove hne hid
    obtain ⟨-, -, hleaving, -⟩ := remove_eq hwell hremove
    obtain ⟨run, hrun, hcontains⟩ := emptied_of_remove hwell hremove
    have hremoved := removed_of_remove hwell hremove
    refine ⟨leaving, after, run, hremove, nodup_of_remove hwell hremove, hleaving, hrun, hcontains,
      fun other left hleft => ?_, fun ref href => hremoved.kept (mt (hleaving ref.owner).2 href)⟩
    obtain ⟨node, hnode, -, hface, hchildren⟩ := hremoved.trimmed.survivor hleft
    exact ⟨node, hnode, hface, hchildren⟩
  · rintro (hid | hid)
    · simp only [Operation.run, hroot hid]
      rfl
    · simp only [Operation.run, hunknown hid]
      rfl

/-- A file lies deep below the package `a`, another one directly in it; the class in each extends
the one in the other. -/
def nestedPackages : List Operation :=
  [.insertFile
    { path := ⟨"a/b/c/X.java"⟩
      package := "a.b.c"
      imports := ["a.Y"]
      classes := [{ name := "X", supertypes := [.text "Y"], classes := [{ name := "N" }] }] },
   .insertFile
    { path := ⟨"a/Y.java"⟩
      package := "a"
      imports := ["a.b.c.X"]
      classes := [{ name := "Y", supertypes := [.text "X"] }] },
   .resolve .live ⟨8, .supertype 0⟩ none]

/-- The deep file leaves with its classes and with the two packages that are left empty; the
package of the other file stays, and the reference there is as it was. -/
theorem shared_package_stays :
    let index := afterHistory nestedPackages
    index.outline.contains 4 = true ∧
    (index.standing ⟨8, .supertype 0⟩).status = .resolved "a.b.c.X" .declared ∧
    ∃ leaving after run, index.remove 4 = .ok (leaving, after) ∧
      (∀ other, other ∈ leaving ↔ index.outline.Below other 4) ∧
      Emptied index.outline after.outline (index.outline.ancestors 4) run ∧
      (∀ other, other ∈ run ↔ other = 2 ∨ other = 3) ∧
      after.outline.contains 1 = true ∧
      (after.standing ⟨8, .supertype 0⟩).status = .resolved "a.b.c.X" .declared := by
  intro index
  have hid : index.outline.contains 4 = true := by decide +kernel
  have hresolved : (index.standing ⟨8, .supertype 0⟩).status = .resolved "a.b.c.X" .declared := by
    decide +kernel
  have hreachable : index.Reachable := ⟨nestedPackages, rfl⟩
  obtain ⟨leaving, after, run, hremove, -, hleaving, hrun, hcontains, -, hkept⟩ :=
    (remove_takes_out_exactly hreachable 4).1 (by decide) hid
  have hchain : index.outline.ancestors 4 = [3, 2, 1, 0] := by decide +kernel
  have hlist : leaving = [4, 5, 6] := by
    have hrun : (index.remove 4).toOption.map Prod.fst = some [4, 5, 6] := by decide +kernel
    simpa [hremove, Except.toOption] using hrun
  have hleft : (after.outline.contains 0, after.outline.contains 1, after.outline.contains 2,
      after.outline.contains 3) = (true, true, false, false) := by
    have hrun : (index.remove 4).toOption.map (fun result =>
        (result.2.outline.contains 0, result.2.outline.contains 1, result.2.outline.contains 2,
          result.2.outline.contains 3)) = some (true, true, false, false) := by decide +kernel
    simpa [hremove, Except.toOption] using hrun
  simp only [Prod.mk.injEq] at hleft
  obtain ⟨hroot, hshared, hinner, hdeep⟩ := hleft
  refine ⟨hid, hresolved, leaving, after, run, hremove, hleaving, hrun,
    fun other => ⟨fun hother => ?_, ?_⟩, hshared, ?_⟩
  · have hmem := hrun.upward.subset hother
    have hgone := (not_iff_not.2 (hcontains other)).2 (fun h => h.2.2 hother)
    simp only [hchain, List.mem_cons, List.not_mem_nil, or_false] at hmem
    rcases hmem with rfl | rfl | rfl | rfl
    · exact Or.inr rfl
    · exact Or.inl rfl
    · exact absurd hshared hgone
    · exact absurd hroot hgone
  · rintro (rfl | rfl)
    · refine by_contra (fun hrun => ?_)
      have hkept := (hcontains 2).2 ⟨by decide +kernel, by simp [hlist], hrun⟩
      rw [hinner] at hkept
      cases hkept
    · refine by_contra (fun hrun => ?_)
      have hkept := (hcontains 3).2 ⟨by decide +kernel, by simp [hlist], hrun⟩
      rw [hdeep] at hkept
      cases hkept
  · rw [hkept _ (by simp [hlist]), hresolved]

end Index

end CanonicalNames
