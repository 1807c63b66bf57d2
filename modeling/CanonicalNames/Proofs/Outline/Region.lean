import CanonicalNames.Proofs.Resolution.Chain

/-!
# What a file's meanings depend on

The frames around a node end at its file, so that the meaning of a reference, given which
class paths are known, depends on the nodes below its file only. Two outlines with the same
nodes below a file give its references the same meanings (`SameBelow.meaning_in_eq`).
-/

namespace CanonicalNames.Outline

variable {outline after : Outline} {settled : RefId → Option Meaning} {top id low : NodeId}
  {node : Node} {ref : RefId}

/-- The meaning of a reference when given class paths are known. -/
def meaningIn (outline : Outline) (known : String → Bool) (ref : RefId) : Option Meaning :=
  (outline.use? ref).bind (fun use =>
    Meaning.canon known (outline.chain (fun _ => none) (outline.home ref)) { name := use.name })

/-- The meaning of a reference is that where the class paths of its outline are known. -/
theorem meaning_in_knows (outline : Outline) :
    outline.meaningIn outline.knows = outline.meaning (fun _ => none) := rfl

/-- A node is seen the same where the nodes below are the same. -/
theorem SameBelow.same_node (h : outline.SameBelow after top) (hlow : outline.Below low top)
    (hnode : outline.node? low = some node) :
    after.element? low = outline.element? low ∧ after.kind? low = outline.kind? low ∧
      after.path? low = outline.path? low ∧ after.owner? low = outline.owner? low := by
  obtain ⟨left, hleft, hface, _⟩ := h hlow hnode
  refine ⟨?_, ?_, ?_, ?_⟩
  · rw [element?_of_node? hleft, element?_of_node? hnode, hface.element?]
  · simp [kind?, hleft, hnode, hface.kind]
  · simp [path?, hleft, hnode, hface.path]
  · simp [owner?, hleft, hnode, hface.kind, hface.parent]

theorem SameBelow.use?_eq (h : outline.SameBelow after top) (hlow : outline.Below ref.owner top)
    (hnode : outline.node? ref.owner = some node) : after.use? ref = outline.use? ref := by
  simp [use?, (h.same_node hlow hnode).1]

/-- Type parameters are the same where the nodes below are the same. -/
theorem SameBelow.params_of_eq (hwell : outline.WellFormed) (h : outline.SameBelow after top)
    (hlow : outline.Below low top) (hnode : outline.node? low = some node) :
    after.paramsOf settled low = outline.paramsOf settled low := by
  obtain ⟨left, hleft, _, hchildren⟩ := h hlow hnode
  have hsame : ∀ child ∈ node.children, after.element? child = outline.element? child ∧
      after.kind? child = outline.kind? child := by
    intro child hchild
    obtain ⟨below, hbelow, _⟩ := hwell.child hnode hchild
    have hstep : outline.Below child low := .single (hwell.parent?_of_mem_children hnode hchild)
    exact ⟨(h.same_node (hstep.trans hlow) hbelow).1, (h.same_node (hstep.trans hlow) hbelow).2.1⟩
  simp only [paramsOf, typeParameters, childrenOfKind, hleft, hnode, hchildren]
  have hkinds : node.children.filter (fun child => after.kind? child == some .typeParameter) =
      node.children.filter (fun child => outline.kind? child == some .typeParameter) :=
    List.filter_congr (fun child hchild => by rw [(hsame child hchild).2])
  rw [hkinds]
  refine List.filterMap_congr (fun child hchild => ?_)
  simp only [paramAt?, (hsame child (List.mem_filter.1 hchild).1).1]

/-- The frames around a node below a file are the same where the nodes below the file are. -/
theorem SameBelow.chain_eq (hwell : outline.WellFormed) (hwell' : after.WellFormed)
    (h : outline.SameBelow after top) (hroot : outline.owner? top = none)
    (hlow : outline.Below low top) (hnode : outline.node? low = some node) :
    after.chain settled low = outline.chain settled low := by
  induction low using hwell.induction_on_owner generalizing node with
  | step low ih =>
      obtain ⟨helement, _, _, howner⟩ := h.same_node hlow hnode
      obtain ⟨left, hleft, hface, _⟩ := h hlow hnode
      rcases hcase : node.element? with _ | element
      · rw [hwell.chain_eq_nil (by rw [element?_of_node? hnode, hcase]),
          hwell'.chain_eq_nil (by rw [element?_of_node? hleft, hface.element?, hcase])]
      · rw [hwell.chain_eq_cons hnode hcase,
          hwell'.chain_eq_cons hleft (by rw [hface.element?, hcase]), howner, hface.path]
        have hframe : after.frameOf settled low node.path element =
            outline.frameOf settled low node.path element := by
          cases element <;> simp [frameOf, h.params_of_eq hwell hlow hnode]
        rw [hframe]
        rcases hup : outline.owner? low with _ | up
        · rfl
        · rcases hlow.cases_head with heq | ⟨up', hstep, hrest⟩
          · rw [heq, hroot] at hup
            cases hup
          · rw [parent?_of_owner? hup, Option.some.injEq] at hstep
            subst hstep
            obtain ⟨above, habove, _⟩ := hwell.node?_of_parent? (parent?_of_owner? hup)
            rw [Option.elim_some, Option.elim_some, ih up hup hrest habove]

/-- A node with type uses lies inside a file and has an owner. -/
theorem owned_of_use? {use : TypeUse} (huse : outline.use? ref = some use) :
    ∃ node, outline.node? ref.owner = some node ∧ node.kind.isOwned = true := by
  obtain ⟨element, helement, hslot⟩ := Option.bind_eq_some_iff.1 huse
  obtain ⟨node, hnode, hat⟩ := Option.bind_eq_some_iff.1 helement
  refine ⟨node, hnode, ?_⟩
  rw [kind_of_element? hat]
  cases element with
  | file => simp [Element.use?] at hslot
  | _ => rfl

/-- The home of a reference inside a file lies in the file. -/
theorem WellFormed.below_home (hwell : outline.WellFormed) (hroot : outline.owner? top = none)
    (hlow : outline.Below ref.owner top) {use : TypeUse} (huse : outline.use? ref = some use) :
    outline.Below (outline.home ref) top := by
  obtain ⟨node, hnode, howned⟩ := owned_of_use? huse
  obtain ⟨up, _, hup, _⟩ := hwell.exists_owner hnode howned
  have hhome : outline.Below up top := by
    rcases hlow.cases_head with heq | ⟨up', hstep, hrest⟩
    · rw [heq, hroot] at hup
      cases hup
    · rw [parent?_of_owner? hup, Option.some.injEq] at hstep
      exact hstep ▸ hrest
  unfold home
  split
  · exact hlow
  · rw [hup]
    exact hhome
  · rw [hup]
    exact hhome

/-- Meanings are the same where the nodes below the file are the same. -/
theorem SameBelow.meaning_in_eq (hwell : outline.WellFormed) (hwell' : after.WellFormed)
    (h : outline.SameBelow after top) (hroot : outline.owner? top = none)
    (hlow : outline.Below ref.owner top) {use : TypeUse} (huse : outline.use? ref = some use)
    (known : String → Bool) : after.meaningIn known ref = outline.meaningIn known ref := by
  obtain ⟨node, hnode, _⟩ := owned_of_use? huse
  have hhome : after.home ref = outline.home ref := by
    simp only [home, (h.same_node hlow hnode).2.2.2]
  have hbelow := hwell.below_home hroot hlow huse
  obtain ⟨above, habove⟩ := hwell.exists_node?_of_above hnode hlow
  obtain ⟨found, hfound⟩ := exists_node?_of_below habove hbelow
  rw [meaningIn, meaningIn, h.use?_eq hlow hnode, hhome,
    h.chain_eq hwell hwell' hroot hbelow hfound]

/-- The methods in a file are the same where the nodes below are the same. -/
theorem SameBelow.methods_under_eq (hwell : outline.WellFormed) (hwell' : after.WellFormed)
    (h : outline.SameBelow after top) (hnode : outline.node? top = some node) :
    after.methodsUnder top = outline.methodsUnder top := by
  have htour : after.preorder top = outline.preorder top :=
    h.tour_eq hwell hwell' (fun ids => List.Perm.refl ids) hnode
  unfold methodsUnder
  rw [htour]
  refine List.filter_congr (fun low hlow => ?_)
  have hbelow := (hwell.mem_tour_iff (fun ids => List.Perm.refl ids) hnode).1 hlow
  obtain ⟨found, hfound⟩ := exists_node?_of_below hnode hbelow
  rw [(h.same_node hbelow hfound).2.1]

end CanonicalNames.Outline
