import Mathlib.Algebra.BigOperators.Group.Finset.Basic
import Mathlib.Algebra.GroupWithZero.Nat
import Mathlib.Data.Finset.Card
import Mathlib.Logic.Relation
import CanonicalNames.Proofs.Outline.WellFormed

/-!
# What lies below a node

`outline.Below low high` says that `low` is `high` or lies somewhere below it. In a
well-formed outline the nodes below two siblings are apart, so that the number of nodes
below a node is one more than the sum over its children. That sum bounds the walk from a
node: the walk visits the node and then walks from each of its children in turn
(`tour_eq_cons`), and it meets exactly the nodes below (`mem_tour_iff`), each of them once
(`nodup_tour`).
-/

namespace CanonicalNames.Outline

variable {outline : Outline} {id parent child low high other : NodeId} {node above : Node}

/-- The first node is the second one or lies somewhere below it. -/
def Below (outline : Outline) : NodeId → NodeId → Prop :=
  Relation.ReflTransGen (fun child parent => outline.parent? child = some parent)

@[refl] theorem Below.refl (id : NodeId) : outline.Below id id := Relation.ReflTransGen.refl

theorem Below.trans (h : outline.Below low id) (k : outline.Below id high) :
    outline.Below low high := Relation.ReflTransGen.trans h k

/-- What lies below a present node is present. -/
theorem exists_node?_of_below (hnode : outline.node? high = some node)
    (hbelow : outline.Below low high) : ∃ found, outline.node? low = some found := by
  cases hbelow.cases_head with
  | inl heq => exact ⟨node, heq ▸ hnode⟩
  | inr hstep =>
      obtain ⟨_, hstep, _⟩ := hstep
      obtain ⟨found, hfound, _⟩ := Option.bind_eq_some_iff.1 hstep
      exact ⟨found, hfound⟩

namespace WellFormed

/-- The parent of a present node is present and lists it. -/
theorem node?_of_parent? (h : outline.WellFormed) (hparent : outline.parent? id = some parent) :
    ∃ above, outline.node? parent = some above ∧ id ∈ above.children := by
  have hlt := h.parent_lt hparent
  obtain ⟨node, hnode, hup⟩ := Option.bind_eq_some_iff.1 hparent
  obtain ⟨other, above, hother, _, habove, hmem⟩ :=
    h.linked hnode (Nat.ne_of_gt (Nat.lt_of_le_of_lt (Nat.zero_le _) hlt))
  rw [hup, Option.some.injEq] at hother
  exact ⟨above, hother ▸ habove, hmem⟩

theorem contains_of_parent? (h : outline.WellFormed)
    (hparent : outline.parent? id = some parent) : outline.contains parent = true := by
  obtain ⟨above, habove, _⟩ := h.node?_of_parent? hparent
  exact contains_of_node? habove

/-- What has a present node below it is present. -/
theorem exists_node?_of_above (h : outline.WellFormed)
    (hnode : outline.node? low = some node) (hbelow : outline.Below low high) :
    ∃ above, outline.node? high = some above := by
  rcases hbelow.cases_tail with heq | ⟨child, _, hstep⟩
  · exact ⟨node, heq ▸ hnode⟩
  · obtain ⟨above, habove, _⟩ := h.node?_of_parent? hstep
    exact ⟨above, habove⟩

/-- A listed child names its parent. -/
theorem parent?_of_mem_children (h : outline.WellFormed) (hnode : outline.node? id = some node)
    (hchild : child ∈ node.children) : outline.parent? child = some id := by
  obtain ⟨below, hbelow, hparent⟩ := h.child hnode hchild
  exact parent?_of_node? hbelow hparent

/-- Nodes below a node have greater numbers. -/
theorem le_of_below (h : outline.WellFormed) (hbelow : outline.Below low high) : high ≤ low := by
  induction hbelow with
  | refl => exact Nat.le_refl _
  | tail _ hstep ih => exact Nat.le_trans (Nat.le_of_lt (h.parent_lt hstep)) ih

/-- A node other than `high` below it lies below a child. -/
theorem below_iff (h : outline.WellFormed) (hnode : outline.node? high = some node) :
    outline.Below low high ↔ low = high ∨ ∃ child ∈ node.children, outline.Below low child := by
  constructor
  · intro hbelow
    cases hbelow with
    | refl => exact Or.inl rfl
    | tail hbelow hstep =>
        obtain ⟨above, habove, hmem⟩ := h.node?_of_parent? hstep
        rw [hnode, Option.some.injEq] at habove
        exact Or.inr ⟨_, habove ▸ hmem, hbelow⟩
  · rintro (rfl | ⟨child, hchild, hbelow⟩)
    · rfl
    · exact hbelow.tail (h.parent?_of_mem_children hnode hchild)

/-- Nothing lies below two siblings. -/
theorem not_below_sibling (h : outline.WellFormed) (hnode : outline.node? id = some node)
    (hchild : child ∈ node.children) (hother : other ∈ node.children) (hne : child ≠ other)
    (hbelow : outline.Below low child) : ¬ outline.Below low other := by
  -- Of two nodes above one node, one is below the other; a sibling would be below its parent's
  -- child and so have a smaller number than its own parent.
  have hcross : ∀ {first second}, first ∈ node.children → second ∈ node.children →
      first ≠ second → ¬ outline.Below first second := by
    intro first second hfirst hsecond hne hbelow
    rcases hbelow.cases_head with heq | ⟨up, hup, hrest⟩
    · exact hne heq
    · rw [h.parent?_of_mem_children hnode hfirst, Option.some.injEq] at hup
      have hle := h.le_of_below (hup ▸ hrest)
      have hlt := h.parent_lt (h.parent?_of_mem_children hnode hsecond)
      exact Nat.lt_irrefl _ (Nat.lt_of_lt_of_le hlt hle)
  intro hlow
  have hunique : Relator.RightUnique
      (fun child parent => outline.parent? child = some parent) := by
    intro _ _ _ hleft hright
    rw [hleft, Option.some.injEq] at hright
    exact hright
  rcases Relation.ReflTransGen.total_of_right_unique hunique hbelow hlow with hbelow | hbelow
  · exact hcross hchild hother hne hbelow
  · exact hcross hother hchild hne.symm hbelow

end WellFormed

/-! ## How many nodes lie below a node -/

open Classical in
/-- The nodes below a node. -/
noncomputable def span (outline : Outline) (id : NodeId) : Finset NodeId :=
  (Finset.range outline.places.size).filter (fun low => outline.Below low id)

open Classical in
/-- A present node counts itself and what its children count. -/
theorem WellFormed.card_span (h : outline.WellFormed) (hnode : outline.node? id = some node) :
    (outline.span id).card = 1 + (node.children.map (fun child => (outline.span child).card)).sum := by
  have hsplit : outline.span id =
      insert id (node.children.toFinset.biUnion outline.span) := by
    ext low
    simp only [span, Finset.mem_filter, Finset.mem_range, Finset.mem_insert, Finset.mem_biUnion,
      List.mem_toFinset, h.below_iff hnode]
    constructor
    · rintro ⟨hlt, rfl | ⟨child, hchild, hbelow⟩⟩
      · exact Or.inl rfl
      · exact Or.inr ⟨child, hchild, hlt, hbelow⟩
    · rintro (rfl | ⟨child, hchild, hlt, hbelow⟩)
      · exact ⟨lt_size_of_node? hnode, Or.inl rfl⟩
      · exact ⟨hlt, Or.inr ⟨child, hchild, hbelow⟩⟩
  have hself : id ∉ node.children.toFinset.biUnion outline.span := by
    simp only [span, Finset.mem_filter, Finset.mem_biUnion, List.mem_toFinset, not_exists, not_and]
    intro child hchild _ hbelow
    have hle := h.le_of_below hbelow
    have hlt := h.parent_lt (h.parent?_of_mem_children hnode hchild)
    exact Nat.lt_irrefl _ (Nat.lt_of_lt_of_le hlt hle)
  rw [hsplit, Finset.card_insert_of_notMem hself, Finset.card_biUnion]
  · rw [List.sum_toFinset _ (h.nodup hnode), Nat.add_comm]
  · intro child hchild other hother hne
    refine Finset.disjoint_left.2 ?_
    intro low hlow hlow'
    simp only [span, Finset.mem_filter] at hlow hlow'
    exact h.not_below_sibling hnode (List.mem_toFinset.1 hchild) (List.mem_toFinset.1 hother) hne
      hlow.2 hlow'.2

/-! ## Walks -/

/-- The number of nodes at and below the nodes of a list. -/
noncomputable def load (outline : Outline) (ids : List NodeId) : Nat :=
  (ids.map (fun id => (outline.span id).card)).sum

/-- The nodes of a list are present. -/
def AllPresent (outline : Outline) (ids : List NodeId) : Prop :=
  ∀ id ∈ ids, ∃ node, outline.node? id = some node

/-- A walk with steps enough visits a present node and has steps enough to go on. -/
theorem WellFormed.walk_cons (h : outline.WellFormed) {turn : List NodeId → List NodeId}
    (hturn : ∀ ids, (turn ids).Perm ids) {rest : List NodeId} {steps : Nat}
    (hnode : outline.node? id = some node) (hsteps : outline.load (id :: rest) ≤ steps) :
    ∃ fewer, steps = fewer + 1 ∧ outline.load (turn node.children ++ rest) ≤ fewer ∧
      outline.walk turn steps (id :: rest) =
        id :: outline.walk turn fewer (turn node.children ++ rest) := by
  have hsum : outline.load (turn node.children ++ rest) + 1 = outline.load (id :: rest) := by
    have hperm := ((hturn node.children).map (fun child => (outline.span child).card)).sum_nat
    simp only [load, List.map_append, List.map_cons, List.sum_append, List.sum_cons,
      h.card_span hnode, hperm]
    omega
  obtain ⟨fewer, rfl⟩ : ∃ fewer, steps = fewer + 1 := ⟨steps - 1, by omega⟩
  exact ⟨fewer, rfl, by omega, by simp [walk, hnode]⟩

/-- The children of a present node are present. -/
theorem WellFormed.all_present_turn (h : outline.WellFormed) {turn : List NodeId → List NodeId}
    (hturn : ∀ ids, (turn ids).Perm ids) {rest : List NodeId}
    (hnode : outline.node? id = some node) (hrest : outline.AllPresent rest) :
    outline.AllPresent (turn node.children ++ rest) := by
  intro other hother
  rcases List.mem_append.1 hother with hother | hother
  · obtain ⟨below, hbelow, _⟩ := h.child hnode ((hturn _).mem_iff.1 hother)
    exact ⟨below, hbelow⟩
  · exact hrest other hother

/-- A walk from nowhere visits nothing. -/
@[simp] theorem walk_nil (turn : List NodeId → List NodeId) (steps : Nat) :
    outline.walk turn steps [] = [] := by
  cases steps <;> rfl

/-- A list with nothing to visit is empty. -/
theorem WellFormed.eq_nil_of_load (h : outline.WellFormed) {ids : List NodeId}
    (hids : outline.AllPresent ids) (hload : outline.load ids ≤ 0) : ids = [] := by
  cases ids with
  | nil => rfl
  | cons id rest =>
      obtain ⟨node, hnode⟩ := hids id (List.mem_cons_self ..)
      obtain ⟨fewer, hfewer, _⟩ := h.walk_cons (fun ids => List.Perm.refl ids) hnode hload
      cases hfewer

/-- Steps enough are as good as any other number of steps that is enough. -/
theorem WellFormed.walk_congr (h : outline.WellFormed) {turn : List NodeId → List NodeId}
    (hturn : ∀ ids, (turn ids).Perm ids) {first second : Nat} {ids : List NodeId}
    (hids : outline.AllPresent ids) (hfirst : outline.load ids ≤ first)
    (hsecond : outline.load ids ≤ second) :
    outline.walk turn first ids = outline.walk turn second ids := by
  induction first generalizing second ids with
  | zero =>
      obtain rfl := h.eq_nil_of_load hids hfirst
      simp
  | succ first ih =>
      cases ids with
      | nil => simp
      | cons id rest =>
          obtain ⟨node, hnode⟩ := hids id (List.mem_cons_self ..)
          have hrest : outline.AllPresent rest :=
            fun other hother => hids other (List.mem_cons_of_mem _ hother)
          obtain ⟨fewer, hfewer, hload, hwalk⟩ := h.walk_cons hturn hnode hfirst
          obtain ⟨fewer', _, hload', hwalk'⟩ := h.walk_cons hturn hnode hsecond
          obtain rfl : first = fewer := Nat.succ.inj hfewer
          rw [hwalk, hwalk', ih (h.all_present_turn hturn hnode hrest) hload hload']

/-- A walk from a list that has steps enough walks from its parts one after the other. -/
theorem WellFormed.walk_append (h : outline.WellFormed) {turn : List NodeId → List NodeId}
    (hturn : ∀ ids, (turn ids).Perm ids) {steps first second : Nat} {left right : List NodeId}
    (hleft : outline.AllPresent left) (hright : outline.AllPresent right)
    (hsteps : outline.load (left ++ right) ≤ steps) (hfirst : outline.load left ≤ first)
    (hsecond : outline.load right ≤ second) :
    outline.walk turn steps (left ++ right) =
      outline.walk turn first left ++ outline.walk turn second right := by
  induction steps generalizing first left with
  | zero =>
      have hids : outline.AllPresent (left ++ right) :=
        fun id hid => (List.mem_append.1 hid).elim (hleft id) (hright id)
      have hnil := h.eq_nil_of_load hids hsteps
      obtain ⟨rfl, rfl⟩ := List.append_eq_nil_iff.1 hnil
      simp
  | succ steps ih =>
      cases left with
      | nil => simpa using h.walk_congr hturn hright hsteps hsecond
      | cons id rest =>
          obtain ⟨node, hnode⟩ := hleft id (List.mem_cons_self ..)
          have hrest : outline.AllPresent rest :=
            fun other hother => hleft other (List.mem_cons_of_mem _ hother)
          rw [List.cons_append] at hsteps ⊢
          obtain ⟨fewer, _, hload, hwalk⟩ := h.walk_cons hturn hnode hfirst
          obtain ⟨fewer', hfewer', hload', hwalk'⟩ := h.walk_cons hturn hnode hsteps
          obtain rfl : steps = fewer' := Nat.succ.inj hfewer'
          rw [← List.append_assoc] at hload' hwalk'
          rw [hwalk', hwalk, ih (h.all_present_turn hturn hnode hrest) hload' hload]
          rfl

/-- The nodes at and below a node, in the order that `turn` gives to children. -/
def tour (outline : Outline) (turn : List NodeId → List NodeId) (id : NodeId) : List NodeId :=
  outline.walk turn (outline.places.size + 1) [id]

/-- The number of places is steps enough for the walk from one node. -/
theorem load_singleton_le (id : NodeId) : outline.load [id] ≤ outline.places.size := by
  classical
  have hcard := Finset.card_le_card
    (Finset.filter_subset (fun low => outline.Below low id) (Finset.range outline.places.size))
  simpa [load, span] using hcard

/-- A tour visits a node and then makes a tour from each of its children. -/
theorem WellFormed.tour_eq_cons (h : outline.WellFormed) {turn : List NodeId → List NodeId}
    (hturn : ∀ ids, (turn ids).Perm ids) (hnode : outline.node? id = some node) :
    outline.tour turn id = id :: (turn node.children).flatMap (outline.tour turn) := by
  have hparts : ∀ {ids steps}, outline.AllPresent ids → outline.load ids ≤ steps →
      outline.walk turn steps ids = ids.flatMap (outline.tour turn) := by
    intro ids
    induction ids with
    | nil => simp
    | cons first rest ih =>
        intro steps hids hload
        have hrest : outline.AllPresent rest :=
          fun other hother => hids other (List.mem_cons_of_mem _ hother)
        have hfirst : outline.AllPresent [first] := by
          intro other hother
          obtain rfl := List.mem_singleton.1 hother
          exact hids other (List.mem_cons_self ..)
        rw [← List.singleton_append, List.flatMap_append,
          h.walk_append hturn hfirst hrest hload
            (Nat.le_succ_of_le (load_singleton_le first)) (Nat.le_refl _),
          ih hrest (Nat.le_refl _)]
        simp [tour]
  obtain ⟨fewer, hfewer, hload, hwalk⟩ := h.walk_cons hturn hnode
    (Nat.le_succ_of_le (load_singleton_le id))
  have hpresent : outline.AllPresent (turn node.children ++ []) :=
    h.all_present_turn hturn hnode (by simp [AllPresent])
  rw [tour, hwalk, hparts hpresent hload, List.append_nil]

/-- Induction from the children of a node to the node. -/
theorem WellFormed.induction_on_children (h : outline.WellFormed) {motive : NodeId → Prop}
    (step : ∀ id node, outline.node? id = some node → (∀ child ∈ node.children, motive child) →
      motive id) (hnode : outline.node? id = some node) : motive id := by
  induction hdistance : outline.places.size - id using Nat.strong_induction_on
    generalizing id node with
  | _ distance ih =>
      refine step id node hnode (fun child hchild => ?_)
      obtain ⟨below, hbelow, _⟩ := h.child hnode hchild
      have hlt := h.parent_lt (h.parent?_of_mem_children hnode hchild)
      have hcloser : outline.places.size - child < distance :=
        hdistance ▸ Nat.sub_lt_sub_left (Nat.lt_trans hlt (lt_size_of_node? hbelow)) hlt
      exact ih (outline.places.size - child) hcloser hbelow rfl

/-- A tour meets exactly the nodes below its start. -/
theorem WellFormed.mem_tour_iff (h : outline.WellFormed) {turn : List NodeId → List NodeId}
    (hturn : ∀ ids, (turn ids).Perm ids) (hnode : outline.node? high = some node) :
    low ∈ outline.tour turn high ↔ outline.Below low high := by
  refine h.induction_on_children (motive := fun high => low ∈ outline.tour turn high ↔
    outline.Below low high) ?_ hnode
  intro high node hnode ih
  rw [h.tour_eq_cons hturn hnode, h.below_iff hnode, List.mem_cons, List.mem_flatMap]
  refine or_congr_right ⟨?_, ?_⟩
  · rintro ⟨child, hchild, hlow⟩
    have hchild := (hturn _).mem_iff.1 hchild
    exact ⟨child, hchild, (ih child hchild).1 hlow⟩
  · rintro ⟨child, hchild, hbelow⟩
    exact ⟨child, (hturn _).mem_iff.2 hchild, (ih child hchild).2 hbelow⟩

/-- A tour visits no node twice. -/
theorem WellFormed.nodup_tour (h : outline.WellFormed) {turn : List NodeId → List NodeId}
    (hturn : ∀ ids, (turn ids).Perm ids) (hnode : outline.node? id = some node) :
    (outline.tour turn id).Nodup := by
  refine h.induction_on_children (motive := fun id => (outline.tour turn id).Nodup) ?_ hnode
  intro id node hnode ih
  have hmem : ∀ {child low}, child ∈ turn node.children → low ∈ outline.tour turn child →
      child ∈ node.children ∧ outline.Below low child := by
    intro child low hchild hlow
    have hchild := (hturn _).mem_iff.1 hchild
    obtain ⟨below, hbelow, -⟩ := h.child hnode hchild
    exact ⟨hchild, (h.mem_tour_iff hturn hbelow).1 hlow⟩
  rw [h.tour_eq_cons hturn hnode, List.nodup_cons, List.nodup_flatMap]
  refine ⟨fun hself => ?_, fun child hchild => ih child ((hturn _).mem_iff.1 hchild), ?_⟩
  · -- A node below a child has a greater number.
    obtain ⟨child, hchild, hlow⟩ := List.mem_flatMap.1 hself
    obtain ⟨hchild, hbelow⟩ := hmem hchild hlow
    have hle := h.le_of_below hbelow
    have hlt := h.parent_lt (h.parent?_of_mem_children hnode hchild)
    exact Nat.lt_irrefl _ (Nat.lt_of_lt_of_le hlt hle)
  · have hnodup : (turn node.children).Nodup := (hturn _).nodup_iff.2 (h.nodup hnode)
    refine hnodup.imp_of_mem (fun {child sibling} hchild hsibling hne low hlow hlow' => ?_)
    obtain ⟨hchild, hbelow⟩ := hmem hchild hlow
    obtain ⟨hsibling, hbelow'⟩ := hmem hsibling hlow'
    exact h.not_below_sibling hnode hchild hsibling hne hbelow hbelow'

/-! ## Preorder -/

/-- In preorder come a node and then, child by child, what is below it. -/
theorem WellFormed.preorder_eq_cons (h : outline.WellFormed)
    (hnode : outline.node? id = some node) :
    outline.preorder id = id :: node.children.flatMap outline.preorder :=
  h.tour_eq_cons (fun ids => List.Perm.refl ids) hnode

/-- Nothing is met from a node that is not present. -/
theorem preorder_eq_nil (habsent : outline.node? id = none) : outline.preorder id = [] := by
  simp [preorder, walk, habsent]

/-- Preorder meets the present nodes below a node, whether it is itself present or not. -/
theorem WellFormed.mem_preorder_iff (h : outline.WellFormed) :
    low ∈ outline.preorder id ↔ outline.Below low id ∧ ∃ node, outline.node? low = some node := by
  rcases hnode : outline.node? id with _ | node
  · refine iff_of_false (by simp [preorder_eq_nil hnode]) ?_
    intro ⟨hbelow, found, hfound⟩
    obtain ⟨above, habove⟩ := h.exists_node?_of_above hfound hbelow
    rw [hnode] at habove
    cases habove
  · have hmem : low ∈ outline.preorder id ↔ outline.Below low id :=
      h.mem_tour_iff (fun ids => List.Perm.refl ids) hnode
    rw [hmem]
    exact ⟨fun hbelow => ⟨hbelow, exists_node?_of_below hnode hbelow⟩, And.left⟩

/-- Preorder meets no node twice. -/
theorem WellFormed.nodup_preorder (h : outline.WellFormed) (id : NodeId) :
    (outline.preorder id).Nodup := by
  rcases hnode : outline.node? id with _ | node
  · rw [preorder_eq_nil hnode]
    exact List.nodup_nil
  · exact h.nodup_tour (fun ids => List.Perm.refl ids) hnode

theorem WellFormed.mem_methods_under_iff (h : outline.WellFormed) :
    low ∈ outline.methodsUnder id ↔
      outline.Below low id ∧ outline.kind? low = some .method := by
  rw [methodsUnder, List.mem_filter, h.mem_preorder_iff, beq_iff_eq]
  constructor
  · intro ⟨⟨hbelow, _⟩, hkind⟩
    exact ⟨hbelow, hkind⟩
  · intro ⟨hbelow, hkind⟩
    obtain ⟨node, hnode, _⟩ := Option.map_eq_some_iff.1 hkind
    exact ⟨⟨hbelow, node, hnode⟩, hkind⟩

/-! ## Two outlines with the same nodes below a node -/

/-- The nodes below `top` have the same face and the same children in another outline. -/
def SameBelow (outline after : Outline) (top : NodeId) : Prop :=
  ∀ ⦃low node⦄, outline.Below low top → outline.node? low = some node →
    ∃ left, after.node? low = some left ∧ left.SameFace node ∧ left.children = node.children

/-- What is the same below a node is the same below every node there. -/
theorem SameBelow.mono {after : Outline} (h : outline.SameBelow after high)
    (hbelow : outline.Below low high) : outline.SameBelow after low :=
  fun _ _ hlow hnode => h (hlow.trans hbelow) hnode

/-- A tour meets the same nodes where the nodes below are the same. -/
theorem SameBelow.tour_eq {after : Outline} (hwell : outline.WellFormed)
    (hwell' : after.WellFormed) {turn : List NodeId → List NodeId}
    (hturn : ∀ ids, (turn ids).Perm ids) (h : outline.SameBelow after id)
    (hnode : outline.node? id = some node) : after.tour turn id = outline.tour turn id := by
  refine hwell.induction_on_children (motive := fun id => outline.SameBelow after id →
    after.tour turn id = outline.tour turn id) ?_ hnode h
  intro id node hnode ih h
  obtain ⟨left, hleft, _, hchildren⟩ := h (.refl id) hnode
  rw [hwell.tour_eq_cons hturn hnode, hwell'.tour_eq_cons hturn hleft, hchildren]
  congr 1
  refine List.flatMap_congr ?_
  intro child hchild
  have hmem := (hturn _).mem_iff.1 hchild
  exact ih child hmem (h.mono (.single (hwell.parent?_of_mem_children hnode hmem)))

end CanonicalNames.Outline
