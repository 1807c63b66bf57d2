import CanonicalNames.Proofs.Outline.Lookup
import CanonicalNames.Proofs.Resolution.Meaning
import CanonicalNames.Proofs.Resolution.Query

/-!
# Meanings in an outline

The elements around a node of an outline form a chain of frames. `Outline.meaning` is the
meaning of a reference inside the chain from which it is asked for, its home. For acyclic
bounds the meaning of a reference is what its queries answer with the meanings of the
references that they ask for (`WellFormed.meaning_eq`), and those references have a smaller
rank (`Asked.rank_lt`).
-/

namespace CanonicalNames

namespace Outline

/-- Whether there is a class with a path. -/
def knows (outline : Outline) (path : String) : Bool :=
  (outline.lookupType? path).isSome

/-- The node from which a reference is asked for: a return type from its method, a bound or a
supertype from the owner of the element that holds it. -/
def home (outline : Outline) (ref : RefId) : NodeId :=
  match ref.slot with
  | .returnType => ref.owner
  | .bound _ => (outline.owner? ref.owner).getD ref.owner
  | .supertype _ => (outline.owner? ref.owner).getD rootId

section Frames

variable (outline : Outline) (settled : RefId → Option Meaning)

/-- The type named at an address. -/
def linkAt (ref : RefId) (use : TypeUse) : Link :=
  { name := use.name, settled := settled ref }

/-- The first bound in a list of bounds. -/
def boundAt (id : NodeId) (bounds : List TypeUse) : Option Link :=
  bounds.head?.map (linkAt settled ⟨id, .bound 0⟩)

/-- A node as a type parameter. -/
def paramAt? (id : NodeId) : Option Param :=
  match outline.element? id with
  | some (.typeParameter name bounds) => some { name, bound := boundAt settled id bounds }
  | _ => none

/-- The type parameters of a node. -/
def paramsOf (owner : NodeId) : List Param :=
  (outline.typeParameters owner).filterMap (outline.paramAt? settled)

/-- An element that stands in a node with a path, as a frame. -/
def frameOf (id : NodeId) (path : String) : Element → Frame
  | .method _ _ => .method (outline.paramsOf settled id)
  | .typeParameter name bounds => .typeParameter { name, bound := boundAt settled id bounds }
  | .classDecl name supertypes =>
    .classDecl name path (outline.paramsOf settled id)
      (supertypes.mapIdx (fun position => linkAt settled ⟨id, .supertype position⟩))
  | .file _ package imports => .file package imports

/-- A node as a frame; packages and the root are none. -/
def frameAt? (id : NodeId) : Option Frame :=
  (outline.node? id).bind (fun node => node.element?.map (outline.frameOf settled id node.path))

/-- The frames around a node, from the inside out. -/
def chain (anchor : NodeId) : List Frame :=
  (outline.frames anchor).filterMap (outline.frameAt? settled)

/-- The meaning of a reference, where `settled` gives the meaning of some beforehand. -/
def meaning (ref : RefId) : Option Meaning :=
  (outline.use? ref).bind (fun use =>
    Meaning.canon outline.knows (outline.chain settled (outline.home ref)) (linkAt settled ref use))

/-- No owner of type parameters has bounds that lead back. -/
def AcyclicBounds : Prop :=
  ∀ owner, Meaning.Acyclic (outline.paramsOf settled owner)

end Frames

/-- The meaning that a hit gives a reference. -/
def hitMeaning (outline : Outline) (hit : Hit) : Meaning :=
  { canonical := (outline.outcome hit).1, origin := (outline.outcome hit).2.1 }

variable {outline : Outline} {settled : RefId → Option Meaning} {id owner anchor : NodeId}
  {node : Node} {name : String}

/-! ## Owners -/

/-- An element inside a file has an owner, which is present. -/
theorem WellFormed.exists_owner (h : outline.WellFormed) (hnode : outline.node? id = some node)
    (howned : node.kind.isOwned = true) :
    ∃ up above, outline.owner? id = some up ∧ outline.node? up = some above := by
  have hid : id ≠ rootId := by
    rintro rfl
    obtain ⟨root, hroot, hcontent, _⟩ := h.root
    rw [hnode, Option.some.injEq] at hroot
    rw [hroot, Node.kind, hcontent] at howned
    cases howned
  obtain ⟨up, above, hparent, _, habove, _⟩ := h.linked hnode hid
  exact ⟨up, above, by simp [owner?, hnode, howned, hparent], habove⟩

/-- The owner of a type parameter is the node that lists it. -/
theorem WellFormed.owner?_of_mem_type_parameters (h : outline.WellFormed)
    (hid : id ∈ outline.typeParameters owner) : outline.owner? id = some owner := by
  unfold typeParameters childrenOfKind at hid
  split at hid
  · next node hnode =>
      obtain ⟨hmem, hkind⟩ := List.mem_filter.1 hid
      obtain ⟨below, hbelow, hparent⟩ := h.child hnode hmem
      simp only [kind?, hbelow, Option.map_some, beq_iff_eq, Option.some.injEq] at hkind
      simp [owner?, hbelow, hkind, Kind.isOwned, hparent]
  · cases hid

theorem element?_of_node? (hnode : outline.node? id = some node) :
    outline.element? id = node.element? := by
  simp [element?, hnode]

/-- An element is the content of its node. -/
theorem kind_of_element? {element : Element} (h : node.element? = some element) :
    node.kind = element.kind := by
  rcases hcontent : node.content with _ | _ | found <;>
    simp_all [Node.element?, Content.element?, Node.kind, Content.kind]

/-- The frames around an element are its own and those around its owner. -/
theorem WellFormed.chain_eq_cons (h : outline.WellFormed) (hnode : outline.node? id = some node)
    {element : Element} (helement : node.element? = some element) :
    outline.chain settled id =
      outline.frameOf settled id node.path element ::
        (outline.owner? id).elim [] (outline.chain settled) := by
  have hframe : outline.frameAt? settled id =
      some (outline.frameOf settled id node.path element) := by
    simp [frameAt?, hnode, helement]
  unfold chain
  rw [h.frames_eq_cons, List.filterMap_cons_some hframe]
  cases outline.owner? id <;> rfl

/-- Without an element there is no owner. -/
theorem owner?_eq_none (helement : outline.element? id = none) : outline.owner? id = none := by
  unfold owner?
  split
  · next node hnode =>
      rw [element?_of_node? hnode] at helement
      have hkind : node.kind.isOwned = false := by
        rcases hcontent : node.content with _ | _ | element
        · simp [Node.kind, hcontent, Content.kind, Kind.isOwned]
        · simp [Node.kind, hcontent, Content.kind, Kind.isOwned]
        · simp [Node.element?, hcontent, Content.element?] at helement
      simp [hkind]
  · rfl

/-- Without an element there is no frame. -/
theorem WellFormed.chain_eq_nil (h : outline.WellFormed)
    (helement : outline.element? id = none) : outline.chain settled id = [] := by
  have hframe : outline.frameAt? settled id = none := by
    rcases hnode : outline.node? id with _ | node
    · simp [frameAt?, hnode]
    · rw [element?_of_node? hnode] at helement
      simp [frameAt?, hnode, helement]
  rw [chain, h.frames_eq_cons, owner?_eq_none helement, List.filterMap_cons_none hframe]
  rfl

/-- A node is an element with frames around it, or has no frames. -/
theorem node_cases (outline : Outline) (id : NodeId) :
    (∃ node element, outline.node? id = some node ∧ node.element? = some element) ∨
      outline.element? id = none := by
  rcases hnode : outline.node? id with _ | node
  · exact Or.inr (by simp [element?, hnode])
  · rcases helement : node.element? with _ | element
    · exact Or.inr (by rw [element?_of_node? hnode, helement])
    · exact Or.inl ⟨node, element, rfl, helement⟩

/-- Induction from the owner of an element to the element. -/
theorem WellFormed.induction_on_owner (h : outline.WellFormed) {motive : NodeId → Prop}
    (step : ∀ id, (∀ up, outline.owner? id = some up → motive up) → motive id) (id : NodeId) :
    motive id := by
  induction id using Nat.strong_induction_on with
  | _ id ih => exact step id (fun up hup => ih up (h.parent_lt (parent?_of_owner? hup)))

end Outline

/-! ## Answers -/

/-- What a query finds when references mean what `meanings` says. -/
def Query.answer (outline : Outline) (meanings : RefId → Option Meaning) : Query → Option Meaning
  | .settled hit => hit.map outline.hitMeaning
  | .asking ref _ read => (meanings ref).bind (fun meaning =>
    (read meaning.canonical none).map outline.hitMeaning)

@[simp] theorem Query.answer_settled (outline : Outline) (meanings : RefId → Option Meaning)
    (hit : Option Hit) :
    (Query.settled hit).answer outline meanings = hit.map outline.hitMeaning := rfl

namespace Outline

open Meaning (canon)

variable {outline : Outline} {settled : RefId → Option Meaning} {id owner param : NodeId}
  {node : Node} {name : String}

/-- A class that is found means its path. -/
theorem WellFormed.map_declared (h : outline.WellFormed) (path : String) :
    (Scope.declared outline path).map outline.hitMeaning = Meaning.declared outline.knows path := by
  unfold Scope.declared Meaning.declared knows
  rcases hfound : outline.lookupType? path with _ | found
  · rfl
  · have hpath := h.path?_of_lookup_type? hfound
    simp [hitMeaning, outcome, hpath]

theorem map_builtin (name : String) :
    (Scope.builtin name).map outline.hitMeaning = Meaning.builtin name := by
  have hkeyword : (Dotted.isSingle name && isPrimitive name) = true ↔ IsKeyword name := by
    rw [Bool.and_eq_true, is_primitive_iff]
    exact ⟨And.right, fun h => ⟨h.single, h⟩⟩
  unfold Scope.builtin Meaning.builtin
  by_cases h : IsKeyword name
  · rw [if_pos h, if_pos (hkeyword.2 h)]
    rfl
  · rw [if_neg h, if_neg (mt hkeyword.1 h)]
    rfl

theorem WellFormed.map_single_import (h : outline.WellFormed) (imports : List Import)
    (name : String) : (Scope.singleImport outline imports name).map outline.hitMeaning =
      Meaning.ofSingleImport outline.knows imports name := by
  unfold Scope.singleImport Meaning.ofSingleImport
  rw [Option.map_map]
  congr 1
  funext i
  simp only [Function.comp_apply, ← h.map_declared]
  cases Scope.declared outline (Dotted.replaceFirst name i.path) <;> rfl

theorem WellFormed.map_wildcard_import (h : outline.WellFormed) (imports : List Import)
    (name : String) : (Scope.wildcardImport outline imports name).map outline.hitMeaning =
      Meaning.ofWildcardImport outline.knows imports name := by
  unfold Scope.wildcardImport Meaning.ofWildcardImport
  rw [List.map_findSome?]
  refine Meaning.find_some?_congr _ (fun i _ => ?_)
  exact h.map_declared (Dotted.join i.path name)

/-- A type parameter that has the name means what its first bound means to its owner. -/
theorem answer_parameter_query {paramName : String} {bounds : List TypeUse}
    (helement : outline.element? param = some (.typeParameter paramName bounds))
    (howner : outline.owner? param = some owner) :
    (Scope.parameterQuery outline name param).answer outline (outline.meaning settled) =
      if Dotted.isSingle name && paramName == name then
        Meaning.ofParam (canon outline.knows) (outline.chain settled owner)
          { name := paramName, bound := boundAt settled param bounds }
      else none := by
  unfold Scope.parameterQuery
  simp only [helement]
  split
  · cases bounds with
    | nil => rfl
    | cons bound rest =>
        have huse : outline.use? ⟨param, .bound 0⟩ = some bound := by
          simp [use?, helement, Element.use?]
        simp only [List.isEmpty_cons, Bool.false_eq_true, if_false, Query.answer, meaning, huse,
          Option.bind_some, home, howner, Option.getD_some, Meaning.ofParam, boundAt,
          List.head?_cons, Option.map_some]
        cases canon outline.knows (outline.chain settled owner)
          (linkAt settled ⟨param, .bound 0⟩ bound) <;> rfl
  · rfl

/-- The first type parameter with a name is that of the first node with the name. -/
theorem first?_params_of (owner : NodeId) (name : String) :
    Param.first? (outline.paramsOf settled owner) name =
      ((outline.typeParameters owner).find? (Scope.isParameterNamed outline name)).bind
        (outline.paramAt? settled) := by
  unfold paramsOf
  induction outline.typeParameters owner with
  | nil => rfl
  | cons first rest ih =>
      have hother : ∀ {element}, outline.element? first = element →
          (∀ paramName bounds, element ≠ some (.typeParameter paramName bounds)) →
          outline.paramAt? settled first = none ∧
            Scope.isParameterNamed outline name first = false := by
        intro element helement hne
        rcases element with _ | (_ | _ | _ | ⟨paramName, bounds⟩)
        case some.typeParameter => exact absurd rfl (hne paramName bounds)
        all_goals simp [paramAt?, Scope.isParameterNamed, helement]
      rcases helement : outline.element? first with _ | element
      · obtain ⟨hnone, hfalse⟩ := hother helement (fun _ _ h => by cases h)
        rw [List.filterMap_cons_none hnone, List.find?_cons_of_neg (by simp [hfalse]), ih]
      · cases element with
        | typeParameter paramName bounds =>
            have hparam : outline.paramAt? settled first =
                some { name := paramName, bound := boundAt settled first bounds } := by
              simp [paramAt?, helement]
            rw [List.filterMap_cons_some hparam]
            by_cases hname : paramName = name
            · subst hname
              simp [Param.first?, Scope.isParameterNamed, helement, hparam]
            · simpa [Param.first?, Scope.isParameterNamed, helement, hname] using ih
        | _ =>
            obtain ⟨hnone, hfalse⟩ := hother helement (fun _ _ h => by cases h)
            rw [List.filterMap_cons_none hnone, List.find?_cons_of_neg (by simp [hfalse]), ih]

/-- The type parameters of a node answer with the first one that has the name. -/
theorem WellFormed.answer_parameters_query (h : outline.WellFormed) :
    (Scope.parametersQuery outline name owner).answer outline (outline.meaning settled) =
      Meaning.ofParams (canon outline.knows) (outline.chain settled owner)
        (outline.paramsOf settled owner) name := by
  unfold Scope.parametersQuery Meaning.ofParams
  rw [first?_params_of]
  rcases hfound : (outline.typeParameters owner).find? (Scope.isParameterNamed outline name)
    with _ | param
  · simp [Query.answer]
  · have howner := h.owner?_of_mem_type_parameters (List.mem_of_find?_eq_some hfound)
    have hnamed := List.find?_some hfound
    unfold Scope.isParameterNamed at hnamed
    split at hnamed
    · next paramName bounds helement =>
        simp [answer_parameter_query helement howner, paramAt?, helement, hnamed]
    · cases hnamed

/-- A supertype answers with the name below what the supertype means to the owner of the
class. -/
theorem answer_supertype_query (h : outline.WellFormed) {className : String}
    {supertypes : List TypeUse}
    (helement : outline.element? id = some (.classDecl className supertypes))
    (howner : outline.owner? id = some owner) {position : Nat} {use : TypeUse}
    (huse : supertypes[position]? = some use) :
    (Scope.supertypeQuery outline name id position).answer outline (outline.meaning settled) =
      Meaning.ofSupertype outline.knows (canon outline.knows) (outline.chain settled owner) name
        (linkAt settled ⟨id, .supertype position⟩ use) := by
  have huse' : outline.use? ⟨id, .supertype position⟩ = some use := by
    simp [use?, helement, Element.use?, huse]
  simp only [Scope.supertypeQuery, Query.answer, meaning, huse', Option.bind_some, home, howner,
    Option.getD_some, Meaning.ofSupertype, h.map_declared]

/-- The queries of an element answer with what its frame knows. -/
theorem WellFormed.answer_frame_queries (h : outline.WellFormed)
    (hnode : outline.node? id = some node) {element : Element}
    (helement : node.element? = some element) :
    (Scope.frameQueries outline name id).findSome?
        (Query.answer outline (outline.meaning settled)) =
      Meaning.within outline.knows (canon outline.knows) name
        ((outline.owner? id).elim [] (outline.chain settled))
        (outline.frameOf settled id node.path element) := by
  have hchain : outline.chain settled id = _ := h.chain_eq_cons hnode helement
  have hkind := kind_of_element? helement
  have hat : outline.element? id = some element := by rw [element?_of_node? hnode, helement]
  unfold Scope.frameQueries
  simp only [hnode, helement]
  cases element with
  | method methodName returnType =>
      simp only [List.findSome?_singleton, h.answer_parameters_query, Meaning.within, frameOf,
        hchain]
  | typeParameter paramName bounds =>
      obtain ⟨up, _, howner, _⟩ := h.exists_owner hnode (by rw [hkind]; rfl)
      simp only [List.findSome?_singleton, answer_parameter_query hat howner, Meaning.within,
        frameOf, howner, Option.elim_some, Meaning.ofParams, Param.first?]
      cases hsingle : Dotted.isSingle name <;> cases hname : paramName == name <;>
        simp [hname]
  | file path package imports =>
      simp only [List.findSome?_cons, List.findSome?_nil, Query.answer_settled, h.map_declared,
        h.map_single_import, h.map_wildcard_import, Meaning.within, frameOf, basePackage]
      rcases Meaning.ofSingleImport outline.knows imports name with _ | _ <;>
        rcases Meaning.declared outline.knows (Dotted.join package name) with _ | _ <;>
        rcases Meaning.ofWildcardImport outline.knows imports name with _ | _ <;>
        rcases Meaning.declared outline.knows (Dotted.join "java.lang" name) with _ | _ <;> rfl
  | classDecl className supertypes =>
      obtain ⟨up, _, howner, _⟩ := h.exists_owner hnode (by rw [hkind]; rfl)
      have hrange : (List.range supertypes.length).map (Scope.supertypeQuery outline name id) =
          supertypes.zipIdx.map (fun entry => Scope.supertypeQuery outline name id entry.2) := by
        apply List.ext_getElem?
        intro position
        by_cases hlt : position < supertypes.length <;> simp [hlt]
      have hsupertypes : ((List.range supertypes.length).map
          (Scope.supertypeQuery outline name id)).findSome?
            (Query.answer outline (outline.meaning settled)) =
          (supertypes.mapIdx (fun position => linkAt settled ⟨id, .supertype position⟩)).findSome?
            (Meaning.ofSupertype outline.knows (canon outline.knows) (outline.chain settled up)
              name) := by
        rw [hrange, List.mapIdx_eq_zipIdx_map, List.findSome?_map, List.findSome?_map]
        refine Meaning.find_some?_congr _ ?_
        rintro ⟨use, position⟩ hmem
        exact answer_supertype_query h hat howner (List.mem_zipIdx_iff_getElem?.1 hmem)
      rw [howner, Option.elim_some, frameOf] at hchain
      simp only [List.findSome?_append, List.findSome?_cons, List.findSome?_nil, hsupertypes,
        h.answer_parameters_query, Query.answer_settled, h.map_declared, Meaning.within,
        Meaning.of_nested_eq, frameOf, hchain, howner, Option.elim_some]
      rcases Meaning.declared outline.knows (Scope.nestedPath className node.path name) with _ | _
      · rcases Meaning.ofParams _ _ _ name with _ | _ <;> rfl
      · rfl

/-- An element without queries. -/
theorem frame_queries_eq_nil (helement : outline.element? id = none) :
    Scope.frameQueries outline name id = [] := by
  unfold Scope.frameQueries
  split
  · rfl
  · next node hnode =>
      rw [element?_of_node? hnode] at helement
      simp [helement]

/-- The queries from a node outward answer with what the frames around it know. -/
theorem WellFormed.answer_outward (h : outline.WellFormed) (anchor : NodeId) :
    ((outline.frames anchor).flatMap (Scope.frameQueries outline name)).findSome?
        (Query.answer outline (outline.meaning settled)) =
      Meaning.outward outline.knows (canon outline.knows) name (outline.chain settled anchor) := by
  induction anchor using h.induction_on_owner with
  | step anchor ih =>
      rw [h.frames_eq_cons, List.flatMap_cons, List.findSome?_append]
      rcases outline.node_cases anchor with ⟨node, element, hnode, helement⟩ | helement
      · rw [h.answer_frame_queries hnode helement, h.chain_eq_cons hnode helement, Meaning.outward]
        rcases hup : outline.owner? anchor with _ | up
        · rcases Meaning.within _ _ name _ _ with _ | _ <;> rfl
        · rw [Option.elim_some, Option.elim_some, ih up hup]
          rcases Meaning.within _ _ name _ _ with _ | _ <;> rfl
      · rw [frame_queries_eq_nil helement, h.chain_eq_nil helement, owner?_eq_none helement]
        rfl

/-- The queries about a name answer with what a search for the name finds. -/
theorem WellFormed.answer_queries (h : outline.WellFormed) (anchor : NodeId) (hname : name ≠ "") :
    (Scope.queries outline name anchor).findSome?
        (Query.answer outline (outline.meaning settled)) =
      Meaning.search outline.knows (canon outline.knows) (outline.chain settled anchor) name := by
  simp only [Scope.queries, Meaning.search, if_neg hname, List.findSome?_append,
    List.findSome?_cons, List.findSome?_nil, Query.answer_settled, h.answer_outward, map_builtin,
    h.map_declared]
  rcases Meaning.builtin name with _ | _ <;>
    rcases Meaning.declared outline.knows name with _ | _ <;> rfl

/-! ## The equation of meanings -/

/-- It is enough to look at the places of an outline for bounds that lead back. -/
theorem acyclic_bounds_of_forall_lt
    (h : ∀ owner < outline.places.size, Meaning.Acyclic (outline.paramsOf settled owner)) :
    outline.AcyclicBounds settled := by
  intro owner
  by_cases hlt : owner < outline.places.size
  · exact h owner hlt
  · have hnone : outline.node? owner = none := by
      simp [node?, Array.getElem?_eq_none (Nat.not_lt.1 hlt)]
    simp only [paramsOf, typeParameters, childrenOfKind, hnone, List.filterMap_nil]
    exact Meaning.acyclic_nil

theorem map_bare_params_of (outline : Outline) (settled : RefId → Option Meaning) (owner : NodeId) :
    (outline.paramsOf settled owner).map Param.bare = outline.paramsOf (fun _ => none) owner := by
  unfold paramsOf
  rw [List.map_filterMap]
  congr 1
  funext param
  unfold paramAt?
  split
  · next name bounds _ => cases bounds <;> rfl
  · rfl

theorem AcyclicBounds.of_none (h : outline.AcyclicBounds (fun _ => none)) :
    outline.AcyclicBounds settled := fun owner =>
  .of_map_bare (outline.map_bare_params_of settled owner ▸ h owner)

theorem AcyclicBounds.of_mem_chain (hacyclic : outline.AcyclicBounds settled) {anchor : NodeId}
    {frame : Frame} (hframe : frame ∈ outline.chain settled anchor) :
    Meaning.Acyclic frame.params := by
  obtain ⟨id, _, hat⟩ := List.mem_filterMap.1 hframe
  obtain ⟨node, _, hmap⟩ := Option.bind_eq_some_iff.1 hat
  obtain ⟨element, _, rfl⟩ := Option.map_eq_some_iff.1 hmap
  cases element with
  | method => exact hacyclic id
  | classDecl => exact hacyclic id
  | _ => exact Meaning.acyclic_nil

/-- A reference that was not settled beforehand means what its queries answer. -/
theorem WellFormed.meaning_eq (h : outline.WellFormed) (hacyclic : outline.AcyclicBounds settled)
    {ref : RefId} {use : TypeUse} (huse : outline.use? ref = some use)
    (hsettled : settled ref = none) (hname : use.name ≠ "") :
    outline.meaning settled ref = (Scope.queries outline use.name (outline.home ref)).findSome?
      (Query.answer outline (outline.meaning settled)) := by
  rw [h.answer_queries _ hname, meaning, huse, Option.bind_some,
    Meaning.canon_eq (fun _ hframe => hacyclic.of_mem_chain hframe)]
  simp only [linkAt, hsettled]

/-- A reference without a name has no meaning unless it was settled beforehand. -/
theorem meaning_of_nameless (hacyclic : outline.AcyclicBounds settled) {ref : RefId}
    {use : TypeUse} (huse : outline.use? ref = some use) (hsettled : settled ref = none)
    (hname : use.name = "") : outline.meaning settled ref = none := by
  rw [meaning, huse, Option.bind_some,
    Meaning.canon_eq (fun _ hframe => hacyclic.of_mem_chain hframe)]
  simp [linkAt, hsettled, Meaning.search, hname]

/-- A reference that was settled beforehand means what it was settled on. -/
theorem meaning_of_settled (hacyclic : outline.AcyclicBounds settled) {ref : RefId}
    {use : TypeUse} (huse : outline.use? ref = some use) {found : Meaning}
    (hsettled : settled ref = some found) : outline.meaning settled ref = some found := by
  rw [meaning, huse, Option.bind_some,
    Meaning.canon_eq (fun _ hframe => hacyclic.of_mem_chain hframe)]
  simp [linkAt, hsettled]

/-! ## The references that a search asks for -/

/-- What is known of a reference that a search for a name from a node asks for. -/
structure Asked (outline : Outline) (settled : RefId → Option Meaning) (name : String)
    (anchor : NodeId) (ref : RefId) (start : Option NodeId)
    (read : String → Option NodeId → Option Hit) : Prop where
  use : ∃ use, outline.use? ref = some use ∧
    Meaning.Asks name (outline.chain settled anchor) (outline.chain settled (outline.home ref))
      (linkAt settled ref use)
  start_eq : start.getD ref.owner = outline.home ref
  start_present : ∀ first, start = some first → outline.contains first = true
  read_watch : ∀ canonical watch, (read canonical watch).map outline.hitMeaning =
    (read canonical none).map outline.hitMeaning

variable {ref : RefId} {start : Option NodeId} {read : String → Option NodeId → Option Hit}
  {anchor : NodeId}

/-- What an element asks for, it is asked for from an element inside it as well. -/
theorem Asked.outward (h : outline.WellFormed) (howner : outline.owner? anchor = some owner)
    (hasked : Asked outline settled name owner ref start read) :
    Asked outline settled name anchor ref start read := by
  obtain ⟨⟨use, huse, hasks⟩, hstart, hpresent, hread⟩ := hasked
  refine ⟨⟨use, huse, ?_⟩, hstart, hpresent, hread⟩
  rcases outline.node_cases anchor with ⟨node, element, hnode, helement⟩ | helement
  · rw [h.chain_eq_cons hnode helement, howner]
    exact .outward hasks
  · rw [owner?_eq_none helement] at howner
    cases howner

/-- A query about a type parameter asks for its first bound from its owner. -/
theorem asking_of_parameter_query
    (hquery : Scope.parameterQuery outline name param = .asking ref start read) :
    ∃ bounds bound, outline.element? param = some (.typeParameter name bounds) ∧
      bounds.head? = some bound ∧ ref = ⟨param, .bound 0⟩ ∧ start = outline.owner? param ∧
      read = fun canonical watch => some (.typeParameter param canonical watch) := by
  unfold Scope.parameterQuery at hquery
  split at hquery
  · next paramName bounds helement =>
      split at hquery
      · next hname =>
          simp only [Bool.and_eq_true, beq_iff_eq] at hname
          rw [hname.2] at helement
          cases bounds with
          | nil => cases hquery
          | cons bound rest =>
              simp only [List.isEmpty_cons, Bool.false_eq_true, if_false, Query.asking.injEq] at hquery
              obtain ⟨rfl, rfl, rfl⟩ := hquery
              exact ⟨bound :: rest, bound, helement, rfl, rfl, rfl, rfl⟩
      · cases hquery
  · cases hquery

/-- The bound of a type parameter is asked for from the owner of the parameter. -/
theorem WellFormed.asked_bound (h : outline.WellFormed)
    (hquery : Scope.parameterQuery outline name param = .asking ref start read)
    (howner : outline.owner? param = some owner)
    (hasks : ∀ bounds bound, outline.element? param = some (.typeParameter name bounds) →
      bounds.head? = some bound →
      Meaning.Asks name (outline.chain settled anchor) (outline.chain settled owner)
        (linkAt settled ⟨param, .bound 0⟩ bound)) :
    Asked outline settled name anchor ref start read := by
  obtain ⟨bounds, bound, helement, hbound, rfl, rfl, rfl⟩ := asking_of_parameter_query hquery
  refine ⟨⟨bound, ?_, ?_⟩, ?_, ?_, fun _ _ => rfl⟩
  · simpa [use?, helement, Element.use?, List.head?_eq_getElem?] using hbound
  · simpa [home, howner] using hasks bounds bound helement hbound
  · simp [home, howner]
  · intro first hfirst
    exact h.contains_of_parent? (parent?_of_owner? hfirst)

/-- The first type parameter with a name asks for its bound from its owner. -/
theorem WellFormed.asked_of_parameters_query (h : outline.WellFormed)
    (hnode : outline.node? anchor = some node) {element : Element}
    (helement : node.element? = some element)
    (hparams : (outline.frameOf settled anchor node.path element).params =
      outline.paramsOf settled anchor)
    (hquery : Scope.parametersQuery outline name anchor = .asking ref start read) :
    Asked outline settled name anchor ref start read := by
  unfold Scope.parametersQuery at hquery
  split at hquery
  · next param hfound =>
      refine h.asked_bound hquery
        (h.owner?_of_mem_type_parameters (List.mem_of_find?_eq_some hfound)) ?_
      intro bounds bound hparam hbound
      rw [h.chain_eq_cons hnode helement]
      have hfirst : Param.first? (outline.paramsOf settled anchor) name = _ :=
        first?_params_of anchor name
      rw [hfound, Option.bind_some, ← hparams] at hfirst
      simp only [paramAt?, hparam] at hfirst
      exact .bound hfirst (by simp [boundAt, hbound])
  · cases hquery

/-- What a search asks for. -/
theorem WellFormed.asked_of_asking (h : outline.WellFormed)
    (hmem : Query.asking ref start read ∈ Scope.queries outline name anchor) :
    Asked outline settled name anchor ref start read := by
  replace hmem : Query.asking ref start read ∈
      (outline.frames anchor).flatMap (Scope.frameQueries outline name) := by
    simpa [Scope.queries] using hmem
  induction anchor using h.induction_on_owner with
  | step anchor ih =>
      rw [h.frames_eq_cons, List.flatMap_cons, List.mem_append] at hmem
      rcases hmem with hmem | hmem
      · rcases outline.node_cases anchor with ⟨node, element, hnode, helement⟩ | helement
        · have hkind := kind_of_element? helement
          unfold Scope.frameQueries at hmem
          simp only [hnode, helement] at hmem
          cases element with
          | method =>
              exact h.asked_of_parameters_query hnode helement rfl (List.mem_singleton.1 hmem).symm
          | typeParameter paramName bounds =>
              obtain ⟨up, _, howner, _⟩ := h.exists_owner hnode (by rw [hkind]; rfl)
              refine h.asked_bound (List.mem_singleton.1 hmem).symm howner ?_
              intro bounds' bound hparam hbound
              rw [element?_of_node? hnode, helement] at hparam
              cases hparam
              rw [h.chain_eq_cons hnode helement, howner, Option.elim_some]
              exact .ownBound (by simp [boundAt, hbound])
          | file => simp at hmem
          | classDecl className supertypes =>
              simp only [List.mem_append, List.mem_cons, List.not_mem_nil, or_false, reduceCtorEq,
                false_or, List.mem_map, List.mem_range] at hmem
              rcases hmem with hmem | ⟨position, hlt, hquery⟩
              · exact h.asked_of_parameters_query hnode helement rfl hmem.symm
              · obtain ⟨up, above, howner, habove⟩ := h.exists_owner hnode (by rw [hkind]; rfl)
                simp only [Scope.supertypeQuery, howner, Option.getD_some, Query.asking.injEq] at hquery
                obtain ⟨rfl, rfl, rfl⟩ := hquery
                refine ⟨⟨supertypes[position], ?_, ?_⟩, ?_, ?_, fun _ _ => rfl⟩
                · simp [use?, element?_of_node? hnode, helement, Element.use?]
                · rw [h.chain_eq_cons hnode helement, howner]
                  simp only [home, howner, Option.getD_some, Option.elim_some, frameOf]
                  refine .supertype (List.mem_mapIdx.2 ⟨position, hlt, rfl⟩)
                · simp [home, howner]
                · rintro first ⟨⟩
                  exact contains_of_node? habove
        · rw [frame_queries_eq_nil helement] at hmem
          cases hmem
      · rcases howner : outline.owner? anchor with _ | up
        · simp [howner] at hmem
        · rw [howner] at hmem
          exact .outward h howner (ih up howner hmem)

/-- How far a reference is from those that lead to no further question. -/
noncomputable def rankOf (outline : Outline) (settled : RefId → Option Meaning) (ref : RefId) : Nat :=
  Meaning.rank (outline.chain settled (outline.home ref))
    (((outline.use? ref).map TypeUse.name).getD "")

/-- A search for a reference asks for references of smaller rank. -/
theorem Asked.rank_lt (hacyclic : outline.AcyclicBounds settled) {asking : RefId} {use : TypeUse}
    (huse : outline.use? asking = some use)
    (hasked : Asked outline settled use.name (outline.home asking) ref start read) :
    outline.rankOf settled ref < outline.rankOf settled asking := by
  obtain ⟨asked, hasked', hasks⟩ := hasked.use
  have hlt := hasks.rank_lt (fun _ hframe => hacyclic.of_mem_chain hframe)
  simpa [rankOf, huse, hasked', linkAt] using hlt

end Outline

end CanonicalNames
