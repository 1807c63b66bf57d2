import CanonicalNames.Resolution.Resolve

/-!
# Searches as lists of queries

A search is a list of steps, and a step either knows its answer without resolving
anything or asks for one other reference. `Query` is such a step as data, and
`Scope.search_eq_map_run` says that a search runs the queries of `Scope.queries`, whatever
resolver it is given. What a step can do is read off the two constructors from here on.
-/

namespace CanonicalNames

/-- A step of a search. -/
inductive Query where
  /-- A step that resolves nothing else. -/
  | settled (hit : Option Hit)
  /-- A step that asks for a reference from a start. Its hit is read off the canonical name
  and the subscription that the reference then has. -/
  | asking (ref : RefId) (start : Option NodeId) (read : String → Option NodeId → Option Hit)

/-- Runs a query with a resolver for the reference that it asks for. -/
def Query.run (resolver : Resolver) : Query → Probe
  | .settled hit => Probe.ofHit? hit
  | .asking ref start read => fun pass =>
    match resolver ref start pass with
    | (.resolved canonical, pass) => (read canonical (pass.standing ref).subscription, pass)
    | (_, pass) => (none, pass)

namespace Scope

/-- The query about a name that may be the name of the type parameter `param`. -/
def parameterQuery (outline : Outline) (name : String) (param : NodeId) : Query :=
  match outline.element? param with
  | some (.typeParameter paramName bounds) =>
    if Dotted.isSingle name && paramName == name then
      if bounds.isEmpty then .settled (some (.typeParameter param topType none))
      else
        .asking ⟨param, .bound 0⟩ (outline.owner? param) (fun canonical watch =>
          some (.typeParameter param canonical watch))
    else .settled none
  | _ => .settled none

/-- The query about a name that may be the name of a type parameter of `owner`. -/
def parametersQuery (outline : Outline) (name : String) (owner : NodeId) : Query :=
  match (outline.typeParameters owner).find? (isParameterNamed outline name) with
  | some param => parameterQuery outline name param
  | none => .settled none

/-- The query about a name below the supertype of a class at a position. -/
def supertypeQuery (outline : Outline) (name : String) (classId : NodeId) (position : Nat) :
    Query :=
  .asking ⟨classId, .supertype position⟩ (some ((outline.owner? classId).getD Outline.rootId))
    (fun canonical _ => declared outline (Dotted.join canonical name))

/-- The queries of an element around a name. -/
def frameQueries (outline : Outline) (name : String) (frame : NodeId) : List Query :=
  match outline.node? frame with
  | none => []
  | some node =>
    match node.element? with
    | some (.method _ _) => [parametersQuery outline name frame]
    | some (.typeParameter _ _) => [parameterQuery outline name frame]
    | some (.classDecl className supertypes) =>
      [.settled (declared outline (nestedPath className node.path name)),
        parametersQuery outline name frame] ++
      (List.range supertypes.length).map (supertypeQuery outline name frame)
    | some (.file _ package imports) =>
      [.settled (singleImport outline imports name),
        .settled (declared outline (Dotted.join package name)),
        .settled (wildcardImport outline imports name),
        .settled (declared outline (Dotted.join basePackage name))]
    | none => []

/-- All queries for a name from a node outward. -/
def queries (outline : Outline) (name : String) (anchor : NodeId) : List Query :=
  [.settled (builtin name), .settled (declared outline name)] ++
    (outline.frames anchor).flatMap (frameQueries outline name)

/-- A type parameter is in scope at a node: it stands around the node, or it belongs to a method
or class around the node. -/
def InScope (outline : Outline) (anchor param : NodeId) : Prop :=
  param ∈ outline.frames anchor ∨
    ∃ owner ∈ outline.frames anchor,
      (outline.kind? owner = some .method ∨ outline.kind? owner = some .classDecl) ∧
        param ∈ outline.typeParameters owner

variable {outline : Outline} {resolver : Resolver} {name : String}

/-- The step of a type parameter runs its query. -/
theorem type_parameter_eq_run (param : NodeId) :
    typeParameter outline resolver name param = (parameterQuery outline name param).run resolver := by
  funext pass
  unfold typeParameter parameterQuery
  rcases outline.element? param with _ | element
  · rfl
  · cases element with
    | typeParameter paramName bounds =>
        dsimp only
        by_cases hname : (Dotted.isSingle name && paramName == name) = true
        · by_cases hbounds : bounds.isEmpty = true
          · simp only [if_pos hname, if_pos hbounds, Query.run, Probe.ofHit?]
          · rcases hasked : resolver ⟨param, .bound 0⟩ (outline.owner? param) pass with
              ⟨answer, after⟩
            cases answer <;> simp only [if_pos hname, if_neg hbounds, Query.run, hasked]
        · simp only [if_neg hname, Query.run, Probe.ofHit?]
    | _ => rfl

/-- The step of a list of type parameters runs its query. -/
theorem type_parameters_eq_run (owner : NodeId) :
    typeParameters outline resolver name owner = (parametersQuery outline name owner).run resolver := by
  funext pass
  unfold typeParameters parametersQuery
  rcases (outline.typeParameters owner).find? (isParameterNamed outline name) with _ | param
  · rfl
  · exact congrFun (type_parameter_eq_run param) pass

/-- The step of a supertype runs its query. -/
theorem inherited_eq_run (classId : NodeId) (position : Nat) :
    inherited outline resolver name classId position =
      (supertypeQuery outline name classId position).run resolver := by
  funext pass
  unfold inherited supertypeQuery
  rcases hasked : resolver ⟨classId, .supertype position⟩
    (some ((outline.owner? classId).getD Outline.rootId)) pass with ⟨answer, after⟩
  cases answer <;> simp only [Query.run, hasked]

/-- The steps of an element run its queries. -/
theorem probes_eq_map_run (frame : NodeId) :
    probes outline resolver name frame = (frameQueries outline name frame).map (Query.run resolver) := by
  unfold probes frameQueries
  rcases outline.node? frame with _ | node
  · rfl
  · dsimp only
    rcases node.element? with _ | element
    · rfl
    · cases element with
      | method => simp [type_parameters_eq_run]
      | typeParameter => simp [type_parameter_eq_run]
      | file => rfl
      | classDecl className supertypes =>
          have hinherited : inherited outline resolver name frame =
              Query.run resolver ∘ supertypeQuery outline name frame :=
            funext (inherited_eq_run frame)
          simp [type_parameters_eq_run, hinherited, Query.run]

/-- A search runs the queries about its name. -/
theorem search_eq_map_run (anchor : NodeId) :
    search outline resolver name anchor = (queries outline name anchor).map (Query.run resolver) := by
  simp only [search, queries, List.map_append, List.map_cons, List.map_nil, List.map_flatMap]
  congr 2
  funext frame
  exact probes_eq_map_run frame

/-- What holds of every kind of query that the elements around a node make holds of all queries
of a search from the node. -/
theorem forall_mem_queries_around {motive : Query → Prop} {anchor : NodeId}
    (hnone : motive (.settled none)) (hbuiltin : motive (.settled (builtin name)))
    (hdeclared : ∀ path, motive (.settled (declared outline path)))
    (hparameter : ∀ param, InScope outline anchor param →
      motive (parameterQuery outline name param))
    (hsupertype : ∀ classId position, motive (supertypeQuery outline name classId position))
    (hsingle : ∀ file source package imports, file ∈ outline.frames anchor →
      outline.element? file = some (.file source package imports) →
      motive (.settled (singleImport outline imports name)))
    (hwildcard : ∀ imports, motive (.settled (wildcardImport outline imports name))) :
    ∀ query ∈ queries outline name anchor, motive query := by
  have hparameters : ∀ owner ∈ outline.frames anchor,
      outline.kind? owner = some .method ∨ outline.kind? owner = some .classDecl →
      motive (parametersQuery outline name owner) := by
    intro owner howner hkind
    unfold parametersQuery
    split
    · next param hparam =>
        exact hparameter param (Or.inr ⟨owner, howner, hkind, List.mem_of_find?_eq_some hparam⟩)
    · exact hnone
  intro query hquery
  simp only [queries, List.cons_append, List.nil_append, List.mem_cons, List.mem_flatMap] at hquery
  rcases hquery with rfl | rfl | ⟨frame, hframe, hquery⟩
  · exact hbuiltin
  · exact hdeclared name
  · unfold frameQueries at hquery
    split at hquery
    · cases hquery
    · next node hnode =>
        have hkind : ∀ element, node.element? = some element →
            outline.kind? frame = some element.kind := by
          intro element helement
          rcases hcontent : node.content <;>
            simp_all [Node.element?, Content.element?, Outline.kind?, Node.kind, Content.kind]
        split at hquery
        · next helement =>
            obtain rfl := List.mem_singleton.1 hquery
            exact hparameters frame hframe (Or.inl (hkind _ helement))
        · obtain rfl := List.mem_singleton.1 hquery
          exact hparameter frame (Or.inl hframe)
        · next helement =>
            simp only [List.cons_append, List.nil_append, List.mem_cons, List.mem_map] at hquery
            rcases hquery with rfl | rfl | ⟨position, -, rfl⟩
            · exact hdeclared _
            · exact hparameters frame hframe (Or.inr (hkind _ helement))
            · exact hsupertype frame position
        · next source package imports helement =>
            simp only [List.mem_cons, List.not_mem_nil, or_false] at hquery
            rcases hquery with rfl | rfl | rfl | rfl
            · exact hsingle frame source package imports hframe
                (by simp [Outline.element?, hnode, helement])
            · exact hdeclared _
            · exact hwildcard _
            · exact hdeclared _
        · cases hquery

/-- What holds of every kind of query holds of all queries of a search. -/
theorem forall_mem_queries {motive : Query → Prop} (hnone : motive (.settled none))
    (hbuiltin : motive (.settled (builtin name)))
    (hdeclared : ∀ path, motive (.settled (declared outline path)))
    (hparameter : ∀ param, motive (parameterQuery outline name param))
    (hsupertype : ∀ classId position, motive (supertypeQuery outline name classId position))
    (hsingle : ∀ imports, motive (.settled (singleImport outline imports name)))
    (hwildcard : ∀ imports, motive (.settled (wildcardImport outline imports name)))
    (anchor : NodeId) : ∀ query ∈ queries outline name anchor, motive query :=
  forall_mem_queries_around hnone hbuiltin hdeclared (fun param _ => hparameter param) hsupertype
    (fun _ _ _ imports _ _ => hsingle imports) hwildcard

/-- A search asks for bounds and supertypes, never for a return type. -/
theorem slot_ne_of_asking {anchor : NodeId} {ref : RefId} {start : Option NodeId}
    {read : String → Option NodeId → Option Hit}
    (h : Query.asking ref start read ∈ queries outline name anchor) : ref.slot ≠ .returnType := by
  refine forall_mem_queries (motive := fun query => query = .asking ref start read →
    ref.slot ≠ .returnType) nofun nofun (fun _ => nofun) (fun param hquery => ?_)
    (fun classId position hquery => ?_) (fun _ => nofun) (fun _ => nofun) anchor _ h rfl
  · unfold parameterQuery at hquery
    repeat' split at hquery
    all_goals cases hquery
    exact nofun
  · cases hquery
    exact nofun

end Scope

namespace Probe

variable {resolver : Resolver}

/-- What every request inside a search keeps, the search keeps: `Keeps before after` is any
relation that is reflexive and transitive. -/
theorem first_map_run_keeps {Keeps : Pass → Pass → Prop} (hrefl : ∀ pass, Keeps pass pass)
    (htrans : ∀ {first second third}, Keeps first second → Keeps second third → Keeps first third)
    (queries : List Query)
    (hask : ∀ ref start read, Query.asking ref start read ∈ queries →
      ∀ pass, Keeps pass (resolver ref start pass).2) (pass : Pass) :
    Keeps pass (first (queries.map (Query.run resolver)) pass).2 := by
  induction queries generalizing pass with
  | nil => exact hrefl pass
  | cons query rest ih =>
      have hrest := ih (fun ref start read h => hask ref start read (List.mem_cons_of_mem _ h))
      have hquery : Keeps pass (query.run resolver pass).2 := by
        cases query with
        | settled hit => exact hrefl pass
        | asking ref start read =>
            have h := hask ref start read (List.mem_cons_self ..) pass
            simp only [Query.run]
            split <;> simp_all
      simp only [List.map_cons, first]
      rcases hrun : query.run resolver pass with ⟨hit, after⟩
      rw [hrun] at hquery
      cases hit with
      | some hit => exact hquery
      | none => exact htrans hquery (hrest after)

end Probe

end CanonicalNames
