import Mathlib.Data.List.Basic
import Mathlib.Logic.Relation
import CanonicalNames.Proofs.Dotted
import CanonicalNames.Resolution.Scope

/-!
# What a name means

The meaning of a name is a function of the elements around it and of the class paths that
are known. `Frame` is an element around a name, without any number of a node and without
any standing of a reference; a chain of frames goes from the inside out. `search` is the
search order over a chain, with a function `ask` for the bounds and supertypes on the way,
and `canon` is the meaning: a search that asks for meanings.

A bound may lead to a type parameter whose bound leads back. Where this does not happen
(`Acyclic`), a question has a `rank` that is greater than the rank of every question it
leads to, and `canon` is the solution of the equation `canon_eq`; the depth in its
definition plays no part.
-/

namespace CanonicalNames

/-- One of the nine keywords that name a type without a declaration. -/
def IsKeyword (name : String) : Prop :=
  name ∈ ["boolean", "byte", "char", "double", "float", "int", "long", "short", "void"]

instance (name : String) : Decidable (IsKeyword name) :=
  inferInstanceAs (Decidable (name ∈ _))

theorem is_primitive_iff {name : String} : isPrimitive name = true ↔ IsKeyword name := by
  simp only [isPrimitive, primitives, IsKeyword, List.contains_iff_mem, List.mem_cons,
    List.not_mem_nil, or_false]
  grind

theorem IsKeyword.single {name : String} (h : IsKeyword name) : Dotted.isSingle name = true := by
  have hall : primitives.all Dotted.isSingle = true := by decide
  exact List.all_eq_true.1 hall name (List.contains_iff_mem.1 (is_primitive_iff.2 h))

/-- The canonical name of a type and the kind of declaration that it comes from. -/
structure Meaning where
  canonical : String
  origin : Origin
  deriving DecidableEq, Repr

/-- A type named in a bound or as a supertype. One that was settled before stands for what it
was settled on. -/
structure Link where
  name : String
  settled : Option Meaning := none
  deriving DecidableEq, Repr

/-- A type parameter with its first bound. -/
structure Param where
  name : String
  bound : Option Link
  deriving DecidableEq, Repr

/-- The first type parameter with a name. -/
def Param.first? (params : List Param) (name : String) : Option Param :=
  params.find? (fun param => param.name == name)

/-- A type parameter with nothing settled about its bound. -/
def Param.bare (param : Param) : Param :=
  { param with bound := param.bound.map (fun bound => { name := bound.name }) }

/-- An element around a name. -/
inductive Frame where
  | method (params : List Param)
  | typeParameter (param : Param)
  | classDecl (name path : String) (params : List Param) (supertypes : List Link)
  | file (package : String) (imports : List Import)
  deriving DecidableEq, Repr

/-- The type parameters that an element owns. -/
def Frame.params : Frame → List Param
  | .method params => params
  | .classDecl _ _ params _ => params
  | _ => []

namespace Meaning

section Search

variable (known : String → Bool) (ask : List Frame → Link → Option Meaning)

/-- The class with a path, if it is known. -/
def declared (path : String) : Option Meaning :=
  if known path then some ⟨path, .declared⟩ else none

/-- The primitive type with a name. -/
def builtin (name : String) : Option Meaning :=
  if IsKeyword name then some ⟨name, .primitive⟩ else none

/-- A type parameter stands for its first bound. -/
def ofParam (around : List Frame) (param : Param) : Option Meaning :=
  match param.bound with
  | none => some ⟨"java.lang.Object", .typeParameter⟩
  | some bound => (ask around bound).map (fun meaning => ⟨meaning.canonical, .typeParameter⟩)

/-- The first type parameter with a name, if the name is a single segment. -/
def ofParams (around : List Frame) (params : List Param) (name : String) : Option Meaning :=
  if Dotted.isSingle name then
    (Param.first? params name).bind (ofParam ask around)
  else none

/-- The class that a name leads to from inside a class. A name that starts with the class's own name
takes the place of the last segment of the class's path, any other stands below the path. -/
def ofNested (className path name : String) : Option Meaning :=
  if Dotted.first name = className then
    declared known (Dotted.join (Dotted.splitLast path).1 name)
  else declared known (Dotted.join path name)

/-- The class is found at the path that a class gives the name. -/
theorem of_nested_eq (className path name : String) :
    ofNested known className path name = declared known (Scope.nestedPath className path name) := by
  rw [ofNested, Scope.nestedPath, Dotted.split_last_eq]
  by_cases hown : Dotted.first name = className
  · rw [if_pos hown, if_pos (beq_iff_eq.2 hown)]
  · rw [if_neg hown, if_neg (by simpa using hown)]

/-- A name below a supertype. -/
def ofSupertype (outer : List Frame) (name : String) (supertype : Link) : Option Meaning :=
  (ask outer supertype).bind (fun meaning => declared known (Dotted.join meaning.canonical name))

/-- The single import that lets a file write the first segment of a name. -/
def ofSingleImport (imports : List Import) (name : String) : Option Meaning :=
  (imports.find? (fun i => !i.isWildcard && i.simpleName == Dotted.first name)).map (fun i =>
    let path := Dotted.replaceFirst name i.path
    (declared known path).getD ⟨path, .dependency⟩)

/-- The first wildcard import with a class of that name. -/
def ofWildcardImport (imports : List Import) (name : String) : Option Meaning :=
  (imports.filter Import.isWildcard).findSome? (fun i => declared known (Dotted.join i.path name))

/-- What an element with the given elements around it knows about a name. -/
def within (name : String) (outer : List Frame) (frame : Frame) : Option Meaning :=
  match frame with
  | .method params => ofParams ask (frame :: outer) params name
  | .typeParameter param => ofParams ask outer [param] name
  | .classDecl className path params supertypes =>
    ofNested known className path name <|>
      ofParams ask (frame :: outer) params name <|>
      supertypes.findSome? (ofSupertype known ask outer name)
  | .file package imports =>
    ofSingleImport known imports name <|> declared known (Dotted.join package name) <|>
      ofWildcardImport known imports name <|> declared known (Dotted.join "java.lang" name)

/-- What the elements of a chain know about a name, from the inside out. -/
def outward (name : String) : List Frame → Option Meaning
  | [] => none
  | frame :: outer => within known ask name outer frame <|> outward name outer

/-- The search order: primitive keywords, the name as a full path, then the elements around
it. The empty name means nothing. -/
def search (chain : List Frame) (name : String) : Option Meaning :=
  if name = "" then none
  else builtin name <|> declared known name <|> outward known ask name chain

end Search

/-- The meaning of a type named inside a chain of elements, with questions inside questions to
a limited depth. -/
def canonWithin (known : String → Bool) : (depth : Nat) → List Frame → Link → Option Meaning
  | 0, _, _ => none
  | depth + 1, chain, link =>
    match link.settled with
    | some meaning => some meaning
    | none => search known (canonWithin known depth) chain link.name

/-- More than the rank of any question that is asked inside a chain. -/
def weight : List Frame → Nat
  | [] => 1
  | frame :: outer => weight outer + frame.params.length + 2

/-- The meaning of a type named inside a chain of elements. -/
def canon (known : String → Bool) (chain : List Frame) (link : Link) : Option Meaning :=
  canonWithin known (weight chain + 1) chain link

/-! ## Bounds that do not lead back -/

/-- The first bound of a type parameter names another one of the same owner. -/
def Names (params : List Param) (param named : Param) : Prop :=
  param.bound.bind (fun bound => Param.first? params bound.name) = some named

instance (params : List Param) (param named : Param) : Decidable (Names params param named) :=
  inferInstanceAs (Decidable (_ = _))

/-- No type parameter leads back to itself through the first bounds of its owner's
parameters. -/
def Acyclic (params : List Param) : Prop :=
  ∀ param, ¬ Relation.TransGen (Names params) param param

theorem Names.mem {params : List Param} {param named : Param} (h : Names params param named) :
    named ∈ params := by
  obtain ⟨bound, _, hnamed⟩ := Option.bind_eq_some_iff.1 h
  exact List.mem_of_find?_eq_some hnamed

/-- Bounds that name only type parameters declared before do not lead back. -/
theorem acyclic_of_declared_before {params : List Param}
    (h : ∀ param ∈ params, ∀ named ∈ params, Names params param named →
      params.idxOf named < params.idxOf param) : Acyclic params := by
  have hfalls : ∀ {first last}, Relation.TransGen (Names params) first last → first ∈ params →
      last ∈ params ∧ params.idxOf last < params.idxOf first := by
    intro first last hpath hfirst
    induction hpath with
    | single hstep => exact ⟨hstep.mem, h _ hfirst _ hstep.mem hstep⟩
    | tail _ hstep ih => exact ⟨hstep.mem, Nat.lt_trans (h _ ih.1 _ hstep.mem hstep) ih.2⟩
  intro param hcycle
  have hmem : param ∈ params := by
    obtain ⟨_, _, hstep⟩ := Relation.TransGen.tail'_iff.1 hcycle
    exact hstep.mem
  exact Nat.lt_irrefl _ (hfalls hcycle hmem).2

/-- An owner without type parameters has no bounds that lead back. -/
theorem acyclic_nil : Acyclic [] :=
  acyclic_of_declared_before (fun _ hmem => absurd hmem List.not_mem_nil)

/-- Whether bounds lead back does not depend on what is settled about them. -/
theorem Acyclic.of_map_bare {params : List Param} (h : Acyclic (params.map Param.bare)) :
    Acyclic params := by
  have hlift : ∀ {param named}, Names params param named →
      Names (params.map Param.bare) param.bare named.bare := by
    intro param named hnames
    obtain ⟨bound, hbound, hnamed⟩ := Option.bind_eq_some_iff.1 hnames
    simp only [Names, Param.bare, hbound, Option.map_some, Option.bind_some, Param.first?,
      List.find?_map]
    exact congrArg (Option.map Param.bare) hnamed
  intro param hcycle
  exact h param.bare (Relation.TransGen.lift Param.bare (fun _ _ => hlift) _ _ hcycle)

open Classical in
/-- The number of type parameters that a name leads to through bounds. -/
noncomputable def height (params : List Param) (name : String) : Nat :=
  match Param.first? params name with
  | some param => 1 + params.countP (fun other => Relation.TransGen (Names params) param other)
  | none => 0

theorem height_le (params : List Param) (name : String) : height params name ≤ params.length + 1 := by
  classical
  unfold height
  split
  · next param _ =>
      have hcount := @List.countP_le_length _
        (fun other => decide (Relation.TransGen (Names params) param other)) params
      omega
  · omega

/-- A bound leads to fewer type parameters than the parameter that has it. -/
theorem height_bound_lt {params : List Param} (hacyclic : Acyclic params) {name : String}
    {param : Param} {bound : Link}
    (hparam : Param.first? params name = some param)
    (hbound : param.bound = some bound) : height params bound.name < height params name := by
  classical
  unfold height
  rw [hparam]
  rcases hnamed : Param.first? params bound.name with _ | named
  · simp only
    omega
  · have hstep : Names params param named := by rw [Names, hbound, Option.bind_some, hnamed]
    have hmem : named ∈ params := List.mem_of_find?_eq_some hnamed
    -- Whatever `named` leads to, `param` leads to; `named` itself only `param` leads to.
    have hmono : params.countP (fun other => Relation.TransGen (Names params) named other) <
        params.countP (fun other => Relation.TransGen (Names params) param other) := by
      rw [List.countP_eq_length_filter, List.countP_eq_length_filter]
      have hsub : (params.filter (fun other => Relation.TransGen (Names params) named other)).Sublist
          (params.filter (fun other => Relation.TransGen (Names params) param other)) := by
        refine List.monotone_filter_right params ?_
        intro other hother
        simp only [decide_eq_true_eq] at hother ⊢
        exact Relation.TransGen.head hstep hother
      refine Nat.lt_of_le_of_ne hsub.length_le (fun hlength => ?_)
      have heq := hsub.eq_of_length hlength
      have hin : named ∈ params.filter (fun other => Relation.TransGen (Names params) param other) :=
        List.mem_filter.2 ⟨hmem, by simpa using Relation.TransGen.single hstep⟩
      rw [← heq, List.mem_filter] at hin
      exact hacyclic named (by simpa using hin.2)
    simp only
    omega

/-- How far a name inside a chain is from names that lead to no further question. -/
noncomputable def rank : List Frame → String → Nat
  | [], _ => 0
  | frame :: outer, name => weight outer + height frame.params name

theorem rank_lt_weight (chain : List Frame) (name : String) : rank chain name < weight chain := by
  cases chain with
  | nil => exact Nat.zero_lt_one
  | cons frame outer =>
      have hheight := height_le frame.params name
      simp only [rank, weight]
      omega

/-! ## The questions inside a question -/

/-- A search for `name` in a chain may ask for `link` inside `around`. -/
inductive Asks (name : String) : List Frame → List Frame → Link → Prop where
  | bound {frame : Frame} {outer : List Frame} {param : Param} {bound : Link}
      (hparam : Param.first? frame.params name = some param)
      (hbound : param.bound = some bound) : Asks name (frame :: outer) (frame :: outer) bound
  | ownBound {param : Param} {outer : List Frame} {bound : Link} (hbound : param.bound = some bound) :
      Asks name (.typeParameter param :: outer) outer bound
  | supertype {className path : String} {params : List Param} {supertypes outer : _}
      {supertype : Link} (hmem : supertype ∈ supertypes) :
      Asks name (.classDecl className path params supertypes :: outer) outer supertype
  | outward {frame : Frame} {outer around : List Frame} {link : Link}
      (h : Asks name outer around link) : Asks name (frame :: outer) around link

/-- A question inside a question has a smaller rank. -/
theorem Asks.rank_lt {name : String} {chain around : List Frame} {link : Link}
    (h : Asks name chain around link) (hacyclic : ∀ frame ∈ chain, Acyclic frame.params) :
    rank around link.name < rank chain name := by
  have houter : ∀ {frame outer}, rank around link.name < weight outer →
      rank around link.name < rank (frame :: outer) name :=
    fun hlt => Nat.lt_of_lt_of_le hlt (Nat.le_add_right _ _)
  induction h with
  | bound hparam hbound =>
      exact Nat.add_lt_add_left
        (height_bound_lt (hacyclic _ (List.mem_cons_self ..)) hparam hbound) _
  | ownBound => exact houter (rank_lt_weight _ _)
  | supertype => exact houter (rank_lt_weight _ _)
  | outward _ ih =>
      have hlt := ih (fun other hother => hacyclic other (List.mem_cons_of_mem _ hother)) houter
      exact houter (Nat.lt_trans hlt (rank_lt_weight _ _))

theorem find_some?_congr {α β : Type} {left right : α → Option β} (elements : List α)
    (h : ∀ element ∈ elements, left element = right element) :
    elements.findSome? left = elements.findSome? right := by
  induction elements with
  | nil => rfl
  | cons element rest ih =>
      rw [List.findSome?_cons, List.findSome?_cons, h element (List.mem_cons_self ..),
        ih (fun other hother => h other (List.mem_cons_of_mem _ hother))]

/-- A search depends only on the answers to the questions that it may ask. -/
theorem outward_congr {known : String → Bool} {left right : List Frame → Link → Option Meaning}
    {name : String} {chain : List Frame}
    (h : ∀ around link, Asks name chain around link → left around link = right around link) :
    outward known left name chain = outward known right name chain := by
  have hparam : ∀ {around param}, (∀ bound, param.bound = some bound →
      left around bound = right around bound) → ofParam left around param = ofParam right around param := by
    intro around param hasked
    unfold ofParam
    split
    · rfl
    · next bound hbound => rw [hasked bound hbound]
  have hparams : ∀ {around params}, (∀ param bound,
      Param.first? params name = some param → param.bound = some bound →
      left around bound = right around bound) →
      ofParams left around params name = ofParams right around params name := by
    intro around params hasked
    unfold ofParams
    rcases hfound : Param.first? params name with _ | param
    · rfl
    · simp only [Option.bind_some]
      rw [hparam (fun bound hbound => hasked param bound hfound hbound)]
  induction chain with
  | nil => rfl
  | cons frame outer ih =>
      have hrest := ih (fun around link hasked => h around link (.outward hasked))
      have hwithin : within known left name outer frame = within known right name outer frame := by
        cases frame with
        | method params =>
            exact hparams (fun param bound hfound hbound => h _ _ (.bound hfound hbound))
        | typeParameter param =>
            refine hparams (fun found bound hfound hbound => h _ _ ?_)
            obtain rfl := List.mem_singleton.1 (List.mem_of_find?_eq_some hfound)
            exact .ownBound hbound
        | file package imports => rfl
        | classDecl className path params supertypes =>
            have hsupertypes : supertypes.findSome? (ofSupertype known left outer name) =
                supertypes.findSome? (ofSupertype known right outer name) := by
              refine find_some?_congr supertypes ?_
              intro supertype hmem
              simp only [ofSupertype, h _ _ (.supertype hmem)]
            have hown : ofParams left (.classDecl className path params supertypes :: outer) params
                name = ofParams right (.classDecl className path params supertypes :: outer) params
                name :=
              hparams (fun param bound hfound hbound => h _ _ (.bound hfound hbound))
            simp only [within, hsupertypes, hown]
      simp only [outward, hwithin, hrest]

theorem search_congr {known : String → Bool} {left right : List Frame → Link → Option Meaning}
    {name : String} {chain : List Frame}
    (h : ∀ around link, Asks name chain around link → left around link = right around link) :
    search known left chain name = search known right chain name := by
  simp only [search, outward_congr h]

/-! ## The equation -/

/-- The elements around a question inside a question are among those around the question. -/
theorem Asks.subset {name : String} {chain around : List Frame} {link : Link}
    (h : Asks name chain around link) : around ⊆ chain := by
  induction h with
  | bound => exact List.Subset.refl _
  | ownBound => exact List.subset_cons_self _ _
  | supertype => exact List.subset_cons_self _ _
  | outward _ ih => exact fun frame hframe => List.mem_cons_of_mem _ (ih hframe)

/-- Any depth greater than the rank gives the same meaning. -/
theorem canon_within_congr {known : String → Bool} {first second : Nat} {chain : List Frame}
    {link : Link} (hacyclic : ∀ frame ∈ chain, Acyclic frame.params)
    (hfirst : rank chain link.name < first) (hsecond : rank chain link.name < second) :
    canonWithin known first chain link = canonWithin known second chain link := by
  induction first generalizing second chain link with
  | zero => exact absurd hfirst (Nat.not_lt_zero _)
  | succ first ih =>
      cases second with
      | zero => exact absurd hsecond (Nat.not_lt_zero _)
      | succ second =>
          simp only [canonWithin]
          rw [search_congr]
          intro around asked hasks
          have hlt := hasks.rank_lt hacyclic
          exact ih (fun frame hframe => hacyclic frame (hasks.subset hframe))
            (Nat.lt_of_lt_of_le hlt (Nat.le_of_lt_succ hfirst))
            (Nat.lt_of_lt_of_le hlt (Nat.le_of_lt_succ hsecond))

/-- The meaning of a type is what it was settled on, or what a search that asks for meanings
finds. -/
theorem canon_eq {known : String → Bool} {chain : List Frame} {link : Link}
    (hacyclic : ∀ frame ∈ chain, Acyclic frame.params) :
    canon known chain link = match link.settled with
      | some meaning => some meaning
      | none => search known (canon known) chain link.name := by
  simp only [canon, canonWithin]
  rw [search_congr]
  intro around asked hasks
  refine canon_within_congr (fun frame hframe => hacyclic frame (hasks.subset hframe)) ?_
    (Nat.lt_succ_of_lt (rank_lt_weight _ _))
  exact Nat.lt_trans (hasks.rank_lt hacyclic) (rank_lt_weight _ _)

end Meaning

end CanonicalNames
