import Mathlib.Data.List.Forall2
import CanonicalNames.Proofs.Index.Contents
import CanonicalNames.Proofs.Resolution.Discipline

/-!
# Files that stand in two outlines

The same declarations may stand in two outlines under different numbers. `Twins` relates the
nodes at the same places below two nodes, and `Mirror` says that these two are tops of the
same file where the same class paths are known. Whatever the standings of references and
however bounds lead into each other, requests about twins are then answered alike, leave
references alike and count the same (`Mirror.resolve_alike`): what a file's references are
settled on depends on its own declarations, on what is remembered about its own references
and on the class paths that are known.
-/

namespace CanonicalNames

namespace Outline

/-- Nodes at the same place below two nodes of two outlines. -/
inductive Twins (left right : Outline) (top other : NodeId) : NodeId → NodeId → Prop where
  | top : Twins left right top other top other
  | child {low twin child mate : NodeId} {node found : Node} {position : Nat}
      (h : Twins left right top other low twin) (hnode : left.node? low = some node)
      (hfound : right.node? twin = some found) (hchild : node.children[position]? = some child)
      (hmate : found.children[position]? = some mate) : Twins left right top other child mate

/-- Two nodes are tops of the same file, and the same class paths are known. -/
structure Mirror (left right : Outline) (top other : NodeId) : Prop where
  well : left.WellFormed
  otherWell : right.WellFormed
  owner : left.owner? top = none
  otherOwner : right.owner? other = none
  path : left.path? top = right.path? other
  bears : ∃ branch, left.Bears top branch ∧ right.Bears other branch
  knows : left.knows = right.knows

/-- What twins have in common: their element, their path and what their children bear. -/
structure Paired (left right : Outline) (low twin : NodeId) (node found : Node)
    (element : Element) (children : List Branch) : Prop where
  present : left.node? low = some node
  otherPresent : right.node? twin = some found
  content : node.content = .declared element
  otherContent : found.content = .declared element
  path : node.path = found.path
  parts : left.BearsAll node.children children
  otherParts : right.BearsAll found.children children

variable {left right : Outline} {top other low twin : NodeId}

theorem Mirror.symm (h : Mirror left right top other) : Mirror right left other top := by
  obtain ⟨branch, hleft, hright⟩ := h.bears
  exact ⟨h.otherWell, h.well, h.otherOwner, h.owner, h.path.symm, ⟨branch, hright, hleft⟩,
    h.knows.symm⟩

namespace Twins

theorem symm (h : Twins left right top other low twin) : Twins right left other top twin low := by
  induction h with
  | top => exact .top
  | child _ hnode hfound hchild hmate ih => exact .child ih hfound hnode hmate hchild

/-- A twin lies below the top. -/
theorem below_top (hwell : left.WellFormed) (h : Twins left right top other low twin) :
    left.Below low top := by
  induction h with
  | top => exact .refl top
  | child _ hnode _ hchild _ ih =>
      exact ih.head (hwell.parent?_of_mem_children hnode (List.mem_of_getElem? hchild))

/-- A node has one twin. -/
theorem right_unique (hwell : left.WellFormed) (h : Twins left right top other low twin)
    {mate : NodeId} (k : Twins left right top other low mate) : twin = mate := by
  induction h generalizing mate with
  | top =>
      cases k with
      | top => rfl
      | child k hnode _ hchild _ =>
          have hlt := hwell.parent_lt (hwell.parent?_of_mem_children hnode (List.mem_of_getElem? hchild))
          exact absurd (hwell.le_of_below (k.below_top hwell)) (Nat.not_le.2 hlt)
  | child h hnode hfound hchild hmate ih =>
      have hparent := hwell.parent?_of_mem_children hnode (List.mem_of_getElem? hchild)
      cases k with
      | top =>
          exact absurd (hwell.le_of_below (h.below_top hwell))
            (Nat.not_le.2 (hwell.parent_lt hparent))
      | child k hnode' hfound' hchild' hmate' =>
          have hparent' := hwell.parent?_of_mem_children hnode' (List.mem_of_getElem? hchild')
          rw [hparent, Option.some.injEq] at hparent'
          subst hparent'
          rw [hnode, Option.some.injEq] at hnode'
          subst hnode'
          obtain rfl := ih k
          rw [hfound, Option.some.injEq] at hfound'
          subst hfound'
          -- Children are listed once, so that the positions are the same.
          obtain ⟨hlt, _⟩ := List.getElem?_eq_some_iff.1 hchild
          obtain rfl := (List.getElem?_inj hlt (hwell.nodup hnode)).1 (hchild.trans hchild'.symm)
          exact Option.some.inj (hmate.symm.trans hmate')

/-- Twins are the same node together. -/
theorem eq_iff (h : Mirror left right top other) (hlow : Twins left right top other low twin)
    {next mate : NodeId} (hnext : Twins left right top other next mate) : low = next ↔ twin = mate := by
  constructor
  · rintro rfl
    exact hlow.right_unique h.well hnext
  · rintro rfl
    exact hlow.symm.right_unique h.otherWell hnext.symm

/-- The children of twins are twins. -/
theorem children {node found : Node} {element : Element} {branches : List Branch}
    (hlow : Twins left right top other low twin)
    (hpaired : Paired left right low twin node found element branches) :
    List.Forall₂ (Twins left right top other) node.children found.children := by
  have hlength := (bears_all_iff.1 hpaired.parts).length_eq.trans
    (bears_all_iff.1 hpaired.otherParts).length_eq.symm
  refine List.forall₂_iff_get.2 ⟨hlength, fun position hlt hlt' => ?_⟩
  exact .child hlow hpaired.present hpaired.otherPresent (List.getElem?_eq_getElem hlt)
    (List.getElem?_eq_getElem hlt')

end Twins

namespace Mirror

/-- Twins have their element, their path and what their children bear in common. -/
theorem paired (h : Mirror left right top other) (hlow : Twins left right top other low twin) :
    ∃ node found element children, Paired left right low twin node found element children := by
  induction hlow with
  | top =>
      obtain ⟨⟨element, children⟩, ⟨node, hnode, hcontent, hall⟩, ⟨found, hfound, hcontent', hall'⟩⟩ :=
        h.bears
      have hpath : node.path = found.path := by simpa [path?, hnode, hfound] using h.path
      exact ⟨node, found, element, children, hnode, hfound, hcontent, hcontent', hpath, hall, hall'⟩
  | child hlow hnode hfound hchild hmate ih =>
      next low twin child mate node found position =>
      obtain ⟨node', found', element, children, hpaired⟩ := ih
      obtain rfl := Option.some.inj (hnode.symm.trans hpaired.present)
      obtain rfl := Option.some.inj (hfound.symm.trans hpaired.otherPresent)
      have hparent := h.well.parent?_of_mem_children hnode (List.mem_of_getElem? hchild)
      have hparent' := h.otherWell.parent?_of_mem_children hfound (List.mem_of_getElem? hmate)
      obtain ⟨hlt, rfl⟩ := List.getElem?_eq_some_iff.1 hchild
      obtain ⟨hlt', rfl⟩ := List.getElem?_eq_some_iff.1 hmate
      have hall := bears_all_iff.1 hpaired.parts
      have hall' := bears_all_iff.1 hpaired.otherParts
      have hbound : position < children.length := hall.length_eq ▸ hlt
      have hbears := hall.get hlt hbound
      have hbears' := hall'.get hlt' hbound
      rcases hbranch : children.get ⟨position, hbound⟩ with ⟨element', children'⟩
      rw [hbranch] at hbears hbears'
      obtain ⟨below, hbelow, hcontent, hparts⟩ := hbears
      obtain ⟨below', hbelow', hcontent', hparts'⟩ := hbears'
      refine ⟨below, below', element', children', hbelow, hbelow', hcontent, hcontent', ?_, hparts,
        hparts'⟩
      obtain ⟨_, hsome, hup⟩ := Option.bind_eq_some_iff.1 hparent
      obtain rfl := Option.some.inj (hbelow.symm.trans hsome)
      obtain ⟨_, hsome', hup'⟩ := Option.bind_eq_some_iff.1 hparent'
      obtain rfl := Option.some.inj (hbelow'.symm.trans hsome')
      rw [h.well.path hbelow hup hnode, h.otherWell.path hbelow' hup' hfound,
        h.well.segment hbelow hcontent, h.otherWell.segment hbelow' hcontent', hpaired.path,
        Node.kind, Node.kind, hcontent, hcontent']

/-- Twins hold the same element. -/
theorem element?_eq (h : Mirror left right top other) (hlow : Twins left right top other low twin) :
    right.element? twin = left.element? low := by
  obtain ⟨node, found, element, children, hpaired⟩ := h.paired hlow
  rw [element?_of_node? hpaired.present, element?_of_node? hpaired.otherPresent, Node.element?,
    Node.element?, hpaired.content, hpaired.otherContent]

theorem kind?_eq (h : Mirror left right top other) (hlow : Twins left right top other low twin) :
    right.kind? twin = left.kind? low := by
  obtain ⟨node, found, element, children, hpaired⟩ := h.paired hlow
  simp [kind?, hpaired.present, hpaired.otherPresent, Node.kind, hpaired.content,
    hpaired.otherContent]

theorem path?_eq (h : Mirror left right top other) (hlow : Twins left right top other low twin) :
    right.path? twin = left.path? low := by
  obtain ⟨node, found, element, children, hpaired⟩ := h.paired hlow
  simp [path?, hpaired.present, hpaired.otherPresent, hpaired.path]

theorem use?_eq (h : Mirror left right top other) (hlow : Twins left right top other low twin)
    (slot : Slot) : right.use? ⟨twin, slot⟩ = left.use? ⟨low, slot⟩ := by
  simp only [use?, h.element?_eq hlow]

theorem contains (h : Mirror left right top other) (hlow : Twins left right top other low twin) :
    left.contains low = true := by
  obtain ⟨node, found, element, children, hpaired⟩ := h.paired hlow
  simp [Outline.contains, hpaired.present]

/-- The owners of twins are twins. -/
theorem owner? (h : Mirror left right top other) (hlow : Twins left right top other low twin) :
    Option.Rel (Twins left right top other) (left.owner? low) (right.owner? twin) := by
  cases hlow with
  | top =>
      rw [h.owner, h.otherOwner]
      exact .none
  | child hup hnode hfound hchild hmate =>
      obtain ⟨below, below', element, children, hpaired⟩ :=
        h.paired (.child hup hnode hfound hchild hmate)
      have hparent := h.well.parent?_of_mem_children hnode (List.mem_of_getElem? hchild)
      have hparent' := h.otherWell.parent?_of_mem_children hfound (List.mem_of_getElem? hmate)
      simp only [parent?, hpaired.present, hpaired.otherPresent, Option.bind_some] at hparent hparent'
      simp only [Outline.owner?, hpaired.present, hpaired.otherPresent, Node.kind, hpaired.content,
        hpaired.otherContent, hparent, hparent']
      split
      · exact .some hup
      · exact .none

/-- The type parameters of twins are twins. -/
theorem type_parameters (h : Mirror left right top other)
    (hlow : Twins left right top other low twin) :
    List.Forall₂ (Twins left right top other) (left.typeParameters low) (right.typeParameters twin) := by
  obtain ⟨node, found, element, children, hpaired⟩ := h.paired hlow
  simp only [typeParameters, childrenOfKind, hpaired.present, hpaired.otherPresent]
  refine List.rel_filter (fun child mate hchild => ?_) (hlow.children hpaired)
  simp only [h.kind?_eq hchild]

/-- The methods of twins are twins. -/
theorem methods_under (h : Mirror left right top other)
    (hlow : Twins left right top other low twin) :
    List.Forall₂ (Twins left right top other) (left.methodsUnder low) (right.methodsUnder twin) := by
  have hpreorder : List.Forall₂ (Twins left right top other) (left.preorder low)
      (right.preorder twin) := by
    obtain ⟨node, _, _, _, hpaired⟩ := h.paired hlow
    refine h.well.induction_on_children (motive := fun low => ∀ twin,
      Twins left right top other low twin →
        List.Forall₂ (Twins left right top other) (left.preorder low) (right.preorder twin))
      ?_ hpaired.present twin hlow
    intro low node hnode ih twin hlow
    obtain ⟨node', found, element, children, hpaired⟩ := h.paired hlow
    obtain rfl := Option.some.inj (hnode.symm.trans hpaired.present)
    have hchildren := (List.forall₂_and_left _ _).2 ⟨fun child hchild => ih child hchild,
      hlow.children hpaired⟩
    rw [h.well.preorder_eq_cons hnode, h.otherWell.preorder_eq_cons hpaired.otherPresent]
    exact .cons hlow (List.rel_flatMap hchildren (fun child mate hchild => hchild.1 mate hchild.2))
  refine List.rel_filter (fun child mate hchild => ?_) hpreorder
  simp only [h.kind?_eq hchild]

end Mirror

end Outline

/-! ## Queries -/

open Outline (Twins Mirror)

/-- Queries that find the same, or ask for twins from twins and read the same off the same
canonical name. -/
inductive Query.Alike (left right : Outline) (top other : NodeId) : Query → Query → Prop where
  | settled {hit found : Option Hit} (h : hit.map left.hitMeaning = found.map right.hitMeaning) :
      Alike left right top other (.settled hit) (.settled found)
  | asking {low twin : NodeId} {slot : Slot} {start anchor : Option NodeId}
      {read take : String → Option NodeId → Option Hit} (hlow : Twins left right top other low twin)
      (hstart : Option.Rel (Twins left right top other) start anchor)
      (hread : ∀ canonical watch seen, (read canonical watch).map left.hitMeaning =
        (take canonical seen).map right.hitMeaning) :
      Alike left right top other (.asking ⟨low, slot⟩ start read) (.asking ⟨twin, slot⟩ anchor take)

theorem rel_find? {α β : Type} {R : α → β → Prop} {p : α → Bool} {q : β → Bool} {left : List α}
    {right : List β} (h : List.Forall₂ R left right)
    (hpq : ∀ first second, R first second → p first = q second) :
    Option.Rel R (left.find? p) (right.find? q) := by
  induction h with
  | nil => exact .none
  | cons hfirst _ ih =>
      rw [List.find?_cons, List.find?_cons, hpq _ _ hfirst]
      split
      · exact .some hfirst
      · exact ih

namespace Outline.Mirror

open Scope

variable {left right : Outline} {top other low twin : NodeId} {name : String}

/-- A class is found alike where the same class paths are known. -/
theorem map_declared (h : Mirror left right top other) (path : String) :
    (declared left path).map left.hitMeaning = (declared right path).map right.hitMeaning := by
  rw [h.well.map_declared, h.otherWell.map_declared, h.knows]

theorem parameter_query (h : Mirror left right top other)
    (hlow : Twins left right top other low twin) :
    Query.Alike left right top other (parameterQuery left name low) (parameterQuery right name twin) := by
  unfold parameterQuery
  rw [h.element?_eq hlow]
  split
  · split
    · split
      · exact .settled rfl
      · exact .asking hlow (h.owner? hlow) (fun _ _ _ => rfl)
    · exact .settled rfl
  · exact .settled rfl

theorem parameters_query (h : Mirror left right top other)
    (hlow : Twins left right top other low twin) :
    Query.Alike left right top other (parametersQuery left name low)
      (parametersQuery right name twin) := by
  have hnamed : ∀ low twin, Twins left right top other low twin →
      isParameterNamed left name low = isParameterNamed right name twin := by
    intro low twin hlow
    simp only [isParameterNamed, h.element?_eq hlow]
  have hfound := rel_find? (h.type_parameters hlow) hnamed
  unfold parametersQuery
  rcases hleft : (left.typeParameters low).find? (isParameterNamed left name) with _ | param <;>
    rcases hright : (right.typeParameters twin).find? (isParameterNamed right name) with _ | mate <;>
    rw [hleft, hright] at hfound <;> cases hfound
  · exact .settled rfl
  · next hparam => exact h.parameter_query hparam

/-- Twins make the same queries. -/
theorem frame_queries (h : Mirror left right top other)
    (hlow : Twins left right top other low twin) :
    List.Forall₂ (Query.Alike left right top other) (frameQueries left name low)
      (frameQueries right name twin) := by
  obtain ⟨node, found, element, children, hpaired⟩ := h.paired hlow
  have helement : node.element? = some element := by
    rw [Node.element?, hpaired.content]
    rfl
  have helement' : found.element? = some element := by
    rw [Node.element?, hpaired.otherContent]
    rfl
  simp only [frameQueries, hpaired.present, hpaired.otherPresent, helement, helement', hpaired.path]
  cases element with
  | method => exact .cons (h.parameters_query hlow) .nil
  | typeParameter => exact .cons (h.parameter_query hlow) .nil
  | file path package imports =>
      refine .cons (.settled ?_) (.cons (.settled (h.map_declared _)) (.cons (.settled ?_)
        (.cons (.settled (h.map_declared _)) .nil)))
      · rw [h.well.map_single_import, h.otherWell.map_single_import, h.knows]
      · rw [h.well.map_wildcard_import, h.otherWell.map_wildcard_import, h.knows]
  | classDecl className supertypes =>
      refine List.rel_append
        (.cons (.settled (h.map_declared _)) (.cons (h.parameters_query hlow) .nil)) ?_
      rw [List.forall₂_map_left_iff, List.forall₂_map_right_iff, List.forall₂_same]
      intro position _
      obtain ⟨up, _, howner, _⟩ := h.well.exists_owner hpaired.present (by
        rw [Node.kind, hpaired.content]
        rfl)
      have hup := h.owner? hlow
      rw [howner] at hup
      rcases hother : right.owner? twin with _ | mate
      · rw [hother] at hup
        cases hup
      · rw [hother] at hup
        simp only [supertypeQuery, howner, hother, Option.getD_some]
        exact .asking hlow hup (fun canonical _ _ => h.map_declared _)

/-- Searches from twins make the same queries. -/
theorem queries (h : Mirror left right top other) (hlow : Twins left right top other low twin) :
    List.Forall₂ (Query.Alike left right top other) (Scope.queries left name low)
      (Scope.queries right name twin) := by
  have houtward : List.Forall₂ (Query.Alike left right top other)
      ((left.frames low).flatMap (frameQueries left name))
      ((right.frames twin).flatMap (frameQueries right name)) := by
    induction low using h.well.induction_on_owner generalizing twin with
    | step low ih =>
        rw [h.well.frames_eq_cons, h.otherWell.frames_eq_cons, List.flatMap_cons, List.flatMap_cons]
        refine List.rel_append (h.frame_queries hlow) ?_
        have hup := h.owner? hlow
        rcases howner : left.owner? low with _ | up <;> rcases hother : right.owner? twin with _ | mate <;>
          rw [howner, hother] at hup <;> cases hup
        · exact .nil
        · next hup => exact ih up howner hup
  refine .cons (.settled ?_) (.cons (.settled (h.map_declared name)) houtward)
  rw [map_builtin, map_builtin]

end Outline.Mirror

/-! ## Resolution -/

/-- The references of twins have the same status. -/
def Pass.Alike (left right : Outline) (top other : NodeId) (pass seen : Pass) : Prop :=
  ∀ {low twin}, Twins left right top other low twin → ∀ slot,
    (pass.standing ⟨low, slot⟩).status = (seen.standing ⟨twin, slot⟩).status

/-- The counters with as much again as others count. -/
def Health.add (health gained : Health) : Health where
  dependencyImports := health.dependencyImports + gained.dependencyImports
  failures := health.failures + gained.failures

/-- Two passes have counted the same since two others. -/
def Pass.CountAlike (pass after seen passed : Pass) : Prop :=
  ∃ gained : Health, after.health = pass.health.add gained ∧ passed.health = seen.health.add gained

theorem Pass.CountAlike.of_eq {pass after seen passed : Pass} (h : after.health = pass.health)
    (k : passed.health = seen.health) : CountAlike pass after seen passed :=
  ⟨{}, h, k⟩

theorem Pass.CountAlike.trans {first second third left middle right : Pass}
    (h : CountAlike first second left middle) (k : CountAlike second third middle right) :
    CountAlike first third left right := by
  obtain ⟨gained, hfirst, hleft⟩ := h
  obtain ⟨more, hsecond, hmiddle⟩ := k
  refine ⟨gained.add more, ?_, ?_⟩
  · simp only [hsecond, hfirst, Health.add, Nat.add_assoc]
  · simp only [hmiddle, hleft, Health.add, Nat.add_assoc]

/-- Requests about twins from twins are answered alike, leave passes alike and count the same. -/
def Resolver.Alike (left right : Outline) (top other : NodeId) (resolver mirrored : Resolver) : Prop :=
  ∀ {low twin slot start anchor pass seen}, Twins left right top other low twin →
    Option.Rel (Twins left right top other) start anchor → Pass.Alike left right top other pass seen →
    (resolver ⟨low, slot⟩ start pass).1 = (mirrored ⟨twin, slot⟩ anchor seen).1 ∧
      Pass.Alike left right top other (resolver ⟨low, slot⟩ start pass).2
        (mirrored ⟨twin, slot⟩ anchor seen).2 ∧
      Pass.CountAlike pass (resolver ⟨low, slot⟩ start pass).2 seen
        (mirrored ⟨twin, slot⟩ anchor seen).2

variable {left right : Outline} {top other low twin : NodeId} {slot : Slot}
  {start anchor : Option NodeId} {mode : Mode} {resolver mirrored : Resolver} {pass seen : Pass}

/-- Searches that make the same queries find the same, if requests are answered alike. -/
theorem Probe.first_map_run_alike (hresolver : Resolver.Alike left right top other resolver mirrored)
    {queries others : List Query} (h : List.Forall₂ (Query.Alike left right top other) queries others)
    (hpass : Pass.Alike left right top other pass seen) :
    (first (queries.map (Query.run resolver)) pass).1.map left.hitMeaning =
        (first (others.map (Query.run mirrored)) seen).1.map right.hitMeaning ∧
      Pass.Alike left right top other (first (queries.map (Query.run resolver)) pass).2
        (first (others.map (Query.run mirrored)) seen).2 ∧
      Pass.CountAlike pass (first (queries.map (Query.run resolver)) pass).2 seen
        (first (others.map (Query.run mirrored)) seen).2 := by
  induction h generalizing pass seen with
  | nil => exact ⟨rfl, hpass, .of_eq rfl rfl⟩
  | cons hquery hrest ih =>
      next query found rest others =>
      have hrun : (query.run resolver pass).1.map left.hitMeaning =
          (found.run mirrored seen).1.map right.hitMeaning ∧
            Pass.Alike left right top other (query.run resolver pass).2 (found.run mirrored seen).2 ∧
            Pass.CountAlike pass (query.run resolver pass).2 seen (found.run mirrored seen).2 := by
        cases hquery with
        | settled hhit => exact ⟨hhit, hpass, .of_eq rfl rfl⟩
        | asking hlow hstart hread =>
            next low twin slot start anchor read take =>
            have hasked := @hresolver low twin slot start anchor pass seen hlow hstart hpass
            simp only [Query.run]
            generalize resolver ⟨low, slot⟩ start pass = result at hasked ⊢
            generalize mirrored ⟨twin, slot⟩ anchor seen = result' at hasked ⊢
            obtain ⟨answer, after⟩ := result
            obtain ⟨answer', after'⟩ := result'
            obtain ⟨rfl, halike⟩ := hasked
            cases answer with
            | resolved canonical => exact ⟨hread _ _ _, halike⟩
            | _ => exact ⟨rfl, halike⟩
      simp only [List.map_cons, first]
      generalize query.run resolver pass = result at hrun ⊢
      generalize found.run mirrored seen = result' at hrun ⊢
      obtain ⟨hit, after⟩ := result
      obtain ⟨hit', after'⟩ := result'
      obtain ⟨hhit, halike, hcount⟩ := hrun
      cases hit with
      | none =>
          cases hit' with
          | none =>
              obtain ⟨hfound, hafter, hmore⟩ := ih halike
              exact ⟨hfound, hafter, hcount.trans hmore⟩
          | some => cases hhit
      | some hit =>
          cases hit' with
          | none => cases hhit
          | some hit' => exact ⟨hhit, halike, hcount⟩

/-- A hit is counted if it is an import outside the outline. -/
theorem Outline.health_commit (outline : Outline) (ref : RefId) (hit : Hit) (pass : Pass) :
    (outline.commit mode ref hit pass).2.health =
      if (outline.outcome hit).2.1 = .dependency then pass.health.countDependency
      else pass.health := by
  have hwatch : ∀ (settled : Pass) (node : NodeId),
      (settled.watch outline ref node).health = settled.health := by
    intro settled node
    unfold Pass.watch
    split <;> rfl
  simp only [commit]
  split
  · rw [hwatch]
    split <;> rfl
  · split <;> rfl

namespace Outline.Mirror

/-- Passes stay alike when the references of twins change alike. -/
theorem alike_of_changed (h : Mirror left right top other)
    (hlow : Twins left right top other low twin) {after passed : Pass}
    (hpass : Pass.Alike left right top other pass seen)
    (hself : (after.standing ⟨low, slot⟩).status = (passed.standing ⟨twin, slot⟩).status)
    (hleft : ∀ {ref}, ⟨low, slot⟩ ≠ ref → after.standing ref = pass.standing ref)
    (hright : ∀ {ref}, ⟨twin, slot⟩ ≠ ref → passed.standing ref = seen.standing ref) :
    Pass.Alike left right top other after passed := by
  intro next mate hnext place
  by_cases hsame : low = next ∧ slot = place
  · obtain ⟨rfl, rfl⟩ := hsame
    obtain rfl := (hlow.eq_iff h hnext).1 rfl
    exact hself
  · have hne : (⟨low, slot⟩ : RefId) ≠ ⟨next, place⟩ := by
      rintro ⟨⟩
      exact hsame ⟨rfl, rfl⟩
    have hne' : (⟨twin, slot⟩ : RefId) ≠ ⟨mate, place⟩ := by
      rintro ⟨⟩
      exact hsame ⟨(hlow.eq_iff h hnext).2 rfl, rfl⟩
    rw [hleft hne, hright hne']
    exact hpass hnext place

/-- Twins are settled alike on what searches have found. -/
theorem conclude_alike (h : Mirror left right top other)
    (hlow : Twins left right top other low twin) {found mirrored : Option Hit × Pass}
    (hfound : found.1.map left.hitMeaning = mirrored.1.map right.hitMeaning)
    (hpass : Pass.Alike left right top other found.2 mirrored.2) :
    (left.conclude mode ⟨low, slot⟩ found).1 = (right.conclude mode ⟨twin, slot⟩ mirrored).1 ∧
      Pass.Alike left right top other (left.conclude mode ⟨low, slot⟩ found).2
        (right.conclude mode ⟨twin, slot⟩ mirrored).2 ∧
      Pass.CountAlike found.2 (left.conclude mode ⟨low, slot⟩ found).2 mirrored.2
        (right.conclude mode ⟨twin, slot⟩ mirrored).2 := by
  have hsettled : (left.conclude mode ⟨low, slot⟩ found).1 =
        (right.conclude mode ⟨twin, slot⟩ mirrored).1 ∧
      ((left.conclude mode ⟨low, slot⟩ found).2.standing ⟨low, slot⟩).status =
        ((right.conclude mode ⟨twin, slot⟩ mirrored).2.standing ⟨twin, slot⟩).status ∧
      Pass.CountAlike found.2 (left.conclude mode ⟨low, slot⟩ found).2 mirrored.2
        (right.conclude mode ⟨twin, slot⟩ mirrored).2 := by
    obtain ⟨hit, after⟩ := found
    obtain ⟨hit', after'⟩ := mirrored
    cases hit with
    | none =>
        cases hit' with
        | none =>
            refine ⟨rfl, by simp [conclude, Pass.standing_give_up_self, Standing.fail], ?_⟩
            exact ⟨{ failures := 1 }, rfl, rfl⟩
        | some => cases hfound
    | some hit =>
        cases hit' with
        | none => cases hfound
        | some hit' =>
            have hmeaning := Option.some.inj hfound
            have hcanonical : (left.outcome hit).1 = (right.outcome hit').1 :=
              congrArg Meaning.canonical hmeaning
            have horigin : (left.outcome hit).2.1 = (right.outcome hit').2.1 :=
              congrArg Meaning.origin hmeaning
            refine ⟨?_, ?_, ?_⟩
            · simp only [conclude, commit_fst, hcanonical]
            · simp only [conclude, status_commit_self, hcanonical, horigin]
            · simp only [Pass.CountAlike, conclude, health_commit, horigin]
              split
              · exact ⟨{ dependencyImports := 1 }, rfl, rfl⟩
              · exact ⟨{}, rfl, rfl⟩
  exact ⟨hsettled.1, h.alike_of_changed hlow hpass hsettled.2.1
    (fun hne => standing_conclude_of_ne found hne) (fun hne => standing_conclude_of_ne mirrored hne),
    hsettled.2.2⟩

/-- A request that is well formed about a node is well formed about its twin. -/
theorem accepts (h : Mirror left right top other) (hlow : Twins left right top other low twin)
    (hstart : Option.Rel (Twins left right top other) start anchor) {use : TypeUse}
    (haccepts : left.Accepts ⟨low, slot⟩ start use) : right.Accepts ⟨twin, slot⟩ anchor use := by
  refine ⟨(h.use?_eq hlow slot).trans haccepts.use_eq, fun first hfirst => ?_, haccepts.name_ne⟩
  subst hfirst
  cases hstart with
  | some htwin => exact h.symm.contains htwin.symm

/-- Attempts on twins end alike, if the requests that they make do. -/
theorem attempt_alike (h : Mirror left right top other)
    (hresolver : Resolver.Alike left right top other resolver mirrored) :
    Resolver.Alike left right top other (left.attempt mode resolver) (right.attempt mode mirrored) := by
  intro low twin slot start anchor pass seen hlow hstart hpass
  by_cases haccepts : ∃ use, left.Accepts ⟨low, slot⟩ start use
  · obtain ⟨use, haccepts⟩ := haccepts
    have haccepts' := h.accepts hlow hstart haccepts
    have hstatus := hpass hlow slot
    have hmay : (seen.standing ⟨twin, slot⟩).mayBegin mode.retriesFailed =
        (pass.standing ⟨low, slot⟩).mayBegin mode.retriesFailed := by
      simp only [Standing.mayBegin, hstatus]
    cases hbegin : (pass.standing ⟨low, slot⟩).mayBegin mode.retriesFailed with
    | false =>
        rw [attempt_of_not_may_begin _ pass haccepts hbegin,
          attempt_of_not_may_begin _ seen haccepts' (hmay.trans hbegin)]
        exact ⟨by simp only [Standing.answer, hstatus], hpass, .of_eq rfl rfl⟩
    | true =>
        rw [attempt_of_may_begin _ pass haccepts hbegin,
          attempt_of_may_begin _ seen haccepts' (hmay.trans hbegin)]
        have hanchor : Twins left right top other (start.getD low) (anchor.getD twin) := by
          cases hstart with
          | none => exact hlow
          | some hfirst => exact hfirst
        have hbegun : Pass.Alike left right top other
            (pass.setStanding ⟨low, slot⟩ (pass.standing ⟨low, slot⟩).start)
            (seen.setStanding ⟨twin, slot⟩ (seen.standing ⟨twin, slot⟩).start) := by
          refine h.alike_of_changed hlow hpass ?_
            (fun hne => Pass.standing_set_standing_of_ne _ _ hne)
            (fun hne => Pass.standing_set_standing_of_ne _ _ hne)
          rw [Pass.standing_set_standing_self, Pass.standing_set_standing_self]
          rfl
        obtain ⟨hfound, hafter, hcount⟩ :=
          Probe.first_map_run_alike hresolver (h.queries hanchor) hbegun
        obtain ⟨hanswer, hlast, hmore⟩ := h.conclude_alike hlow hfound hafter
        -- Putting a reference in progress counts nothing.
        exact ⟨hanswer, hlast, (Pass.CountAlike.of_eq rfl rfl).trans (hcount.trans hmore)⟩
  · have hnot : ∀ use, ¬ left.Accepts ⟨low, slot⟩ start use := fun use h => haccepts ⟨use, h⟩
    have hnot' : ∀ use, ¬ right.Accepts ⟨twin, slot⟩ anchor use := by
      intro use haccepts'
      refine hnot use (h.symm.accepts hlow.symm ?_ haccepts')
      cases hstart with
      | none => exact .none
      | some hfirst => exact .some hfirst.symm
    rw [attempt_of_not_accepts _ pass hnot, attempt_of_not_accepts _ seen hnot']
    exact ⟨rfl, hpass, .of_eq rfl rfl⟩

/-- Requests about twins from twins are answered alike, leave passes alike and count the same,
whatever references stand at and however bounds and supertypes lead into each other. -/
theorem resolve_alike (h : Mirror left right top other) :
    Resolver.Alike left right top other (left.resolve mode) (right.resolve mode) := by
  -- Both resolvers are the same number of attempts inside each other.
  have hiterate : ∀ depth, Resolver.Alike left right top other
      ((left.attempt mode)^[depth] (fun _ _ pass => (.skipped, pass)))
      ((right.attempt mode)^[depth] (fun _ _ pass => (.skipped, pass))) := by
    intro depth
    induction depth with
    | zero => exact fun _ _ hpass => ⟨rfl, hpass, .of_eq rfl rfl⟩
    | succ depth ih =>
        rw [Function.iterate_succ_apply', Function.iterate_succ_apply']
        exact h.attempt_alike ih
  intro low twin slot start anchor pass seen hlow hstart hpass
  have hdepth : left.refs.length < left.refs.length + right.refs.length + 1 := by omega
  have hdepth' : right.refs.length < left.refs.length + right.refs.length + 1 := by omega
  rw [← resolve_eq_iterate _ hdepth, ← resolve_eq_iterate _ hdepth']
  exact hiterate _ hlow hstart hpass

/-- Resolving the return types of twins in turn leaves passes alike. -/
theorem resolve_methods_alike (h : Mirror left right top other) {methods others : List NodeId}
    (hmethods : List.Forall₂ (Twins left right top other) methods others)
    (hpass : Pass.Alike left right top other pass seen) :
    Pass.Alike left right top other (left.resolveMethods mode methods pass).2
      (right.resolveMethods mode others seen).2 := by
  induction hmethods generalizing pass seen with
  | nil => exact hpass
  | cons hmethod _ ih => exact ih (h.resolve_alike hmethod .none hpass).2.1

/-- Resolving the return types of twins in turn gives the same answers and counts the same. -/
theorem resolve_methods_answers (h : Mirror left right top other) {methods others : List NodeId}
    (hmethods : List.Forall₂ (Twins left right top other) methods others)
    (hpass : Pass.Alike left right top other pass seen) :
    List.Forall₂ (fun answer mate => Twins left right top other answer.1 mate.1 ∧ answer.2 = mate.2)
        (left.resolveMethods mode methods pass).1 (right.resolveMethods mode others seen).1 ∧
      Pass.CountAlike pass (left.resolveMethods mode methods pass).2 seen
        (right.resolveMethods mode others seen).2 := by
  induction hmethods generalizing pass seen with
  | nil => exact ⟨.nil, .of_eq rfl rfl⟩
  | cons hmethod _ ih =>
      obtain ⟨hanswer, hafter, hcount⟩ := h.resolve_alike hmethod .none hpass
      obtain ⟨hanswers, hmore⟩ := ih hafter
      exact ⟨.cons ⟨hmethod, hanswer⟩ hanswers, hcount.trans hmore⟩

/-- Resolving a file of which nothing is known gives the same answers, leaves passes alike and
counts the same. -/
theorem resolve_under_alike (h : Mirror left right top other) (mode : Mode)
    (hblank : ∀ ref, left.Below ref.owner top → (pass.standing ref).status = .unresolved)
    (hblank' : ∀ ref, right.Below ref.owner other → (seen.standing ref).status = .unresolved) :
    List.Forall₂ (fun answer mate => Twins left right top other answer.1 mate.1 ∧ answer.2 = mate.2)
        (left.resolveUnder mode top pass).1 (right.resolveUnder mode other seen).1 ∧
      Pass.Alike left right top other (left.resolveUnder mode top pass).2
        (right.resolveUnder mode other seen).2 ∧
      Pass.CountAlike pass (left.resolveUnder mode top pass).2 seen
        (right.resolveUnder mode other seen).2 := by
  have halike : Pass.Alike left right top other pass seen := by
    intro low twin hlow slot
    rw [hblank ⟨low, slot⟩ (hlow.below_top h.well),
      hblank' ⟨twin, slot⟩ (hlow.symm.below_top h.otherWell)]
  have hmethods := h.methods_under .top
  obtain ⟨hanswers, hcount⟩ := h.resolve_methods_answers hmethods halike
  exact ⟨hanswers, h.resolve_methods_alike hmethods halike, hcount⟩

end Outline.Mirror

/-! ## One file -/

namespace Outline

variable {outline : Outline} {ref : RefId}

/-- A node is its own twin where a file mirrors itself. -/
theorem WellFormed.twins_of_below (hwell : outline.WellFormed) (hbelow : outline.Below low top) :
    Twins outline outline top top low low := by
  induction hbelow using Relation.ReflTransGen.head_induction_on with
  | refl => exact .top
  | head hstep _ ih =>
      obtain ⟨above, habove, hmem⟩ := hwell.node?_of_parent? hstep
      obtain ⟨position, hposition⟩ := List.getElem?_of_mem hmem
      exact .child ih habove habove hposition hposition

/-- A request about a reference in a file leaves references outside. -/
theorem Mirror.standing_resolve_of_not_below (h : Mirror outline outline top top)
    (hlow : outline.Below low top) (hother : ¬ outline.Below ref.owner top) :
    (outline.resolve mode ⟨low, slot⟩ none pass).2.standing ref = pass.standing ref := by
  refine @standing_resolve_of_closed outline mode ⟨low, slot⟩ ref none
    (fun asked start => outline.Below asked.owner top ∧ ∀ first ∈ start, outline.Below first top)
    ?_ (fun hwithin _ => hother hwithin.1) ⟨hlow, nofun⟩ pass
  intro asking start use asked anchor read hwithin _ hmem
  have hbelow : outline.Below (start.getD asking.owner) top := by
    cases start with
    | none => exact hwithin.1
    | some first => exact hwithin.2 first rfl
  have hself := List.forall₂_same.1 (h.queries (h.well.twins_of_below hbelow)) _ hmem
  cases hself with
  | asking hasked hstart _ =>
      refine ⟨hasked.below_top h.well, fun first hfirst => ?_⟩
      cases hfirst
      cases hstart with
      | some htwin => exact htwin.below_top h.well

/-- Resolving return types in a file leaves references outside. -/
theorem Mirror.standing_resolve_methods (h : Mirror outline outline top top)
    {methods : List NodeId} (hmethods : ∀ method ∈ methods, outline.Below method top)
    (hother : ¬ outline.Below ref.owner top) (pass : Pass) :
    (outline.resolveMethods mode methods pass).2.standing ref = pass.standing ref :=
  @resolve_methods_keeps outline mode (fun before after => after.standing ref = before.standing ref)
    (fun _ => rfl) (fun hfirst hsecond => hsecond.trans hfirst) methods
    (fun method hmethod _ => h.standing_resolve_of_not_below (hmethods method hmethod) hother) pass

/-- Passes are alike for a file of one outline when its references have the same status. -/
theorem Mirror.alike_of_status_eq (h : Mirror outline outline top top)
    (hsame : ∀ {ref : RefId}, outline.Below ref.owner top →
      (pass.standing ref).status = (seen.standing ref).status) :
    Pass.Alike outline outline top top pass seen := by
  intro low twin hlow slot
  have hbelow := hlow.below_top h.well
  obtain rfl := hlow.right_unique h.well (h.well.twins_of_below hbelow)
  exact @hsame ⟨_, slot⟩ hbelow

/-- A file with the same declaration in two outlines where the same class paths are known. -/
theorem Filing.mirror_of_knows {after : Outline} {source? other? : SourcePath → Option FileDecl}
    (h : outline.Filing source?) (h' : after.Filing other?) (hknows : outline.knows = after.knows)
    {path : SourcePath} {decl : FileDecl} (hsource : source? path = some decl)
    (hother : other? path = some decl) {file found : NodeId}
    (hfile : outline.fileAt? path = some file) (hfound : after.fileAt? path = some found) :
    Mirror outline after file found := by
  obtain ⟨decl', hsource', hbears, _⟩ := h.filed hfile
  obtain rfl := Option.some.inj (hsource.symm.trans hsource')
  obtain ⟨decl', hother', hbears', _⟩ := h'.filed hfound
  obtain rfl := Option.some.inj (hother.symm.trans hother')
  obtain ⟨node, _, _, _, hnode, _⟩ := h.ground.well.fileAt.1 hfile
  obtain ⟨node', _, _, _, hnode', _⟩ := h'.ground.well.fileAt.1 hfound
  refine ⟨h.ground.well, h'.ground.well, owner?_of_is_file (h.ground.well.is_file_of_file_at hfile),
    owner?_of_is_file (h'.ground.well.is_file_of_file_at hfound), ?_, ⟨_, hbears, hbears'⟩, hknows⟩
  simp [path?, hnode, hnode', h.path_of_file_at hfile hsource hnode,
    h'.path_of_file_at hfound hother hnode']

/-- A file with the same declaration in two outlines of the same files. -/
theorem Filing.mirror {after : Outline} {source? : SourcePath → Option FileDecl}
    (h : outline.Filing source?) (h' : after.Filing source?) {path : SourcePath} {file found : NodeId}
    (hfile : outline.fileAt? path = some file) (hfound : after.fileAt? path = some found) :
    Mirror outline after file found := by
  obtain ⟨decl, hsource, _⟩ := h.filed hfile
  exact h.mirror_of_knows h' (h.knows_eq h') hsource hsource hfile hfound

end Outline

end CanonicalNames
