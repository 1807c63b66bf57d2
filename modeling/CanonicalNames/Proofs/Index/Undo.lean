import CanonicalNames.Proofs.Index.Candidates
import CanonicalNames.Proofs.Index.Removal

/-!
# Removing a file takes its insertion back

Inserting a file may make packages on the way to it, and everything else that it brings lies
inside the file. So each node that has come lies below the file, or is a package above it
(`Spur`), and of these packages the removal of the file leaves none: each is left without a child
once those below it are gone. A package that was there before keeps a child, if it had one.

The outlines before the insertion and after the removal then have the same nodes and are both
induced in the outline between them, which leaves no difference in what their nodes hold
(`Induced.same_nodes`). Nobody can be registered on a node that was not there, and no reference
inside it has a standing yet (`Reachable.blank`), so registrations and standings are the same as
well: `remove_file_undoes_insert_file`.
-/

namespace CanonicalNames

/-- Two nodes that hold the same: face, children and what is listed of them. -/
structure Node.Same (left right : Node) : Prop where
  face : left.SameFace right
  children : left.children = right.children
  files : left.files = right.files
  bySegment : ∀ segment, left.bySegment.find? segment = right.bySegment.find? segment

namespace Outline

variable {outline part other whole before after : Outline} {id low high tip : NodeId} {node : Node}

/-! ## Outlines with the same nodes -/

/-- Two outlines that hold the same nodes under the same numbers, and the same files. -/
structure SameNodes (before after : Outline) : Prop where
  absent : ∀ {id}, before.node? id = none → after.node? id = none
  present : ∀ {id node}, before.node? id = some node → ∃ left, after.node? id = some left ∧
    left.Same node
  fileAt : ∀ path, after.fileAt? path = before.fileAt? path

/-- The index by segment holds the children that are seen by the segment, if there are any. -/
theorem WellFormed.find?_by_segment (h : outline.WellFormed) (hconcise : outline.Concise)
    (hnode : outline.node? id = some node) (segment : String) :
    node.bySegment.find? segment =
      if node.children.filter (outline.isVisible segment) = [] then none
      else some (node.children.filter (outline.isVisible segment)) := by
  rw [← h.named hnode segment, Node.named]
  rcases hfind : node.bySegment.find? segment with _ | ids
  · rfl
  · obtain ⟨entry, hentry, -, rfl⟩ := ((h.unique hnode).find?_eq_some_iff).1 hfind
    rw [Option.getD_some, if_neg (hconcise id node hnode entry hentry)]

/-- Two restrictions of one outline to the same nodes hold the same. -/
theorem Induced.same_nodes (h : Induced part whole) (k : Induced other whole)
    (hpart : part.WellFormed) (hother : other.WellFormed) (hconcise : part.Concise)
    (hconcise' : other.Concise) (hcontains : ∀ id, other.contains id = part.contains id) :
    SameNodes part other := by
  have hvisible : ∀ segment, other.isVisible segment = part.isVisible segment := by
    intro segment
    funext child
    rw [← h.is_visible_and_contains, ← k.is_visible_and_contains, hcontains]
  have hfile : other.isFile = part.isFile := by
    funext child
    rw [← h.is_file_and_contains, ← k.is_file_and_contains, hcontains]
  have hpresent : ∀ {id node}, part.node? id = some node → ∃ left, other.node? id = some left ∧
      left.Same node := by
    intro id node hnode
    have hid : other.contains id = true := by rw [hcontains, contains_of_node? hnode]
    obtain ⟨left, hleft⟩ := Option.isSome_iff_exists.1 hid
    obtain ⟨found, hfound, hface, hchildren⟩ := h hnode
    obtain ⟨found', hfound', hface', hchildren'⟩ := k hleft
    obtain rfl := Option.some.inj (hfound.symm.trans hfound')
    have hsame : left.children = node.children := by rw [hchildren, hchildren', funext hcontains]
    refine ⟨left, hleft, hface'.trans hface.symm, hsame, ?_, fun segment => ?_⟩
    · rw [hother.files hleft, hpart.files hnode, hsame, hfile]
    · rw [hother.find?_by_segment hconcise' hleft, hpart.find?_by_segment hconcise hnode, hsame,
        hvisible]
  have habsent : ∀ {id}, part.node? id = none → other.node? id = none := by
    intro id hnone
    have hid := hcontains id
    simpa [contains, hnone] using hid
  refine ⟨habsent, hpresent, fun path => ?_⟩
  ext id
  rw [hpart.fileAt, hother.fileAt]
  constructor
  · rintro ⟨left, source, package, imports, hleft, hcontent, hpath⟩
    rcases hnode : part.node? id with _ | node
    · rw [habsent hnode] at hleft
      cases hleft
    · obtain ⟨left', hleft', hsame⟩ := hpresent hnode
      obtain rfl := Option.some.inj (hleft.symm.trans hleft')
      exact ⟨node, source, package, imports, rfl, hsame.face.content ▸ hcontent, hpath⟩
  · rintro ⟨node, source, package, imports, hnode, hcontent, hpath⟩
    obtain ⟨left, hleft, hsame⟩ := hpresent hnode
    exact ⟨left, source, package, imports, hleft, hsame.face.content.trans hcontent, hpath⟩

/-! ## Ancestors -/

theorem WellFormed.lt_of_mem_ancestors (h : outline.WellFormed) (hhigh : high ∈ outline.ancestors id) :
    high < id := by
  refine h.induction_on_ancestors (motive := fun id chain => ∀ high ∈ chain, high < id)
    (fun _ _ => nofun) (fun id parent hparent ih => ?_) id high hhigh
  have hlt := h.parent_lt hparent
  exact List.forall_mem_cons.2 ⟨hlt, fun high hhigh => Nat.lt_trans (ih high hhigh) hlt⟩

/-- Numbers go down on the way up. -/
theorem WellFormed.pairwise_ancestors (h : outline.WellFormed) (id : NodeId) :
    (outline.ancestors id).Pairwise (fun near far => far < near) :=
  h.induction_on_ancestors (motive := fun _ chain => chain.Pairwise (fun near far => far < near))
    (fun _ _ => .nil)
    (fun _ _ _ ih => .cons (fun _ hfar => h.lt_of_mem_ancestors hfar) ih) id

/-- What a node lies below, itself apart, are its ancestors. -/
theorem WellFormed.mem_ancestors_of_below (h : outline.WellFormed) (hbelow : outline.Below low high)
    (hne : high ≠ low) : high ∈ outline.ancestors low := by
  induction hbelow using Relation.ReflTransGen.head_induction_on with
  | refl => exact absurd rfl hne
  | @head low up hstep _ ih =>
      rw [h.ancestors_eq_cons hstep]
      by_cases heq : high = up
      · exact heq ▸ List.mem_cons_self ..
      · exact List.mem_cons_of_mem _ (ih heq)

/-- Every package has a child. -/
def Populated (outline : Outline) : Prop :=
  ∀ id node, outline.node? id = some node → node.kind = .package → node.children ≠ []

/-- Only the nodes that are present can be packages. -/
theorem populated_iff : outline.Populated ↔ ∀ id < outline.places.size,
    (outline.node? id).all (fun node => node.kind != .package || !node.children.isEmpty) = true := by
  constructor
  · intro h id _
    rcases hnode : outline.node? id with _ | node
    · rfl
    · have hchildren := h id node hnode
      by_cases hkind : node.kind = .package <;> simp_all
  · intro h id node hnode hkind
    simpa [hnode, hkind] using h id (lt_size_of_node? hnode)

instance : Decidable outline.Populated :=
  decidable_of_iff _ populated_iff.symm

end Outline

namespace Index

open Outline (SameNodes Emptied Induced Continues)

variable {index middle grown after : Index} {id parent tip : NodeId} {file : FileDecl}
  {Admits : NodeId → Content → Prop}

/-! ## What an insertion brings -/

/-- The nodes from a number on are packages at or above a node. -/
def Spur (outline : Outline) (size tip : NodeId) : Prop :=
  ∀ id, outline.contains id = true → size ≤ id →
    outline.kind? id = some .package ∧ outline.Below tip id

/-- What lies above the parent lies above the new node. -/
theorem Attachment.below_new (new : index.Attachment) {high : NodeId}
    (h : index.outline.Below new.parent high) :
    new.outline.Below index.outline.places.size high := by
  have hup : new.outline.parent? index.outline.places.size = some new.parent := by
    simp [Outline.parent?, new.node?_new, Outline.newNode]
  exact Relation.ReflTransGen.head hup (h.mono new.within.parent?)

/-- The way of a file brings packages above its end only. -/
theorem Way.spur {size : NodeId} {segments : List String}
    (hway : Way true tip after index parent segments) (hwell : index.outline.WellFormed)
    (h : Spur index.outline size parent) : Spur after.outline size tip := by
  induction hway with
  | done => exact h
  | there hnext _ ih =>
      refine ih hwell (fun id hid hsize => ?_)
      rw [Outline.next?, if_pos rfl] at hnext
      obtain ⟨node, hnode, -, hparent, -⟩ := hwell.node?_of_child_package? hnext
      have hup := Outline.parent?_of_node? hnode hparent
      exact ⟨(h id hid hsize).1, Relation.ReflTransGen.head hup (h id hid hsize).2⟩
  | made new _ hcontent _ ih =>
      refine ih (new.well_formed hwell) (fun id hid hsize => ?_)
      rcases (new.contains_iff id).1 hid with rfl | hold
      · refine ⟨?_, .refl _⟩
        simp [Outline.kind?, new.node?_new, Outline.newNode, Node.kind, hcontent, Content.kind]
      · obtain ⟨hkind, hbelow⟩ := h id hold hsize
        exact ⟨new.within.kind? hkind, new.below_new hbelow⟩

/-- A file that is inserted is placed first, and the rest goes inside it. -/
theorem insert_file_ok (hrun : insertFile file index = .ok id after) :
    ∃ middle, insertAt file.package file.toElement index = .ok id middle ∧
      Grows (Inside id middle.outline.places.size) middle after := by
  simp only [insertFile, bind, EStateM.bind] at hrun
  rcases hplace : insertAt file.package file.toElement index with ⟨first, middle⟩ | ⟨error, middle⟩
  · have hparts : Grows (Inside first middle.outline.places.size) middle
        (reached (plantAll first (ClassDecl.toBranches file.classes)) middle) :=
      grows_plant_all _ (all_of_is_inner_classes file.classes) (Or.inl rfl) (Nat.le_refl _)
    rw [← insert_classes_eq_plant_all] at hparts
    simp only [hplace, reached] at hrun hparts
    rcases hall : insertClasses first file.classes middle with ⟨_, last⟩ | ⟨error, last⟩
    · rw [hall] at hrun hparts
      cases hrun
      exact ⟨middle, rfl, hparts⟩
    · rw [hall] at hrun
      cases hrun
  · rw [hplace] at hrun
    cases hrun

/-- What has come with a file lies below the file or is a package above it. -/
structure Sprouted (index grown : Index) (file : NodeId) : Prop where
  fresh : index.outline.places.size ≤ file
  came : ∀ id, grown.outline.contains id = true → index.outline.places.size ≤ id →
    grown.outline.Below id file ∨
      grown.outline.kind? id = some .package ∧ grown.outline.Below file id

/-- What is attached inside a file lies below it. -/
theorem Grows.below_of_inside {size : NodeId} (h : Grows (Inside tip size) middle grown)
    (hsize : middle.outline.places.size = size) :
    ∀ id, grown.outline.contains id = true →
      middle.outline.contains id = true ∨ grown.outline.Below id tip := by
  refine h.preserves (motive := fun last => ∀ id, last.outline.contains id = true →
    middle.outline.contains id = true ∨ last.outline.Below id tip) ?_ (fun _ => Or.inl)
  rintro last new ⟨hparent, -⟩ hlast id hid
  rcases (new.contains_iff id).1 hid with rfl | hold
  · refine Or.inr (new.below_new ?_)
    rcases hparent with hparent | hparent
    · exact hparent ▸ .refl _
    · refine (hlast _ (Outline.contains_of_node? new.present)).resolve_left (fun hfirst => ?_)
      obtain ⟨node, hnode⟩ := Option.isSome_iff_exists.1 hfirst
      exact absurd (Outline.lt_size_of_node? hnode) (Nat.not_lt.2 (hsize ▸ hparent))
  · exact (hlast id hold).imp_right (fun h => h.mono new.within.parent?)

theorem sprouted_insert_file (hwell : index.outline.WellFormed)
    (hrun : insertFile file index = .ok id grown) : Sprouted index grown id ∧
      ∃ node, grown.outline.node? id = some node ∧ node.content = .declared file.toElement := by
  obtain ⟨placed, hplace, hinside⟩ := insert_file_ok hrun
  obtain ⟨package, parent, middle, -, hway, new, rfl, hcontent, rfl, rfl⟩ := insert_at_ok hplace
  have hgrows := hway.grows
  have hempty : Spur index.outline index.outline.places.size Outline.rootId := by
    intro id hid hsize
    obtain ⟨node, hnode⟩ := Option.isSome_iff_exists.1 hid
    exact absurd (Outline.lt_size_of_node? hnode) (Nat.not_lt.2 hsize)
  have hspur := Way.spur hway hwell hempty
  have hwithin := (hinside.induced (new.well_formed (hgrows.well_formed hwell))).within
  refine ⟨⟨hgrows.size_le, fun id hid hsize => ?_⟩, ?_⟩
  · -- The packages that have come lie above the file, and the rest is the file or lies below it.
    rcases hinside.below_of_inside rfl id hid with hplaced | hbelow
    · rcases (new.contains_iff id).1 hplaced with rfl | hold
      · exact Or.inl (.refl _)
      · obtain ⟨hkind, hbelow⟩ := hspur id hold hsize
        exact Or.inr ⟨hwithin.kind? (new.within.kind? hkind),
          (new.below_new hbelow).mono hwithin.parent?⟩
    · exact Or.inl hbelow
  · obtain ⟨found, hfound, hface⟩ := hwithin _ _ new.node?_new
    exact ⟨found, hfound, hface.content.trans hcontent⟩

/-! ## What the removal takes out -/

variable {top : NodeId} {leaving run : List NodeId}

/-- Of what has come, a removal of the file leaves nothing: a package that is left would be the
next one without a child. -/
theorem Sprouted.mem_run (h : Sprouted index grown top) (hwell : grown.outline.WellFormed)
    (hrun : Emptied grown.outline after.outline (grown.outline.ancestors top) run)
    (hcontains : ∀ other, after.outline.contains other = true ↔
      grown.outline.contains other = true ∧ ¬ grown.outline.Below other top ∧ other ∉ run)
    (hid : grown.outline.contains id = true) (hsize : index.outline.places.size ≤ id)
    (hbelow : ¬ grown.outline.Below id top) : id ∈ run := by
  have hchain : ∀ {other}, grown.outline.contains other = true →
      index.outline.places.size ≤ other → ¬ grown.outline.Below other top →
      other ∈ grown.outline.ancestors top := by
    intro other hother hsize hbelow
    refine hwell.mem_ancestors_of_below ((h.came other hother hsize).resolve_left hbelow).2 ?_
    rintro rfl
    exact hbelow (.refl _)
  obtain ⟨rest, hsplit⟩ := hrun.upward
  have hdown := hwell.pairwise_ancestors top
  rw [← hsplit] at hdown
  have hmem := hchain hid hsize hbelow
  rw [← hsplit] at hmem
  rcases List.mem_append.1 hmem with hmem | hmem
  · exact hmem
  · cases rest with
    | nil => cases hmem
    | cons next more =>
        have hafter : ∀ {other}, other ∈ next :: more → other ≤ next := by
          intro other hother
          rcases List.mem_cons.1 hother with rfl | hother
          · exact Nat.le_refl _
          · have hrest := (List.pairwise_append.1 hdown).2.1
            exact Nat.le_of_lt ((List.pairwise_cons.1 hrest).1 other hother)
        have hnew : index.outline.places.size ≤ next := Nat.le_trans hsize (hafter hmem)
        have hnext : next ∈ grown.outline.ancestors top := by
          rw [← hsplit]
          simp
        have hlow : ¬ grown.outline.Below next top := fun hlow =>
          Nat.lt_irrefl _ (Nat.lt_of_lt_of_le (hwell.lt_of_mem_ancestors hnext)
            (hwell.le_of_below hlow))
        -- The children of the next package have come as well, so they are gone.
        refine absurd ⟨?_, fun child hchild => ?_⟩
          (hrun.longest next (by rw [← hsplit]; exact ⟨more, by simp⟩))
        · exact ((h.came next (hwell.contains_of_mem_ancestors hnext) hnew).resolve_left hlow).1
        · have hlt := hwell.parent_lt hchild
          obtain ⟨node, hnode, -⟩ := Option.bind_eq_some_iff.1 hchild
          have hpresent := Outline.contains_of_node? hnode
          rw [← Bool.not_eq_true, hcontains]
          rintro ⟨-, hapart, hleft⟩
          have hmem := hchain hpresent (Nat.le_trans hnew (Nat.le_of_lt hlt)) hapart
          rw [← hsplit] at hmem
          rcases List.mem_append.1 hmem with hmem | hmem
          · exact hleft hmem
          · exact absurd hlt (Nat.not_lt.2 (hafter hmem))

/-- A package that was there before keeps a child that was there before. -/
theorem Sprouted.not_mem_run (h : Sprouted index grown top) (hwell : index.outline.WellFormed)
    (hgrown : grown.outline.WellFormed) (hwithin : Outline.Within index.outline grown.outline)
    (hpopulated : index.outline.Populated)
    (hrun : Emptied grown.outline after.outline (grown.outline.ancestors top) run)
    (hcontains : ∀ other, after.outline.contains other = true ↔
      grown.outline.contains other = true ∧ ¬ grown.outline.Below other top ∧ other ∉ run)
    (hid : index.outline.contains id = true) : id ∉ run := by
  -- A package of the run has a child in the run, with a greater number; these come to an end.
  induction hdistance : index.outline.places.size - id using Nat.strong_induction_on
    generalizing id with
  | _ distance ih =>
      intro hmem
      obtain ⟨node, hnode⟩ := Option.isSome_iff_exists.1 hid
      obtain ⟨hkind, hgone⟩ := hrun.childless id hmem
      have hpackage : node.kind = .package := by
        rw [hwithin.kind?_eq hid, Outline.kind?, hnode] at hkind
        exact Option.some.inj hkind
      obtain ⟨child, rest, hchildren⟩ := List.exists_cons_of_ne_nil
        (hpopulated id node hnode hpackage)
      have hchild : child ∈ node.children := by rw [hchildren]; exact List.mem_cons_self ..
      have hup := hwell.parent?_of_mem_children hnode hchild
      obtain ⟨below, hbelow, -⟩ := hwell.child hnode hchild
      have hpresent := Outline.contains_of_node? hbelow
      have hlt := hwell.parent_lt hup
      have hsize := Outline.lt_size_of_node? hbelow
      refine ih _ ?_ hpresent rfl ?_
      · exact hdistance ▸ Nat.sub_lt_sub_left (Nat.lt_trans hlt hsize) hlt
      · by_contra hleft
        have hstays := (hcontains child).2 ⟨hwithin.contains hpresent, fun hlow => ?_, hleft⟩
        · rw [hgone child (hwithin.parent? hup)] at hstays
          cases hstays
        · exact absurd (Nat.le_trans h.fresh (hgrown.le_of_below hlow)) (Nat.not_le.2 hsize)

/-- The removal of the file leaves the nodes that were there before it came. -/
theorem Sprouted.contains_eq (h : Sprouted index grown top) (hwell : index.outline.WellFormed)
    (hgrown : grown.outline.WellFormed) (hwithin : Outline.Within index.outline grown.outline)
    (hcontinues : Continues index.outline grown.outline) (hpopulated : index.outline.Populated)
    (hremove : grown.remove top = .ok (leaving, after)) (id : NodeId) :
    after.outline.contains id = index.outline.contains id := by
  obtain ⟨-, -, hleaving, -⟩ := remove_eq hgrown hremove
  obtain ⟨run, hrun, hcontains⟩ := emptied_of_remove hgrown hremove
  simp only [hleaving] at hcontains
  rw [Bool.eq_iff_iff]
  constructor
  · intro hleft
    obtain ⟨hpresent, hbelow, hnot⟩ := (hcontains id).1 hleft
    by_cases hsize : index.outline.places.size ≤ id
    · exact absurd (h.mem_run hgrown hrun hcontains hpresent hsize hbelow) hnot
    · obtain ⟨node, hnode⟩ := Option.isSome_iff_exists.1 hpresent
      obtain ⟨old, hold, -⟩ := hcontinues.same (Nat.not_le.1 hsize) hnode
      exact Outline.contains_of_node? hold
  · intro hid
    refine (hcontains id).2 ⟨hwithin.contains hid, fun hlow => ?_,
      h.not_mem_run hwell hgrown hwithin hpopulated hrun hcontains hid⟩
    obtain ⟨node, hnode⟩ := Option.isSome_iff_exists.1 hid
    exact absurd (Nat.le_trans h.fresh (hgrown.le_of_below hlow))
      (Nat.not_le.2 (Outline.lt_size_of_node? hnode))

/-! ## References that do not exist -/

/-- References that do not exist have no standing. -/
def Blank (outline : Outline) (standings : Standings) : Prop :=
  ∀ ref, outline.use? ref = none → Standings.of standings ref = {}

variable {outline : Outline} {standings : Standings} {ref : RefId}

/-- A reference that exists may get any standing. -/
theorem Blank.set (h : Blank outline standings) (huse : (outline.use? ref).isSome = true)
    (standing : Standing) : Blank outline (standings.insert ref standing) := by
  intro other hnone
  rw [Standings.of_insert, if_neg, h other hnone]
  rintro rfl
  rw [hnone] at huse
  cases huse

/-- Requests give standings to references that exist. -/
theorem blank_invariant (outline : Outline) (mode : Mode) :
    Pass.Invariant outline mode (fun pass => Blank outline pass.standings) (fun _ _ => True) where
  start h huse _ := h.set huse _
  settled _ _ := trivial
  asked _ _ _ _ _ := trivial
  giveUp h huse _ := h.set huse _
  commit {pass ref hit} h _ huse _ := by
    intro other hnone
    have hne : ref ≠ other := by
      rintro rfl
      rw [hnone] at huse
      cases huse
    exact (Outline.standing_commit_of_ne hit pass hne).trans (h other hnone)

theorem Blank.grows (h : Blank index.outline index.standings) (hgrows : Grows Admits index after) :
    Blank after.outline after.standings := by
  refine hgrows.preserves (motive := fun other => Blank other.outline other.standings)
    (fun middle new _ hmiddle ref hnone => hmiddle ref ?_) h
  rcases huse : middle.outline.use? ref with _ | use
  · rfl
  · rw [new.outline_result, new.within.use? huse] at hnone
    cases hnone

theorem Blank.removed (h : Blank index.outline index.standings) (hremoved : Removed index after id) :
    Blank after.outline after.standings := by
  intro ref hnone
  rcases hremoved.standing ref with hblank | hsame
  · exact hblank
  · rcases huse : index.outline.use? ref with _ | use
    · exact hsame.trans (h ref huse)
    · -- A reference that has gone was below the removed node, and is released.
      have hsome : (index.outline.use? ref).isSome = true := by rw [huse]; rfl
      have hgone : ¬ (after.outline.use? ref).isSome = true := by rw [hnone]; simp
      rw [hremoved.is_some_use?_iff] at hgone
      exact hremoved.released (by_contra (fun hbelow => hgone ⟨hsome, hbelow⟩)) hsome

theorem Blank.release (h : Blank index.outline index.standings) (ref : RefId) :
    Blank (index.release ref).outline (index.release ref).standings := by
  intro other hnone
  have hother := index.standing_release ref other
  split at hother
  · exact hother
  · exact hother.trans (h other hnone)

/-- No operation gives a standing to a reference that does not exist. -/
theorem Blank.effect {operation : Operation} (h : Blank index.outline index.standings)
    (hwell : index.outline.WellFormed) (heffect : Effect index operation after) :
    Blank after.outline after.standings := by
  cases heffect with
  | insert hinsert => exact h.grows (grows_insertion hinsert index)
  | remove hremove | removeFile _ hremove => exact h.removed (removed_of_remove hwell hremove)
  | subscribeReference huse => exact h.set huse _
  | @invalidate ref => exact h.release ref
  | attempt _ _ huse => exact h.set huse _
  | @resolve mode ref anchor => exact (blank_invariant index.outline mode).resolve ref anchor h
  | @resolveUnder mode node => exact (blank_invariant index.outline mode).resolve_methods _ h
  | _ => exact h

theorem blank_foldl_run (history : List Operation) (hwell : index.outline.WellFormed)
    (h : Blank index.outline index.standings) :
    Blank (history.foldl Operation.run index).outline
      (history.foldl Operation.run index).standings := by
  induction history generalizing index with
  | nil => exact h
  | cons operation rest ih =>
      exact ih (well_formed_run hwell operation) (h.effect hwell (effect_run index operation))

theorem Reachable.blank (h : index.Reachable) : Blank index.outline index.standings := by
  obtain ⟨history, rfl⟩ := h
  exact blank_foldl_run history Outline.well_formed_empty (fun _ _ => rfl)

/-! ## Registrations -/

/-- Where nobody is registered, nobody is dropped. -/
theorem subscriptions_foldl_dismiss {nodes : List NodeId}
    (hnobody : ∀ node ∈ nodes, index.subscriptions.on node = []) :
    (nodes.foldl dismiss index).subscriptions = index.subscriptions := by
  induction nodes generalizing index with
  | nil => rfl
  | cons node rest ih =>
      have hclear : (index.dismiss node).subscriptions = index.subscriptions := by
        have hnone := hnobody node (List.mem_cons_self ..)
        simp only [Subscriptions.on, List.map_eq_nil_iff, List.filter_eq_nil_iff] at hnone
        show Subscriptions.mk (index.subscriptions.entries.filter _) = _
        rw [List.filter_eq_self.2 (fun entry hentry => by simpa using hnone entry hentry)]
      rw [List.foldl_cons, ih, hclear]
      intro other hother
      rw [hclear]
      exact hnobody other (List.mem_cons_of_mem _ hother)

/-- References without a standing have nothing to give up. -/
theorem subscriptions_foldl_release {refs : List RefId}
    (hblank : ∀ ref ∈ refs, index.standing ref = {}) :
    (refs.foldl release index).subscriptions = index.subscriptions := by
  induction refs generalizing index with
  | nil => rfl
  | cons ref rest ih =>
      rw [List.foldl_cons, ih]
      · show index.subscriptions.dropFrom? (index.standing ref).subscription _ = _
        rw [hblank ref (List.mem_cons_self ..)]
        rfl
      · intro other hother
        rw [standing_release]
        split
        · rfl
        · exact hblank other (List.mem_cons_of_mem _ hother)

theorem subscriptions_foldl_release_all {nodes : List NodeId}
    (hblank : ∀ ref, ref.owner ∈ nodes → index.standing ref = {}) :
    (nodes.foldl releaseAll index).subscriptions = index.subscriptions := by
  induction nodes generalizing index with
  | nil => rfl
  | cons node rest ih =>
      obtain ⟨-, hstanding⟩ := foldl_release index (index.outline.refsOf node)
      rw [List.foldl_cons, ih]
      · refine subscriptions_foldl_release (fun ref href => hblank ref ?_)
        rw [(mem_refs_of_iff.1 href).1]
        exact List.mem_cons_self ..
      · intro ref href
        rw [releaseAll, hstanding]
        split
        · rfl
        · exact hblank ref (List.mem_cons_of_mem _ href)

/-- A removal hands out no listener. -/
theorem listeners_of_remove (hwell : index.outline.WellFormed)
    (h : index.remove id = .ok (leaving, after)) : after.listeners = index.listeners := by
  have hfold : ∀ {α : Type} {step : Index → α → Index},
      (∀ other value, (step other value).listeners = other.listeners) →
      ∀ (values : List α) (start : Index), (values.foldl step start).listeners = start.listeners := by
    intro α step hstep values
    induction values with
    | nil => exact fun _ => rfl
    | cons value rest ih => exact fun start => (ih _).trans (hstep start value)
  obtain ⟨-, -, -, rfl⟩ := remove_eq hwell h
  have hrelease : ∀ (other : Index) node, (other.releaseAll node).listeners = other.listeners :=
    fun other node => @hfold _ release (fun _ _ => rfl) (other.outline.refsOf node) other
  exact (@hfold _ releaseAll hrelease leaving _).trans
    (@hfold _ dismiss (fun _ _ => rfl) leaving index)

/-- Where nobody is registered on what leaves, and no reference there has a standing, a removal
changes the outline alone. -/
theorem quiet_of_remove (hwell : index.outline.WellFormed)
    (hseated : Seated index.outline index.subscriptions)
    (hremove : index.remove id = .ok (leaving, after))
    (hnobody : ∀ node ∈ leaving, index.subscriptions.on node = [])
    (hblank : ∀ ref, ref.owner ∈ leaving → index.standing ref = {}) :
    after.subscriptions = index.subscriptions ∧ (∀ ref, after.standing ref = index.standing ref) ∧
      after.listeners = index.listeners ∧ after.outbox = index.outbox := by
  have hremoved := removed_of_remove hwell hremove
  obtain ⟨-, hleaving, houtbox, -⟩ := departures_of_remove hwell hseated hremove
  refine ⟨?_, fun ref => ?_, listeners_of_remove hwell hremove, ?_⟩
  · obtain ⟨-, -, -, rfl⟩ := remove_eq hwell hremove
    show (leaving.foldl releaseAll (leaving.foldl dismiss index)).subscriptions = _
    rw [subscriptions_foldl_release_all, subscriptions_foldl_dismiss hnobody]
    intro ref hmem
    rw [(foldl_dismiss index leaving).2, hblank ref hmem]
  · by_cases hmem : ref.owner ∈ leaving
    · rw [hblank ref hmem]
      rcases hremoved.standing ref with hrelease | hkept
      · exact hrelease
      · rw [hkept, hblank ref hmem]
    · exact hremoved.kept (mt (hleaving ref.owner).2 hmem)
  · have hnone : departuresOf index leaving = [] := by
      refine List.flatMap_eq_nil_iff.2 (fun node hmem => ?_)
      rw [hnobody node hmem]
      rfl
    rw [houtbox, hnone, List.append_nil]

/-- In an index where every package has a child, removing a file that has just been inserted
succeeds and gives back what was there before: the nodes with everything they hold, the files, the
registrations, and the standing of every reference. What has moved is the next number and the
outbox, in which the insertion is told to those who are registered above. -/
theorem remove_file_undoes_insert_file (h : index.Reachable) (hpopulated : index.outline.Populated)
    (hinsert : insertFile file index = .ok id grown) :
    ∃ leaving after, grown.removeFile file.path = .ok (some leaving, after) ∧
      SameNodes index.outline after.outline ∧
      after.subscriptions = index.subscriptions ∧
      (∀ ref, after.standing ref = index.standing ref) ∧
      after.listeners = index.listeners ∧
      after.outline.places.size = grown.outline.places.size ∧
      after.outbox = index.outbox ++ arrivalsOf index grown := by
  have hwell := h.well_formed
  have hgrows := grows_of_insert_file file index
  obtain ⟨hconcise, hcontinues⟩ := continues_run (.insertFile file) hwell h.concise
  simp only [Operation.run, reached, hinsert] at hgrows hconcise hcontinues
  have hgrown := hgrows.well_formed hwell
  have hinduced := hgrows.induced hwell
  obtain ⟨houtbox, hsubscriptions, hseated⟩ := hgrows.outbox_eq hwell h.seated
  have hsame : grown.standings = index.standings ∧ grown.listeners = index.listeners :=
    hgrows.preserves (motive := fun other => other.standings = index.standings ∧
      other.listeners = index.listeners) (fun _ _ _ hmiddle => hmiddle) ⟨rfl, rfl⟩
  have hstanding : ∀ ref, grown.standing ref = index.standing ref :=
    fun ref => congrArg (Standings.of · ref) hsame.1
  obtain ⟨hsprouted, node, hnode, hcontent⟩ := sprouted_insert_file hwell hinsert
  have hfile : grown.outline.fileAt? file.path = some id :=
    hgrown.fileAt.2 ⟨node, _, _, _, hnode, hcontent, BEq.refl file.path⟩
  have hne : id ≠ Outline.rootId := by
    rintro rfl
    have hroot := hgrown.kind?_root
    simp [Outline.kind?, hnode, Node.kind, hcontent, Content.kind, Element.kind,
      FileDecl.toElement] at hroot
  obtain ⟨leaving, after, hremove⟩ := exists_remove hne (Outline.contains_of_node? hnode)
  have hremoved := removed_of_remove hgrown hremove
  -- What leaves was not there before, so nobody is registered on it and it holds no standing.
  have habsent : ∀ node ∈ leaving, index.outline.node? node = none := by
    obtain ⟨-, -, hleaving, -⟩ := remove_eq hgrown hremove
    intro node hmem
    rcases hold : index.outline.node? node with _ | old
    · rfl
    · exact absurd (Nat.le_trans hsprouted.fresh (hgrown.le_of_below ((hleaving node).1 hmem)))
        (Nat.not_le.2 (Outline.lt_size_of_node? hold))
  obtain ⟨hsubscriptions', hstanding', hlisteners, houtbox'⟩ := quiet_of_remove hgrown hseated
    hremove
    (fun node hmem => by
      rw [hsubscriptions]
      exact h.seated.on_eq_nil (by simp [Outline.kind?, habsent node hmem]))
    (fun ref hmem => by
      rw [hstanding]
      exact h.blank ref (by simp [Outline.use?, Outline.element?, habsent _ hmem]))
  refine ⟨leaving, after, by simp only [removeFile, hfile, hremove]; rfl, ?_,
    hsubscriptions'.trans hsubscriptions, fun ref => (hstanding' ref).trans (hstanding ref),
    hlisteners.trans hsame.2, hremoved.trimmed.size, houtbox'.trans houtbox⟩
  exact hinduced.same_nodes hremoved.induced hwell hremoved.well h.concise
    (concise_remove hgrown hremove hconcise)
    (hsprouted.contains_eq hwell hgrown hinduced.within hcontinues hpopulated hremove)

/-- A package with one file in it, after another file has come and gone; everything is heard of. -/
def settledPackage : List Operation :=
  [.insertFile
    { path := ⟨"a/b/X.java"⟩
      package := "a.b"
      classes := [{ name := "X", methods := [{ name := "m", returnType := .text "d.Y" }] }] },
   .insertFile { path := ⟨"a/Z.java"⟩, package := "a", classes := [{ name := "Z" }] },
   .removeFile ⟨"a/Z.java"⟩,
   .newListener,
   .subscribeRoot (.listener 0),
   .resolve .live (.returnType 5) none]

/-- A file two packages further down, with nested classes, type parameters and methods. -/
def deepFile : FileDecl where
  path := ⟨"a/b/c/d/Y.java"⟩
  package := "a.b.c.d"
  imports := ["a.b.X"]
  classes :=
    [{ name := "Y"
       supertypes := [.text "X"]
       typeParams := [{ name := "T", bounds := [.text "X"] }]
       methods := [{ name := "n", returnType := .text "T", typeParams := [{ name := "U" }] }]
       classes := [{ name := "N", methods := [{ name := "k", returnType := .text "Y" }] }] }]

/-- Nine nodes come, two packages among them, and all of them leave. -/
theorem deep_file_is_taken_back :
    let index := afterHistory settledPackage
    index.outline.Populated ∧
    ∃ id grown leaving after, insertFile deepFile index = .ok id grown ∧
      (grown.outline.lookupType? "a.b.c.d.Y.N").isSome = true ∧
      grown.outline.count = index.outline.count + 9 ∧
      grown.removeFile deepFile.path = .ok (some leaving, after) ∧
      SameNodes index.outline after.outline ∧ after.subscriptions = index.subscriptions := by
  intro index
  have hreachable : index.Reachable := ⟨settledPackage, rfl⟩
  have hpopulated : index.outline.Populated := by decide +kernel
  have hplaced : (insertFile deepFile).run' index = some 10 := by decide +kernel
  have hcame : ((reached (insertFile deepFile) index).outline.lookupType? "a.b.c.d.Y.N").isSome =
      true ∧ (reached (insertFile deepFile) index).outline.count = index.outline.count + 9 := by
    decide +kernel
  rcases hinsert : insertFile deepFile index with ⟨id, grown⟩ | ⟨error, grown⟩
  · simp only [reached, hinsert] at hcame
    obtain ⟨leaving, after, hremove, hnodes, hsubscriptions, -⟩ :=
      remove_file_undoes_insert_file hreachable hpopulated hinsert
    exact ⟨hpopulated, id, grown, leaving, after, rfl, hcame.1, hcame.2, hremove, hnodes,
      hsubscriptions⟩
  · delta EStateM.run' EStateM.run at hplaced
    rw [hinsert] at hplaced
    cases hplaced

end Index

end CanonicalNames
