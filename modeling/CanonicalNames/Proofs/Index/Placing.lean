import CanonicalNames.Proofs.Index.Candidates
import CanonicalNames.Proofs.Index.Outbox

/-!
# Inserting by path

An element that is inserted by path goes down from the root, one segment at a time, to the first
node that answers, while a lookup follows all nodes that answer. `Way.leads` says that the
first way is one of the second: the nodes that it passes, and the packages that it makes where
nothing answers, are found by a lookup of the segments up to there. So what is inserted under a
path is found under that path, whatever else shares a segment with something on the way
(`inserted_is_found`).

A path that is not valid, or that does not end in the name of the element, is rejected before
anything is made. That a file is indexed already is noticed at the end of its way only, and the
packages that were made for it stay (`rejected_insertion_leaves_packages`).
-/

namespace CanonicalNames

namespace Outline

variable {outline before middle after : Outline} {id child : NodeId} {trail : List String}

/-- The package to which a valid name leads from the root, by the first package with each
segment. -/
def packageAt? (outline : Outline) (name : String) : Option NodeId :=
  (Dotted.segments name).foldlM outline.childPackage? rootId

/-- What stands in the second outline only are packages to which the first segments of a trail
lead. -/
def PackagesOn (trail : List String) (before after : Outline) : Prop :=
  ∀ id, after.contains id = true → before.contains id = false →
    after.kind? id = some .package ∧
      ∃ front rest, trail = front ++ rest ∧ front ≠ [] ∧ id ∈ front.foldl after.follow [rootId]

/-- Where a segment leads on the way down is seen by that segment. -/
theorem mem_visible_children_of_next? {forFile : Bool} {segment : String}
    (h : outline.next? forFile id segment = some child) :
    child ∈ outline.visibleChildren id segment := by
  unfold next? at h
  split at h
  · unfold childPackage? at h
    split at h
    · next node hnode =>
        simp only [visibleChildren, hnode]
        exact List.mem_append_left _ (List.mem_of_find?_eq_some h)
    · cases h
  · exact List.mem_of_mem_head? h

/-- On the way to a package there are only packages, below the root. -/
theorem Trail.ground_of_mem_ancestors (h : outline.Trail id trail) (hwell : outline.WellFormed)
    {above : NodeId} (habove : above = id ∨ above ∈ outline.ancestors id) :
    above = rootId ∨ outline.kind? above = some .package := by
  induction h with
  | root =>
      rw [hwell.ancestors_root] at habove
      exact Or.inl (by simpa using habove)
  | package hnode hkind hparent _ ih =>
      rw [hwell.ancestors_eq_cons (parent?_of_node? hnode hparent), List.mem_cons] at habove
      rcases habove with rfl | habove
      · exact Or.inr (by simp [kind?, hnode, hkind])
      · exact ih habove

/-- A valid name with a segment leads where its segments lead. -/
theorem lookup_all_of_segments {name : String} (hvalid : Dotted.isValid name = true)
    (hsegments : Dotted.segments name ≠ []) :
    outline.lookupAll name = (Dotted.segments name).foldl outline.follow [rootId] := by
  rw [lookup_all_eq, if_neg]
  rintro (rfl | hinvalid)
  · exact hsegments rfl
  · rw [hvalid] at hinvalid
    cases hinvalid

/-- A package that was made on the way of a path is found under a part of the path, which it has
as its own path. -/
theorem PackagesOn.found {path : String} {tail : List String} (h : PackagesOn trail before middle)
    (hwithin : Within middle after) (hmiddle : middle.WellFormed) (hafter : after.WellFormed)
    (hvalid : Dotted.isValid path = true) (hpath : Dotted.segments path = trail ++ tail)
    (hid : middle.contains id = true) (hnew : before.contains id = false) :
    after.kind? id = some .package ∧
      ∃ outer inner, after.path? id = some outer ∧ Dotted.join outer inner = path ∧
        (tail ≠ [] → inner ≠ "") ∧ id ∈ after.lookupAll outer := by
  obtain ⟨hkind, front, rest, rfl, hfront, hmem⟩ := h id hid hnew
  rw [List.append_assoc] at hpath
  obtain ⟨outer, inner, hjoin, houter, rfl, hinner⟩ := Dotted.exists_join_of_segments hvalid hpath
  have hfound : id ∈ after.lookupAll outer := by
    rw [lookup_all_of_segments houter hfront]
    exact hwithin.foldl_follow_subset hmiddle hafter _ (List.Subset.refl _) hmem
  refine ⟨hwithin.kind? hkind, outer, inner, hafter.path?_of_mem_lookup_all hfound, hjoin, ?_,
    hfound⟩
  rintro htail rfl
  exact htail (List.append_eq_nil_iff.1 hinner.symm).2

end Outline

namespace Index

open Outline (PackagesOn Induced Within)

variable {index middle after : Index} {id parent : NodeId} {path : String} {element : Element}
  {trail segments : List String} {forFile : Bool}

section

variable {α : Type} {edit : Edit α}

/-- An edit that gives a value has succeeded. -/
theorem eq_ok_of_run' {value : α} (h : edit.run' index = some value) :
    edit index = .ok value (reached edit index) := by
  delta EStateM.run' EStateM.run at h
  unfold reached
  rcases hrun : edit index with ⟨found, after⟩ | ⟨error, after⟩ <;> rw [hrun] at h
  · rw [Option.some.inj h]
  · cases h

/-- An edit that gives no value has failed. -/
theorem exists_error_of_run' (h : edit.run' index = none) :
    ∃ error, edit index = .error error (reached edit index) := by
  delta EStateM.run' EStateM.run at h
  unfold reached
  rcases hrun : edit index with ⟨found, after⟩ | ⟨error, after⟩ <;> rw [hrun] at h
  · cases h
  · exact ⟨error, rfl⟩

end

/-! ## The way down -/

/-- A new node that is not a file is found one segment further than its parent. -/
theorem Attachment.mem_foldl_follow (new : index.Attachment) (hwell : index.outline.WellFormed)
    (hkind : new.content.kind ≠ .file)
    (hparent : new.parent ∈ trail.foldl index.outline.follow [Outline.rootId]) :
    index.outline.places.size ∈
      (trail ++ [new.segment]).foldl new.outline.follow [Outline.rootId] := by
  have hwell' := new.well_formed hwell
  refine (hwell'.mem_foldl_follow_concat_iff trail new.segment _).2 ⟨?_, new.parent, ?_, Or.inl ?_⟩
  · simp [Outline.isVisible, new.node?_new, Outline.newNode, Node.kind, hkind]
  · exact new.within.foldl_follow_subset hwell hwell' trail (List.Subset.refl _) hparent
  · simp [Outline.parent?, new.node?_new, Outline.newNode]

/-- The way down ends at a node to which its segments lead, and every package that was made is
found on it. -/
theorem Way.leads (hway : Way forFile id after index parent segments)
    (hwell : index.outline.WellFormed)
    (hparent : parent ∈ trail.foldl index.outline.follow [Outline.rootId]) :
    id ∈ (trail ++ segments).foldl after.outline.follow [Outline.rootId] ∧
      PackagesOn (trail ++ segments) index.outline after.outline := by
  induction hway generalizing trail with
  | done =>
      rw [List.append_nil]
      refine ⟨hparent, fun id hid hnot => ?_⟩
      rw [hid] at hnot
      cases hnot
  | there hnext _ ih =>
      rw [List.append_cons]
      refine ih hwell ?_
      rw [List.foldl_concat]
      exact List.mem_flatMap.2 ⟨_, hparent, Outline.mem_visible_children_of_next? hnext⟩
  | @made index rest new _ hcontent hrest ih =>
      rw [List.append_cons]
      have hnew := new.mem_foldl_follow hwell (by rw [hcontent]; exact nofun) hparent
      have hwell' := new.well_formed hwell
      have hwithin : Within new.outline after.outline := (hrest.grows.induced hwell').within
      obtain ⟨hid, hmade⟩ := ih hwell' hnew
      refine ⟨hid, fun other hother hnot => ?_⟩
      -- A package that has come is the one made here, or one made for the rest.
      cases hcontains : new.outline.contains other with
      | false => exact hmade other hother hcontains
      | true =>
          obtain rfl : other = index.outline.places.size := by
            refine ((new.contains_iff other).1 hcontains).resolve_right (fun hold => ?_)
            rw [hold] at hnot
            cases hnot
          refine ⟨hwithin.kind? ?_, _, rest, rfl, by simp, ?_⟩
          · simp [Outline.kind?, new.node?_new, Outline.newNode, Node.kind, hcontent, Content.kind]
          · exact hwithin.foldl_follow_subset hwell' (hrest.grows.well_formed hwell') _
              (List.Subset.refl _) hnew

/-- From the root the way down ends at a node to which its segments lead. -/
theorem Way.leads_from_root (hway : Way forFile id after index Outline.rootId segments)
    (hwell : index.outline.WellFormed) :
    id ∈ segments.foldl after.outline.follow [Outline.rootId] ∧
      PackagesOn segments index.outline after.outline := by
  have hroot : Outline.rootId ∈ [].foldl index.outline.follow [Outline.rootId] :=
    List.mem_singleton_self _
  have hleads := hway.leads hwell hroot
  rwa [List.nil_append] at hleads

/-- The way of a file goes by packages only. -/
theorem Way.packages_only (hway : Way true id after index parent segments)
    (hwell : index.outline.WellFormed) (htrail : index.outline.Trail parent trail) :
    after.outline.Trail id (trail ++ segments) := by
  induction hway generalizing trail with
  | done => rwa [List.append_nil]
  | there hnext _ ih =>
      rw [Outline.next?, if_pos rfl] at hnext
      obtain ⟨node, hnode, hkind, hparent, rfl⟩ := hwell.node?_of_child_package? hnext
      rw [List.append_cons]
      exact ih hwell (.package hnode hkind hparent htrail)
  | made new _ hcontent _ ih =>
      rw [List.append_cons]
      refine ih (new.well_formed hwell) (.package new.node?_new ?_ rfl (htrail.mono (new.within _ _)))
      simp [Outline.newNode, Node.kind, hcontent, Content.kind]

/-- The way down changes nothing exactly if every segment leads to a node that is there. -/
theorem Way.eq_iff (hway : Way forFile id after index parent segments) :
    after = index ↔ segments.foldlM (index.outline.next? forFile) parent ≠ none := by
  induction hway with
  | done => exact iff_of_true rfl (Option.some_ne_none _)
  | there hnext _ ih =>
      rw [List.foldlM_cons, hnext]
      exact ih
  | made new hnext _ hrest _ =>
      rw [List.foldlM_cons, hnext]
      refine iff_of_false (fun hsame => ?_) (fun h => h rfl)
      -- One node has come at least.
      have hsize := hrest.grows.size_le
      rw [hsame, new.outline_result, new.size_outline] at hsize
      omega

/-! ## What is inserted is found -/

/-- The way of a file is its whole path; that of any other element is its path without the last
segment, which must be its name. -/
theorem parent_path?_eq_some_iff {way : String} : parentPath? path element = some way ↔
    Dotted.isValid path = true ∧ (element.kind = .file ∧ path = way ∨
      element.kind ≠ .file ∧ Dotted.last path = element.segment ∧ Dotted.parent path = way) := by
  unfold parentPath?
  by_cases hvalid : Dotted.isValid path = true
  · by_cases hkind : element.kind = .file <;> simp [hvalid, hkind]
  · simp [hvalid]

/-- The segments of the path of an element are those of the way to its parent and, unless it is a
file, its own. -/
theorem segments_of_parent_path? {way : String} (hname : element.segment ≠ "")
    (h : parentPath? path element = some way) :
    Dotted.isValid path = true ∧ Dotted.segments path = Dotted.segments way ++
      (if element.kind = .file then [] else [element.segment]) := by
  obtain ⟨hvalid, ⟨hkind, rfl⟩ | ⟨hkind, hlast, rfl⟩⟩ := parent_path?_eq_some_iff.1 h
  · exact ⟨hvalid, by rw [if_pos hkind, List.append_nil]⟩
  · have hne : path ≠ "" := by
      rintro rfl
      exact hname hlast.symm
    rw [if_neg hkind, ← hlast]
    exact ⟨hvalid, Dotted.segments_eq_concat hvalid hne⟩

/-- An insertion by path: the packages on the way are there, and the element is attached at its
end. -/
structure Placing (index : Index) (path : String) (element : Element) where
  middle : Index
  new : middle.Attachment
  way : String
  content : new.content = .declared element
  valid : Dotted.isValid path = true
  segments : Dotted.segments path = Dotted.segments way ++
    (if element.kind = .file then [] else [element.segment])
  well : middle.outline.WellFormed
  induced : Induced index.outline middle.outline
  leads : new.parent ∈ (Dotted.segments way).foldl middle.outline.follow [Outline.rootId]
  packages : PackagesOn (Dotted.segments way) index.outline middle.outline
  trail : element.kind = .file → middle.outline.Trail new.parent (Dotted.segments way)

theorem exists_placing (hwell : index.outline.WellFormed)
    (hrun : insertAt path element index = .ok id after) :
    ∃ placing : Placing index path element,
      id = placing.middle.outline.places.size ∧ after = placing.new.result := by
  obtain ⟨way, parent, middle, hpath, hway, new, rfl, hcontent, rfl, rfl⟩ := insert_at_ok hrun
  have hname : element.segment ≠ "" := new.segment_eq element hcontent ▸ new.segment_ne
  obtain ⟨hvalid, hsegments⟩ := segments_of_parent_path? hname hpath
  obtain ⟨hparent, hpackages⟩ := hway.leads_from_root hwell
  refine ⟨⟨middle, new, way, hcontent, hvalid, hsegments, hway.grows.well_formed hwell,
    hway.grows.induced hwell, hparent, hpackages, fun hkind => ?_⟩, rfl, rfl⟩
  rw [hkind, beq_self_eq_true] at hway
  exact hway.packages_only hwell .root

namespace Placing

variable (placing : Placing index path element)

theorem well_new : placing.new.outline.WellFormed :=
  placing.new.well_formed placing.well

theorem element?_new :
    placing.new.outline.element? placing.middle.outline.places.size = some element := by
  simp [Outline.element?, placing.new.node?_new, Outline.newNode, Node.element?, placing.content,
    Content.element?]

/-- An element other than a file is found under its path. -/
theorem mem_lookup_all (hkind : element.kind ≠ .file) :
    placing.middle.outline.places.size ∈ placing.new.outline.lookupAll path := by
  have hpath := placing.segments
  rw [if_neg hkind, ← placing.new.segment_eq element placing.content] at hpath
  rw [Outline.lookup_all_of_segments placing.valid (by simp [hpath]), hpath]
  exact placing.new.mem_foldl_follow placing.well (by rwa [placing.content]) placing.leads

theorem path?_new :
    placing.new.outline.path? placing.middle.outline.places.size = some path := by
  by_cases hkind : element.kind = .file
  · -- A file has the path of its parent, to which the whole path leads.
    have hpath := placing.segments
    rw [if_pos hkind, List.append_nil] at hpath
    have hup := placing.well.path_of_mem_follow_root _ placing.leads
    rw [← hpath, Dotted.foldl_join_segments placing.valid] at hup
    obtain ⟨above, habove, hsame⟩ := Option.map_eq_some_iff.1 hup
    obtain rfl := Option.some.inj (placing.new.present.symm.trans habove)
    simp [Outline.path?, placing.new.node?_new, Outline.newNode, placing.content, Content.kind,
      hkind, hsame]
  · exact placing.well_new.path?_of_mem_lookup_all (placing.mem_lookup_all hkind)

/-- What has come beside the element are packages, found under a part of the path. -/
theorem made {id : NodeId} (hid : placing.new.outline.contains id = true)
    (hnew : index.outline.contains id = false) (hne : id ≠ placing.middle.outline.places.size) :
    placing.new.outline.kind? id = some .package ∧
      ∃ outer inner, placing.new.outline.path? id = some outer ∧ Dotted.join outer inner = path ∧
        (element.kind ≠ .file → inner ≠ "") ∧ id ∈ placing.new.outline.lookupAll outer := by
  have hold := ((placing.new.contains_iff id).1 hid).resolve_left hne
  obtain ⟨hkind, outer, inner, houter, hjoin, hinner, hfound⟩ := placing.packages.found
    placing.new.within placing.well placing.well_new placing.valid placing.segments hold hnew
  exact ⟨hkind, outer, inner, houter, hjoin, fun hnot => hinner (by simp [hnot]), hfound⟩

/-- Where nothing was found under the path, the element is the first to be found. -/
theorem lookup?_eq (hwell : index.outline.WellFormed) (hkind : element.kind ≠ .file)
    (hnone : index.outline.lookupAll path = []) :
    placing.new.outline.lookup? path = some placing.middle.outline.places.size := by
  have honly : ∀ id ∈ placing.new.outline.lookupAll path,
      id = placing.middle.outline.places.size := by
    intro id hid
    by_contra hne
    have hnew : index.outline.contains id = false := by
      rw [(placing.induced.trans (placing.new.induced placing.well)).lookup_all_eq hwell
        placing.well_new, List.filter_eq_nil_iff] at hnone
      simpa using hnone id hid
    -- A package that has come has a shorter path.
    obtain ⟨-, outer, inner, houter, hjoin, hinner, -⟩ :=
      placing.made (contains_of_mem_lookup_all placing.well_new hid) hnew hne
    rw [placing.well_new.path?_of_mem_lookup_all hid, Option.some.injEq] at houter
    rw [← houter] at hjoin
    exact hinner hkind (Dotted.join_eq_left_iff.1 hjoin)
  have hfound := placing.mem_lookup_all hkind
  unfold Outline.lookup?
  rcases hall : placing.new.outline.lookupAll path with _ | ⟨first, others⟩
  · rw [hall] at hfound
    cases hfound
  · rw [List.head?_cons, honly first (by simp [hall])]

/-- A file stands below packages and the root only. -/
theorem ground_of_mem_ancestors (hkind : element.kind = .file) {above : NodeId}
    (habove : above ∈ placing.new.outline.ancestors placing.middle.outline.places.size) :
    above = Outline.rootId ∨ placing.new.outline.kind? above = some .package := by
  have hup : placing.new.outline.parent? placing.middle.outline.places.size =
      some placing.new.parent := by
    simp [Outline.parent?, placing.new.node?_new, Outline.newNode]
  rw [placing.well_new.ancestors_eq_cons hup, List.mem_cons] at habove
  exact ((placing.trail hkind).mono (placing.new.within _ _)).ground_of_mem_ancestors
    placing.well_new habove

end Placing

/-- What is inserted under a path is found under that path, whatever else shares a segment with
something on the way: the new node has the path, and an element other than a file is found by it,
as the first if there was none before. What has come beside it are packages, each found under its
own path, which is the path up to one of its dots. A file is found by its source path, and there
are only packages above it, below the root. -/
theorem inserted_is_found (h : index.Reachable) (hrun : insertAt path element index = .ok id after) :
    after.outline.element? id = some element ∧ after.outline.path? id = some path ∧
    (element.kind ≠ .file → id ∈ after.outline.lookupAll path ∧
      (index.outline.lookupAll path = [] → after.outline.lookup? path = some id)) ∧
    (∀ made, after.outline.contains made = true → index.outline.contains made = false →
      made ≠ id → after.outline.kind? made = some .package ∧
        ∃ outer inner, after.outline.path? made = some outer ∧ Dotted.join outer inner = path ∧
          (element.kind ≠ .file → inner ≠ "") ∧ made ∈ after.outline.lookupAll outer) ∧
    (∀ source package imports, element = .file source package imports →
      after.outline.fileAt? source = some id ∧ ∀ above ∈ after.outline.ancestors id,
        above = Outline.rootId ∨ after.outline.kind? above = some .package) := by
  obtain ⟨placing, rfl, rfl⟩ := exists_placing h.well_formed hrun
  refine ⟨placing.element?_new, placing.path?_new, fun hkind => ⟨placing.mem_lookup_all hkind,
    placing.lookup?_eq h.well_formed hkind⟩, fun _ => placing.made, ?_⟩
  rintro source package imports rfl
  exact ⟨placing.well_new.fileAt.2
    ⟨_, source, package, imports, placing.new.node?_new, placing.content, BEq.rfl⟩,
    fun _ => placing.ground_of_mem_ancestors rfl⟩

/-- A class that shares its name with a package of a later file. -/
def classBehindFile : List Operation :=
  [.insertFile { path := ⟨"a/b.java"⟩, package := "a", classes := [{ name := "b" }] }]

/-- The way of a class goes by the class `b`, past its file, and makes a package there; the way of
a file makes a package `b` beside that class. -/
theorem class_and_package_are_found :
    let index := afterHistory classBehindFile
    let placed := reached (insertAt "a.b.x.T" (.classDecl "T" [])) index
    let filed := reached (insertAt "a.b" (.file ⟨"a/b/C.java"⟩ "a.b" [])) index
    placed.outline.ancestors 5 = [4, 3, 2, 1, 0] ∧ placed.outline.lookup? "a.b.x.T" = some 5 ∧
      placed.outline.kind? 4 = some .package ∧
      filed.outline.fileAt? ⟨"a/b/C.java"⟩ = some 5 ∧ filed.outline.path? 5 = some "a.b" ∧
      ∀ above ∈ filed.outline.ancestors 5,
        above = Outline.rootId ∨ filed.outline.kind? above = some .package := by
  intro index placed filed
  have hreachable : index.Reachable := ⟨classBehindFile, rfl⟩
  have hplaced : insertAt "a.b.x.T" (.classDecl "T" []) index = .ok 5 placed :=
    eq_ok_of_run' (by decide +kernel)
  have hfiled : insertAt "a.b" (.file ⟨"a/b/C.java"⟩ "a.b" []) index = .ok 5 filed :=
    eq_ok_of_run' (by decide +kernel)
  obtain ⟨-, -, hfound, hmade, -⟩ := inserted_is_found hreachable hplaced
  obtain ⟨-, hpath, -, -, hfile⟩ := inserted_is_found hreachable hfiled
  obtain ⟨hsource, hground⟩ := hfile _ _ _ rfl
  exact ⟨by decide +kernel, (hfound (by decide)).2 (by decide +kernel),
    (hmade 4 (by decide +kernel) (by decide +kernel) (by decide)).1, hsource, hpath, hground⟩

/-! ## What is rejected -/

/-- The way down always comes to an end. -/
theorem exists_descend (forFile : Bool) (hwell : index.outline.WellFormed)
    (hsegments : ∀ segment ∈ segments, segment ≠ "") (hparent : index.outline.contains parent = true) :
    ∃ id after, descend forFile parent segments index = .ok id after := by
  induction segments generalizing index parent with
  | nil => exact ⟨parent, index, rfl⟩
  | cons segment rest ih =>
      have hrest := fun other hother => hsegments other (List.mem_cons_of_mem segment hother)
      obtain ⟨above, habove⟩ := Option.isSome_iff_exists.1 hparent
      rcases descend_cons_cases forFile parent rest (hsegments segment (List.mem_cons_self ..)) index
        with ⟨child, hchild, hstep⟩ | ⟨-, ⟨new, -, -, -, hstep⟩ | ⟨habsent, -⟩⟩
      · rw [hstep]
        obtain ⟨below, hbelow, -⟩ := Option.map_eq_some_iff.1 (hwell.path_of_mem_visible_children
          habove (Outline.mem_visible_children_of_next? hchild))
        exact ih hwell hrest (Outline.contains_of_node? hbelow)
      · rw [hstep]
        exact @ih new.result _ (new.well_formed hwell) hrest
          ((new.contains_iff _).2 (Or.inl rfl))
      · rw [habove] at habsent
        cases habsent

/-- An insertion by path is rejected before it has done anything, or at the end of its way by a
fault of the element. -/
theorem insert_at_error {error : Error} (hwell : index.outline.WellFormed)
    (hrun : insertAt path element index = .error error after) :
    parentPath? path element = none ∧ after = index ∨
      ∃ way parent fault, parentPath? path element = some way ∧
        Way (element.kind == .file) parent after index Outline.rootId (Dotted.segments way) ∧
        insertFault? after.outline element = some fault ∧ error = .invalidInput fault := by
  unfold insertAt at hrun
  rcases hpath : parentPath? path element with _ | way
  · rw [hpath] at hrun
    cases hrun
    exact Or.inl ⟨rfl, rfl⟩
  · have hsegments : ∀ segment ∈ Dotted.segments way, segment ≠ "" :=
      @Dotted.ne_empty_of_mem_segments way
    obtain ⟨root, hroot, -⟩ := hwell.root
    obtain ⟨parent, middle, hdescend⟩ := exists_descend (element.kind == .file) hwell hsegments
      (Outline.contains_of_node? hroot)
    have hway := way_of_descend hsegments hdescend
    obtain ⟨above, habove, -⟩ := Option.map_eq_some_iff.1
      ((hway.grows.well_formed hwell).path_of_mem_follow_root _ (hway.leads_from_root hwell).1)
    rw [hpath] at hrun
    simp only [hdescend, insertChild] at hrun
    rcases hfault : insertFault? middle.outline element with _ | fault
    · simp [hfault, attach, habove] at hrun
    · rw [hfault] at hrun
      cases hrun
      exact Or.inr ⟨way, parent, fault, rfl, hway, hfault, rfl⟩

/-- Growth by packages leaves files, standings and registrations. -/
theorem Grows.kept_by_packages (h : Grows (fun _ content => content = .package) index after) :
    (∀ source, after.outline.fileAt? source = index.outline.fileAt? source) ∧
      after.standings = index.standings ∧ after.subscriptions = index.subscriptions ∧
      after.listeners = index.listeners := by
  refine h.preserves (motive := fun other =>
    (∀ source, other.outline.fileAt? source = index.outline.fileAt? source) ∧
      other.standings = index.standings ∧ other.subscriptions = index.subscriptions ∧
      other.listeners = index.listeners) ?_ ⟨fun _ => rfl, rfl, rfl, rfl⟩
  rintro middle new hcontent ⟨hfiles, hrest⟩
  refine ⟨fun source => ?_, hrest⟩
  rw [← hfiles source]
  ext file
  show (middle.outline.attach _ _ _ _).2.fileAt? source = some file ↔ _
  rw [Outline.file_at_attach]
  simp [hcontent]

/-- Only a file is rejected after something was made: an element of another kind with a fault has
no name, and its path is empty. -/
theorem eq_of_insert_fault {way : String} {fault : InputFault} (hkind : element.kind ≠ .file)
    (hpath : parentPath? path element = some way)
    (hway : Way false id after index Outline.rootId (Dotted.segments way))
    (hfault : insertFault? after.outline element = some fault) : after = index := by
  have hname : element.segment = "" := by
    unfold insertFault? at hfault
    split at hfault
    · next hempty => simpa using hempty
    · cases element with
      | file source package imports => exact absurd rfl hkind
      | _ => cases hfault
  obtain ⟨hvalid, ⟨hfile, -⟩ | ⟨-, hlast, rfl⟩⟩ := parent_path?_eq_some_iff.1 hpath
  · exact absurd hfile hkind
  · have hempty : path = "" := by
      by_contra hne
      exact (Dotted.single_last hvalid hne).1 (hlast.trans hname)
    subst hempty
    exact hway.eq_iff.2 (Option.some_ne_none Outline.rootId)

/-- A rejected insertion by path has done nothing, unless a file was rejected at the end of its
way. -/
theorem rejected_cases {error : Error} (hwell : index.outline.WellFormed)
    (hrun : insertAt path element index = .error error after) :
    after = index ∧ ¬ (element.kind = .file ∧ Dotted.isValid path = true) ∨
      ∃ source package imports parent, element = .file source package imports ∧
        Dotted.isValid path = true ∧
        Way true parent after index Outline.rootId (Dotted.segments path) ∧
        after.outline.files.contains source = true ∧
        error = .invalidInput (.alreadyIndexed source) := by
  rcases insert_at_error hwell hrun with
    ⟨hpath, rfl⟩ | ⟨way, parent, fault, hpath, hway, hfault, rfl⟩
  · refine Or.inl ⟨rfl, fun ⟨hkind, hvalid⟩ => ?_⟩
    rw [parent_path?_eq_some_iff.2 ⟨hvalid, Or.inl ⟨hkind, rfl⟩⟩] at hpath
    cases hpath
  · by_cases hkind : element.kind = .file
    · obtain ⟨hvalid, ⟨-, rfl⟩ | ⟨hnot, -⟩⟩ := parent_path?_eq_some_iff.1 hpath
      · rw [hkind, beq_self_eq_true] at hway
        cases element with
        | file source package imports =>
            have hindexed : after.outline.files.contains source = true ∧
                InputFault.alreadyIndexed source = fault := by
              simpa [insertFault?, Element.segment, fileMarker] using hfault
            exact Or.inr ⟨source, package, imports, parent, rfl, hvalid, hway, hindexed.1,
              by rw [hindexed.2]⟩
        | _ => cases hkind
      · exact absurd hkind hnot
    · rw [beq_eq_false_iff_ne.2 hkind] at hway
      exact Or.inl ⟨eq_of_insert_fault hkind hpath hway hfault, fun h => hkind h.1⟩

/-- What a rejected insertion by path leaves behind. It has changed something exactly if it was for
a file, under a valid path, and not all packages of the path were there; the file is indexed
already in that case. What has come are packages on the way, each found under its own path, and
subscribers were told of them; nodes that were there, the files, standings and registrations are
what they were. -/
theorem rejected_insertion_leaves_packages {error : Error} (h : index.Reachable)
    (hrun : insertAt path element index = .error error after) :
    (after ≠ index ↔ element.kind = .file ∧ Dotted.isValid path = true ∧
      index.outline.packageAt? path = none) ∧
    (after ≠ index → ∃ source package imports, element = .file source package imports ∧
      (index.outline.fileAt? source).isSome = true ∧
      error = .invalidInput (.alreadyIndexed source)) ∧
    Within index.outline after.outline ∧
    (∀ made, after.outline.contains made = true → index.outline.contains made = false →
      after.outline.kind? made = some .package ∧
        ∃ outer inner, after.outline.path? made = some outer ∧ Dotted.join outer inner = path ∧
          made ∈ after.outline.lookupAll outer) ∧
    (∀ source, after.outline.fileAt? source = index.outline.fileAt? source) ∧
    after.standings = index.standings ∧ after.subscriptions = index.subscriptions ∧
    after.listeners = index.listeners ∧ after.outbox = index.outbox ++ arrivalsOf index after := by
  have hwell := h.well_formed
  have hgrows := grows_insert_at path element index
  simp only [reached, hrun] at hgrows
  have hwithin := (hgrows.induced hwell).within
  have houtbox := (hgrows.outbox_eq hwell h.seated).1
  rcases rejected_cases hwell hrun with
    ⟨rfl, hnot⟩ | ⟨source, package, imports, parent, rfl, hvalid, hway, hindexed, rfl⟩
  · refine ⟨iff_of_false (fun h => h rfl) (fun h => hnot ⟨h.1, h.2.1⟩), fun h => absurd rfl h,
      hwithin, fun made hmade hnew => ?_, fun _ => rfl, rfl, rfl, rfl, houtbox⟩
    rw [hmade] at hnew
    cases hnew
  · have hafter := hgrows.well_formed hwell
    obtain ⟨hfiles, hstandings, hsubscriptions, hlisteners⟩ := hway.grows.kept_by_packages
    obtain ⟨-, hpackages⟩ := hway.leads_from_root hwell
    refine ⟨?_, fun _ => ⟨source, package, imports, rfl, ?_, rfl⟩, hwithin, ?_, hfiles, hstandings,
      hsubscriptions, hlisteners, houtbox⟩
    · rw [ne_eq, hway.eq_iff, not_not]
      exact ⟨fun hnone => ⟨rfl, hvalid, hnone⟩, fun h => h.2.2⟩
    · rw [← hfiles source]
      rwa [Table.contains_eq_is_some_find?] at hindexed
    · intro made hmade hnew
      obtain ⟨hkind, outer, inner, houter, hjoin, -, hfound⟩ := hpackages.found
        hafter.induced_refl.within hafter hafter hvalid (List.append_nil _).symm hmade hnew
      exact ⟨hkind, outer, inner, houter, hjoin, hfound⟩

/-- A listener on the root hears what comes after a file in a package. -/
def heardFile : List Operation :=
  [.insertFile { path := ⟨"p/A.java"⟩, package := "p", classes := [{ name := "A" }] },
   .newListener,
   .subscribeRoot (.listener 0)]

/-- The same file once more, for a package. -/
def sameFile (package : String) : Element :=
  .file ⟨"p/A.java"⟩ package []

/-- A file that is indexed is rejected; nothing has changed if its packages are there, and
something has if they are not. -/
theorem indexed_file_is_rejected :
    let index := afterHistory heardFile
    reached (insertAt "p" (sameFile "p")) index = index ∧
      reached (insertAt "q.r" (sameFile "q.r")) index ≠ index ∧
      (reached (insertAt "q.r" (sameFile "q.r")) index).subscriptions = index.subscriptions := by
  intro index
  have hreachable : index.Reachable := ⟨heardFile, rfl⟩
  obtain ⟨_, hsame⟩ : ∃ error, insertAt "p" (sameFile "p") index = .error error _ :=
    exists_error_of_run' (by decide +kernel)
  obtain ⟨_, hother⟩ : ∃ error, insertAt "q.r" (sameFile "q.r") index = .error error _ :=
    exists_error_of_run' (by decide +kernel)
  have hleft := (rejected_insertion_leaves_packages hreachable hsame).1
  obtain ⟨hmade, -, -, -, -, -, hsubscriptions, -⟩ :=
    rejected_insertion_leaves_packages hreachable hother
  refine ⟨?_, hmade.2 ⟨rfl, by decide +kernel, by decide +kernel⟩, hsubscriptions⟩
  by_contra hne
  have hnone := (hleft.1 hne).2.2
  revert hnone
  decide +kernel

/-- A file that is indexed in one package is rejected in another, and leaves two packages there,
of which the listener is told. -/
theorem duplicate_file_leaves_packages :
    let index := afterHistory heardFile
    let after := reached (insertAt "q.r" (sameFile "q.r")) index
    (insertAt "q.r" (sameFile "q.r")).run' index = none ∧
      index.outline.lookupAll "q.r" = [] ∧ after.outline.lookupAll "q.r" = [5] ∧
      after.outline.count = index.outline.count + 2 ∧ index.outbox = [] ∧
      after.outbox = [⟨.listener 0, .added 4 Outline.rootId⟩,
        ⟨.listener 0, .added 5 Outline.rootId⟩] := by
  decide +kernel

end Index

end CanonicalNames
