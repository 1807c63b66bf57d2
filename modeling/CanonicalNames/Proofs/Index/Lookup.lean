import CanonicalNames.Proofs.Index.Support
import CanonicalNames.Proofs.Outline.Address

/-!
# Lookups in reachable indexes

Nothing is attached without a segment, so that in a reachable index every node but the root has
one (`Reachable.labelled`). Files may be put below anything by hand. Inserting a file, or
inserting by path, puts a file below packages only, and so never a file directly below another
one (`flat_insert_at`, `flat_insert_file`). Where there is no such file, a dotted name leads to
exactly the nodes that it stands for: `lookup_is_exact`.
-/

namespace CanonicalNames

namespace Index

open Outline (Flat Labelled Addressed)

variable {index after : Index} {id parent : NodeId}

/-! ## Every node has a segment -/

theorem labelled_empty : Outline.empty.Labelled :=
  fun _ _ hnode hne => absurd (Outline.eq_root_of_node?_empty hnode).1 hne

theorem Attachment.labelled (new : index.Attachment) (h : index.outline.Labelled) :
    new.outline.Labelled := by
  intro id node hnode hne
  rcases new.cases hnode with ⟨-, rfl⟩ | ⟨old, hold, -, hface⟩
  · exact new.segment_ne
  · rw [hface.segment]
    exact h id old hold hne

/-- Every operation leaves every node with a segment. -/
theorem labelled_run (operation : Operation) (hwell : index.outline.WellFormed)
    (h : index.outline.Labelled) : (operation.run index).outline.Labelled := by
  rcases run_cases operation index with hgrows | ⟨id, leaving, hremove⟩ | hsame
  · exact hgrows.preserves (motive := fun index => index.outline.Labelled)
      (fun _ new _ => new.labelled) h
  · intro other node hnode hne
    obtain ⟨old, hold, hface⟩ := (removed_of_remove hwell hremove).within other node hnode
    rw [← hface.segment]
    exact h other old hold hne
  · rw [hsame]
    exact h

theorem labelled_foldl_run (history : List Operation) (hwell : index.outline.WellFormed)
    (h : index.outline.Labelled) : (history.foldl Operation.run index).outline.Labelled := by
  induction history generalizing index with
  | nil => exact h
  | cons operation rest ih =>
      exact ih (well_formed_run hwell operation) (labelled_run operation hwell h)

theorem Reachable.labelled (h : index.Reachable) : index.outline.Labelled := by
  obtain ⟨history, rfl⟩ := h
  exact labelled_foldl_run history Outline.well_formed_empty labelled_empty

/-! ## Files below files -/

/-- A node that is not a file, or that does not go directly below one, keeps files apart. -/
theorem Attachment.flat (new : index.Attachment) (hwell : index.outline.WellFormed)
    (h : index.outline.Flat)
    (hfile : new.content.kind = .file → index.outline.isFile new.parent = false) :
    new.outline.Flat := by
  intro id parent hid hparent
  obtain ⟨node, hnode, hup⟩ := Option.bind_eq_some_iff.1 hparent
  have hkind : node.kind = .file := by
    simpa [Outline.isFile, Outline.kind?, hnode] using hid
  -- What stands above was there before, and is what it was.
  have hkept : ∀ {up}, index.outline.contains up = true →
      new.outline.isFile up = index.outline.isFile up := by
    intro up hcontains
    simp only [Outline.isFile, new.within.kind?_eq hcontains]
  rcases new.cases hnode with ⟨-, rfl⟩ | ⟨old, hold, -, hface⟩
  · obtain rfl : new.parent = parent := Option.some.inj hup
    rw [hkept (by simp [Outline.contains, new.present])]
    exact hfile hkind
  · have hupward : index.outline.parent? id = some parent := by
      simp [Outline.parent?, hold, ← hface.parent, hup]
    rw [hkept (hwell.contains_of_parent? hupward)]
    exact h id parent (by simp [Outline.isFile, Outline.kind?, hold, ← hface.kind, hkind]) hupward

/-- Growth by nodes that are not files keeps files apart. -/
theorem Grows.flat {Admits : NodeId → Content → Prop} (h : Grows Admits index after)
    (hadmits : ∀ {parent content}, Admits parent content → content.kind ≠ .file)
    (hwell : index.outline.WellFormed) (hflat : index.outline.Flat) : after.outline.Flat :=
  (h.preserves (motive := fun index => index.outline.WellFormed ∧ index.outline.Flat)
    (fun _ new hnew hbefore => ⟨new.well_formed hbefore.1,
      new.flat hbefore.1 hbefore.2 (fun hkind => absurd hkind (hadmits hnew))⟩)
    ⟨hwell, hflat⟩).2

/-- The way of a file ends at the root or at a package. -/
theorem Way.not_file {segments : List String} (hway : Way true id after index parent segments)
    (hwell : index.outline.WellFormed) (hparent : index.outline.isFile parent = false) :
    after.outline.isFile id = false := by
  induction hway with
  | done => exact hparent
  | there hnext _ ih =>
      rw [Outline.next?, if_pos rfl] at hnext
      obtain ⟨node, hnode, hkind, -⟩ := hwell.node?_of_child_package? hnext
      exact ih hwell (by simp [Outline.isFile, Outline.kind?, hnode, hkind])
  | made new _ hcontent _ ih =>
      refine ih (new.well_formed hwell) ?_
      simp [Outline.isFile, Outline.kind?, new.node?_new, Outline.newNode, Node.kind, hcontent,
        Content.kind]

/-- Inserting by path puts no file below a file. -/
theorem flat_insert_at (path : String) (element : Element) (hwell : index.outline.WellFormed)
    (hflat : index.outline.Flat) : (reached (insertAt path element) index).outline.Flat := by
  by_cases hkind : element.kind = .file
  · simp only [reached, insertAt]
    rcases parentPath? path element with _ | above
    · exact hflat
    · have hgrows :=
        grows_descend true Outline.rootId (@Dotted.ne_empty_of_mem_segments above) index
      have hflat' := hgrows.flat (fun h => by simp [h, Content.kind]) hwell hflat
      have hwell' := hgrows.well_formed hwell
      simp only [hkind, beq_self_eq_true]
      simp only [reached] at hflat' hwell'
      rcases hrun : descend true Outline.rootId (Dotted.segments above) index
        with ⟨parent, middle⟩ | ⟨error, middle⟩
      · rw [hrun] at hflat' hwell'
        have hparent : middle.outline.isFile parent = false :=
          (way_of_descend (@Dotted.ne_empty_of_mem_segments above) hrun).not_file hwell
            (by simp [Outline.isFile, hwell.kind?_root])
        show (reached (insertChild parent element) middle).outline.Flat
        rcases insert_child_cases parent element middle with ⟨error, hchild⟩ | ⟨new, rfl, -, hchild⟩
        · simpa only [reached, hchild] using hflat'
        · simp only [reached, hchild]
          exact new.flat hwell' hflat' (fun _ => hparent)
      · rw [hrun] at hflat'
        exact hflat'
  · refine (grows_insert_at path element index).flat (fun h => ?_) hwell hflat
    rcases h with h | h <;> simp [h, Content.kind, hkind]

/-- Inserting a file puts no file below a file. -/
theorem flat_insert_file (file : FileDecl) (hwell : index.outline.WellFormed)
    (hflat : index.outline.Flat) : (reached (insertFile file) index).outline.Flat := by
  obtain ⟨middle, rfl, hfirst, hrun | ⟨id, -, -, hrest⟩⟩ := grows_insert_file file index
  · rw [hrun]
    exact flat_insert_at file.package file.toElement hwell hflat
  · refine hrest.flat (fun hinside hkind => ?_) (hfirst.well_formed hwell)
      (flat_insert_at file.package file.toElement hwell hflat)
    simpa [hkind, Kind.isOwned] using hinside.2

/-! ## Lookups -/

/-- Where no file stands directly below a file, a name leads to the nodes that it stands for,
each of them once; a name that is empty or not valid leads nowhere. Among the nodes found by a
name there is a class if the name is found to be a type, and there is never a file. Inserting
files, or anything by its path, puts no file below a file. -/
theorem lookup_is_exact (h : index.Reachable) (hflat : index.outline.Flat) (name : String) :
    (name = "" ∨ Dotted.isValid name = false → index.outline.lookupAll name = []) ∧
    (name ≠ "" → Dotted.isValid name = true →
      (index.outline.lookupAll name).Nodup ∧
        ∀ id, id ∈ index.outline.lookupAll name ↔ index.outline.Addressed name id) ∧
    ((index.outline.lookupType? name).isSome = true ↔
      ∃ id ∈ index.outline.lookupAll name, index.outline.kind? id = some .classDecl) ∧
    (∀ id, id ∈ index.outline.lookupAll name ∨ index.outline.lookup? name = some id ∨
        index.outline.lookupType? name = some id → index.outline.isFile id = false) ∧
    (∀ file, (reached (insertFile file) index).outline.Flat) ∧
    (∀ path element, (reached (insertAt path element) index).outline.Flat) := by
  have hwell := h.well_formed
  have hall := index.outline.lookup_all_eq name
  have hfile : ∀ id ∈ index.outline.lookupAll name, index.outline.isFile id = false := by
    intro id hid
    rw [hall] at hid
    split at hid
    · cases hid
    · exact hwell.is_file_eq_false_of_mem_foldl_follow _ hid
  refine ⟨fun hname => by rw [hall, if_pos hname], fun hne hvalid => ⟨?_, fun id =>
    hwell.mem_lookup_all_iff hflat h.labelled hne hvalid⟩, ?_, ?_, fun file =>
    flat_insert_file file hwell hflat, fun path element => flat_insert_at path element hwell hflat⟩
  · rw [hall, if_neg (by simp [hne, hvalid])]
    exact hwell.nodup_foldl_follow _
  · simp [Outline.lookupType?, List.find?_isSome]
  · rintro id (hid | hid | hid)
    · exact hfile id hid
    · exact hfile id (List.mem_of_head? hid)
    · exact hfile id (List.mem_of_find?_eq_some hid)

/-- A class of package `a` has the name of the package `a.b`, and a method that of a class there.
A file is put below the class by hand, with a class inside, and one class has a dotted name. -/
def sharedNamesHistory : List Operation :=
  [.insertFile
    { path := ⟨"a/b.java"⟩
      package := "a"
      classes := [{ name := "b", methods := [{ name := "m", returnType := .text "void" }] }] },
   .insertFile
    { path := ⟨"a/b/m.java"⟩
      package := "a.b"
      classes := [{ name := "m" }, { name := "x.y" }] },
   .insertChild 3 (.file ⟨"a/k.java"⟩ "a" []),
   .insertChild 9 (.classDecl "k" [])]

/-- The shared name leads to the class and to the method, and the name of the class in the file
below the class to that class; nothing is found by the dotted name. -/
theorem shared_names_lead_to_all :
    (afterHistory sharedNamesHistory).outline.Flat ∧
    (afterHistory sharedNamesHistory).outline.lookupAll "a.b.m" = [7, 4] ∧
    (∀ id, (afterHistory sharedNamesHistory).outline.Addressed "a.b.m" id ↔ id = 7 ∨ id = 4) ∧
    (∀ id, (afterHistory sharedNamesHistory).outline.Addressed "a.b.k" id ↔ id = 10) ∧
    (afterHistory sharedNamesHistory).outline.path? 8 = some "a.b.x.y" ∧
    ¬ (afterHistory sharedNamesHistory).outline.Addressed "a.b.x.y" 8 := by
  have hflat : (afterHistory sharedNamesHistory).outline.Flat := by decide +kernel
  have hmethod : (afterHistory sharedNamesHistory).outline.lookupAll "a.b.m" = [7, 4] := by
    decide +kernel
  have hclass : (afterHistory sharedNamesHistory).outline.lookupAll "a.b.k" = [10] := by
    decide +kernel
  have hdotted : (afterHistory sharedNamesHistory).outline.lookupAll "a.b.x.y" = [] := by
    decide +kernel
  have hexact : ∀ {name}, name ≠ "" → Dotted.isValid name = true →
      ∀ id, id ∈ (afterHistory sharedNamesHistory).outline.lookupAll name ↔
        (afterHistory sharedNamesHistory).outline.Addressed name id :=
    fun {name} hne hvalid => ((lookup_is_exact ⟨_, rfl⟩ hflat name).2.1 hne hvalid).2
  refine ⟨hflat, hmethod, fun id => ?_, fun id => ?_, by decide +kernel, ?_⟩
  · rw [← hexact (by decide) (by decide +kernel), hmethod]
    simp
  · rw [← hexact (by decide) (by decide +kernel), hclass]
    simp
  · rw [← hexact (by decide) (by decide +kernel), hdotted]
    simp

end Index

end CanonicalNames
