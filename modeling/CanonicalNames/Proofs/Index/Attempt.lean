import CanonicalNames.Proofs.Index.Changes

/-!
# Files that are inserted only in part

A file is placed below its package first, and then its classes are attached one node at a
time; when a name is missing the insertion stops and keeps what it has attached. In an
outline whose packages and files are grounded the outcome is known all the same.
`Attempted index after path` says that no old node but the root and packages has changed and
that no file with another path came or went; `attempted_insert_file` adds that the file itself
is indexed exactly if its package is valid. To replace a file, its path is cleared first
(`Cleared`), and the two steps together make an `Exchanged` index.
-/

namespace CanonicalNames

namespace Index

variable {index middle after : Index} {id : NodeId} {decl : FileDecl} {path : SourcePath}

/-! ## One node -/

namespace Attachment

/-- Packages and files stay grounded, if a new one stands on ground. -/
theorem grounded (new : index.Attachment) (h : index.outline.Grounded)
    (hground : new.content.kind = .package ∨ new.content.kind = .file →
      new.above.kind.isGround = true) : new.outline.Grounded := by
  refine h.of_kept (new.well_formed h.well) (fun hnode => new.within _ _ hnode) ?_
  intro id node hnode hnone hkind
  rcases new.cases hnode with ⟨-, rfl⟩ | ⟨old, hold, -, -⟩
  · obtain ⟨above, habove, hface⟩ := new.within _ _ new.present
    exact ⟨new.parent, above, rfl, habove, by rw [hface.kind, hground hkind]⟩
  · rw [hnone] at hold
    cases hold

/-- A node that is not a file leaves the indexed files. -/
theorem file_at_eq (new : index.Attachment) (hkind : new.content.kind ≠ .file)
    (path : SourcePath) : new.outline.fileAt? path = index.outline.fileAt? path := by
  have hfile : ∀ source package imports,
      new.content ≠ .declared (.file source package imports) := by
    intro source package imports hcontent
    exact hkind (by rw [hcontent]; rfl)
  ext found
  rw [outline, Outline.file_at_attach]
  constructor
  · rintro (⟨source, package, imports, hcontent, -, -⟩ | ⟨-, hold⟩)
    · exact absurd hcontent (hfile source package imports)
    · exact hold
  · exact fun hold => Or.inr
      ⟨fun source package imports hcontent => absurd hcontent (hfile source package imports), hold⟩

end Attachment

/-- A node below a package, the root or a node that was not there changes no other old node. -/
theorem Grown.attach (h : Grown index middle) (new : middle.Attachment)
    (hparent : ∀ node, index.outline.node? new.parent = some node → node.kind.isGround = true) :
    Grown index new.result := by
  have hnode? := Outline.node?_attach new.content new.segment new.present new.above.path
  refine ⟨?_, ?_, ?_, h.standings, h.subscriptions⟩
  · rw [Attachment.outline_result, Attachment.size_outline]
    exact Nat.le_succ_of_le h.size_le
  · intro id node hnode
    obtain ⟨grown, hgrown, hface, hsame⟩ := h.kept hnode
    obtain ⟨final, hfinal, hface'⟩ := new.within _ _ hgrown
    refine ⟨final, hfinal, hface'.trans hface, fun hkind => ?_⟩
    have hne : id ≠ new.parent := by
      rintro rfl
      rw [hparent node hnode] at hkind
      cases hkind
    have hold : new.outline.node? id = some grown := by
      rw [Attachment.outline, hnode?,
        if_neg (Nat.ne_of_lt (Outline.lt_size_of_node? hgrown)), hgrown]
      simp [hne]
    rw [hold, Option.some.injEq] at hfinal
    rw [← hfinal, hsame hkind]
  · intro id hlt hnone
    have hmiddle := h.absent hlt hnone
    have hne := Nat.ne_of_lt (Nat.lt_of_lt_of_le hlt h.size_le)
    rw [Attachment.outline_result, Attachment.outline, hnode?, if_neg hne, hmiddle, Option.map_none]

/-! ## A file -/

/-- What is known after an attempt to insert a file with a path. -/
structure Attempted (index after : Index) (path : SourcePath) : Prop where
  grown : Grown index after
  ground : after.outline.Grounded
  elsewhere : ∀ {other}, (path == other) = false →
    after.outline.fileAt? other = index.outline.fileAt? other

theorem FileAdded.attempted (h : FileAdded index after decl id) :
    Attempted index after decl.path := by
  refine ⟨h.grown, h.ground, fun {other} hpath => ?_⟩
  ext found
  simp [h.fileAt, hpath]

/-- Elements inside a new file change no old node, and bring no file. -/
theorem Attempted.inside (h : Attempted index middle path) (hfresh : index.outline.places.size ≤ id)
    (hgrows : Grows (Inside id middle.outline.places.size) middle after) :
    Attempted index after path ∧
      ∀ other, after.outline.fileAt? other = middle.outline.fileAt? other := by
  refine hgrows.preserves (motive := fun last => Attempted index last path ∧
    ∀ other, last.outline.fileAt? other = middle.outline.fileAt? other) ?_ ⟨h, fun _ => rfl⟩
  rintro last new ⟨hparent, howned⟩ ⟨hlast, hfiles⟩
  have hkind : new.content.kind ≠ .package ∧ new.content.kind ≠ .file := by
    constructor <;> intro hkind <;> rw [hkind] at howned <;> cases howned
  have hfileAt := new.file_at_eq hkind.2
  refine ⟨⟨hlast.grown.attach new (fun node hnode => ?_), new.grounded hlast.ground (fun h => ?_),
    fun hpath => (hfileAt _).trans (hlast.elsewhere hpath)⟩,
    fun other => (hfileAt other).trans (hfiles other)⟩
  · -- The file and what follows it were not there.
    have hlt := Outline.lt_size_of_node? hnode
    have hle : index.outline.places.size ≤ new.parent := by
      rcases hparent with hparent | hparent
      · exact hparent ▸ hfresh
      · exact Nat.le_trans h.grown.size_le hparent
    exact absurd hlt (Nat.not_lt.2 hle)
  · exact absurd h (not_or.2 hkind)

/-- Placing a file is inserting it without its classes. -/
theorem insert_at_eq_insert_file (decl : FileDecl) :
    insertAt decl.package decl.toElement = insertFile { decl with classes := [] } := by
  have helement : FileDecl.toElement { decl with classes := [] } = decl.toElement := rfl
  funext index
  simp only [insertFile, helement, bind, EStateM.bind]
  rcases insertAt decl.package decl.toElement index with ⟨id, after⟩ | ⟨error, after⟩ <;> rfl

/-- A file is placed if its package is valid and its path is free; if not, at most packages
are made. -/
theorem insert_at_file_cases (h : index.outline.Grounded) (decl : FileDecl) :
    (∃ id middle, insertAt decl.package decl.toElement index = .ok id middle ∧
      Dotted.isValid decl.package = true ∧
      FileAdded index middle { decl with classes := [] } id) ∨
    (Dotted.isValid decl.package = false ∨ ∃ old, index.outline.fileAt? decl.path = some old) ∧
      ∃ error middle, insertAt decl.package decl.toElement index = .error error middle ∧
        Attempted index middle decl.path ∧
          (Dotted.isValid decl.package = false → middle = index) := by
  cases hvalid : Dotted.isValid decl.package with
  | false =>
      refine Or.inr ⟨Or.inl rfl, .invalidPath decl.package, index, ?_,
        ⟨.refl index, h, fun _ => rfl⟩, fun _ => rfl⟩
      simp [insertAt, parentPath?, hvalid]
  | true =>
      rcases hpath : index.outline.fileAt? decl.path with _ | old
      · have hinsertable : FileDecl.isInsertable { decl with classes := [] } = true := by
          simp [FileDecl.isInsertable, hvalid, ClassDecl.toBranches, Branch.allOf]
        obtain ⟨id, middle, hrun, hadded⟩ := @insert_file_of_insertable index h
          { decl with classes := [] } hpath hinsertable
        exact Or.inl ⟨id, middle, by rw [insert_at_eq_insert_file, hrun], rfl, hadded⟩
      · obtain ⟨root, hroot, hcontent, _⟩ := h.well.root
        obtain ⟨parent, middle, hdescend, hpaved⟩ := paved_descend h hroot
          (by rw [Node.kind, hcontent]; rfl) .root (Dotted.segments decl.package)
        refine Or.inr ⟨Or.inr ⟨old, rfl⟩, .invalidInput (.alreadyIndexed decl.path), middle, ?_,
          ⟨hpaved.grown, hpaved.ground, fun _ => hpaved.fileAt _⟩, fun hinvalid => by
            cases hinvalid⟩
        have hcontains : middle.outline.files.contains decl.path = true := by
          rw [Table.contains_eq_is_some_find?]
          exact congrArg Option.isSome ((hpaved.fileAt _).trans hpath)
        rw [insert_at_file hvalid hdescend]
        simp [insertChild, insertFault?, Element.segment, FileDecl.toElement, fileMarker, hcontains]

/-- An insertion that stops midway has changed no old node but the root and packages, and no
other file came or went; at a free path the file is indexed exactly if its package is valid. -/
theorem attempted_insert_file (h : index.outline.Grounded) (decl : FileDecl) :
    Attempted index (reached (insertFile decl) index) decl.path ∧
      (index.outline.fileAt? decl.path = none →
        ((reached (insertFile decl) index).outline.fileAt? decl.path).isSome =
          Dotted.isValid decl.package) ∧
      (Dotted.isValid decl.package = false → reached (insertFile decl) index = index) := by
  obtain ⟨middle, hmiddle, -, hrest⟩ := grows_insert_file decl index
  rcases insert_at_file_cases h decl with
    ⟨id, placed, hrun, hvalid, hadded⟩ | ⟨hcause, error, stopped, hrun, hattempted, hidle⟩
  · obtain rfl : placed = middle := by simpa only [reached, hrun] using hmiddle
    have hplaced : placed.outline.fileAt? decl.path = some id :=
      hadded.fileAt.2 (Or.inl ⟨BEq.refl decl.path, rfl⟩)
    have hlast : Attempted index (reached (insertFile decl) index) decl.path ∧
        ∀ other, (reached (insertFile decl) index).outline.fileAt? other =
          placed.outline.fileAt? other := by
      rcases hrest with hlast | ⟨found, hfound, -, hgrows⟩
      · rw [hlast]
        exact ⟨hadded.attempted, fun _ => rfl⟩
      · rw [hrun] at hfound
        cases hfound
        exact hadded.attempted.inside hadded.fresh hgrows
    refine ⟨hlast.1, fun _ => by rw [hlast.2, hplaced, hvalid]; rfl, fun hinvalid => ?_⟩
    rw [hvalid] at hinvalid
    cases hinvalid
  · obtain rfl : stopped = middle := by simpa only [reached, hrun] using hmiddle
    have hlast : reached (insertFile decl) index = stopped := by
      rcases hrest with hlast | ⟨found, hfound, -, -⟩
      · exact hlast
      · rw [hrun] at hfound
        cases hfound
    rw [hlast]
    refine ⟨hattempted, fun hfree => ?_, hidle⟩
    rcases hcause with hinvalid | ⟨old, hold⟩
    · rw [hidle hinvalid, hfree, hinvalid]
      rfl
    · rw [hfree] at hold
      cases hold

/-! ## Clearing a path -/

/-- What is known after a removal by path. -/
structure Cleared (index after : Index) (path : SourcePath) : Prop where
  ground : after.outline.Grounded
  free : after.outline.fileAt? path = none
  elsewhere : ∀ {other}, (path == other) = false →
    after.outline.fileAt? other = index.outline.fileAt? other
  same : ∀ {other file}, (path == other) = false → index.outline.fileAt? other = some file →
    SameFile index after file
  gone : ∀ {file low}, index.outline.fileAt? path = some file → index.outline.Below low file →
    after.outline.node? low = none
  size : after.outline.places.size = index.outline.places.size
  idle : index.outline.fileAt? path = none → after = index

/-- Every path can be cleared. -/
theorem exists_clear (h : index.outline.Grounded) (path : SourcePath) :
    ∃ leaving after, index.removeFile path = .ok (leaving, after) ∧ Cleared index after path := by
  rcases remove_file_cases h.well path with
    ⟨hnone, hrun⟩ | ⟨file, leaving, after, hfile, hrun, hremoved⟩
  · refine ⟨none, index, hrun, h, hnone, fun _ => rfl, fun _ _ => ⟨.refl _ _, fun _ => rfl⟩,
      fun hsome => ?_, rfl, fun _ => rfl⟩
    rw [hnone] at hsome
    cases hsome
  · refine ⟨some leaving, after, hrun, hremoved.grounded h, hremoved.file_at_eq_none h hfile, ?_,
      fun hpath hfound => hremoved.same_file h hfile hpath hfound, ?_, hremoved.trimmed.size, ?_⟩
    · intro other hpath
      ext found
      rw [hremoved.file_at_iff h hfile, and_iff_right hpath]
    · intro found low hfound hlow
      obtain rfl := Option.some.inj (hfile.symm.trans hfound)
      exact hremoved.trimmed.gone hlow
    · intro hnone
      rw [hnone] at hfile
      cases hfile

/-- What is known after a path was cleared and a file was inserted there, as far as it goes. -/
structure Exchanged (index after : Index) (decl : FileDecl) : Prop where
  elsewhere : ∀ {path}, (decl.path == path) = false →
    after.outline.fileAt? path = index.outline.fileAt? path
  same : ∀ {path file}, (decl.path == path) = false → index.outline.fileAt? path = some file →
    SameFile index after file
  gone : ∀ {file low}, index.outline.fileAt? decl.path = some file →
    index.outline.Below low file → after.outline.node? low = none
  listed : (after.outline.fileAt? decl.path).isSome = Dotted.isValid decl.package
  idle : index.outline.fileAt? decl.path = none → Dotted.isValid decl.package = false →
    after = index

theorem Cleared.exchanged (h : Cleared index middle decl.path) (hground : index.outline.Grounded) :
    Exchanged index (reached (insertFile decl) middle) decl := by
  obtain ⟨hattempted, hlisted, hidle⟩ := attempted_insert_file h.ground decl
  refine ⟨fun hpath => (hattempted.elsewhere hpath).trans (h.elsewhere hpath), ?_, ?_,
    hlisted h.free, fun hnone hinvalid => (hidle hinvalid).trans (h.idle hnone)⟩
  · intro path file hpath hfile
    have hleft := (h.elsewhere hpath).trans hfile
    refine (h.same hpath hfile).trans ⟨?_, fun {ref} _ => ?_⟩
    · exact hattempted.grown.same_below h.ground (h.ground.well.is_file_of_file_at hleft)
    · rw [standing, standing, hattempted.grown.standings]
  · intro file low hfile hlow
    -- Numbers of nodes that left are not given again.
    obtain ⟨top, _, _, _, htop, _⟩ := hground.well.fileAt.1 hfile
    obtain ⟨node, hnode⟩ := Outline.exists_node?_of_below htop hlow
    have hlt := Outline.lt_size_of_node? hnode
    rw [← h.size] at hlt
    exact hattempted.grown.absent hlt (h.gone hfile hlow)

/-- The nodes and files are the same exactly if there was nothing under the path and the package
is not valid. -/
theorem Exchanged.same_iff (h : Exchanged index after decl) (hwell : index.outline.WellFormed) :
    ((∀ id, after.outline.node? id = index.outline.node? id) ∧
        ∀ path, after.outline.fileAt? path = index.outline.fileAt? path) ↔
      index.outline.fileAt? decl.path = none ∧ Dotted.isValid decl.package = false := by
  constructor
  · rintro ⟨hnodes, hfiles⟩
    have hnone : index.outline.fileAt? decl.path = none := by
      rw [Option.eq_none_iff_forall_ne_some]
      intro file hfile
      obtain ⟨node, _, _, _, hnode, _⟩ := hwell.fileAt.1 hfile
      rw [← hnodes, h.gone hfile (.refl file)] at hnode
      cases hnode
    refine ⟨hnone, ?_⟩
    rw [← h.listed, hfiles, hnone]
    rfl
  · rintro ⟨hnone, hinvalid⟩
    rw [h.idle hnone hinvalid]
    exact ⟨fun _ => rfl, fun _ => rfl⟩

end Index

end CanonicalNames
