import CanonicalNames.Proofs.Index.Contents
import CanonicalNames.Proofs.Resolution.Agreement

/-!
# Edits of one file

A file is edited by removing it and inserting it again. `Edited index after path` says what
such an edit leaves: every other file with its nodes and with what is known about its
references, and nothing known about the references of the edited one. What is known about a
reference after an edit was therefore known before, of a reference that means the same
(`Edited.remembers`).
-/

namespace CanonicalNames

namespace Outline

variable {outline middle after : Outline} {low top : NodeId} {node : Node} {ref : RefId}

theorem SameBelow.refl (outline : Outline) (top : NodeId) : outline.SameBelow outline top :=
  fun _ node _ hnode => ⟨node, hnode, .refl node, rfl⟩

/-- Nodes below a node lie below it where they are the same. -/
theorem SameBelow.below (h : outline.SameBelow after top) (hbelow : outline.Below low top) :
    after.Below low top := by
  induction hbelow using Relation.ReflTransGen.head_induction_on with
  | refl => rfl
  | head hstep hrest ih =>
      obtain ⟨node, hnode, hparent⟩ := Option.bind_eq_some_iff.1 hstep
      obtain ⟨left, hleft, hface, _⟩ := h (hrest.head hstep) hnode
      exact ih.head (parent?_of_node? hleft (hface.parent.trans hparent))

theorem SameBelow.trans (h : outline.SameBelow middle top) (k : middle.SameBelow after top) :
    outline.SameBelow after top := by
  intro low node hlow hnode
  obtain ⟨left, hleft, hface, hchildren⟩ := h hlow hnode
  obtain ⟨final, hfinal, hface', hchildren'⟩ := k (h.below hlow) hleft
  exact ⟨final, hfinal, hface'.trans hface, hchildren'.trans hchildren⟩

/-- The same nodes below a node are the same from the other side. -/
theorem SameBelow.below_of_after (hwell' : after.WellFormed) (h : outline.SameBelow after top)
    (hwell : outline.WellFormed) (hnode : outline.node? top = some node)
    (hbelow : after.Below low top) : outline.Below low top := by
  obtain ⟨left, hleft, _⟩ := h (.refl top) hnode
  have hmem := (hwell'.mem_tour_iff (fun ids => List.Perm.refl ids) hleft).2 hbelow
  rw [h.tour_eq hwell hwell' (fun ids => List.Perm.refl ids) hnode] at hmem
  exact (hwell.mem_tour_iff (fun ids => List.Perm.refl ids) hnode).1 hmem

end Outline

namespace Index

open Outline (Filing)

variable {index middle after : Index} {id file : NodeId} {path other : SourcePath}
  {source? : SourcePath → Option FileDecl}

/-- Nothing is in progress, and nothing is known about a reference that does not exist or has no
name. -/
structure Tidy (index : Index) : Prop where
  idle : ∀ ref, (index.standing ref).status ≠ .inProgress
  named : ∀ ref, ¬ index.outline.HasName ref → (index.standing ref).status = .unresolved

/-- A file has the same nodes, and the same is known about its references. -/
structure SameFile (index after : Index) (file : NodeId) : Prop where
  below : index.outline.SameBelow after.outline file
  standing : ∀ {ref}, index.outline.Below ref.owner file → after.standing ref = index.standing ref

theorem SameFile.trans (h : SameFile index middle file) (k : SameFile middle after file) :
    SameFile index after file :=
  ⟨h.below.trans k.below, fun hbelow => (k.standing (h.below.below hbelow)).trans (h.standing hbelow)⟩

/-- What an edit of the file with a path leaves. -/
structure Edited (index after : Index) (path : SourcePath) : Prop where
  fileAt : ∀ {other file}, (path == other) = false →
    (after.outline.fileAt? other = some file ↔ index.outline.fileAt? other = some file)
  same : ∀ {other file}, (path == other) = false → index.outline.fileAt? other = some file →
    SameFile index after file
  fresh : ∀ {file ref}, after.outline.fileAt? path = some file →
    after.outline.Below ref.owner file → (after.standing ref).status = .unresolved
  tidy : after.Tidy

/-- Two edits of one file are one edit. -/
theorem Edited.trans (h : Edited index middle path) (k : Edited middle after path) :
    Edited index after path where
  fileAt hpath := (k.fileAt hpath).trans (h.fileAt hpath)
  same hpath hfile := (h.same hpath hfile).trans (k.same hpath ((h.fileAt hpath).2 hfile))
  fresh := k.fresh
  tidy := k.tidy

/-! ## Removal and insertion -/

/-- A node keeps its type uses with its content. -/
theorem use?_of_same_face {left right : Outline} {ref : RefId} {node found : Node}
    (hnode : left.node? ref.owner = some node) (hfound : right.node? ref.owner = some found)
    (hface : found.SameFace node) : right.use? ref = left.use? ref := by
  simp [Outline.use?, Outline.element?_of_node? hnode, Outline.element?_of_node? hfound,
    hface.element?]

/-- The path of a removed file is free. -/
theorem Removed.file_at_eq_none (h : Removed index after file) (hground : index.outline.Grounded)
    (hfile : index.outline.fileAt? path = some file) : after.outline.fileAt? path = none := by
  rw [Option.eq_none_iff_forall_ne_some]
  intro found hfound
  have hgone := ((h.file_at_iff hground hfile).1 hfound).1
  rw [BEq.refl path] at hgone
  cases hgone

/-- Removing a file leaves every other one. -/
theorem Removed.same_file (h : Removed index after file) (hground : index.outline.Grounded)
    (hfile : index.outline.fileAt? path = some file) (hpath : (path == other) = false)
    {found : NodeId} (hfound : index.outline.fileAt? other = some found) :
    SameFile index after found := by
  have hisFile := hground.well.is_file_of_file_at hfile
  have hotherFile := hground.well.is_file_of_file_at hfound
  have hne : found ≠ file := by
    rintro rfl
    have hleft := (h.file_at_iff hground hfile).2 ⟨hpath, hfound⟩
    obtain ⟨node, _, _, _, hnode, _⟩ := h.well.fileAt.1 hleft
    rw [h.trimmed.gone (.refl found)] at hnode
    cases hnode
  refine ⟨h.same_below hground hisFile hotherFile hne, fun hbelow => ?_⟩
  exact h.kept (not_below_of_file hground hisFile hotherFile hne hbelow)

/-- Removing a file edits it. -/
theorem Removed.edited (h : Filing index.outline source?) (htidy : index.Tidy)
    (hfile : index.outline.fileAt? path = some file) (hremoved : Removed index after file) :
    Edited index after path := by
  refine ⟨?_, ?_, ?_, ?_, ?_⟩
  · intro other found hpath
    rw [hremoved.file_at_iff h.ground hfile]
    exact and_iff_right hpath
  · exact fun hpath hfound => hremoved.same_file h.ground hfile hpath hfound
  · intro found ref hfound _
    rw [hremoved.file_at_eq_none h.ground hfile] at hfound
    cases hfound
  · intro ref hstatus
    rcases hremoved.standing ref with hblank | hsame
    · rw [hblank] at hstatus
      cases hstatus
    · exact htidy.idle ref (hsame ▸ hstatus)
  · intro ref hname
    rcases hremoved.standing ref with hblank | hsame
    · rw [hblank]
    · by_cases hold : index.outline.HasName ref
      · obtain ⟨use, huse, hne⟩ := hold
        by_cases hbelow : index.outline.Below ref.owner file
        · rw [hremoved.released hbelow (by simp [huse])]
        · obtain ⟨node, hnode, howned⟩ := Outline.owned_of_use? huse
          have hpackage : node.kind ≠ .package := by
            intro hkind
            rw [hkind] at howned
            cases howned
          obtain ⟨left, hleft⟩ := hremoved.trimmed.kept hnode hbelow hpackage
          obtain ⟨old, hnode', _, hface, _⟩ := hremoved.trimmed.survivor hleft
          rw [hnode, Option.some.injEq] at hnode'
          subst hnode'
          exact absurd ⟨use, (use?_of_same_face hnode hleft hface).trans huse, hne⟩ hname
      · rw [hsame]
        exact htidy.named ref hold

/-- Inserting a file at a free path edits it. -/
theorem FileAdded.edited {decl : FileDecl} (h : Filing index.outline source?) (htidy : index.Tidy)
    (hadded : FileAdded index after decl id) : Edited index after decl.path := by
  have hstanding : ∀ ref, after.standing ref = index.standing ref :=
    fun ref => by rw [standing, standing, hadded.grown.standings]
  have hold : ∀ ref, index.outline.HasName ref → after.outline.HasName ref := by
    rintro ref ⟨use, huse, hne⟩
    obtain ⟨node, hnode, _⟩ := Outline.owned_of_use? huse
    obtain ⟨grown, hgrown, hface⟩ := hadded.grown.face hnode
    exact ⟨use, (use?_of_same_face hnode hgrown hface).trans huse, hne⟩
  refine ⟨?_, ?_, ?_, ?_, ?_⟩
  · intro other found hpath
    rw [hadded.fileAt]
    simp [hpath]
  · intro other found _ hfound
    exact ⟨hadded.grown.same_below h.ground (h.ground.well.is_file_of_file_at hfound),
      fun _ => hstanding _⟩
  · intro found ref hfound hbelow
    have hid : found = id := by
      rcases hadded.fileAt.1 hfound with ⟨_, hid⟩ | ⟨hpath, _⟩
      · exact hid
      · rw [BEq.refl decl.path] at hpath
        cases hpath
    rw [hstanding]
    refine htidy.named ref (fun hname => ?_)
    obtain ⟨use, huse, _⟩ := hname
    obtain ⟨node, hnode, _⟩ := Outline.owned_of_use? huse
    have hle := hadded.ground.well.le_of_below (hid ▸ hbelow)
    exact Nat.lt_irrefl _ (Nat.lt_of_lt_of_le (Outline.lt_size_of_node? hnode)
      (Nat.le_trans hadded.fresh hle))
  · intro ref
    rw [hstanding]
    exact htidy.idle ref
  · intro ref hname
    rw [hstanding]
    exact htidy.named ref (fun h => hname (hold ref h))

/-! ## Whole files -/

/-- Whatever is indexed under a path can be removed. -/
theorem remove_file_cases (hwell : index.outline.WellFormed) (path : SourcePath) :
    (index.outline.fileAt? path = none ∧ index.removeFile path = .ok (none, index)) ∨
      ∃ file leaving after, index.outline.fileAt? path = some file ∧
        index.removeFile path = .ok (some leaving, after) ∧ Removed index after file := by
  rcases hfile : index.outline.fileAt? path with _ | file
  · exact Or.inl ⟨rfl, by simp [removeFile, hfile]⟩
  · obtain ⟨node, _, _, _, hnode, hcontent, _⟩ := hwell.fileAt.1 hfile
    have hroot : file ≠ Outline.rootId := by
      rintro rfl
      obtain ⟨root, hrootNode, hrootContent, _⟩ := hwell.root
      rw [hnode, Option.some.injEq] at hrootNode
      rw [hrootNode, hrootContent] at hcontent
      cases hcontent
    obtain ⟨leaving, after, hremove⟩ : ∃ leaving after, index.remove file = .ok (leaving, after) := by
      simp [remove, hroot, hnode]
    exact Or.inr ⟨file, leaving, after, rfl, by simp [removeFile, hfile, hremove, Except.map],
      removed_of_remove hwell hremove⟩

/-- A file that is present can be removed. -/
theorem exists_remove_file (h : Filing index.outline source?) (htidy : index.Tidy)
    (path : SourcePath) :
    ∃ leaving after, index.removeFile path = .ok (leaving, after) ∧ Edited index after path ∧
      after.outline.fileAt? path = none ∧
      Filing after.outline (fun other => if path == other then none else source? other) := by
  have hwell := h.ground.well
  rcases remove_file_cases hwell path with
    ⟨hfile, hrun⟩ | ⟨file, leaving, after, hfile, hrun, hremoved⟩
  · have hsources : (fun other => if path == other then none else source? other) = source? := by
      funext other
      split
      · next hpath =>
          rcases hsource : source? other with _ | decl
          · rfl
          · obtain ⟨_, _, found, hfound⟩ := h.indexed hsource
            rw [← hwell.file_at_congr hpath, hfile] at hfound
            cases hfound
      · rfl
    refine ⟨none, index, hrun, ⟨fun _ => Iff.rfl, ?_, ?_, htidy⟩, hfile,
      by rw [hsources]; exact h⟩
    · intro other found _ _
      exact ⟨.refl _ _, fun _ => rfl⟩
    · intro found ref hfound
      rw [hfile] at hfound
      cases hfound
  · exact ⟨some leaving, after, hrun, hremoved.edited h htidy hfile,
      hremoved.file_at_eq_none h.ground hfile, hremoved.filing h hfile⟩

/-- A file with names for everything can be inserted at a free path, and no other file can be
inserted there. -/
theorem exists_insert_file_iff {decl : FileDecl} (h : Filing index.outline source?)
    (htidy : index.Tidy) (hfree : index.outline.fileAt? decl.path = none) :
    decl.isInsertable = true ↔ ∃ id after, insertFile decl index = .ok id after ∧
      Edited index after decl.path ∧
      Filing after.outline (fun path => if decl.path == path then some decl else source? path) := by
  constructor
  · intro hinsertable
    obtain ⟨id, after, hinsert, hadded⟩ := insert_file_of_insertable h.ground hfree hinsertable
    exact ⟨id, after, hinsert, hadded.edited h htidy, hadded.filing h hinsertable⟩
  · rintro ⟨id, after, hinsert, _⟩
    exact insertable_of_insert_file hinsert

/-! ## What an edit keeps -/

/-- What is known about a reference with a name, if anything, was known about it before, and it
means the same. -/
def Remembers (index after : Index) : Prop :=
  ∀ ref, after.outline.HasName ref → (after.standing ref).status = .unresolved ∨
    index.outline.HasName ref ∧ after.standing ref = index.standing ref ∧
      ∀ known, after.outline.meaningIn known ref = index.outline.meaningIn known ref

theorem Remembers.refl (index : Index) : Remembers index index :=
  fun _ hname => Or.inr ⟨hname, rfl, fun _ => rfl⟩

theorem Remembers.trans (h : Remembers index middle) (k : Remembers middle after) :
    Remembers index after := by
  intro ref hname
  rcases k ref hname with hblank | ⟨hname, hsame, hmeans⟩
  · exact Or.inl hblank
  · rcases h ref hname with hblank | ⟨hold, hsame', hmeans'⟩
    · exact Or.inl (hsame ▸ hblank)
    · exact Or.inr ⟨hold, hsame.trans hsame', fun known => (hmeans known).trans (hmeans' known)⟩

/-- Where nothing was known, nothing is known. -/
theorem Remembers.blank (h : Remembers index after) (htidy : after.Tidy)
    (hblank : ∀ ref, (index.standing ref).status = .unresolved) (ref : RefId) :
    (after.standing ref).status = .unresolved := by
  by_cases hname : after.outline.HasName ref
  · rcases h ref hname with hnew | ⟨_, hsame, _⟩
    · exact hnew
    · rw [hsame, hblank]
  · exact htidy.named ref hname

/-- What is known about a reference with a name, if anything, is what it means when given class
paths are known. -/
def AgreesIn (known : String → Bool) (index : Index) : Prop :=
  ∀ ref, index.outline.HasName ref → (index.standing ref).status = .unresolved ∨
    (index.standing ref).status = .ofMeaning (index.outline.meaningIn known ref)

theorem Remembers.agrees_in (h : Remembers index after) {known : String → Bool}
    (hagrees : index.AgreesIn known) : after.AgreesIn known := by
  intro ref hname
  rcases h ref hname with hblank | ⟨hold, hsame, hmeans⟩
  · exact Or.inl hblank
  · rw [hsame, hmeans]
    exact hagrees ref hold

/-- A reference with a name lies in a file. -/
theorem exists_file_of_has_name (h : Filing index.outline source?) {ref : RefId}
    (hname : index.outline.HasName ref) :
    ∃ path file, index.outline.fileAt? path = some file ∧ index.outline.Below ref.owner file := by
  obtain ⟨use, huse, _⟩ := hname
  obtain ⟨node, hnode, howned⟩ := Outline.owned_of_use? huse
  have hground : node.kind.isGround = false := by
    cases hkind : node.kind <;> simp [hkind, Kind.isOwned, Kind.isGround] at howned ⊢
  obtain ⟨file, hfile, hbelow⟩ := h.housed hnode hground
  obtain ⟨path, hpath⟩ := h.ground.well.file_at_of_is_file hfile
  exact ⟨path, file, hpath, hbelow⟩

namespace SameFile

variable {low : NodeId} {ref : RefId}

theorem methods_under_eq (h : SameFile index after file) (hwell : index.outline.WellFormed)
    (hwell' : after.outline.WellFormed) (hfile : index.outline.fileAt? path = some file) :
    after.outline.methodsUnder file = index.outline.methodsUnder file := by
  obtain ⟨node, _, _, _, hnode, _⟩ := hwell.fileAt.1 hfile
  exact h.below.methods_under_eq hwell hwell' hnode

/-- References in the file are read the same. -/
theorem reference?_eq (h : SameFile index after file) (hfile : index.outline.fileAt? path = some file)
    (hwell : index.outline.WellFormed) (hlow : index.outline.Below ref.owner file) :
    after.reference? ref = index.reference? ref ∧
      after.outline.path? ref.owner = index.outline.path? ref.owner := by
  obtain ⟨node, _, _, _, hnode, _⟩ := hwell.fileAt.1 hfile
  obtain ⟨found, hfound⟩ := Outline.exists_node?_of_below hnode hlow
  refine ⟨?_, (h.below.same_node hlow hfound).2.2.1⟩
  simp only [reference?, h.below.use?_eq hlow hfound, h.standing hlow]

end SameFile

/-- An edit remembers what was known about references in other files. -/
theorem Edited.remembers (hedited : Edited index after path) (h : Filing index.outline source?)
    {source'? : SourcePath → Option FileDecl} (h' : Filing after.outline source'?) :
    Remembers index after := by
  intro ref hname
  have hwell := h.ground.well
  have hwell' := h'.ground.well
  obtain ⟨other, file, hfile, hbelow⟩ := exists_file_of_has_name h' hname
  cases hpath : path == other with
  | true =>
      rw [← hwell'.file_at_congr hpath] at hfile
      exact Or.inl (hedited.fresh hfile hbelow)
  | false =>
      have hold := (hedited.fileAt hpath).1 hfile
      have hsame := hedited.same hpath hold
      obtain ⟨node, _, _, _, hnode, _⟩ := hwell.fileAt.1 hold
      have hlow := hsame.below.below_of_after hwell' hwell hnode hbelow
      obtain ⟨found, hfound⟩ := Outline.exists_node?_of_below hnode hlow
      obtain ⟨use, huse, hne⟩ := hname
      have huse' : index.outline.use? ref = some use := (hsame.below.use?_eq hlow hfound).symm.trans huse
      have hroot := Outline.owner?_of_is_file (hwell.is_file_of_file_at hold)
      exact Or.inr ⟨⟨use, huse', hne⟩, hsame.standing hlow,
        hsame.below.meaning_in_eq hwell hwell' hroot hlow huse'⟩

end Index

end CanonicalNames
