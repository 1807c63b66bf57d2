import Mathlib.Data.Finset.Card
import Mathlib.Data.Finset.Dedup
import CanonicalNames.Listing
import CanonicalNames.Proofs.Index.Changes
import CanonicalNames.Proofs.Resolution.Invariant

/-!
# Batch passes over loaded indexes

A listing is loaded by inserting its files one after the other, so that a loaded index is
made of files and nothing is remembered about its references yet (`Listing.loaded_of_load`).

A batch pass attempts a reference once. Where nothing was known before, its counters can be
read off the references that it leaves behind: they are the numbers of those that have failed
and of those that ended on an import outside the outline (`counted_invariant`), in whatever
order the attempts were made. Over a loaded index it subscribes nobody (`tallied_invariant`).
-/

namespace CanonicalNames

/-! ## Loading -/

namespace Index

/-- An index into which files were inserted, and to which nothing else was done. -/
structure Loaded (index : Index) : Prop where
  filing : ∃ source?, index.outline.Filing source?
  unique : index.outline.files.Unique
  standings : index.standings = {}
  subscriptions : index.subscriptions = {}

variable {index after : Index} {id : NodeId} {decl : FileDecl}

theorem loaded_empty : Loaded {} :=
  ⟨⟨_, Outline.filing_empty⟩, Table.unique_empty, rfl, rfl⟩

/-- A file is inserted only at a free path. -/
theorem free_of_insert_file (h : index.outline.Grounded)
    (hrun : insertFile decl index = .ok id after) : index.outline.fileAt? decl.path = none := by
  have hvalid : Dotted.isValid decl.package = true := by
    have hinsertable := insertable_of_insert_file hrun
    simp only [FileDecl.isInsertable, Bool.and_eq_true] at hinsertable
    exact hinsertable.1
  obtain ⟨root, hroot, hcontent, -⟩ := h.well.root
  obtain ⟨parent, middle, hdescend, hpaved⟩ := paved_descend h hroot
    (by rw [Node.kind, hcontent]; rfl) .root (Dotted.segments decl.package)
  rw [← hpaved.fileAt]
  rcases insert_child_cases parent decl.toElement middle with ⟨error, hchild⟩ | ⟨new, -, hnew, -⟩
  · simp only [insertFile, bind, EStateM.bind, insert_at_file hvalid hdescend, hchild] at hrun
    cases hrun
  · exact new.free _ _ _ hnew

/-- What a file's insertion that succeeds does. -/
theorem added_of_insert_file (h : index.outline.Grounded)
    (hrun : insertFile decl index = .ok id after) :
    decl.isInsertable = true ∧ index.outline.fileAt? decl.path = none ∧
      FileAdded index after decl id := by
  have hinsertable := insertable_of_insert_file hrun
  have hfree := free_of_insert_file h hrun
  obtain ⟨_, _, hrun', hadded⟩ := insert_file_of_insertable h hfree hinsertable
  rw [hrun] at hrun'
  cases hrun'
  exact ⟨hinsertable, hfree, hadded⟩

/-- A file is listed under its path when it is attached, and nothing else is listed. -/
theorem Attachment.files_outline (new : index.Attachment) :
    new.outline.files =
      match new.content with
      | .declared (.file source _ _) => index.outline.files.insert source index.outline.places.size
      | _ => index.outline.files := by
  have hupdate : ∀ (outline : Outline) (id : NodeId) (change : Node → Node),
      (outline.update id change).files = outline.files := by
    intro outline id change
    unfold Outline.update
    split <;> rfl
  show (Outline.update _ _ _).files = _
  exact hupdate _ _ _

theorem Attachment.unique_files (new : index.Attachment) (h : index.outline.files.Unique) :
    new.outline.files.Unique := by
  rw [new.files_outline]
  split
  · exact h.insert ..
  · exact h

/-- Inserting one more file. -/
theorem Loaded.insert_file (h : index.Loaded) (hrun : insertFile decl index = .ok id after) :
    after.Loaded := by
  obtain ⟨source?, hfiling⟩ := h.filing
  obtain ⟨hinsertable, -, hadded⟩ := added_of_insert_file hfiling.ground hrun
  have hgrows := grows_of_insert_file decl index
  simp only [reached, hrun] at hgrows
  exact ⟨⟨_, hadded.filing hfiling hinsertable⟩,
    hgrows.preserves (motive := fun index => index.outline.files.Unique)
      (fun _ new _ hunique => new.unique_files hunique) h.unique,
    hadded.grown.standings.trans h.standings, hadded.grown.subscriptions.trans h.subscriptions⟩

/-- A file of a loaded index is found under its path. -/
theorem Loaded.file_at (h : index.Loaded) {entry : SourcePath × NodeId}
    (hentry : entry ∈ index.outline.files.entries) :
    index.outline.fileAt? entry.1 = some entry.2 :=
  h.unique.find?_eq_some_iff.2 ⟨entry, hentry, BEq.refl _, rfl⟩

end Index

namespace Listing

open Index

/-- Files are inserted one after the other. -/
theorem insert_files_cons_iff {decl : FileDecl} {rest : List FileDecl} {index after : Index} :
    insertFiles (decl :: rest) index = .ok () after ↔
      ∃ id middle, insertFile decl index = .ok id middle ∧
        insertFiles rest middle = .ok () after := by
  simp only [insertFiles, bind, EStateM.bind]
  rcases insertFile decl index with ⟨id, middle⟩ | ⟨error, middle⟩ <;> simp

theorem loaded_of_insert_files {files : List FileDecl} {index after : Index} (h : index.Loaded)
    (hrun : insertFiles files index = .ok () after) : after.Loaded := by
  induction files generalizing index with
  | nil =>
      cases hrun
      exact h
  | cons decl rest ih =>
      obtain ⟨id, middle, hfirst, hrest⟩ := insert_files_cons_iff.1 hrun
      exact ih (h.insert_file hfirst) hrest

/-- A listing is loaded by inserting files. -/
theorem loaded_of_load {listing : Listing} {index : Index} (h : listing.load = .ok index) :
    index.Loaded := by
  unfold load at h
  split at h
  · cases h
  · split at h
    · next hrun =>
        cases h
        exact loaded_of_insert_files loaded_empty hrun
    · cases h

end Listing

/-! ## Counting outcomes -/

/-- A reference that was accepted through an import of a type outside the outline. -/
def Status.isDependency : Status → Bool
  | .resolved _ .dependency => true
  | _ => false

/-- The counters when one more reference has come to a status. -/
def Health.tally (health : Health) : Status → Health
  | .failed => health.countFailure
  | .resolved _ .dependency => health.countDependency
  | _ => health

namespace Pass

/-- The references of an outline whose status is of some sort. -/
def having (outline : Outline) (pass : Pass) (sort : Status → Bool) : Finset RefId :=
  outline.refs.toFinset.filter (fun ref => sort (pass.standing ref).status = true)

/-- The pass when a reference has come to a status and was counted. -/
def advance (pass : Pass) (ref : RefId) (status : Status) : Pass :=
  { pass.setStanding ref { pass.standing ref with status } with health := pass.health.tally status }

/-- Nobody is subscribed, and the counters are the numbers of references with these outcomes. -/
structure Tallied (outline : Outline) (pass : Pass) : Prop where
  subscriptions : pass.subscriptions = {}
  unsubscribed : ∀ ref, (pass.standing ref).subscription = none
  health : pass.health =
    { dependencyImports := (pass.having outline Status.isDependency).card
      failures := (pass.having outline (· == .failed)).card }

variable {outline : Outline} {pass left right : Pass} {ref : RefId} {status : Status}

@[simp] theorem standing_advance_self :
    (pass.advance ref status).standing ref = { pass.standing ref with status } :=
  standing_set_standing_self ..

theorem standing_advance_of_ne {other : RefId} (h : ref ≠ other) :
    (pass.advance ref status).standing other = pass.standing other :=
  standing_set_standing_of_ne _ _ h

/-- A reference that was not of a sort is added to those that are, if its new status is. -/
theorem having_advance (hmem : ref ∈ outline.refs) (sort : Status → Bool)
    (hbefore : sort (pass.standing ref).status = false) :
    (pass.advance ref status).having outline sort =
      if sort status = true then insert ref (pass.having outline sort)
      else pass.having outline sort := by
  ext other
  by_cases hne : ref = other
  · subst hne
    cases hsort : sort status <;> simp [having, hmem, hbefore, hsort]
  · have hne' : other ≠ ref := fun h => hne h.symm
    split <;> simp [having, standing_advance_of_ne hne, hne']

theorem card_having_advance (hmem : ref ∈ outline.refs) (sort : Status → Bool)
    (hbefore : sort (pass.standing ref).status = false) :
    ((pass.advance ref status).having outline sort).card =
      (pass.having outline sort).card + (sort status).toNat := by
  have hnot : ref ∉ pass.having outline sort := by simp [having, hbefore]
  rw [having_advance hmem sort hbefore]
  cases sort status with
  | true => simp [Finset.card_insert_of_notMem hnot]
  | false => simp

/-- The counters are the numbers of references with these outcomes. -/
def Counted (outline : Outline) (pass : Pass) : Prop :=
  pass.health =
    { dependencyImports := (pass.having outline Status.isDependency).card
      failures := (pass.having outline (· == .failed)).card }

/-- When an open reference or one in progress comes to a status, it is counted once. -/
theorem Counted.advance (h : pass.Counted outline) (hmem : ref ∈ outline.refs)
    (hbefore : (pass.standing ref).status = .unresolved ∨
      (pass.standing ref).status = .inProgress) (status : Status) :
    (pass.advance ref status).Counted outline := by
  have hdependency : ((pass.standing ref).status).isDependency = false := by
    rcases hbefore with hbefore | hbefore <;> rw [hbefore] <;> rfl
  have hfailed : ((pass.standing ref).status == .failed) = false := by
    rcases hbefore with hbefore | hbefore <;> rw [hbefore] <;> rfl
  unfold Counted
  rw [card_having_advance hmem _ hdependency, card_having_advance hmem _ hfailed]
  show pass.health.tally status = _
  rw [h]
  cases status with
  | resolved canonical origin => cases origin <;> rfl
  | _ => rfl

/-- An open reference or one in progress may come to any status. -/
theorem Tallied.advance (h : pass.Tallied outline) (hmem : ref ∈ outline.refs)
    (hbefore : (pass.standing ref).status = .unresolved ∨
      (pass.standing ref).status = .inProgress) (status : Status) :
    (pass.advance ref status).Tallied outline := by
  refine ⟨h.subscriptions, fun other => ?_, Counted.advance h.health hmem hbefore status⟩
  by_cases hne : ref = other
  · subst hne
    rw [standing_advance_self]
    exact h.unsubscribed ref
  · rw [standing_advance_of_ne hne]
    exact h.unsubscribed other

/-- Settling a reference on a hit in a batch pass. -/
theorem commit_batch (outline : Outline) (pass : Pass) (ref : RefId) (hit : Hit) :
    (outline.commit .batch ref hit pass).2 =
      pass.advance ref (.resolved (outline.outcome hit).1 (outline.outcome hit).2.1) := by
  simp only [Outline.commit]
  rcases outline.outcome hit with ⟨canonical, origin, rest⟩
  cases origin <;> rfl

/-- All that a batch pass does is to bring an open reference, or one in progress, to a status. -/
theorem invariant_of_advance {Holds : Pass → Prop}
    (hadvance : ∀ {pass ref}, Holds pass → ref ∈ outline.refs →
      (pass.standing ref).status = .unresolved ∨ (pass.standing ref).status = .inProgress →
      ∀ status, Holds (pass.advance ref status)) :
    Invariant outline .batch Holds (fun _ _ => True) where
  start := by
    intro pass ref h huse hbegin
    obtain ⟨use, huse⟩ := Option.isSome_iff_exists.1 huse
    -- No second attempt is made, so that a reference that begins was never counted.
    have hopen : (pass.standing ref).status = .unresolved := by
      cases hstatus : (pass.standing ref).status with
      | unresolved => rfl
      | _ => simp [Standing.mayBegin, hstatus, Mode.retriesFailed] at hbegin
    exact hadvance h (Outline.mem_refs_of_use? huse) (Or.inl hopen) .inProgress
  settled := fun _ _ => trivial
  asked := fun _ _ _ _ _ => trivial
  commit := by
    intro pass ref hit h _ huse hprogress
    obtain ⟨use, huse⟩ := Option.isSome_iff_exists.1 huse
    rw [commit_batch]
    exact hadvance h (Outline.mem_refs_of_use? huse) (Or.inr hprogress) _
  giveUp := by
    intro pass ref h huse hprogress
    obtain ⟨use, huse⟩ := Option.isSome_iff_exists.1 huse
    exact hadvance h (Outline.mem_refs_of_use? huse) (Or.inr hprogress) .failed

/-- The counters of a batch pass are the numbers of references with these outcomes. -/
theorem counted_invariant (outline : Outline) :
    Invariant outline .batch (Counted outline) (fun _ _ => True) :=
  invariant_of_advance Counted.advance

theorem tallied_invariant (outline : Outline) :
    Invariant outline .batch (Tallied outline) (fun _ _ => True) :=
  invariant_of_advance Tallied.advance

/-- Where every reference is open there is nothing to count. -/
theorem counted_of_unresolved (hhealth : pass.health = {})
    (hopen : ∀ ref ∈ outline.refs, (pass.standing ref).status = .unresolved) :
    pass.Counted outline := by
  have hnone : ∀ sort : Status → Bool, sort .unresolved = false →
      pass.having outline sort = ∅ := by
    intro sort hsort
    refine Finset.filter_eq_empty_iff.2 (fun ref href => ?_)
    rw [hopen ref (List.mem_toFinset.1 href), hsort]
    exact Bool.false_ne_true
  rw [Counted, hhealth, hnone Status.isDependency rfl, hnone (· == .failed) rfl]
  rfl

/-- Nothing is counted before the first attempt. -/
theorem tallied_start (outline : Outline) : Tallied outline {} :=
  ⟨rfl, fun _ => rfl, counted_of_unresolved rfl (fun _ _ => rfl)⟩

/-- Where references have the same status, nothing else can differ. -/
theorem Tallied.eq_of_status_eq (h : left.Tallied outline) (k : right.Tallied outline)
    (hstatus : ∀ ref, (left.standing ref).status = (right.standing ref).status) :
    (∀ ref, left.standing ref = right.standing ref) ∧
      left.subscriptions = right.subscriptions ∧ left.health = right.health := by
  have hstanding : ∀ ref, left.standing ref = right.standing ref := by
    intro ref
    have hnone := h.unsubscribed ref
    have hnone' := k.unsubscribed ref
    have hsame := hstatus ref
    generalize left.standing ref = first at hnone hsame
    generalize right.standing ref = second at hnone' hsame
    cases first
    cases second
    simp_all
  have hhaving : ∀ sort, left.having outline sort = right.having outline sort := by
    intro sort
    unfold having
    exact Finset.filter_congr (fun ref _ => by rw [hstatus ref])
  refine ⟨hstanding, h.subscriptions.trans k.subscriptions.symm, ?_⟩
  rw [h.health, k.health, hhaving, hhaving]

end Pass

end CanonicalNames
