import CanonicalNames.Index.Insert
import CanonicalNames.Index.Remove
import CanonicalNames.Proofs.Outline.Removal
import CanonicalNames.Resolution.Resolve

/-!
# Reachable indexes

An index is reachable when some history of operations leads to it from the empty index.
Operations may fail in the middle of their work, and a history goes on from the state that
was reached by then. `Effect` says what one operation can do, and `effect_run` that every
operation does one of these things, so that a fact about histories is a fact about effects.
`Reachable.well_formed` is the first such fact: the outline of a reachable index is well formed.

A removal tells subscribers, releases references and takes nodes out, in this order (`remove_eq`).
-/

namespace CanonicalNames

namespace Index

variable {α β : Type} {index after : Index}

/-- The state in which an edit leaves an index, whether it succeeds or fails. -/
def reached (edit : Edit α) (index : Index) : Index :=
  match edit index with
  | .ok _ after => after
  | .error _ after => after

/-- An edit that keeps outlines well formed, whether it succeeds or fails. -/
def KeepsForm (edit : Edit α) : Prop :=
  ∀ index : Index, index.outline.WellFormed → (reached edit index).outline.WellFormed

theorem KeepsForm.pure (value : α) : KeepsForm (Pure.pure value) :=
  fun _ h => h

theorem KeepsForm.bind {edit : Edit α} {next : α → Edit β} (h : KeepsForm edit)
    (hnext : ∀ value, KeepsForm (next value)) : KeepsForm (edit >>= next) := by
  intro index hwell
  have hedit := h index hwell
  simp only [reached, Bind.bind, EStateM.bind] at hedit ⊢
  split at hedit
  · next value after hrun =>
      have := hnext value after hedit
      simpa only [hrun, reached] using this
  · next error after hrun => simpa only [hrun] using hedit

/-! ## Insertion -/

/-- Attaching a node keeps outlines well formed, if a file's path is free. -/
theorem well_formed_attach (hwell : index.outline.WellFormed) (parent : NodeId) {content : Content}
    {segment : String} (hroot : content ≠ .root)
    (hsegment : ∀ element, content = .declared element → segment = element.segment)
    (hfree : ∀ source package imports, content = .declared (.file source package imports) →
      index.outline.fileAt? source = none) :
    (reached (attach parent content segment) index).outline.WellFormed := by
  unfold reached attach
  rcases hparent : index.outline.node? parent with _ | above
  · exact hwell
  · exact hwell.attach hparent hroot hsegment hfree

theorem keeps_form_insert_child (parent : NodeId) (element : Element) :
    KeepsForm (insertChild parent element) := by
  intro index hwell
  unfold reached insertChild
  rcases hfault : insertFault? index.outline element with _ | fault
  · refine well_formed_attach hwell parent (fun h => by cases h) ?_ ?_
    · rintro _ ⟨⟩
      rfl
    · rintro source package imports ⟨⟩
      simp only [insertFault?] at hfault
      split at hfault
      · cases hfault
      · split at hfault
        · cases hfault
        · next hfree =>
            rw [Table.contains_eq_is_some_find?, Option.isSome_iff_ne_none, not_not] at hfree
            exact hfree
  · exact hwell

theorem keeps_form_descend (forFile : Bool) (parent : NodeId) (segments : List String) :
    KeepsForm (descend forFile parent segments) := by
  induction segments generalizing parent with
  | nil => exact KeepsForm.pure parent
  | cons segment rest ih =>
      intro index hwell
      simp only [reached, descend]
      rcases (if forFile = true then index.outline.childPackage? parent segment
        else (index.outline.visibleChildren parent segment).head?) with _ | child
      · have hattach : (reached (attach parent .package segment) index).outline.WellFormed :=
          well_formed_attach hwell parent (fun h => by cases h) (fun _ h => by cases h)
            (fun _ _ _ h => by cases h)
        unfold reached at hattach
        rcases hrun : attach parent .package segment index with ⟨child, grown⟩ | ⟨error, grown⟩
        · rw [hrun] at hattach
          exact ih child grown hattach
        · rw [hrun] at hattach
          exact hattach
      · exact ih child index hwell

theorem keeps_form_insert_at (path : String) (element : Element) :
    KeepsForm (insertAt path element) := by
  intro index hwell
  simp only [reached, insertAt]
  rcases parentPath? path element with _ | above
  · exact hwell
  · have hdescend := keeps_form_descend (element.kind == .file) Outline.rootId
      (Dotted.segments above) index hwell
    unfold reached at hdescend
    rcases hrun : descend (element.kind == .file) Outline.rootId (Dotted.segments above) index
      with ⟨parent, grown⟩ | ⟨error, grown⟩
    · rw [hrun] at hdescend
      simpa only [hrun, reached] using keeps_form_insert_child parent element grown hdescend
    · simpa only [hrun] using hdescend

theorem keeps_form_insert_type_params (owner : NodeId) (params : List TypeParamDecl) :
    KeepsForm (insertTypeParams owner params) := by
  induction params with
  | nil => exact KeepsForm.pure ()
  | cons param rest ih => exact (keeps_form_insert_child owner _).bind (fun _ => ih)

theorem keeps_form_insert_method (owner : NodeId) (method : MethodDecl) :
    KeepsForm (insertMethod owner method) :=
  (keeps_form_insert_child owner _).bind (fun id =>
    (keeps_form_insert_type_params id _).bind (fun _ => KeepsForm.pure id))

theorem keeps_form_insert_methods (owner : NodeId) (methods : List MethodDecl) :
    KeepsForm (insertMethods owner methods) := by
  induction methods with
  | nil => exact KeepsForm.pure ()
  | cons method rest ih => exact (keeps_form_insert_method owner method).bind (fun _ => ih)

mutual

theorem keeps_form_insert_class (parent : NodeId) :
    (decl : ClassDecl) → KeepsForm (insertClass parent decl)
  | ⟨_, _, typeParams, methods, classes⟩ => by
      unfold insertClass
      exact (keeps_form_insert_child parent _).bind (fun id =>
        (keeps_form_insert_type_params id typeParams).bind (fun _ =>
          (keeps_form_insert_classes id classes).bind (fun _ =>
            (keeps_form_insert_methods id methods).bind (fun _ => KeepsForm.pure id))))

theorem keeps_form_insert_classes (parent : NodeId) :
    (classes : List ClassDecl) → KeepsForm (insertClasses parent classes)
  | [] => KeepsForm.pure ()
  | decl :: rest => by
      unfold insertClasses
      exact (keeps_form_insert_class parent decl).bind (fun _ =>
        keeps_form_insert_classes parent rest)

end

theorem keeps_form_insert_file (file : FileDecl) : KeepsForm (insertFile file) :=
  (keeps_form_insert_at file.package file.toElement).bind (fun id =>
    (keeps_form_insert_classes id file.classes).bind (fun _ => KeepsForm.pure id))

/-! ## Removal -/

@[simp] theorem outline_release (index : Index) (ref : RefId) :
    (index.release ref).outline = index.outline := rfl

/-- Releasing a reference forgets its standing and no other. -/
theorem standing_release (index : Index) (ref other : RefId) :
    (index.release ref).standing other = if other = ref then {} else index.standing other := by
  simp only [standing, Standings.of, release]
  by_cases h : other = ref
  · rw [if_pos h, h, Table.find?_erase_of_beq _ (beq_self_eq_true ref), Option.getD_none]
  · have hne : (ref == other) = false := by simpa using Ne.symm h
    rw [if_neg h, Table.find?_erase_of_not_beq _ hne]

/-- Releasing a list of references. -/
theorem foldl_release (index : Index) (refs : List RefId) :
    (refs.foldl release index).outline = index.outline ∧
      ∀ other, (refs.foldl release index).standing other =
        if other ∈ refs then {} else index.standing other := by
  induction refs generalizing index with
  | nil => simp
  | cons ref rest ih =>
      obtain ⟨houtline, hstanding⟩ := ih (index.release ref)
      refine ⟨houtline, fun other => ?_⟩
      rw [List.foldl_cons, hstanding, standing_release]
      by_cases hrest : other ∈ rest <;> by_cases hid : other = ref <;> simp [hrest, hid]

/-- Dismissing nodes changes neither the outline nor a standing. -/
theorem foldl_dismiss (index : Index) (nodes : List NodeId) :
    (nodes.foldl dismiss index).outline = index.outline ∧
      ∀ ref, (nodes.foldl dismiss index).standing ref = index.standing ref := by
  induction nodes generalizing index with
  | nil => simp
  | cons node rest ih => exact ih (index.dismiss node)

/-- Releasing the references of a list of nodes. -/
theorem foldl_release_all (index : Index) (nodes : List NodeId) :
    (nodes.foldl releaseAll index).outline = index.outline ∧
      ∀ ref, (nodes.foldl releaseAll index).standing ref =
        if ref ∈ nodes.flatMap index.outline.refsOf then {} else index.standing ref := by
  induction nodes generalizing index with
  | nil => simp
  | cons node rest ih =>
      obtain ⟨houtline, hstanding⟩ := foldl_release index (index.outline.refsOf node)
      obtain ⟨houtline', hstanding'⟩ := ih (index.releaseAll node)
      refine ⟨houtline'.trans houtline, fun ref => ?_⟩
      rw [List.foldl_cons, hstanding', List.flatMap_cons]
      simp only [releaseAll, houtline, hstanding, List.mem_append]
      by_cases hnode : ref ∈ index.outline.refsOf node <;>
        by_cases hrest : ref ∈ rest.flatMap index.outline.refsOf <;> simp [hnode, hrest]

/-- An address is listed in the node that owns it exactly when there is a type use. -/
theorem mem_refs_of_iff {outline : Outline} {id : NodeId} {ref : RefId} :
    ref ∈ outline.refsOf id ↔ ref.owner = id ∧ (outline.use? ref).isSome = true := by
  obtain ⟨owner, slot⟩ := ref
  simp only [Outline.refsOf, Outline.use?]
  constructor
  · intro hmem
    rcases helement : outline.element? id with _ | element
    · simp [helement] at hmem
    · simp only [helement, List.mem_map, RefId.mk.injEq] at hmem
      obtain ⟨found, hfound, rfl, rfl⟩ := hmem
      simpa [helement] using Element.mem_slots_iff.1 hfound
  · rintro ⟨rfl, huse⟩
    rcases helement : outline.element? owner with _ | element
    · simp [helement] at huse
    · simp only [helement, Option.bind_some] at huse
      simpa using Element.mem_slots_iff.2 huse

/-- What a removal leaves of an index. -/
structure Removed (index after : Index) (id : NodeId) : Prop where
  well : after.outline.WellFormed
  trimmed : Outline.Trimmed index.outline after.outline id
  released : ∀ {ref}, index.outline.Below ref.owner id → (index.outline.use? ref).isSome = true →
    after.standing ref = {}
  kept : ∀ {ref}, ¬ index.outline.Below ref.owner id → after.standing ref = index.standing ref
  standing : ∀ ref, after.standing ref = {} ∨ after.standing ref = index.standing ref

/-- A removal that succeeds visits a present node and everything below it. -/
theorem leaving_of_remove {id : NodeId} {leaving : List NodeId}
    (h : index.remove id = .ok (leaving, after)) :
    ∃ node, index.outline.node? id = some node ∧ id ≠ Outline.rootId ∧
      leaving = index.outline.removalOrder id := by
  unfold remove at h
  split at h
  · cases h
  · next hroot =>
      split at h
      · cases h
      · next node hnode =>
          simp only [Except.ok.injEq, Prod.mk.injEq] at h
          exact ⟨node, hnode, hroot, h.1.symm⟩

/-- What a removal does, step by step. -/
theorem remove_eq {id : NodeId} {leaving : List NodeId} (hwell : index.outline.WellFormed)
    (h : index.remove id = .ok (leaving, after)) :
    ∃ parent, index.outline.parent? id = some parent ∧
      (∀ other, other ∈ leaving ↔ index.outline.Below other id) ∧
      after = { leaving.foldl releaseAll (leaving.foldl dismiss index) with
        outline := ((leaving.foldl Outline.dropNode index.outline).detach parent id).prune
          (parent + 1) parent } := by
  obtain ⟨node, hnode, hroot, rfl⟩ := leaving_of_remove h
  obtain ⟨parent, above, hparent, -, -, -⟩ := hwell.linked hnode hroot
  refine ⟨parent, Outline.parent?_of_node? hnode hparent,
    fun other => hwell.mem_tour_iff (fun ids => ids.reverse_perm) hnode, ?_⟩
  simp only [remove, if_neg hroot, hnode, hparent, Except.ok.injEq, Prod.mk.injEq] at h
  rw [← h.2, (foldl_release_all _ _).1, (foldl_dismiss _ _).1]

/-- A removal visits no node twice. -/
theorem nodup_of_remove {id : NodeId} {leaving : List NodeId} (hwell : index.outline.WellFormed)
    (h : index.remove id = .ok (leaving, after)) : leaving.Nodup := by
  obtain ⟨node, hnode, -, rfl⟩ := leaving_of_remove h
  exact hwell.nodup_tour (fun ids => ids.reverse_perm) hnode

/-- A removal takes out a node with everything below it and releases the references there. -/
theorem removed_of_remove {id : NodeId} {leaving : List NodeId}
    (hwell : index.outline.WellFormed) (h : index.remove id = .ok (leaving, after)) :
    Removed index after id := by
  obtain ⟨parent, hup, hmem, rfl⟩ := remove_eq hwell h
  have hcut := hwell.cut_of_mem_iff hup hmem
  obtain ⟨hform, htrimmed⟩ :=
    (hwell.trimmed_of_cut hcut).prune (hwell.cut hcut) (parent + 1) parent
  have hlisted : ∀ ref, ref ∈ leaving.flatMap index.outline.refsOf ↔
      index.outline.Below ref.owner id ∧ (index.outline.use? ref).isSome = true := by
    intro ref
    simp only [List.mem_flatMap, hmem, mem_refs_of_iff]
    constructor
    · rintro ⟨owner, hbelow, rfl, huse⟩
      exact ⟨hbelow, huse⟩
    · rintro ⟨hbelow, huse⟩
      exact ⟨ref.owner, hbelow, rfl, huse⟩
  -- Subscribers are dismissed first, which changes no standing.
  obtain ⟨hdismiss, hdismissed⟩ := foldl_dismiss index leaving
  have hreleased := (foldl_release_all (leaving.foldl dismiss index) leaving).2
  rw [hdismiss] at hreleased
  refine ⟨hform, htrimmed, ?_, ?_, ?_⟩
  · intro ref hbelow huse
    exact (hreleased ref).trans (if_pos ((hlisted ref).2 ⟨hbelow, huse⟩))
  · intro ref hbelow
    exact ((hreleased ref).trans
      (if_neg (fun hin => hbelow ((hlisted ref).1 hin).1))).trans (hdismissed ref)
  · intro ref
    by_cases hin : ref ∈ leaving.flatMap index.outline.refsOf
    · exact Or.inl ((hreleased ref).trans (if_pos hin))
    · exact Or.inr (((hreleased ref).trans (if_neg hin)).trans (hdismissed ref))

/-! ## Histories -/

/-- An operation on an index. -/
inductive Operation where
  | insertFile (file : FileDecl)
  | insertAt (path : String) (element : Element)
  | insertChild (parent : NodeId) (element : Element)
  | insertMethod (owner : NodeId) (method : MethodDecl)
  | insertClass (parent : NodeId) (decl : ClassDecl)
  | remove (id : NodeId)
  | removeFile (path : SourcePath)
  | subscribe (node : NodeId) (subscriber : Subscriber)
  | subscribeRoot (subscriber : Subscriber)
  | subscribeReference (ref : RefId) (node : NodeId)
  | unsubscribe (node : NodeId) (subscriber : Subscriber)
  | clear (node : NodeId)
  | newListener
  | takeNotifications
  | invalidate (ref : RefId)
  /-- Starts an attempt by hand. -/
  | start (ref : RefId) (retryFailed : Bool)
  /-- Ends an attempt by hand with a canonical name. -/
  | complete (ref : RefId) (canonical : String) (origin : Origin)
  /-- Ends an attempt by hand without one. -/
  | fail (ref : RefId)
  | resolve (mode : Mode) (ref : RefId) (start : Option NodeId)
  | resolveUnder (mode : Mode) (node : NodeId)

/-- The index after an operation; an operation that fails leaves what it has done. -/
def Operation.run (index : Index) : Operation → Index
  | .insertFile file => reached (Index.insertFile file) index
  | .insertAt path element => reached (Index.insertAt path element) index
  | .insertChild parent element => reached (Index.insertChild parent element) index
  | .insertMethod owner method => reached (Index.insertMethod owner method) index
  | .insertClass parent decl => reached (Index.insertClass parent decl) index
  | .remove id => ((index.remove id).toOption.map Prod.snd).getD index
  | .removeFile path => ((index.removeFile path).toOption.map Prod.snd).getD index
  | .subscribe node subscriber => ((index.subscribe node subscriber).toOption).getD index
  | .subscribeRoot subscriber => index.subscribeRoot subscriber
  | .subscribeReference ref node => ((index.subscribeReference ref node).toOption).getD index
  | .unsubscribe node subscriber => (index.unsubscribe node subscriber).2
  | .clear node => (index.clear node).2
  | .newListener => index.newListener.2
  | .takeNotifications => index.takeNotifications.2
  | .invalidate ref => (index.invalidate ref).2
  | .start ref retryFailed => ((index.begin? ref retryFailed).map Prod.snd).getD index
  | .complete ref canonical origin =>
    (index.settle? ref (fun standing => standing.complete canonical origin)).getD index
  | .fail ref => (index.settle? ref Standing.fail).getD index
  | .resolve mode ref anchor => (index.resolve mode ref anchor {}).2.1
  | .resolveUnder mode node => (index.resolveUnder mode node {}).2.1

/-- The index to which a history leads from the empty one. -/
def afterHistory (history : List Operation) : Index :=
  history.foldl Operation.run {}

/-- Some history leads to the index. -/
def Reachable (index : Index) : Prop :=
  ∃ history, afterHistory history = index

/-! ## What one operation does -/

/-- The operations that attach nodes. -/
def Operation.isInsertion : Operation → Bool
  | .insertFile _ | .insertAt _ _ | .insertChild _ _ | .insertMethod _ _ | .insertClass _ _ => true
  | _ => false

/-- The operations that take nodes out. -/
def Operation.isRemoval : Operation → Bool
  | .remove _ | .removeFile _ => true
  | _ => false

/-- What an operation makes of an index, by the parts that change. -/
inductive Effect (index : Index) : Operation → Index → Prop where
  /-- An operation that fails or has nothing to do. -/
  | idle {operation : Operation} (hinsert : operation.isInsertion = false)
      (hremove : operation.isRemoval = false) : Effect index operation index
  | insert {operation : Operation} (hinsert : operation.isInsertion = true) :
      Effect index operation (operation.run index)
  | remove {id : NodeId} {leaving : List NodeId} {after : Index}
      (hremove : index.remove id = .ok (leaving, after)) : Effect index (.remove id) after
  | removeFails {id : NodeId} {error : Error} (hremove : index.remove id = .error error) :
      Effect index (.remove id) index
  | removeFile {path : SourcePath} {id : NodeId} {leaving : List NodeId} {after : Index}
      (hfile : index.outline.fileAt? path = some id)
      (hremove : index.remove id = .ok (leaving, after)) : Effect index (.removeFile path) after
  | removesNoFile {path : SourcePath}
      (hstays : ∀ leaving after, index.removeFile path ≠ .ok (some leaving, after)) :
      Effect index (.removeFile path) index
  | subscribe {node : NodeId} {subscriber : Subscriber} {kind : Kind}
      (hkind : index.outline.kind? node = some kind) (hpackage : kind ≠ .package) :
      Effect index (.subscribe node subscriber)
        { index with subscriptions := index.subscriptions.add node subscriber }
  | subscribeRoot {subscriber : Subscriber} :
      Effect index (.subscribeRoot subscriber) (index.subscribeRoot subscriber)
  | subscribeReference {ref : RefId} {node : NodeId} {kind : Kind}
      (huse : (index.outline.use? ref).isSome = true)
      (hkind : index.outline.kind? node = some kind) (hpackage : kind ≠ .package) :
      Effect index (.subscribeReference ref node)
        { index with
          standings := (moveSubscription index.standings index.subscriptions ref node).1
          subscriptions := (moveSubscription index.standings index.subscriptions ref node).2 }
  | unsubscribe {node : NodeId} {subscriber : Subscriber} :
      Effect index (.unsubscribe node subscriber) (index.unsubscribe node subscriber).2
  | clear {node : NodeId} : Effect index (.clear node) (index.clear node).2
  | newListener : Effect index .newListener index.newListener.2
  | takeNotifications : Effect index .takeNotifications index.takeNotifications.2
  | invalidate {ref : RefId} : Effect index (.invalidate ref) (index.release ref)
  /-- An attempt by hand changes how a reference stands, and not what it listens to. -/
  | attempt {operation : Operation} {ref : RefId} {standing : Standing}
      (hinsert : operation.isInsertion = false) (hremove : operation.isRemoval = false)
      (huse : (index.outline.use? ref).isSome = true)
      (hkept : standing.subscription = (index.standing ref).subscription) :
      Effect index operation (index.setStanding ref standing)
  | resolve {mode : Mode} {ref : RefId} {anchor : Option NodeId} :
      Effect index (.resolve mode ref anchor) (index.resolve mode ref anchor {}).2.1
  | resolveUnder {mode : Mode} {node : NodeId} :
      Effect index (.resolveUnder mode node) (index.resolveUnder mode node {}).2.1

/-- Every operation has one of these effects. -/
theorem effect_run (index : Index) (operation : Operation) :
    Effect index operation (operation.run index) := by
  cases operation with
  | insertFile | insertAt | insertChild | insertMethod | insertClass => exact .insert rfl
  | remove id =>
      simp only [Operation.run]
      rcases hremove : index.remove id with error | ⟨leaving, after⟩
      · exact .removeFails hremove
      · exact .remove hremove
  | removeFile path =>
      simp only [Operation.run]
      rcases hfile : index.outline.fileAt? path with _ | id
      · simp only [removeFile, hfile]
        exact .removesNoFile (by simp [removeFile, hfile])
      · rcases hremove : index.remove id with error | ⟨leaving, after⟩
        · simp only [removeFile, hfile, hremove]
          exact .removesNoFile (by simp [removeFile, hfile, hremove, Except.map])
        · simp only [removeFile, hfile, hremove]
          exact .removeFile hfile hremove
  | subscribe node subscriber =>
      simp only [Operation.run, Index.subscribe]
      rcases hcheck : index.outline.checkSubscribable node with error | value
      · exact .idle rfl rfl
      · obtain ⟨kind, hkind, hpackage⟩ := Outline.check_subscribable_ok hcheck
        exact .subscribe hkind hpackage
  | subscribeRoot subscriber => exact .subscribeRoot
  | subscribeReference ref node =>
      simp only [Operation.run, Index.subscribeReference]
      rcases huse : index.outline.use? ref with _ | use
      · exact .idle rfl rfl
      · dsimp only
        rcases hcheck : index.outline.checkSubscribable node with error | value
        · exact .idle rfl rfl
        · obtain ⟨kind, hkind, hpackage⟩ := Outline.check_subscribable_ok hcheck
          exact .subscribeReference (by rw [huse]; rfl) hkind hpackage
  | unsubscribe node subscriber => exact .unsubscribe
  | clear node => exact .clear
  | newListener => exact .newListener
  | takeNotifications => exact .takeNotifications
  | invalidate ref =>
      simp only [Operation.run, Index.invalidate]
      split
      · exact .invalidate
      · exact .idle rfl rfl
  | start ref retryFailed =>
      simp only [Operation.run, begin?]
      rcases huse : index.outline.use? ref with _ | use
      · exact .idle rfl rfl
      · simp only [Option.map_some, Option.getD_some]
        split
        · exact .attempt rfl rfl (by rw [huse]; rfl) rfl
        · exact .idle rfl rfl
  | complete ref canonical origin =>
      simp only [Operation.run, settle?]
      rcases huse : index.outline.use? ref with _ | use
      · exact .idle rfl rfl
      · exact .attempt rfl rfl (by rw [huse]; rfl) rfl
  | fail ref =>
      simp only [Operation.run, settle?]
      rcases huse : index.outline.use? ref with _ | use
      · exact .idle rfl rfl
      · exact .attempt rfl rfl (by rw [huse]; rfl) rfl
  | resolve mode ref anchor => exact .resolve
  | resolveUnder mode node => exact .resolveUnder

/-- Insertions and removals apart, operations leave the outline. -/
theorem Effect.outline_cases {operation : Operation} (h : Effect index operation after) :
    (operation.isInsertion = true ∧ after = operation.run index) ∨
      (∃ id leaving, index.remove id = .ok (leaving, after)) ∨ after.outline = index.outline := by
  cases h with
  | insert hinsert => exact Or.inl ⟨hinsert, rfl⟩
  | remove hremove | removeFile _ hremove => exact Or.inr (Or.inl ⟨_, _, hremove⟩)
  | _ => exact Or.inr (Or.inr rfl)

/-- Insertions keep outlines well formed, whether they succeed or fail. -/
theorem well_formed_insertion (hwell : index.outline.WellFormed) {operation : Operation}
    (hinsert : operation.isInsertion = true) : (operation.run index).outline.WellFormed := by
  cases operation with
  | insertFile file => exact keeps_form_insert_file file index hwell
  | insertAt path element => exact keeps_form_insert_at path element index hwell
  | insertChild parent element => exact keeps_form_insert_child parent element index hwell
  | insertMethod owner method => exact keeps_form_insert_method owner method index hwell
  | insertClass parent decl => exact keeps_form_insert_class parent decl index hwell
  | _ => cases hinsert

/-- Every operation keeps outlines well formed. -/
theorem well_formed_run (hwell : index.outline.WellFormed) (operation : Operation) :
    (operation.run index).outline.WellFormed := by
  rcases (effect_run index operation).outline_cases with
    ⟨hinsert, -⟩ | ⟨id, leaving, hremove⟩ | hsame
  · exact well_formed_insertion hwell hinsert
  · exact (removed_of_remove hwell hremove).well
  · rw [hsame]
    exact hwell

theorem well_formed_foldl_run (hwell : index.outline.WellFormed) (history : List Operation) :
    (history.foldl Operation.run index).outline.WellFormed := by
  induction history generalizing index with
  | nil => exact hwell
  | cons operation rest ih => exact ih (well_formed_run hwell operation)

/-- The outline of a reachable index is well formed. -/
theorem Reachable.well_formed (h : index.Reachable) : index.outline.WellFormed := by
  obtain ⟨history, rfl⟩ := h
  exact well_formed_foldl_run Outline.well_formed_empty history

end Index

end CanonicalNames
