import CanonicalNames.Proofs.Index.Support

/-!
# The outbox as a log

Every change of the outline is told once to everyone who is registered at the time.
`Index.arrivalsOf` and `Index.departuresOf` say what there is to tell when nodes have come and
when nodes leave, without reference to the way in which an operation tells it, and
`Operation.announced` is what an operation has to tell. `outbox_is_log` says that an operation
appends exactly this, whether it succeeds or stops halfway.

Two facts make the log exact. Nobody is registered where nothing is or on a package
(`Seated`), so that passing over packages on the way up loses nothing. And a removal visits every
node once (`WellFormed.nodup_tour`), so that dropping the subscribers of one node before the next
is told loses nothing either.
-/

namespace CanonicalNames

namespace Subscriptions

variable {subscriptions : Subscriptions} {node other : NodeId}

theorem mem_on_iff {subscriber : Subscriber} :
    subscriber ∈ subscriptions.on node ↔ subscriptions.holds node subscriber = true := by
  rw [holds_iff_mem]
  constructor
  · intro hmem
    obtain ⟨⟨place, found⟩, hentry, rfl⟩ := List.mem_map.1 hmem
    obtain ⟨hlisted, hplace⟩ := List.mem_filter.1 hentry
    obtain rfl : place = node := by simpa using hplace
    exact hlisted
  · intro hmem
    exact List.mem_map.2 ⟨(node, subscriber), List.mem_filter.2 ⟨hmem, by simp⟩, rfl⟩

/-- Clearing a node leaves the subscribers of others. -/
theorem on_clear_of_ne (h : other ≠ node) : (subscriptions.clear node).on other =
    subscriptions.on other := by
  unfold on clear
  rw [List.filter_filter]
  congr 1
  refine List.filter_congr (fun entry _ => ?_)
  by_cases hentry : entry.1 = other
  · simp [hentry, h]
  · simp [hentry]

end Subscriptions

namespace Outline

variable {part whole : Outline} {id : NodeId}

/-- A node has the same ancestors in a part and in the whole. -/
theorem Within.ancestors_eq (h : Within part whole) (hwell : part.WellFormed)
    (hwell' : whole.WellFormed) (hid : part.contains id = true) :
    whole.ancestors id = part.ancestors id := by
  induction id using Nat.strong_induction_on with
  | _ id ih =>
      have hsame := h.parent?_eq hid
      rcases hparent : part.parent? id with _ | parent
      · rw [hparent] at hsame
        exact (climb_eq_nil hsame).trans (climb_eq_nil hparent).symm
      · rw [hparent] at hsame
        rw [hwell'.ancestors_eq_cons hsame, hwell.ancestors_eq_cons hparent,
          ih parent (hwell.parent_lt hparent) (hwell.contains_of_parent? hparent)]

end Outline

/-! ## Who is registered where -/

/-- Everyone is registered on a node that is present and is not a package. -/
def Seated (outline : Outline) (subscriptions : Subscriptions) : Prop :=
  ∀ node subscriber, subscriptions.holds node subscriber = true →
    ∃ kind, outline.kind? node = some kind ∧ kind ≠ .package

namespace Seated

variable {outline : Outline} {subscriptions left : Subscriptions} {node : NodeId}

/-- Registrations may go. -/
theorem mono (h : Seated outline subscriptions)
    (hleft : ∀ node subscriber, left.holds node subscriber = true →
      subscriptions.holds node subscriber = true) : Seated outline left :=
  fun node subscriber hholds => h node subscriber (hleft node subscriber hholds)

/-- Subscribers come to nodes that take them. -/
theorem add (h : Seated outline subscriptions) {kind : Kind} (hkind : outline.kind? node = some kind)
    (hpackage : kind ≠ .package) (subscriber : Subscriber) :
    Seated outline (subscriptions.add node subscriber) := by
  intro other another hholds
  rcases Subscriptions.holds_add_iff.1 hholds with hholds | ⟨rfl, -⟩
  · exact h other another hholds
  · exact ⟨kind, hkind, hpackage⟩

theorem move (h : Seated outline subscriptions) {kind : Kind}
    (hkind : outline.kind? node = some kind) (hpackage : kind ≠ .package) (standings : Standings)
    (ref : RefId) : Seated outline (moveSubscription standings subscriptions ref node).2 := by
  have hadded := h.add hkind hpackage (.reference ref)
  simp only [moveSubscription]
  split
  · exact hadded
  · exact hadded.mono (fun _ _ hholds => (Subscriptions.holds_drop_from?_iff.1 hholds).1)

/-- Nobody is registered on a node that takes no subscribers. -/
theorem on_eq_nil (h : Seated outline subscriptions)
    (hnode : (outline.kind? node).any Kind.isSubscribable = false) : subscriptions.on node = [] := by
  refine List.eq_nil_iff_forall_not_mem.2 (fun subscriber hmem => ?_)
  obtain ⟨kind, hkind, hpackage⟩ := h node subscriber (Subscriptions.mem_on_iff.1 hmem)
  simp [hkind, Kind.isSubscribable, hpackage] at hnode

end Seated

/-- Requests register references on nodes that take subscribers. -/
theorem seated_invariant (outline : Outline) (mode : Mode) :
    Pass.Invariant outline mode (fun pass => Seated outline pass.subscriptions)
      (fun _ _ => True) where
  start h _ _ := h
  settled _ _ := trivial
  asked _ _ _ _ _ := trivial
  giveUp h _ _ := h
  commit {pass ref hit} h _ _ _ := by
    rcases outline.commit_cases mode ref hit pass with
      ⟨-, hsubscriptions⟩ | ⟨node, kind, hkind, hpackage, -, hsubscriptions⟩
    · rw [hsubscriptions]
      exact h
    · rw [hsubscriptions]
      exact h.move hkind hpackage _ ref

namespace Index

variable {index after : Index} {id : NodeId}

/-! ## What there is to tell -/

/-- The nodes that have come, by number. -/
def newcomers (before after : Index) : List NodeId :=
  (List.range after.outline.places.size).filter (fun id =>
    after.outline.contains id && !before.outline.contains id)

/-- Everyone who is registered above a node is told of it, from its parent up to the root, on each
node in order of registration. -/
def arrivalOf (subscriptions : Subscriptions) (outline : Outline) (node : NodeId) :
    List Notification :=
  (outline.ancestors node).flatMap (fun scope =>
    (subscriptions.on scope).map (fun subscriber => ⟨subscriber, .added node scope⟩))

/-- What there is to tell of the nodes that have come. -/
def arrivalsOf (before after : Index) : List Notification :=
  (newcomers before after).flatMap (arrivalOf before.subscriptions after.outline)

/-- What there is to tell when nodes leave: everyone who is registered on one of them is told, in
order of registration. -/
def departuresOf (before : Index) (leaving : List NodeId) : List Notification :=
  leaving.flatMap (fun node =>
    (before.subscriptions.on node).map (fun subscriber => ⟨subscriber, .removed node⟩))

/-- What an operation has to tell. -/
def Operation.announced (index : Index) (operation : Operation) : List Notification :=
  match operation with
  | .insertFile _ | .insertAt _ _ | .insertChild _ _ | .insertMethod _ _ | .insertClass _ _ =>
    arrivalsOf index (operation.run index)
  | .remove id =>
    match index.remove id with
    | .ok (leaving, _) => departuresOf index leaving
    | .error _ => []
  | .removeFile path =>
    match index.removeFile path with
    | .ok (some leaving, _) => departuresOf index leaving
    | _ => []
  | _ => []

/-- What operations one after the other have to tell. -/
def log (index : Index) : List Operation → List Notification
  | [] => []
  | operation :: rest => operation.announced index ++ (operation.run index).log rest

/-! ## Insertion -/

/-- Passing over packages on the way up loses nobody. -/
theorem arrivals_eq {outline : Outline} {subscriptions : Subscriptions}
    (h : Seated outline subscriptions) (node : NodeId) :
    arrivals outline subscriptions node = arrivalOf subscriptions outline node := by
  unfold arrivals arrivalOf
  induction outline.ancestors node with
  | nil => rfl
  | cons scope rest ih =>
      simp only [List.filter_cons, List.flatMap_cons]
      cases htakes : (outline.kind? scope).any Kind.isSubscribable with
      | true =>
          rw [if_pos rfl, List.flatMap_cons, ih]
          rfl
      | false =>
          rw [if_neg Bool.false_ne_true, h.on_eq_nil htakes, ih]
          rfl

theorem Attachment.contains_iff (new : index.Attachment) (id : NodeId) :
    new.outline.contains id = true ↔
      id = index.outline.places.size ∨ index.outline.contains id = true := by
  constructor
  · intro hcontains
    obtain ⟨node, hnode⟩ := Option.isSome_iff_exists.1 hcontains
    rcases new.cases hnode with ⟨rfl, -⟩ | ⟨old, hold, -⟩
    · exact Or.inl rfl
    · exact Or.inr (Outline.contains_of_node? hold)
  · rintro (rfl | hcontains)
    · simp [Outline.contains, new.node?_new]
    · exact new.within.contains hcontains

/-- One more node has come. -/
theorem newcomers_attach {middle : Index} (new : middle.Attachment)
    (hsize : index.outline.places.size ≤ middle.outline.places.size) :
    newcomers index new.result = newcomers index middle ++ [middle.outline.places.size] := by
  unfold newcomers
  rw [new.outline_result, new.size_outline, List.range_succ, List.filter_append]
  congr 1
  · refine List.filter_congr (fun id hid => ?_)
    have hne : id ≠ middle.outline.places.size := Nat.ne_of_lt (List.mem_range.1 hid)
    have hsame : new.outline.contains id = middle.outline.contains id := by
      rw [Bool.eq_iff_iff, new.contains_iff]
      exact or_iff_right hne
    rw [hsame]
  · have hold : index.outline.contains middle.outline.places.size = false := by
      simp [Outline.contains, Outline.node?, Array.getElem?_eq_none hsize]
    simp [(new.contains_iff _).2 (Or.inl rfl), hold]

/-- Whatever an insertion has attached when it ends, it has told of, in this order. -/
theorem Grows.outbox_eq {Admits : NodeId → Content → Prop} (h : Grows Admits index after)
    (hwell : index.outline.WellFormed) (hseated : Seated index.outline index.subscriptions) :
    after.outbox = index.outbox ++ arrivalsOf index after ∧
      after.subscriptions = index.subscriptions ∧ Seated after.outline after.subscriptions := by
  induction h with
  | refl =>
      have hnone : newcomers index index = [] := by simp [newcomers]
      simp [arrivalsOf, hnone, hseated]
  | @attach middle hgrows new hadmits ih =>
      obtain ⟨houtbox, hsubscriptions, hseated⟩ := ih
      have hmiddle := hgrows.well_formed hwell
      have hnew : Seated new.outline middle.subscriptions := by
        intro node subscriber hholds
        obtain ⟨kind, hkind, hpackage⟩ := hseated node subscriber hholds
        exact ⟨kind, new.within.kind? hkind, hpackage⟩
      refine ⟨?_, hsubscriptions, hnew⟩
      -- Later nodes change nothing above earlier ones.
      have hearlier : (newcomers index middle).flatMap
          (arrivalOf index.subscriptions new.outline) = arrivalsOf index middle := by
        refine List.flatMap_congr (fun id hid => ?_)
        have hcontains : middle.outline.contains id = true := by
          have := (List.mem_filter.1 hid).2
          simp only [Bool.and_eq_true] at this
          exact this.1
        unfold arrivalOf
        rw [new.within.ancestors_eq hmiddle (new.well_formed hmiddle) hcontains]
      have hall : arrivalsOf index new.result = arrivalsOf index middle ++
          arrivalOf index.subscriptions new.outline middle.outline.places.size := by
        rw [arrivalsOf, newcomers_attach new hgrows.size_le, List.flatMap_append,
          new.outline_result, hearlier, List.flatMap_singleton]
      show middle.outbox ++ arrivals new.outline middle.subscriptions _ = _
      rw [arrivals_eq hnew, houtbox, hsubscriptions, hall, List.append_assoc]

/-! ## Removal -/

/-- Each node that leaves is told of once, before its subscribers are dropped. -/
theorem outbox_foldl_dismiss {nodes : List NodeId} (hnodup : nodes.Nodup) :
    (nodes.foldl dismiss index).outbox = index.outbox ++ departuresOf index nodes := by
  induction nodes generalizing index with
  | nil => simp [departuresOf]
  | cons first rest ih =>
      obtain ⟨hfirst, hrest⟩ := List.nodup_cons.1 hnodup
      have hkept : departuresOf (index.dismiss first) rest = departuresOf index rest := by
        refine List.flatMap_congr (fun node hnode => ?_)
        have hne : node ≠ first := fun heq => hfirst (heq ▸ hnode)
        show ((index.subscriptions.clear first).on node).map _ = _
        rw [Subscriptions.on_clear_of_ne hne]
      rw [List.foldl_cons, ih hrest, hkept]
      show (index.outbox ++ index.subscriptions.notices first (.removed first)) ++ _ = _
      rw [List.append_assoc]
      rfl

theorem holds_of_foldl_release {refs : List RefId} {node : NodeId} {subscriber : Subscriber}
    (h : (refs.foldl release index).subscriptions.holds node subscriber = true) :
    index.subscriptions.holds node subscriber = true := by
  induction refs generalizing index with
  | nil => exact h
  | cons ref rest ih => exact (Subscriptions.holds_drop_from?_iff.1 (ih h)).1

/-- Releasing references takes registrations away. -/
theorem holds_of_foldl_release_all {nodes : List NodeId} {node : NodeId} {subscriber : Subscriber}
    (h : (nodes.foldl releaseAll index).subscriptions.holds node subscriber = true) :
    index.subscriptions.holds node subscriber = true := by
  induction nodes generalizing index with
  | nil => exact h
  | cons first rest ih => exact holds_of_foldl_release (ih h)

/-- A removal visits every node below once, tells of each and leaves nobody there. -/
theorem departures_of_remove {leaving : List NodeId} (hwell : index.outline.WellFormed)
    (hseated : Seated index.outline index.subscriptions)
    (hremove : index.remove id = .ok (leaving, after)) :
    leaving.Nodup ∧ (∀ node, node ∈ leaving ↔ index.outline.Below node id) ∧
      after.outbox = index.outbox ++ departuresOf index leaving ∧
      (∀ node ∈ leaving, after.subscriptions.on node = []) ∧
      Seated after.outline after.subscriptions := by
  have hnodup := nodup_of_remove hwell hremove
  have hremoved := removed_of_remove hwell hremove
  obtain ⟨parent, -, hleaving, rfl⟩ := remove_eq hwell hremove
  have hholds : ∀ node subscriber,
      (leaving.foldl releaseAll (leaving.foldl dismiss index)).subscriptions.holds node subscriber =
        true → index.subscriptions.holds node subscriber = true ∧ node ∉ leaving :=
    fun node subscriber h => (holds_foldl_dismiss leaving node subscriber).1
      (holds_of_foldl_release_all h)
  refine ⟨hnodup, hleaving, ?_, fun node hnode => ?_, fun node subscriber h => ?_⟩
  · show (leaving.foldl releaseAll (leaving.foldl dismiss index)).outbox = _
    rw [outbox_foldl_release_all, outbox_foldl_dismiss hnodup]
  · refine List.eq_nil_iff_forall_not_mem.2 (fun subscriber hmem => ?_)
    exact (hholds node subscriber (Subscriptions.mem_on_iff.1 hmem)).2 hnode
  · obtain ⟨hold, hnode⟩ := hholds node subscriber h
    obtain ⟨kind, hkind, hpackage⟩ := hseated node subscriber hold
    exact ⟨kind, hremoved.kind? hkind (fun hbelow => hnode ((hleaving node).2 hbelow)) hpackage,
      hpackage⟩

/-! ## Operations and histories -/

theorem announced_insertion {operation : Operation} (hinsert : operation.isInsertion = true) :
    operation.announced index = arrivalsOf index (operation.run index) := by
  cases operation with
  | insertFile | insertAt | insertChild | insertMethod | insertClass => rfl
  | _ => cases hinsert

/-- Only insertions and removals have something to tell. -/
theorem announced_eq_nil {operation : Operation} (hinsert : operation.isInsertion = false)
    (hremove : operation.isRemoval = false) : operation.announced index = [] := by
  cases operation with
  | insertFile | insertAt | insertChild | insertMethod | insertClass => cases hinsert
  | remove | removeFile => cases hremove
  | _ => rfl

/-- An operation, notifications being taken apart, appends what it has to tell, and everyone stays
on nodes that are present and take subscribers. -/
theorem Effect.outbox_eq {operation : Operation} (heffect : Effect index operation after)
    (hwell : index.outline.WellFormed) (hseated : Seated index.outline index.subscriptions) :
    Seated after.outline after.subscriptions ∧
      (operation ≠ .takeNotifications →
        after.outbox = index.outbox ++ operation.announced index) := by
  -- What has nothing to tell leaves the outbox.
  have hquiet : ∀ {after : Index}, Seated after.outline after.subscriptions →
      after.outbox = index.outbox → operation.announced index = [] →
      Seated after.outline after.subscriptions ∧ (operation ≠ .takeNotifications →
        after.outbox = index.outbox ++ operation.announced index) :=
    fun hafter houtbox hnone => ⟨hafter, fun _ => by rw [houtbox, hnone, List.append_nil]⟩
  cases heffect with
  | idle hinsert hremove => exact hquiet hseated rfl (announced_eq_nil hinsert hremove)
  | insert hinsert =>
      obtain ⟨houtbox, -, hafter⟩ := (grows_insertion hinsert index).outbox_eq hwell hseated
      exact ⟨hafter, fun _ => houtbox.trans (by rw [announced_insertion hinsert])⟩
  | remove hremove =>
      obtain ⟨-, -, houtbox, -, hafter⟩ := departures_of_remove hwell hseated hremove
      exact ⟨hafter, fun _ => by simpa only [Operation.announced, hremove] using houtbox⟩
  | removeFails hremove => exact hquiet hseated rfl (by simp only [Operation.announced, hremove])
  | removeFile hfile hremove =>
      obtain ⟨-, -, houtbox, -, hafter⟩ := departures_of_remove hwell hseated hremove
      exact ⟨hafter, fun _ => by
        simpa only [Operation.announced, Index.removeFile, hfile, hremove, Except.map] using houtbox⟩
  | removesNoFile hstays =>
      -- The last row of `announced` is the one that is left.
      exact hquiet hseated rfl (by simp only [Operation.announced])
  | @subscribe _ subscriber _ hkind hpackage =>
      exact hquiet (hseated.add hkind hpackage subscriber) rfl rfl
  | @subscribeRoot subscriber =>
      exact hquiet (hseated.add hwell.kind?_root (by decide) subscriber) rfl rfl
  | @subscribeReference ref _ _ _ hkind hpackage =>
      exact hquiet (hseated.move hkind hpackage index.standings ref) rfl rfl
  | unsubscribe =>
      exact hquiet (hseated.mono (fun _ _ h => (Subscriptions.holds_drop_iff.1 h).1)) rfl rfl
  | clear =>
      exact hquiet (hseated.mono (fun _ _ h => (Subscriptions.holds_clear_iff.1 h).1)) rfl rfl
  | newListener => exact hquiet hseated rfl rfl
  | takeNotifications => exact ⟨hseated, fun h => absurd rfl h⟩
  | invalidate =>
      exact hquiet (hseated.mono (fun _ _ h => (Subscriptions.holds_drop_from?_iff.1 h).1)) rfl rfl
  | attempt hinsert hremove => exact hquiet hseated rfl (announced_eq_nil hinsert hremove)
  | @resolve mode ref anchor =>
      exact hquiet ((seated_invariant index.outline mode).resolve ref anchor hseated) rfl rfl
  | @resolveUnder mode node =>
      exact hquiet ((seated_invariant index.outline mode).resolve_methods _ hseated) rfl rfl

theorem outbox_run (hwell : index.outline.WellFormed)
    (hseated : Seated index.outline index.subscriptions) (operation : Operation) :
    Seated (operation.run index).outline (operation.run index).subscriptions ∧
      (operation ≠ .takeNotifications →
        (operation.run index).outbox = index.outbox ++ operation.announced index) :=
  (effect_run index operation).outbox_eq hwell hseated

/-- Operations append what they have to tell one after the other. -/
theorem outbox_foldl_run (hwell : index.outline.WellFormed)
    (hseated : Seated index.outline index.subscriptions) (history : List Operation) :
    Seated (history.foldl Operation.run index).outline
        (history.foldl Operation.run index).subscriptions ∧
      ((∀ operation ∈ history, operation ≠ .takeNotifications) →
        (history.foldl Operation.run index).outbox = index.outbox ++ index.log history) := by
  induction history generalizing index with
  | nil => exact ⟨hseated, fun _ => (List.append_nil _).symm⟩
  | cons operation rest ih =>
      obtain ⟨hafter, houtbox⟩ := outbox_run hwell hseated operation
      obtain ⟨hlast, hrest⟩ := ih (well_formed_run hwell operation) hafter
      refine ⟨hlast, fun hnone => ?_⟩
      rw [List.foldl_cons, hrest (fun other hother => hnone other (List.mem_cons_of_mem _ hother)),
        houtbox (hnone operation (List.mem_cons_self ..)), log, List.append_assoc]

theorem Reachable.seated (h : index.Reachable) : Seated index.outline index.subscriptions := by
  obtain ⟨history, rfl⟩ := h
  exact (outbox_foldl_run Outline.well_formed_empty (fun _ _ hholds => by cases hholds) history).1

/-- The outbox is an exact log of what happens to the outline, after every history. An insertion,
whether it succeeds or stops halfway, tells of each node that it has attached, by number, to the
subscribers of every node above from the parent up to the root; a removal tells of each node that
leaves, in the order of removal, to the subscribers of that node, and leaves nobody registered
there; no other operation tells anything. What is taken is what was told since notifications were
last taken, oldest first. -/
theorem outbox_is_log (history : List Operation) :
    let index := afterHistory history
    (∀ operation : Operation, operation ≠ .takeNotifications →
      (operation.run index).outbox = index.outbox ++ operation.announced index) ∧
    (∀ id leaving after, index.remove id = .ok (leaving, after) →
      leaving.Nodup ∧ (∀ node, node ∈ leaving ↔ index.outline.Below node id) ∧
      (∀ node ∈ leaving, after.subscriptions.on node = []) ∧
      ∀ node, after.outline.contains node = false → after.subscriptions.on node = []) ∧
    (index.takeNotifications.1 = index.outbox ∧ index.takeNotifications.2.outbox = []) ∧
    (∀ since : List Operation, (∀ operation ∈ since, operation ≠ .takeNotifications) →
      (since.foldl Operation.run index.takeNotifications.2).takeNotifications.1 =
        index.takeNotifications.2.log since) := by
  intro index
  have hwell : index.outline.WellFormed := well_formed_foldl_run Outline.well_formed_empty history
  have hseated : Seated index.outline index.subscriptions :=
    (outbox_foldl_run Outline.well_formed_empty (fun _ _ h => by cases h) history).1
  refine ⟨fun operation => (outbox_run hwell hseated operation).2, ?_, ⟨rfl, rfl⟩, ?_⟩
  · intro id leaving after hremove
    obtain ⟨hnodup, hleaving, -, hnobody, hafter⟩ := departures_of_remove hwell hseated hremove
    refine ⟨hnodup, hleaving, hnobody, fun node habsent => hafter.on_eq_nil ?_⟩
    have hnone : after.outline.node? node = none := by
      simpa [Outline.contains] using habsent
    simp [Outline.kind?, hnone]
  · intro since hnone
    exact (@outbox_foldl_run index.takeNotifications.2 hwell hseated since).2 hnone

/-- One listener on the root and one on a file in a package. -/
def heardHistory : List Operation :=
  [.newListener,
   .newListener,
   .subscribeRoot (.listener 0),
   .insertFile { path := ⟨"p/A.java"⟩, package := "p", classes := [{ name := "A" }] },
   .subscribe 2 (.listener 1)]

/-- A nested class and then the removal of the file: the first is told to both listeners, nearest
first and past the package; the second to the listener on the file. -/
theorem heard_history_is_told :
    let taken := (afterHistory heardHistory).takeNotifications.2
    let since : List Operation := [.insertClass 3 { name := "B" }, .remove 2]
    (since.foldl Operation.run taken).takeNotifications.1 =
      [⟨.listener 1, .added 4 2⟩, ⟨.listener 0, .added 4 Outline.rootId⟩,
        ⟨.listener 1, .removed 2⟩] := by
  intro taken since
  have hnone : ∀ operation ∈ since, operation ≠ Operation.takeNotifications := by simp [since]
  rw [(outbox_is_log heardHistory).2.2.2 since hnone]
  decide +kernel

end Index

end CanonicalNames
