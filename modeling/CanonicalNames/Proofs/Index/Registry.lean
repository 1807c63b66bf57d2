import CanonicalNames.Proofs.Index.Changes
import CanonicalNames.Proofs.Resolution.Invariant

/-!
# Registrations and the subscriptions of references

A reference names the node that it is subscribed to, and the node lists the reference among
its subscribers. `Enrolled` says that the two sides agree: a reference is registered on a node
exactly when both exist and the reference names the node. Three more facts carry this through
every operation. Nobody is registered on a node that is absent or on a package, so that
pruned packages leave no registration behind; nothing is known of a reference that does not
exist, so that a new element starts without subscriptions; and references name only numbers
that were handed out, so that a new node starts without subscribers.

`registrations_agree` is the result for histories in which references subscribe through
`subscribeReference` and resolution only.
-/

namespace CanonicalNames

namespace Subscriptions

variable {subscriptions : Subscriptions} {node : NodeId} {subscriber another : Subscriber}

theorem holds_drop_from?_iff {held : Option NodeId} :
    (subscriptions.dropFrom? held subscriber).holds node another = true ↔
      subscriptions.holds node another = true ∧ ¬(held = some node ∧ another = subscriber) := by
  cases held with
  | none => simp [dropFrom?]
  | some old =>
      rw [dropFrom?, holds_drop_iff, Option.some.injEq, @eq_comm _ node old]

end Subscriptions

/-! ## Both sides agree -/

/-- References are registered where they say, and nobody where nothing is. -/
structure Enrolled (outline : Outline) (standings : Standings) (subscriptions : Subscriptions) :
    Prop where
  held : ∀ node ref, subscriptions.holds node (.reference ref) = true ↔
    outline.contains node = true ∧ (outline.use? ref).isSome = true ∧
      (Standings.of standings ref).subscription = some node
  present : ∀ node subscriber, subscriptions.holds node subscriber = true →
    ∃ kind, outline.kind? node = some kind ∧ kind ≠ .package
  absent : ∀ ref, outline.use? ref = none → Standings.of standings ref = {}
  issued : ∀ ref node, (Standings.of standings ref).subscription = some node →
    node < outline.places.size

/-- References are registered at most on the node that they name. -/
def Backed (standings : Standings) (subscriptions : Subscriptions) : Prop :=
  ∀ node ref, subscriptions.holds node (.reference ref) = true →
    (Standings.of standings ref).subscription = some node

variable {outline : Outline} {standings : Standings} {subscriptions : Subscriptions}
  {ref : RefId} {node other : NodeId} {subscriber : Subscriber}

theorem Enrolled.backed (h : Enrolled outline standings subscriptions) :
    Backed standings subscriptions :=
  fun node ref hholds => ((h.held node ref).1 hholds).2.2

/-- Nobody is registered in an empty index. -/
theorem enrolled_empty : Enrolled .empty {} {} := by
  refine ⟨fun node ref => ⟨nofun, ?_⟩, nofun, fun _ _ => rfl, nofun⟩
  rintro ⟨-, -, h⟩
  cases h

/-- A reference that exists changes its status. -/
theorem Enrolled.set (h : Enrolled outline standings subscriptions)
    (huse : (outline.use? ref).isSome = true) {standing : Standing}
    (hsame : standing.subscription = (Standings.of standings ref).subscription) :
    Enrolled outline (standings.insert ref standing) subscriptions := by
  have hsubscription : ∀ other, (Standings.of (standings.insert ref standing) other).subscription =
      (Standings.of standings other).subscription := by
    intro other
    rw [Standings.of_insert]
    split
    · next heq => rw [heq, hsame]
    · rfl
  refine ⟨fun node other => by rw [hsubscription, h.held], h.present, fun other hnone => ?_,
    fun other node hnode => h.issued other node (hsubscription other ▸ hnode)⟩
  rw [Standings.of_insert, if_neg, h.absent other hnone]
  rintro rfl
  rw [hnone] at huse
  cases huse

/-- A subscription that moves takes the place of the reference's only one. -/
theorem Backed.holds_move_iff (h : Backed standings subscriptions) :
    (moveSubscription standings subscriptions ref node).2.holds other subscriber = true ↔
      (subscriber = .reference ref ∧ other = node) ∨
        (subscriber ≠ .reference ref ∧ subscriptions.holds other subscriber = true) := by
  have honly : subscriber = .reference ref → subscriptions.holds other subscriber = true →
      (Standings.of standings ref).subscription = some other :=
    fun hself hholds => h other ref (hself ▸ hholds)
  simp only [moveSubscription]
  split
  · next hsame =>
      rw [Subscriptions.holds_add_iff]
      rw [hsame, Option.some.injEq] at honly
      grind
  · next hmoved =>
      rw [Subscriptions.holds_drop_from?_iff, Subscriptions.holds_add_iff]
      grind

theorem Enrolled.move (h : Enrolled outline standings subscriptions)
    (huse : (outline.use? ref).isSome = true) {kind : Kind}
    (hkind : outline.kind? node = some kind) (hpackage : kind ≠ .package) :
    Enrolled outline (moveSubscription standings subscriptions ref node).1
      (moveSubscription standings subscriptions ref node).2 := by
  have hcontains := Outline.contains_of_kind? hkind
  have hof := Standings.of_move standings subscriptions ref node
  refine ⟨fun other another => ?_, fun other subscriber hholds => ?_, fun another hnone => ?_,
    fun another other hnamed => ?_⟩
  · rw [h.backed.holds_move_iff, hof, h.held]
    by_cases hself : another = ref
    · subst hself
      simp only [if_true, Option.some.injEq, true_and, ne_eq, not_true, false_and, or_false]
      constructor
      · rintro rfl
        exact ⟨hcontains, huse, rfl⟩
      · exact fun hnamed => hnamed.2.2.symm
    · simp [hself]
  · rcases h.backed.holds_move_iff.1 hholds with ⟨-, rfl⟩ | ⟨-, hold⟩
    · exact ⟨kind, hkind, hpackage⟩
    · exact h.present other subscriber hold
  · rw [hof, if_neg, h.absent another hnone]
    rintro rfl
    rw [hnone] at huse
    cases huse
  · rw [hof] at hnamed
    split at hnamed
    · obtain rfl := Option.some.inj hnamed
      obtain ⟨found, hfound⟩ := Option.isSome_iff_exists.1 hcontains
      exact Outline.lt_size_of_node? hfound
    · exact h.issued another other hnamed

/-- Listeners come to nodes that take subscribers. -/
theorem Enrolled.add_listener (h : Enrolled outline standings subscriptions) (number : Nat)
    {kind : Kind} (hkind : outline.kind? node = some kind) (hpackage : kind ≠ .package) :
    Enrolled outline standings (subscriptions.add node (.listener number)) := by
  refine ⟨fun other ref => ?_, fun other subscriber hholds => ?_, h.absent, h.issued⟩
  · rw [Subscriptions.holds_add_iff, h.held]
    simp
  · rcases Subscriptions.holds_add_iff.1 hholds with hold | ⟨rfl, -⟩
    · exact h.present other subscriber hold
    · exact ⟨kind, hkind, hpackage⟩

/-- Listeners go. -/
theorem Enrolled.drop_listener (h : Enrolled outline standings subscriptions) (node : NodeId)
    (number : Nat) : Enrolled outline standings (subscriptions.drop node (.listener number)) := by
  refine ⟨fun other ref => ?_, fun other subscriber hholds => ?_, h.absent, h.issued⟩
  · rw [Subscriptions.holds_drop_iff, h.held]
    simp
  · exact h.present other subscriber (Subscriptions.holds_drop_iff.1 hholds).1

/-! ## Resolution -/

/-- Requests keep both sides in agreement, in either mode. -/
theorem enrolled_invariant (outline : Outline) (mode : Mode) :
    Pass.Invariant outline mode
      (fun pass => Enrolled outline pass.standings pass.subscriptions) (fun _ _ => True) where
  start h huse _ := h.set huse rfl
  settled _ _ := trivial
  asked _ _ _ _ _ := trivial
  giveUp h huse _ := h.set huse rfl
  commit {pass ref hit} h _ huse _ := by
    have hset : Enrolled outline (pass.standings.insert ref ((pass.standing ref).complete
        (outline.outcome hit).1 (outline.outcome hit).2.1)) pass.subscriptions := h.set huse rfl
    rcases outline.commit_cases mode ref hit pass with
      ⟨hstandings, hsubscriptions⟩ | ⟨node, kind, hkind, hpackage, hstandings, hsubscriptions⟩
    · rw [hstandings, hsubscriptions]
      exact hset
    · rw [hstandings, hsubscriptions]
      exact hset.move huse hkind hpackage

namespace Index

variable {index after : Index} {id : NodeId}

/-- The references of an index are registered where they say. -/
def Agrees (index : Index) : Prop :=
  Enrolled index.outline index.standings index.subscriptions

/-! ## Release and removal -/

/-- A reference that is released leaves the node that it names. -/
theorem holds_release_iff (h : Backed index.standings index.subscriptions) :
    (index.release ref).subscriptions.holds node subscriber = true ↔
      index.subscriptions.holds node subscriber = true ∧ subscriber ≠ .reference ref := by
  show (index.subscriptions.dropFrom? _ _).holds node subscriber = true ↔ _
  rw [Subscriptions.holds_drop_from?_iff]
  refine and_congr_right (fun hholds => ?_)
  constructor
  · rintro hnot rfl
    exact hnot ⟨h node ref hholds, rfl⟩
  · rintro hne ⟨-, heq⟩
    exact hne heq

theorem backed_release (h : Backed index.standings index.subscriptions) (ref : RefId) :
    Backed (index.release ref).standings (index.release ref).subscriptions := by
  intro node other hholds
  obtain ⟨hold, hne⟩ := (holds_release_iff h).1 hholds
  have hother : other ≠ ref := fun heq => hne (heq ▸ rfl)
  have hkept : (index.release ref).standing other = index.standing other := by
    rw [standing_release, if_neg hother]
  exact (congrArg Standing.subscription hkept).trans (h node other hold)

/-- Releasing references takes away their registrations and no other. -/
theorem holds_foldl_release (h : Backed index.standings index.subscriptions) (refs : List RefId) :
    Backed (refs.foldl release index).standings (refs.foldl release index).subscriptions ∧
      ∀ node subscriber, (refs.foldl release index).subscriptions.holds node subscriber = true ↔
        index.subscriptions.holds node subscriber = true ∧
          ∀ ref ∈ refs, subscriber ≠ .reference ref := by
  induction refs generalizing index with
  | nil => exact ⟨h, by simp⟩
  | cons ref rest ih =>
      obtain ⟨hbacked, hholds⟩ := ih (backed_release h ref)
      refine ⟨hbacked, fun node subscriber => ?_⟩
      rw [List.foldl_cons, hholds, holds_release_iff h]
      simp [and_assoc]

theorem holds_foldl_release_all (h : Backed index.standings index.subscriptions)
    (nodes : List NodeId) (node : NodeId) (subscriber : Subscriber) :
    (nodes.foldl releaseAll index).subscriptions.holds node subscriber = true ↔
      index.subscriptions.holds node subscriber = true ∧
        ∀ ref ∈ nodes.flatMap index.outline.refsOf, subscriber ≠ .reference ref := by
  have hflat : nodes.foldl releaseAll index =
      (nodes.flatMap index.outline.refsOf).foldl release index := by
    clear h
    induction nodes generalizing index with
    | nil => rfl
    | cons first rest ih =>
        rw [List.foldl_cons, ih, List.flatMap_cons, List.foldl_append]
        simp only [releaseAll, (foldl_release index _).1]
  rw [hflat, (holds_foldl_release h _).2]

/-- Dismissing nodes takes away the registrations on them and no other. -/
theorem holds_foldl_dismiss (nodes : List NodeId) (node : NodeId) (subscriber : Subscriber) :
    (nodes.foldl dismiss index).subscriptions.holds node subscriber = true ↔
      index.subscriptions.holds node subscriber = true ∧ node ∉ nodes := by
  induction nodes generalizing index with
  | nil => simp
  | cons first rest ih =>
      rw [List.foldl_cons, ih]
      show (index.subscriptions.clear first).holds node subscriber = true ∧ _ ↔ _
      rw [Subscriptions.holds_clear_iff, List.mem_cons, not_or, and_assoc]

theorem Agrees.release (h : index.Agrees) (ref : RefId) : (index.release ref).Agrees := by
  have hof : ∀ other, Standings.of (index.release ref).standings other =
      if other = ref then {} else Standings.of index.standings other :=
    fun other => standing_release index ref other
  refine ⟨fun node other => ?_, fun node subscriber hholds => ?_, fun other hnone => ?_,
    fun other node hnamed => ?_⟩
  · rw [holds_release_iff h.backed, hof]
    by_cases hself : other = ref
    · simp [hself]
    · rw [if_neg hself]
      simpa [hself] using h.held node other
  · exact h.present node subscriber ((holds_release_iff h.backed).1 hholds).1
  · rw [hof]
    split
    · rfl
    · exact h.absent other hnone
  · rw [hof] at hnamed
    split at hnamed
    · cases hnamed
    · exact h.issued other node hnamed

/-- Who is registered after a removal: nobody on what has left, and nothing that has left. -/
theorem holds_remove_iff {leaving : List NodeId} (hwell : index.outline.WellFormed)
    (h : index.Agrees) (hremove : index.remove id = .ok (leaving, after)) :
    after.subscriptions.holds node subscriber = true ↔
      index.subscriptions.holds node subscriber = true ∧ ¬ index.outline.Below node id ∧
        ∀ ref, subscriber = .reference ref → ¬ index.outline.Below ref.owner id := by
  obtain ⟨parent, -, hleaving, rfl⟩ := remove_eq hwell hremove
  have hbacked : Backed (leaving.foldl dismiss index).standings
      (leaving.foldl dismiss index).subscriptions := by
    intro node ref hholds
    have hstanding := (foldl_dismiss index leaving).2 ref
    exact (congrArg Standing.subscription hstanding).trans
      (h.backed node ref ((holds_foldl_dismiss leaving node _).1 hholds).1)
  show (leaving.foldl releaseAll _).subscriptions.holds node subscriber = true ↔ _
  rw [holds_foldl_release_all hbacked, holds_foldl_dismiss, hleaving, (foldl_dismiss _ _).1, and_assoc]
  refine and_congr_right (fun hholds => and_congr_right (fun _ => ?_))
  simp only [List.mem_flatMap, hleaving, mem_refs_of_iff]
  constructor
  · rintro hnot ref rfl hbelow
    exact hnot ref ⟨ref.owner, hbelow, rfl, ((h.held node ref).1 hholds).2.1⟩ rfl
  · rintro hnot ref ⟨owner, hbelow, rfl, -⟩ heq
    exact hnot ref heq hbelow

theorem Agrees.remove {leaving : List NodeId} (hwell : index.outline.WellFormed) (h : index.Agrees)
    (hremove : index.remove id = .ok (leaving, after)) : after.Agrees := by
  have hremoved := removed_of_remove hwell hremove
  have hholds : ∀ node subscriber, after.subscriptions.holds node subscriber = true ↔ _ :=
    fun node subscriber => holds_remove_iff hwell h hremove
  refine ⟨fun node ref => ?_, fun node subscriber hheld => ?_, fun ref hnone => ?_,
    fun ref node hnamed => ?_⟩
  · rw [hholds, hremoved.is_some_use?_iff]
    constructor
    · rintro ⟨hheld, hbelow, href⟩
      obtain ⟨-, huse, hnamed⟩ := (h.held node ref).1 hheld
      obtain ⟨kind, hkind, hpackage⟩ := h.present node _ hheld
      refine ⟨Outline.contains_of_kind? (hremoved.kind? hkind hbelow hpackage),
        ⟨huse, href ref rfl⟩, ?_⟩
      exact (congrArg Standing.subscription (hremoved.kept (href ref rfl))).trans hnamed
    · rintro ⟨hcontains, ⟨huse, hbelow⟩, hnamed⟩
      obtain ⟨left, hleft⟩ := Option.isSome_iff_exists.1 hcontains
      obtain ⟨old, hold, hnode, -⟩ := hremoved.trimmed.survivor hleft
      have hkept := congrArg Standing.subscription (hremoved.kept hbelow)
      refine ⟨(h.held node ref).2 ⟨hremoved.within.contains hcontains, huse,
        hkept.symm.trans hnamed⟩, hnode, ?_⟩
      rintro _ ⟨⟩
      exact hbelow
  · obtain ⟨hold, hbelow, -⟩ := (hholds node subscriber).1 hheld
    obtain ⟨kind, hkind, hpackage⟩ := h.present node subscriber hold
    exact ⟨kind, hremoved.kind? hkind hbelow hpackage, hpackage⟩
  · rcases huse : index.outline.use? ref with _ | use
    · rcases hremoved.standing ref with hblank | hsame
      · exact hblank
      · exact hsame.trans (h.absent ref huse)
    · -- A reference that existed and does not any more lay below the node removed.
      have hbelow : index.outline.Below ref.owner id := by
        by_contra hbelow
        have hleft := hremoved.is_some_use?_iff.2 ⟨by rw [huse]; rfl, hbelow⟩
        rw [hnone] at hleft
        cases hleft
      exact hremoved.released hbelow (by rw [huse]; rfl)
  · rw [hremoved.trimmed.size]
    rcases hremoved.standing ref with hblank | hsame
    · rw [show Standings.of after.standings ref = {} from hblank] at hnamed
      cases hnamed
    · exact h.issued ref node ((congrArg Standing.subscription hsame).symm.trans hnamed)

/-! ## Insertion -/

/-- A new node is nobody's subscription, and its references hold none. -/
theorem Agrees.attach (h : index.Agrees) (new : index.Attachment) : new.result.Agrees := by
  refine ⟨fun node ref => ?_, fun node subscriber hheld => ?_, fun ref hnone => ?_,
    fun ref node hnamed => ?_⟩
  · constructor
    · intro hheld
      obtain ⟨hcontains, huse, hnamed⟩ := (h.held node ref).1 hheld
      obtain ⟨use, huse⟩ := Option.isSome_iff_exists.1 huse
      exact ⟨new.within.contains hcontains, by rw [new.outline_result, new.within.use? huse]; rfl,
        hnamed⟩
    · rintro ⟨hcontains, -, hnamed⟩
      refine (h.held node ref).2 ⟨?_, ?_, hnamed⟩
      · obtain ⟨found, hfound⟩ := Option.isSome_iff_exists.1 hcontains
        have hlt : node < index.outline.places.size := h.issued ref node hnamed
        rcases new.cases hfound with ⟨rfl, -⟩ | ⟨old, hold, -⟩
        · exact absurd hlt (Nat.lt_irrefl _)
        · exact Outline.contains_of_node? hold
      · rcases huse : index.outline.use? ref with _ | use
        · have hblank : Standings.of new.result.standings ref = {} := h.absent ref huse
          rw [hblank] at hnamed
          cases hnamed
        · rfl
  · obtain ⟨kind, hkind, hpackage⟩ := h.present node subscriber hheld
    exact ⟨kind, new.within.kind? hkind, hpackage⟩
  · refine h.absent ref ?_
    rcases huse : index.outline.use? ref with _ | use
    · rfl
    · rw [new.outline_result, new.within.use? huse] at hnone
      cases hnone
  · have hlt : node < index.outline.places.size := h.issued ref node hnamed
    rw [new.outline_result, new.size_outline]
    exact Nat.lt_succ_of_lt hlt

theorem Agrees.grows {Admits : NodeId → Content → Prop} (h : index.Agrees)
    (hgrows : Grows Admits index after) : after.Agrees :=
  hgrows.preserves (motive := Agrees) (fun _ new _ hmiddle => hmiddle.attach new) h

/-! ## Histories -/

/-- References subscribe through `subscribeReference` and resolution only; nobody else's
registrations are cleared. -/
def Operation.isOrderly : Operation → Bool
  | .clear _ => false
  | .subscribe _ (.reference _) => false
  | .subscribeRoot (.reference _) => false
  | .unsubscribe _ (.reference _) => false
  | _ => true

/-- Both sides still agree after every effect of an orderly operation. -/
theorem Agrees.effect {operation : Operation} (h : index.Agrees) (hwell : index.outline.WellFormed)
    (horderly : operation.isOrderly = true) (heffect : Effect index operation after) :
    after.Agrees := by
  cases heffect with
  | idle | removeFails | removesNoFile | newListener | takeNotifications => exact h
  | insert hinsert => exact h.grows (grows_insertion hinsert index)
  | remove hremove | removeFile _ hremove => exact h.remove hwell hremove
  | @subscribe node subscriber kind hkind hpackage =>
      cases subscriber with
      | reference ref => cases horderly
      | listener number => exact h.add_listener number hkind hpackage
  | @subscribeRoot subscriber =>
      cases subscriber with
      | reference ref => cases horderly
      | listener number => exact h.add_listener number hwell.kind?_root (by decide)
  | subscribeReference huse hkind hpackage => exact h.move huse hkind hpackage
  | @unsubscribe node subscriber =>
      cases subscriber with
      | reference ref => cases horderly
      | listener number => exact h.drop_listener node number
  | clear => cases horderly
  | @invalidate ref => exact h.release ref
  | attempt _ _ huse hkept => exact h.set huse hkept
  | @resolve mode ref anchor => exact (enrolled_invariant index.outline mode).resolve ref anchor h
  | @resolveUnder mode node => exact (enrolled_invariant index.outline mode).resolve_methods _ h

theorem agrees_foldl_run (history : List Operation)
    (horderly : ∀ operation ∈ history, operation.isOrderly = true)
    (hwell : index.outline.WellFormed) (h : index.Agrees) :
    (history.foldl Operation.run index).Agrees := by
  induction history generalizing index with
  | nil => exact h
  | cons operation rest ih =>
      exact ih (fun other hother => horderly other (List.mem_cons_of_mem _ hother))
        (well_formed_run hwell operation)
        (h.effect hwell (horderly operation (List.mem_cons_self ..)) (effect_run index operation))

/-- After any history in which references subscribe through `subscribeReference` and resolution
only, a reference is registered on a node exactly when both exist and the reference names the
node. So registrations stand on nodes that are present and are not packages, a reference is
registered on one node at most, and a removal leaves no registration of what has left. -/
theorem registrations_agree (history : List Operation)
    (horderly : ∀ operation ∈ history, operation.isOrderly = true) :
    let index := afterHistory history
    (∀ node ref, index.subscriptions.holds node (.reference ref) = true ↔
      index.outline.contains node = true ∧ (index.outline.use? ref).isSome = true ∧
        (index.standing ref).subscription = some node) ∧
    (∀ node subscriber, index.subscriptions.holds node subscriber = true →
      ∃ kind, index.outline.kind? node = some kind ∧ kind ≠ .package) ∧
    (∀ node other ref, index.subscriptions.holds node (.reference ref) = true →
      index.subscriptions.holds other (.reference ref) = true → node = other) ∧
    (∀ id leaving after, index.remove id = .ok (leaving, after) →
      ∀ ref, ref.owner ∈ leaving → ∀ node,
        after.subscriptions.holds node (.reference ref) = false) := by
  intro index
  have hwell : index.outline.WellFormed := well_formed_foldl_run Outline.well_formed_empty history
  have h : index.Agrees :=
    agrees_foldl_run history horderly Outline.well_formed_empty enrolled_empty
  refine ⟨h.held, h.present, fun node other ref hnode hother => ?_,
    fun id leaving after hremove ref howner node => ?_⟩
  · exact Option.some.inj ((h.backed node ref hnode).symm.trans (h.backed other ref hother))
  · obtain ⟨-, -, hleaving, -⟩ := remove_eq hwell hremove
    rw [← Bool.not_eq_true, holds_remove_iff hwell h hremove]
    rintro ⟨-, -, hkept⟩
    exact hkept ref rfl ((hleaving ref.owner).1 howner)

/-- A method that returns a class of another file is resolved while a listener is on the root. -/
def watchedHistory : List Operation :=
  [.insertFile
    { path := ⟨"p/A.java"⟩
      package := "p"
      classes := [{ name := "A", methods := [{ name := "m", returnType := .text "B" }] }] },
   .insertFile { path := ⟨"p/B.java"⟩, package := "p", classes := [{ name := "B" }] },
   .newListener,
   .subscribeRoot (.listener 0),
   .resolve .live (.returnType 4) none]

/-- The method is registered on the other file, until its own file is removed. -/
theorem registrations_agree_watched :
    (∀ operation ∈ watchedHistory, operation.isOrderly = true) ∧
    (afterHistory watchedHistory).subscriptions.holds 5 (.reference (.returnType 4)) = true ∧
    ∃ leaving after, (afterHistory watchedHistory).remove 2 = .ok (leaving, after) ∧
      after.subscriptions.holds 5 (.reference (.returnType 4)) = false := by
  have horderly : ∀ operation ∈ watchedHistory, operation.isOrderly = true := by decide
  obtain ⟨hheld, -, -, hgone⟩ := registrations_agree watchedHistory horderly
  refine ⟨horderly, (hheld _ _).2 (by decide +kernel), ?_⟩
  have hleaving : ((afterHistory watchedHistory).remove 2).toOption.map Prod.fst = some [2, 3, 4] := by
    decide +kernel
  rcases hremove : (afterHistory watchedHistory).remove 2 with error | ⟨leaving, after⟩
  · rw [hremove] at hleaving
    cases hleaving
  · rw [hremove] at hleaving
    obtain rfl : leaving = [2, 3, 4] := by simpa [Except.toOption] using hleaving
    exact ⟨_, after, rfl, hgone 2 _ after hremove (.returnType 4) (by decide) 5⟩

end Index

end CanonicalNames
