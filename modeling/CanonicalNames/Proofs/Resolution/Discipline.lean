import Mathlib.Logic.Function.Iterate
import CanonicalNames.Proofs.Resolution.Query

/-!
# Termination and state discipline of resolution

Requests for references lead to further requests, and bounds and supertypes may lead back
to where they came from. Two facts keep this in order. A request changes only references on
which an attempt may begin, and leaves each of them settled (`Pass.Advances`). So the number
of references on which an attempt may begin, `Pass.room`, never grows, and it shrinks while
a reference is in progress. Calls inside calls therefore go no deeper than there are
references: `resolve_eq_iterate` says that whatever would answer below that depth is never
asked, and `resolve_eq_attempt` that `Outline.resolve` is a resolver that calls itself.
-/

namespace CanonicalNames

/-- An attempt on the reference has ended, with a canonical name or without one. -/
def Standing.IsSettled (standing : Standing) : Prop :=
  standing.isResolved = true ∨ standing.status = .failed

/-- The references that changed were open to an attempt before and are settled now. -/
def Pass.Advances (before after : Pass) : Prop :=
  ∀ ref, after.standing ref = before.standing ref ∨
    (before.standing ref).mayBegin true = true ∧ (after.standing ref).IsSettled

/-- The number of references on which an attempt may begin. -/
def Pass.room (outline : Outline) (pass : Pass) : Nat :=
  outline.refs.countP (fun ref => (pass.standing ref).mayBegin true)

/-- `outline.Accepts ref start use` says that a request to resolve `ref` from `start` is well
formed: the reference and the start exist, and the use has a name. -/
structure Outline.Accepts (outline : Outline) (ref : RefId) (start : Option NodeId)
    (use : TypeUse) : Prop where
  use_eq : outline.use? ref = some use
  start_present : ∀ anchor, start = some anchor → outline.contains anchor = true
  name_ne : use.name ≠ ""

namespace Standing

/-- An attempt that may begin may begin where failed references are tried again. -/
theorem may_begin_true {standing : Standing} {retryFailed : Bool}
    (h : standing.mayBegin retryFailed = true) : standing.mayBegin true = true := by
  unfold mayBegin at h ⊢
  cases hstatus : standing.status <;> simp_all

/-- No attempt begins on a reference in progress. -/
@[simp] theorem may_begin_start (standing : Standing) (retryFailed : Bool) :
    standing.start.mayBegin retryFailed = false := rfl

/-- An attempt begins on a reference exactly when it is neither resolved nor in progress. -/
theorem may_begin_true_iff {standing : Standing} :
    standing.mayBegin true = true ↔
      standing.isResolved = false ∧ standing.status ≠ .inProgress := by
  unfold mayBegin isResolved canonical?
  cases standing.status <;> simp

/-- A settled reference is neither unresolved nor in progress. -/
theorem IsSettled.status_ne {standing : Standing} (h : standing.IsSettled) :
    standing.status ≠ .unresolved ∧ standing.status ≠ .inProgress := by
  unfold IsSettled isResolved canonical? at h
  cases hstatus : standing.status <;> simp_all

end Standing

namespace Pass

/-- Nothing has changed. -/
theorem Advances.refl (pass : Pass) : Advances pass pass := fun _ => Or.inl rfl

/-- Changes follow one another. -/
theorem Advances.trans {first second third : Pass} (h : Advances first second)
    (k : Advances second third) : Advances first third := by
  intro ref
  rcases h ref with h | ⟨hopen, hsettled⟩
  · rcases k ref with k | ⟨kopen, ksettled⟩
    · exact Or.inl (k.trans h)
    · exact Or.inr ⟨h ▸ kopen, ksettled⟩
  · rcases k ref with k | ⟨_, ksettled⟩
    · exact Or.inr ⟨hopen, k ▸ hsettled⟩
    · exact Or.inr ⟨hopen, ksettled⟩

/-- A reference on which no attempt may begin keeps its standing. -/
theorem Advances.eq_of_not_open {before after : Pass} (h : Advances before after) {ref : RefId}
    (hopen : (before.standing ref).mayBegin true = false) :
    after.standing ref = before.standing ref := by
  rcases h ref with h | ⟨hopen', _⟩
  · exact h
  · rw [hopen] at hopen'
    cases hopen'

/-- Attempts take up room and give none. -/
theorem Advances.room_le {outline : Outline} {before after : Pass} (h : Advances before after) :
    after.room outline ≤ before.room outline := by
  apply List.countP_mono_left
  intro ref _ hopen
  rcases h ref with h | ⟨hopen', _⟩
  · rwa [h] at hopen
  · exact hopen'

variable (pass : Pass) {ref other : RefId}

/-- Giving up settles the reference as failed. -/
theorem standing_give_up_self : (pass.giveUp ref).standing ref = (pass.standing ref).fail := by
  simp only [giveUp]
  exact standing_set_standing_self ..

/-- Giving up leaves other references. -/
theorem standing_give_up_of_ne (h : ref ≠ other) :
    (pass.giveUp ref).standing other = pass.standing other := by
  simp only [giveUp]
  exact standing_set_standing_of_ne _ _ h

end Pass

namespace Standings

variable (standings : Standings)

theorem of_insert (ref other : RefId) (standing : Standing) :
    Standings.of (standings.insert ref standing) other =
      if other = ref then standing else Standings.of standings other := by
  unfold Standings.of
  by_cases h : other = ref
  · rw [if_pos h, h, Table.find?_insert_of_beq _ _ (beq_self_eq_true ref), Option.getD_some]
  · have hne : (ref == other) = false := by simpa using Ne.symm h
    rw [if_neg h, Table.find?_insert_of_not_beq _ _ hne]

/-- A reference that moves keeps its status, and other references keep their standing. -/
theorem of_move (subscriptions : Subscriptions) (ref : RefId) (node : NodeId) (other : RefId) :
    Standings.of (moveSubscription standings subscriptions ref node).1 other =
      if other = ref then { Standings.of standings ref with subscription := some node }
      else Standings.of standings other :=
  of_insert ..

end Standings

namespace Outline

variable {outline : Outline} {mode : Mode} {ref other : RefId} {start : Option NodeId}
  {use : TypeUse}

/-- Every existing reference is listed. -/
theorem mem_refs_of_use? (h : outline.use? ref = some use) : ref ∈ outline.refs := by
  obtain ⟨owner, slot⟩ := ref
  simp only [use?, Option.bind_eq_some_iff] at h
  obtain ⟨element, helement, hslot⟩ := h
  have hnode := helement
  simp only [element?, Option.bind_eq_some_iff] at hnode
  obtain ⟨node, hnode, _⟩ := hnode
  simp only [refs, List.mem_flatMap, List.mem_range]
  refine ⟨owner, lt_size_of_node? hnode, ?_⟩
  simp only [refsOf, helement, List.mem_map]
  exact ⟨slot, Element.mem_slots_iff.2 (by simp [hslot]), rfl⟩

/-! ## What settling a hit does -/

/-- Counters apart, settling a hit sets the standing of the reference, and then it may move its
subscription to a node that takes subscribers. -/
theorem commit_cases (outline : Outline) (mode : Mode) (ref : RefId) (hit : Hit) (pass : Pass) :
    let after := (outline.commit mode ref hit pass).2
    let settled := pass.standings.insert ref
      ((pass.standing ref).complete (outline.outcome hit).1 (outline.outcome hit).2.1)
    (after.standings = settled ∧ after.subscriptions = pass.subscriptions) ∨
      ∃ node kind, outline.kind? node = some kind ∧ kind ≠ .package ∧
        after.standings = (moveSubscription settled pass.subscriptions ref node).1 ∧
        after.subscriptions = (moveSubscription settled pass.subscriptions ref node).2 := by
  have hcount : ∀ origin : Origin,
      (if origin = .dependency then { pass with health := pass.health.countDependency }
        else pass).standings = pass.standings ∧
      (if origin = .dependency then { pass with health := pass.health.countDependency }
        else pass).subscriptions = pass.subscriptions := by
    intro origin
    split <;> exact ⟨rfl, rfl⟩
  simp only [commit, Pass.standing, Pass.setStanding]
  split
  · next node _ =>
      simp only [Pass.watch, (hcount _).1, (hcount _).2]
      split
      · next hcheck =>
          obtain ⟨kind, hkind, hpackage⟩ := check_subscribable_ok hcheck
          exact Or.inr ⟨node, kind, hkind, hpackage, rfl, rfl⟩
      · exact Or.inl ⟨rfl, rfl⟩
  · exact Or.inl ⟨by rw [(hcount _).1], (hcount _).2⟩

/-- The answer on a hit is its canonical name. -/
@[simp] theorem commit_fst (hit : Hit) (pass : Pass) :
    (outline.commit mode ref hit pass).1 = .resolved (outline.outcome hit).1 := rfl

/-- A hit resolves the reference to the canonical name and origin of the hit. -/
theorem status_commit_self (hit : Hit) (pass : Pass) :
    ((outline.commit mode ref hit pass).2.standing ref).status =
      .resolved (outline.outcome hit).1 (outline.outcome hit).2.1 := by
  unfold Pass.standing
  rcases outline.commit_cases mode ref hit pass with ⟨h, -⟩ | ⟨node, kind, -, -, h, -⟩
  · rw [h, Standings.of_insert, if_pos rfl]
    rfl
  · rw [h, Standings.of_move, if_pos rfl, Standings.of_insert, if_pos rfl]
    rfl

/-- A hit leaves other references. -/
theorem standing_commit_of_ne (hit : Hit) (pass : Pass) (h : ref ≠ other) :
    (outline.commit mode ref hit pass).2.standing other = pass.standing other := by
  unfold Pass.standing
  rcases outline.commit_cases mode ref hit pass with ⟨hset, -⟩ | ⟨node, kind, -, -, hmoved, -⟩
  · rw [hset, Standings.of_insert, if_neg h.symm]
  · rw [hmoved, Standings.of_move, if_neg h.symm, Standings.of_insert, if_neg h.symm]

/-- Settles a reference on what a search has found. -/
def conclude (outline : Outline) (mode : Mode) (ref : RefId) : Option Hit × Pass → Resolution × Pass
  | (some hit, pass) => outline.commit mode ref hit pass
  | (none, pass) => (.unresolved, pass.giveUp ref)

/-- The reference is settled when a search is over. -/
theorem settled_conclude (found : Option Hit × Pass) :
    ((outline.conclude mode ref found).2.standing ref).IsSettled := by
  obtain ⟨hit, pass⟩ := found
  cases hit with
  | some hit => left; simp [conclude, Standing.isResolved, Standing.canonical?, status_commit_self]
  | none => right; simp [conclude, Pass.standing_give_up_self, Standing.fail]

/-- Settling a reference leaves other references. -/
theorem standing_conclude_of_ne (found : Option Hit × Pass) (h : ref ≠ other) :
    (outline.conclude mode ref found).2.standing other = found.2.standing other := by
  obtain ⟨hit, pass⟩ := found
  cases hit with
  | some hit => exact standing_commit_of_ne hit pass h
  | none => exact Pass.standing_give_up_of_ne pass h

/-! ## What an attempt can do -/

/-- A malformed request is skipped and changes nothing. -/
theorem attempt_of_not_accepts (resolver : Resolver) (pass : Pass)
    (h : ∀ use, ¬ outline.Accepts ref start use) :
    outline.attempt mode resolver ref start pass = (.skipped, pass) := by
  unfold attempt
  rcases huse : outline.use? ref with _ | use
  · rfl
  · dsimp only
    split
    · rfl
    · next hwell =>
        simp only [Bool.or_eq_true, not_or, Bool.not_eq_true] at hwell
        refine absurd ⟨huse, ?_, ?_⟩ (h use)
        · rintro anchor rfl
          simpa using hwell.1
        · simpa using hwell.2

/-- The guard of `attempt` lets a well-formed request through. -/
private theorem guard_of_accepts (h : outline.Accepts ref start use) :
    (start.any (fun anchor => !outline.contains anchor) || use.name.isEmpty) = false := by
  have hname : use.name.isEmpty = false := by simpa using h.name_ne
  cases start with
  | none => simpa using hname
  | some anchor => simp [h.start_present anchor rfl, hname]

/-- Where no attempt may begin, the answer is what is known. -/
theorem attempt_of_not_may_begin (resolver : Resolver) (pass : Pass)
    (h : outline.Accepts ref start use)
    (hbegin : (pass.standing ref).mayBegin mode.retriesFailed = false) :
    outline.attempt mode resolver ref start pass = ((pass.standing ref).answer, pass) := by
  simp [attempt, h.use_eq, guard_of_accepts h, hbegin]

/-- An attempt searches with the reference in progress and settles what it finds. -/
theorem attempt_of_may_begin (resolver : Resolver) (pass : Pass)
    (h : outline.Accepts ref start use)
    (hbegin : (pass.standing ref).mayBegin mode.retriesFailed = true) :
    outline.attempt mode resolver ref start pass =
      outline.conclude mode ref (Probe.first
        ((Scope.queries outline use.name (start.getD ref.owner)).map (Query.run resolver))
        (pass.setStanding ref (pass.standing ref).start)) := by
  simp only [attempt, h.use_eq, guard_of_accepts h, hbegin, Scope.search_eq_map_run, if_true,
    Bool.false_eq_true, if_false]
  rcases Probe.first _ _ with ⟨hit, after⟩
  cases hit <;> rfl

/-- An attempt leaves everything as it is, or it searches with the reference in progress and
settles what it finds. -/
theorem attempt_cases (resolver : Resolver) (ref : RefId) (start : Option NodeId) (pass : Pass) :
    (outline.attempt mode resolver ref start pass).2 = pass ∨
      ∃ use, outline.Accepts ref start use ∧
        (pass.standing ref).mayBegin mode.retriesFailed = true ∧
        outline.attempt mode resolver ref start pass =
          outline.conclude mode ref (Probe.first
            ((Scope.queries outline use.name (start.getD ref.owner)).map (Query.run resolver))
            (pass.setStanding ref (pass.standing ref).start)) := by
  by_cases haccepts : ∃ use, outline.Accepts ref start use
  · obtain ⟨use, haccepts⟩ := haccepts
    cases hbegin : (pass.standing ref).mayBegin mode.retriesFailed with
    | false => exact Or.inl (by rw [attempt_of_not_may_begin resolver pass haccepts hbegin])
    | true =>
        exact Or.inr ⟨use, haccepts, rfl, attempt_of_may_begin resolver pass haccepts hbegin⟩
  · exact Or.inl (by rw [attempt_of_not_accepts resolver pass (fun use h => haccepts ⟨use, h⟩)])

/-- An attempt advances if the requests that it makes do. -/
theorem attempt_advances {resolver : Resolver}
    (hresolver : ∀ ref start pass, Pass.Advances pass (resolver ref start pass).2)
    (ref : RefId) (start : Option NodeId) (pass : Pass) :
    Pass.Advances pass (outline.attempt mode resolver ref start pass).2 := by
  rcases attempt_cases resolver ref start pass with hsame | ⟨use, -, hbegin, hattempt⟩
  · rw [hsame]
    exact .refl pass
  · rw [hattempt]
    have hsearch := Probe.first_map_run_keeps Pass.Advances.refl Pass.Advances.trans
      (Scope.queries outline use.name (start.getD ref.owner))
      (fun ref start _ _ => hresolver ref start)
      (pass.setStanding ref (pass.standing ref).start)
    intro other
    by_cases hne : ref = other
    · subst hne
      exact Or.inr ⟨Standing.may_begin_true hbegin, settled_conclude _⟩
    · have hother := hsearch other
      rwa [Pass.standing_set_standing_of_ne _ _ hne,
        ← @standing_conclude_of_ne outline mode ref other _ hne] at hother

/-! ## How deep calls go -/

/-- A reference that exists takes up room while it is in progress. -/
theorem room_set_standing_start_lt {pass : Pass} (huse : outline.use? ref = some use)
    (hopen : (pass.standing ref).mayBegin true = true) :
    (pass.setStanding ref (pass.standing ref).start).room outline < pass.room outline := by
  have hmono : ∀ other, ((pass.setStanding ref (pass.standing ref).start).standing other).mayBegin
      true = true → (pass.standing other).mayBegin true = true := by
    intro other h
    by_cases hne : ref = other
    · subst hne
      exact hopen
    · rwa [Pass.standing_set_standing_of_ne _ _ hne] at h
  have hmem := mem_refs_of_use? huse
  unfold Pass.room
  generalize outline.refs = refs at hmem
  induction refs with
  | nil => cases hmem
  | cons first rest ih =>
      have hrest : rest.countP (fun other =>
          ((pass.setStanding ref (pass.standing ref).start).standing other).mayBegin true) ≤
          rest.countP (fun other => (pass.standing other).mayBegin true) :=
        List.countP_mono_left (fun other _ h => hmono other h)
      by_cases hfirst : ref = first
      · subst hfirst
        simp only [List.countP_cons, Pass.standing_set_standing_self, Standing.may_begin_start, hopen]
        simp only [Bool.false_eq_true, if_false, if_true]
        omega
      · have ih := ih ((List.mem_cons.1 hmem).resolve_left hfirst)
        simp only [List.countP_cons, Pass.standing_set_standing_of_ne _ _ hfirst]
        omega

/-- Two resolvers that agree where there is little room give searches that agree there. -/
theorem first_map_run_congr {left right : Resolver} {bound : Nat}
    (hadvances : ∀ ref start pass, Pass.Advances pass (right ref start pass).2)
    (hagree : ∀ ref start pass, pass.room outline < bound →
      left ref start pass = right ref start pass)
    (queries : List Query) (pass : Pass) (hroom : pass.room outline < bound) :
    Probe.first (queries.map (Query.run left)) pass =
      Probe.first (queries.map (Query.run right)) pass := by
  induction queries generalizing pass with
  | nil => rfl
  | cons query rest ih =>
      have hrun : query.run left pass = query.run right pass := by
        cases query with
        | settled hit => rfl
        | asking ref start read => simp only [Query.run, hagree ref start pass hroom]
      have hkeeps := Probe.first_map_run_keeps Pass.Advances.refl Pass.Advances.trans [query]
        (fun ref start _ _ => hadvances ref start) pass
      simp only [List.map_cons, Probe.first, List.map_nil] at hkeeps ⊢
      rw [hrun]
      rcases hright : query.run right pass with ⟨hit, after⟩
      rw [hright] at hkeeps
      cases hit with
      | some hit => rfl
      | none => exact ih after (Nat.lt_of_le_of_lt hkeeps.room_le hroom)

/-- An attempt gives its requests less room than it was given. -/
theorem attempt_congr {left right : Resolver} {bound : Nat}
    (hadvances : ∀ ref start pass, Pass.Advances pass (right ref start pass).2)
    (hagree : ∀ ref start pass, pass.room outline < bound →
      left ref start pass = right ref start pass)
    (ref : RefId) (start : Option NodeId) (pass : Pass) (hroom : pass.room outline < bound + 1) :
    outline.attempt mode left ref start pass = outline.attempt mode right ref start pass := by
  by_cases haccepts : ∃ use, outline.Accepts ref start use
  · obtain ⟨use, haccepts⟩ := haccepts
    cases hbegin : (pass.standing ref).mayBegin mode.retriesFailed with
    | false => simp only [attempt_of_not_may_begin _ pass haccepts hbegin]
    | true =>
        have hlt := room_set_standing_start_lt haccepts.use_eq (Standing.may_begin_true hbegin)
        rw [attempt_of_may_begin _ pass haccepts hbegin, attempt_of_may_begin _ pass haccepts hbegin,
          first_map_run_congr hadvances hagree _ _ (by omega)]
  · simp only [attempt_of_not_accepts _ pass (fun use h => haccepts ⟨use, h⟩)]

/-- Resolution to a limited depth is a number of attempts inside each other. -/
theorem resolve_within_eq_iterate (depth : Nat) :
    outline.resolveWithin mode depth =
      (outline.attempt mode)^[depth + 1] (fun _ _ pass => (.skipped, pass)) := by
  induction depth with
  | zero => rfl
  | succ depth ih => rw [Function.iterate_succ_apply', ← ih, resolveWithin]

/-- Resolution to a limited depth advances. -/
theorem resolve_within_advances (depth : Nat) (ref : RefId) (start : Option NodeId) (pass : Pass) :
    Pass.Advances pass (outline.resolveWithin mode depth ref start pass).2 := by
  induction depth generalizing ref start pass with
  | zero => exact attempt_advances (fun _ _ pass => .refl pass) ref start pass
  | succ depth ih => exact attempt_advances ih ref start pass

/-- Resolution advances. -/
theorem resolve_advances (ref : RefId) (start : Option NodeId) (pass : Pass) :
    Pass.Advances pass (outline.resolve mode ref start pass).2 :=
  resolve_within_advances _ ref start pass

/-- What answers below the depth of the room that is left is never asked. -/
theorem iterate_attempt_eq_resolve_within (fallback : Resolver) (depth : Nat) (ref : RefId)
    (start : Option NodeId) (pass : Pass) (hroom : pass.room outline < depth + 1) :
    (outline.attempt mode)^[depth + 1] fallback ref start pass =
      outline.resolveWithin mode depth ref start pass := by
  induction depth generalizing ref start pass with
  | zero =>
      exact attempt_congr (fun _ _ pass => .refl pass)
        (fun _ _ pass h => absurd h (Nat.not_lt_zero _)) ref start pass hroom
  | succ depth ih =>
      rw [Function.iterate_succ_apply', resolveWithin]
      exact attempt_congr (resolve_within_advances depth) ih ref start pass hroom

/-- Calls go no deeper than there are references: whatever answers below that depth, the
result is that of `Outline.resolve`. -/
theorem resolve_eq_iterate (fallback : Resolver) {depth : Nat} (hdepth : outline.refs.length < depth)
    (ref : RefId) (start : Option NodeId) (pass : Pass) :
    (outline.attempt mode)^[depth] fallback ref start pass =
      outline.resolve mode ref start pass := by
  obtain ⟨extra, rfl⟩ := Nat.exists_eq_add_of_le hdepth
  rw [Nat.succ_eq_add_one, Function.iterate_add_apply]
  exact iterate_attempt_eq_resolve_within _ _ ref start pass
    (Nat.lt_succ_of_le List.countP_le_length)

/-- Resolution calls itself for bounds and supertypes. -/
theorem resolve_eq_attempt :
    outline.resolve mode = outline.attempt mode (outline.resolve mode) := by
  funext ref start pass
  have h := @resolve_eq_iterate outline mode (fun _ _ pass => (.skipped, pass)) _
    (Nat.lt_succ_of_lt (Nat.lt_succ_self outline.refs.length)) ref start pass
  rw [Function.iterate_succ_apply', ← resolve_within_eq_iterate] at h
  exact h.symm

/-! ## What a request answers and leaves behind -/

/-- A malformed request is skipped and changes nothing. -/
theorem resolve_of_not_accepts (pass : Pass) (h : ∀ use, ¬ outline.Accepts ref start use) :
    outline.resolve mode ref start pass = (.skipped, pass) := by
  rw [resolve_eq_attempt]
  exact attempt_of_not_accepts _ pass h

/-- A well-formed request answers with what is known of the reference afterwards. -/
theorem resolve_fst_eq_answer (pass : Pass) (h : outline.Accepts ref start use) :
    (outline.resolve mode ref start pass).1 =
      ((outline.resolve mode ref start pass).2.standing ref).answer := by
  rw [resolve_eq_attempt]
  cases hbegin : (pass.standing ref).mayBegin mode.retriesFailed with
  | false => rw [attempt_of_not_may_begin _ pass h hbegin]
  | true =>
      rw [attempt_of_may_begin _ pass h hbegin]
      rcases Probe.first _ _ with ⟨hit, after⟩
      cases hit with
      | some hit => simp [conclude, Standing.answer, status_commit_self]
      | none => simp [conclude, Standing.answer, Pass.standing_give_up_self, Standing.fail]

/-- After a well-formed request the reference is not unresolved. -/
theorem status_resolve_ne_unresolved (pass : Pass) (h : outline.Accepts ref start use) :
    ((outline.resolve mode ref start pass).2.standing ref).status ≠ .unresolved := by
  rw [resolve_eq_attempt]
  cases hbegin : (pass.standing ref).mayBegin mode.retriesFailed with
  | false =>
      rw [attempt_of_not_may_begin _ pass h hbegin]
      intro hstatus
      simp [Standing.mayBegin, hstatus] at hbegin
  | true =>
      rw [attempt_of_may_begin _ pass h hbegin]
      exact (settled_conclude _).status_ne.1

/-- A reference is in progress after a request exactly when it was before. -/
theorem status_resolve_eq_in_progress_iff (pass : Pass) :
    ((outline.resolve mode ref start pass).2.standing other).status = .inProgress ↔
      (pass.standing other).status = .inProgress := by
  rcases @resolve_advances outline mode ref start pass other with h | ⟨hopen, hsettled⟩
  · rw [h]
  · rw [Standing.may_begin_true_iff] at hopen
    exact ⟨fun hstatus => absurd hstatus hsettled.status_ne.2,
      fun hstatus => absurd hstatus hopen.2⟩

/-- A request leaves a reference that no request within reach of it can begin on. What is within
reach is a property of requests that every request passes on to those it makes. -/
theorem standing_resolve_of_closed {Within : RefId → Option NodeId → Prop}
    (hclosed : ∀ {ref start use asked anchor read}, Within ref start →
      outline.Accepts ref start use →
      Query.asking asked anchor read ∈ Scope.queries outline use.name (start.getD ref.owner) →
      Within asked anchor)
    (hother : ∀ {start use}, Within other start → ¬ outline.Accepts other start use)
    (hwithin : Within ref start) (pass : Pass) :
    (outline.resolve mode ref start pass).2.standing other = pass.standing other := by
  have hattempt : ∀ {resolver : Resolver},
      (∀ {ref start}, Within ref start → ∀ pass,
        (resolver ref start pass).2.standing other = pass.standing other) →
      ∀ {ref start}, Within ref start → ∀ pass,
        (outline.attempt mode resolver ref start pass).2.standing other = pass.standing other := by
    intro resolver hresolver ref start hwithin pass
    rcases attempt_cases resolver ref start pass with hsame | ⟨use, haccepts, -, hattempt⟩
    · rw [hsame]
    · have hne : ref ≠ other := by
        rintro rfl
        exact hother hwithin haccepts
      have hsearch := @Probe.first_map_run_keeps resolver
        (fun before after => after.standing other = before.standing other)
        (fun _ => rfl) (fun hfirst hsecond => hsecond.trans hfirst)
        (Scope.queries outline use.name (start.getD ref.owner))
        (fun asked anchor read hmem => hresolver (hclosed hwithin haccepts hmem))
        (pass.setStanding ref (pass.standing ref).start)
      rw [hattempt, standing_conclude_of_ne _ hne, hsearch,
        Pass.standing_set_standing_of_ne _ _ hne]
  suffices h : ∀ depth {ref start}, Within ref start → ∀ pass,
      (outline.resolveWithin mode depth ref start pass).2.standing other = pass.standing other from
    h _ hwithin pass
  intro depth
  induction depth with
  | zero => exact hattempt (fun _ _ => rfl)
  | succ depth ih => exact hattempt ih

/-- A request about another reference leaves a return type as it is. -/
theorem standing_resolve_return_type {method : NodeId} (hne : ref ≠ .returnType method)
    (pass : Pass) : (outline.resolve mode ref start pass).2.standing (.returnType method) =
      pass.standing (.returnType method) :=
  -- A search asks for bounds and supertypes only.
  @standing_resolve_of_closed outline mode ref (.returnType method) start
    (fun asked _ => asked ≠ .returnType method)
    (fun _ _ hmem heq => Scope.slot_ne_of_asking hmem (congrArg RefId.slot heq))
    (fun hself _ => hself rfl) hne pass

/-- What every request about one of the return types keeps, resolving them in turn keeps:
`Keeps before after` is any relation that is reflexive and transitive. -/
theorem resolve_methods_keeps {Keeps : Pass → Pass → Prop} (hrefl : ∀ pass, Keeps pass pass)
    (htrans : ∀ {first second third}, Keeps first second → Keeps second third → Keeps first third)
    {methods : List NodeId}
    (hmethod : ∀ method ∈ methods, ∀ pass,
      Keeps pass (outline.resolve mode (.returnType method) none pass).2) (pass : Pass) :
    Keeps pass (outline.resolveMethods mode methods pass).2 := by
  induction methods generalizing pass with
  | nil => exact hrefl pass
  | cons method rest ih =>
      exact htrans (hmethod method (List.mem_cons_self ..) pass)
        (ih (fun other hother => hmethod other (List.mem_cons_of_mem _ hother)) _)

/-- Every request ends, whatever the references stand at and however bounds and supertypes
lead into each other. It leaves resolved references and those in progress as they are, and
each other one untouched, resolved or failed. A malformed request is skipped and changes
nothing, and any other is answered with the final state of its reference. -/
theorem resolve_halts_and_settles (outline : Outline) (mode : Mode) (ref : RefId)
    (start : Option NodeId) (pass : Pass) :
    let answer := (outline.resolve mode ref start pass).1
    let after := (outline.resolve mode ref start pass).2
    (∀ fallback depth, outline.refs.length < depth →
      (outline.attempt mode)^[depth] fallback ref start pass = (answer, after)) ∧
    (∀ other, (pass.standing other).isResolved = true ∨ (pass.standing other).status = .inProgress →
      after.standing other = pass.standing other) ∧
    (∀ other, after.standing other = pass.standing other ∨
      (after.standing other).isResolved = true ∨ (after.standing other).status = .failed) ∧
    (answer = .skipped ↔ outline.use? ref = none ∨
      (∃ anchor, start = some anchor ∧ outline.contains anchor = false) ∨
      ∃ use, outline.use? ref = some use ∧ use.name = "") ∧
    (answer = .skipped → after = pass) ∧
    (answer ≠ .skipped →
      (∀ canonical, answer = .resolved canonical ↔
        (after.standing ref).canonical? = some canonical) ∧
      (answer = .unresolved ↔ (after.standing ref).status = .failed) ∧
      (answer = .inProgress ↔ (pass.standing ref).status = .inProgress)) := by
  intro answer after
  have hadvances : Pass.Advances pass after := resolve_advances ref start pass
  refine ⟨fun fallback depth h => resolve_eq_iterate fallback h ref start pass, ?_, ?_, ?_⟩
  · rintro other hkept
    apply hadvances.eq_of_not_open
    rw [← Bool.not_eq_true, Standing.may_begin_true_iff]
    rintro ⟨hresolved, hprogress⟩
    rcases hkept with hkept | hkept
    · rw [hresolved] at hkept
      cases hkept
    · exact hprogress hkept
  · intro other
    rcases hadvances other with h | ⟨_, hsettled⟩
    · exact Or.inl h
    · exact Or.inr hsettled
  · by_cases haccepts : ∃ use, outline.Accepts ref start use
    · obtain ⟨use, haccepts⟩ := haccepts
      have hanswer : answer = (after.standing ref).answer := resolve_fst_eq_answer pass haccepts
      have hstatus : (after.standing ref).status ≠ .unresolved :=
        status_resolve_ne_unresolved pass haccepts
      have hprogress : (after.standing ref).status = .inProgress ↔
          (pass.standing ref).status = .inProgress := status_resolve_eq_in_progress_iff pass
      have hskipped : answer ≠ .skipped := by
        rw [hanswer]
        unfold Standing.answer
        cases (after.standing ref).status <;> simp
      refine ⟨⟨fun h => absurd h hskipped, ?_⟩, fun h => absurd h hskipped, fun _ => ?_⟩
      · rintro (h | ⟨anchor, rfl, h⟩ | ⟨use', huse, hname⟩)
        · rw [haccepts.use_eq] at h
          cases h
        · rw [haccepts.start_present anchor rfl] at h
          cases h
        · rw [haccepts.use_eq, Option.some.injEq] at huse
          exact absurd (huse ▸ hname) haccepts.name_ne
      · rw [← hprogress, hanswer]
        unfold Standing.answer Standing.canonical?
        cases hafter : (after.standing ref).status <;> simp_all
    · have hskip : outline.resolve mode ref start pass = (.skipped, pass) :=
        resolve_of_not_accepts pass (fun use h => haccepts ⟨use, h⟩)
      have hanswer : answer = .skipped := congrArg Prod.fst hskip
      have hafter : after = pass := congrArg Prod.snd hskip
      refine ⟨⟨fun _ => ?_, fun _ => hanswer⟩, fun _ => hafter, fun h => absurd hanswer h⟩
      by_contra hwell
      simp only [not_or, not_exists, not_and] at hwell
      obtain ⟨use, huse⟩ := Option.ne_none_iff_exists'.1 hwell.1
      exact haccepts ⟨use, huse, fun anchor h => by simpa using hwell.2.1 anchor h,
        hwell.2.2 use huse⟩

end Outline

end CanonicalNames
