import CanonicalNames.Proofs.Index.Reachable
import CanonicalNames.Proofs.Resolution.Chain
import CanonicalNames.Proofs.Resolution.Discipline

/-!
# Resolution computes meanings

A pass remembers outcomes and may be interrupted by requests inside requests; a meaning is
a function of the outline alone. `Pass.Fits` says that a pass remembers nothing but
meanings. A request on a fitting pass answers with the meaning of its reference, and it
settles references on nothing but their meanings (`WellFormed.resolve_agrees`): in
progress are only references of greater rank, so that no request comes back to one of
them. What holds of one request holds of any sequence of requests.
-/

namespace CanonicalNames

/-- The status of a reference that was settled on a meaning, or on having none. -/
def Status.ofMeaning : Option Meaning → Status
  | some meaning => .resolved meaning.canonical meaning.origin
  | none => .failed

/-- The answer about a reference that has a meaning, or none. -/
def Resolution.ofMeaning : Option Meaning → Resolution
  | some meaning => .resolved meaning.canonical
  | none => .unresolved

/-- A pass remembers nothing but meanings, and the references that an attempt may begin on
were not settled beforehand. -/
structure Pass.Fits (outline : Outline) (settled : RefId → Option Meaning) (mode : Mode)
    (pass : Pass) : Prop where
  resolved : ∀ {ref canonical origin}, (outline.use? ref).isSome = true →
    (pass.standing ref).status = .resolved canonical origin →
    outline.meaning settled ref = some ⟨canonical, origin⟩
  free : ∀ {ref}, (outline.use? ref).isSome = true → (pass.standing ref).mayBegin true = true →
    settled ref = none
  failed : ∀ {ref}, (outline.use? ref).isSome = true → mode = .batch →
    (pass.standing ref).status = .failed → outline.meaning settled ref = none

/-- There is a type use with a name at an address. -/
def Outline.HasName (outline : Outline) (ref : RefId) : Prop :=
  ∃ use, outline.use? ref = some use ∧ use.name ≠ ""

/-- The references that changed have a name, were open to an attempt before and are settled on
their meanings now. -/
def Pass.Settles (outline : Outline) (settled : RefId → Option Meaning) (before after : Pass) :
    Prop :=
  ∀ ref, after.standing ref = before.standing ref ∨
    outline.HasName ref ∧ (before.standing ref).mayBegin true = true ∧
      (after.standing ref).status = .ofMeaning (outline.meaning settled ref)

/-- Every reference in progress has at least a rank. -/
def Pass.Clear (outline : Outline) (settled : RefId → Option Meaning) (rank : Nat) (pass : Pass) :
    Prop :=
  ∀ ref, (outline.use? ref).isSome = true → (pass.standing ref).status = .inProgress →
    rank ≤ outline.rankOf settled ref

namespace Status

theorem of_meaning_ne_in_progress (meaning : Option Meaning) :
    ofMeaning meaning ≠ .inProgress := by
  cases meaning <;> simp [ofMeaning]

theorem of_meaning_eq_resolved_iff {meaning : Option Meaning} {canonical : String}
    {origin : Origin} :
    ofMeaning meaning = .resolved canonical origin ↔ meaning = some ⟨canonical, origin⟩ := by
  rcases meaning with _ | ⟨name, kind⟩ <;> simp [ofMeaning]

theorem of_meaning_eq_failed_iff {meaning : Option Meaning} :
    ofMeaning meaning = .failed ↔ meaning = none := by
  cases meaning <;> simp [ofMeaning]

end Status

namespace Pass

variable {outline : Outline} {settled : RefId → Option Meaning} {mode : Mode} {rank : Nat}
  {before middle after : Pass}

theorem Settles.refl (pass : Pass) : Settles outline settled pass pass := fun _ => Or.inl rfl

theorem Settles.trans (h : Settles outline settled before middle)
    (k : Settles outline settled middle after) : Settles outline settled before after := by
  intro ref
  rcases h ref with h | ⟨hname, hopen, hstatus⟩
  · rcases k ref with k | ⟨hname, kopen, kstatus⟩
    · exact Or.inl (k.trans h)
    · exact Or.inr ⟨hname, h ▸ kopen, kstatus⟩
  · rcases k ref with k | ⟨_, _, kstatus⟩
    · exact Or.inr ⟨hname, hopen, k ▸ hstatus⟩
    · exact Or.inr ⟨hname, hopen, kstatus⟩

/-- What settles references on their meanings leaves a fitting pass. -/
theorem Settles.fits (h : Settles outline settled before after)
    (hfits : before.Fits outline settled mode) : after.Fits outline settled mode := by
  constructor
  · intro ref canonical origin huse hstatus
    rcases h ref with h | ⟨_, _, hsettled⟩
    · exact hfits.resolved huse (h ▸ hstatus)
    · exact Status.of_meaning_eq_resolved_iff.1 (hsettled.symm.trans hstatus)
  · intro ref huse hopen
    rcases h ref with h | ⟨_, hopen', _⟩
    · exact hfits.free huse (h ▸ hopen)
    · exact hfits.free huse hopen'
  · intro ref huse hmode hstatus
    rcases h ref with h | ⟨_, _, hsettled⟩
    · exact hfits.failed huse hmode (h ▸ hstatus)
    · exact Status.of_meaning_eq_failed_iff.1 (hsettled.symm.trans hstatus)

/-- What settles references puts none in progress. -/
theorem Settles.clear (h : Settles outline settled before after)
    (hclear : before.Clear outline settled rank) : after.Clear outline settled rank := by
  intro ref huse hstatus
  rcases h ref with h | ⟨_, _, hsettled⟩
  · exact hclear ref huse (h ▸ hstatus)
  · exact absurd (hsettled.symm.trans hstatus) (Status.of_meaning_ne_in_progress _)

end Pass

namespace Probe

variable {outline : Outline} {settled : RefId → Option Meaning} {mode : Mode} {rank : Nat}
  {resolver : Resolver}

/-- A search answers with meanings if the requests that it makes do. -/
theorem first_map_run_settles (queries : List Query)
    (hask : ∀ ref start read, Query.asking ref start read ∈ queries →
      (∀ canonical watch, (read canonical watch).map outline.hitMeaning =
        (read canonical none).map outline.hitMeaning) ∧
      ∀ pass, pass.Fits outline settled mode → pass.Clear outline settled rank →
        (resolver ref start pass).1.canonical? =
          (outline.meaning settled ref).map Meaning.canonical ∧
        Pass.Settles outline settled pass (resolver ref start pass).2)
    {pass : Pass} (hfits : pass.Fits outline settled mode)
    (hclear : pass.Clear outline settled rank) :
    (first (queries.map (Query.run resolver)) pass).1.map outline.hitMeaning =
        queries.findSome? (Query.answer outline (outline.meaning settled)) ∧
      Pass.Settles outline settled pass (first (queries.map (Query.run resolver)) pass).2 := by
  induction queries generalizing pass with
  | nil => exact ⟨rfl, .refl pass⟩
  | cons query rest ih =>
      have hrest := @ih (fun ref start read h => hask ref start read (List.mem_cons_of_mem _ h))
      have hquery : (query.run resolver pass).1.map outline.hitMeaning =
          query.answer outline (outline.meaning settled) ∧
            Pass.Settles outline settled pass (query.run resolver pass).2 := by
        cases query with
        | settled hit => exact ⟨rfl, .refl pass⟩
        | asking ref start read =>
            obtain ⟨hread, hresolver⟩ := hask ref start read (List.mem_cons_self ..)
            obtain ⟨hcanonical, hsettles⟩ := hresolver pass hfits hclear
            simp only [Query.run, Query.answer]
            rcases hrun : resolver ref start pass with ⟨resolution, after⟩
            rw [hrun] at hcanonical hsettles
            rcases hmeaning : outline.meaning settled ref with _ | meaning <;>
              rw [hmeaning] at hcanonical <;> cases resolution <;>
              simp_all [Resolution.canonical?]
      simp only [List.map_cons, first, List.findSome?_cons]
      rcases hrun : query.run resolver pass with ⟨hit, after⟩
      rw [hrun] at hquery
      obtain ⟨hanswer, hsettles⟩ := hquery
      rw [← hanswer]
      cases hit with
      | some hit => exact ⟨rfl, hsettles⟩
      | none =>
          obtain ⟨hfound, hsettles'⟩ := hrest (hsettles.fits hfits) (hsettles.clear hclear)
          exact ⟨hfound, hsettles.trans hsettles'⟩

end Probe

namespace Outline

variable {outline : Outline} {settled : RefId → Option Meaning} {mode : Mode} {ref other : RefId}
  {start : Option NodeId} {use : TypeUse}

/-- Settling what a search has found settles the reference on its meaning. -/
theorem status_conclude (found : Option Hit × Pass)
    (h : found.1.map outline.hitMeaning = outline.meaning settled ref) :
    (outline.conclude mode ref found).1 = .ofMeaning (outline.meaning settled ref) ∧
      ((outline.conclude mode ref found).2.standing ref).status =
        .ofMeaning (outline.meaning settled ref) := by
  obtain ⟨hit, pass⟩ := found
  rw [← h]
  cases hit with
  | none => exact ⟨rfl, by simp [conclude, Pass.standing_give_up_self, Standing.fail, Status.ofMeaning]⟩
  | some hit => exact ⟨rfl, by simp [conclude, status_commit_self, Status.ofMeaning, hitMeaning]⟩

/-- The answer about a fitting reference on which no attempt begins is its meaning. -/
theorem answer_of_fits {pass : Pass} (hfits : pass.Fits outline settled mode)
    (huse : outline.use? ref = some use)
    (hbegin : (pass.standing ref).mayBegin mode.retriesFailed = false)
    (hprogress : (pass.standing ref).status ≠ .inProgress) :
    (pass.standing ref).answer = .ofMeaning (outline.meaning settled ref) ∧
      (pass.standing ref).status = .ofMeaning (outline.meaning settled ref) := by
  have huse : (outline.use? ref).isSome = true := by simp [huse]
  unfold Standing.answer
  rcases hstatus : (pass.standing ref).status with _ | _ | ⟨canonical, origin⟩ | _
  · simp [Standing.mayBegin, hstatus] at hbegin
  · exact absurd hstatus hprogress
  · rw [hfits.resolved huse hstatus]
    exact ⟨rfl, rfl⟩
  · have hmode : mode = .batch := by
      cases mode <;> simp [Standing.mayBegin, hstatus, Mode.retriesFailed] at hbegin ⊢
    rw [hfits.failed huse hmode hstatus]
    exact ⟨rfl, rfl⟩

/-- Only references with a name are settled beforehand. -/
def SettlesNamed (outline : Outline) (settled : RefId → Option Meaning) : Prop :=
  ∀ {ref use}, outline.use? ref = some use → use.name = "" → settled ref = none

/-- A pass still fits when an attempt has begun. -/
theorem fits_set_standing_start {pass : Pass} (hfits : pass.Fits outline settled mode)
    (hopen : (pass.standing ref).mayBegin true = true) :
    (pass.setStanding ref (pass.standing ref).start).Fits outline settled mode := by
  have hother : ∀ {other}, ref ≠ other →
      (pass.setStanding ref (pass.standing ref).start).standing other = pass.standing other :=
    fun hne => Pass.standing_set_standing_of_ne _ _ hne
  have hself : ((pass.setStanding ref (pass.standing ref).start).standing ref).status =
      .inProgress := by
    rw [Pass.standing_set_standing_self]
    rfl
  constructor
  · intro other canonical origin huse hstatus
    by_cases hne : ref = other
    · rw [← hne, hself] at hstatus
      cases hstatus
    · exact hfits.resolved huse (hother hne ▸ hstatus)
  · intro other huse hbegin
    by_cases hne : ref = other
    · exact hfits.free huse (hne ▸ hopen)
    · exact hfits.free huse (hother hne ▸ hbegin)
  · intro other huse hmode hstatus
    by_cases hne : ref = other
    · rw [← hne, hself] at hstatus
      cases hstatus
    · exact hfits.failed huse hmode (hother hne ▸ hstatus)

/-- An attempt that has begun stands in the way of references of greater rank only. -/
theorem clear_set_standing_start {pass : Pass}
    (hclear : pass.Clear outline settled (outline.rankOf settled ref + 1)) :
    (pass.setStanding ref (pass.standing ref).start).Clear outline settled
      (outline.rankOf settled ref) := by
  intro other huse hstatus
  by_cases hne : ref = other
  · exact hne ▸ Nat.le_refl _
  · rw [Pass.standing_set_standing_of_ne _ _ hne] at hstatus
    exact Nat.le_of_succ_le (hclear other huse hstatus)

/-- What a request answers about a fitting pass: the meaning of its reference, with references
settled on their meanings only. -/
structure Agrees (outline : Outline) (settled : RefId → Option Meaning) (ref : RefId)
    (pass : Pass) (result : Resolution × Pass) : Prop where
  answer : result.1 = .ofMeaning (outline.meaning settled ref)
  settles : Pass.Settles outline settled pass result.2
  status : (result.2.standing ref).status = .ofMeaning (outline.meaning settled ref)

/-- A search with the reference in progress that finds its meaning settles it. -/
theorem agrees_conclude {pass : Pass} {found : Option Hit × Pass} (hname : outline.HasName ref)
    (hopen : (pass.standing ref).mayBegin true = true)
    (hsettles : Pass.Settles outline settled (pass.setStanding ref (pass.standing ref).start) found.2)
    (hfound : found.1.map outline.hitMeaning = outline.meaning settled ref) :
    Agrees outline settled ref pass (outline.conclude mode ref found) := by
  obtain ⟨hanswer, hstatus⟩ := @status_conclude _ _ mode _ found hfound
  refine ⟨hanswer, fun other => ?_, hstatus⟩
  by_cases hne : ref = other
  · subst hne
    exact Or.inr ⟨hname, hopen, hstatus⟩
  · rw [standing_conclude_of_ne found hne]
    simpa only [Pass.standing_set_standing_of_ne _ _ hne] using hsettles other

/-- A request on a fitting pass, with only references of greater rank in progress, answers
with the meaning of its reference and settles references on their meanings only. -/
theorem WellFormed.resolve_agrees (hwell : outline.WellFormed)
    (hacyclic : outline.AcyclicBounds settled) (hnamed : outline.SettlesNamed settled)
    (haccepts : outline.Accepts ref start use)
    (hhome : start.getD ref.owner = outline.home ref) {pass : Pass}
    (hfits : pass.Fits outline settled mode)
    (hclear : pass.Clear outline settled (outline.rankOf settled ref + 1)) :
    Agrees outline settled ref pass (outline.resolve mode ref start pass) := by
  -- By induction on the rank: what the search asks for has a smaller one.
  induction hrank : outline.rankOf settled ref using Nat.strong_induction_on
    generalizing ref start use pass with
  | _ rank ih =>
      subst hrank
      have hidle : (pass.standing ref).status ≠ .inProgress :=
        fun h => Nat.not_succ_le_self _ (hclear ref (by simp [haccepts.use_eq]) h)
      rw [resolve_eq_attempt]
      cases hbegin : (pass.standing ref).mayBegin mode.retriesFailed with
      | false =>
          rw [attempt_of_not_may_begin _ pass haccepts hbegin]
          obtain ⟨hanswer, hstatus⟩ := answer_of_fits hfits haccepts.use_eq hbegin hidle
          exact ⟨hanswer, .refl pass, hstatus⟩
      | true =>
          have hopen := Standing.may_begin_true hbegin
          have hfree := hfits.free (by simp [haccepts.use_eq]) hopen
          have hask : ∀ asked anchor read,
              Query.asking asked anchor read ∈ Scope.queries outline use.name (outline.home ref) →
              (∀ canonical watch, (read canonical watch).map outline.hitMeaning =
                (read canonical none).map outline.hitMeaning) ∧
              ∀ pass, pass.Fits outline settled mode →
                pass.Clear outline settled (outline.rankOf settled ref) →
                (outline.resolve mode asked anchor pass).1.canonical? =
                  (outline.meaning settled asked).map Meaning.canonical ∧
                Pass.Settles outline settled pass (outline.resolve mode asked anchor pass).2 := by
            intro asked anchor read hmem
            have hasked : Asked outline settled use.name (outline.home ref) asked anchor read :=
              hwell.asked_of_asking hmem
            refine ⟨hasked.read_watch, fun pass hfits hclear => ?_⟩
            have hlt := hasked.rank_lt hacyclic haccepts.use_eq
            obtain ⟨askedUse, hasUse, _⟩ := hasked.use
            by_cases hname : askedUse.name = ""
            · -- A nameless reference is skipped, and it has no meaning either.
              have hskip : ∀ other, ¬ outline.Accepts asked anchor other := by
                intro other hother
                have := hother.use_eq
                rw [hasUse, Option.some.injEq] at this
                exact hother.name_ne (this ▸ hname)
              rw [resolve_of_not_accepts pass hskip,
                meaning_of_nameless hacyclic hasUse (hnamed hasUse hname) hname]
              exact ⟨rfl, .refl pass⟩
            · have hagrees := ih _ hlt ⟨hasUse, hasked.start_present, hname⟩ hasked.start_eq hfits
                (fun other huse hstatus => Nat.lt_of_lt_of_le hlt (hclear other huse hstatus)) rfl
              refine ⟨?_, hagrees.settles⟩
              rw [hagrees.answer]
              cases outline.meaning settled asked <;> rfl
          rw [attempt_of_may_begin _ pass haccepts hbegin, hhome]
          obtain ⟨hfound, hsettles⟩ := Probe.first_map_run_settles _ hask
            (fits_set_standing_start hfits hopen) (clear_set_standing_start hclear)
          refine agrees_conclude ⟨use, haccepts.use_eq, haccepts.name_ne⟩ hopen hsettles ?_
          rw [hfound, hwell.meaning_eq hacyclic haccepts.use_eq hfree haccepts.name_ne]

/-! ## Sequences of requests -/

/-- The meaning of a reference searched from a node by the search order alone, whatever is
known about any reference. -/
def canon (outline : Outline) (ref : RefId) (start : NodeId) : Option Meaning :=
  (outline.use? ref).bind (fun use =>
    Meaning.canon outline.knows (outline.chain (fun _ => none) start) { name := use.name })

/-- What a request about the return type of a method answers according to the search order. -/
def canonAnswer (outline : Outline) (method : NodeId) : Resolution :=
  match outline.use? (.returnType method) with
  | none => .skipped
  | some use =>
    if use.name = "" then .skipped else .ofMeaning (outline.canon (.returnType method) method)

end Outline

namespace Index

/-- Resolves the return types of methods one after the other, each in a mode of its own. -/
def resolveEach (index : Index) : List (NodeId × Mode) → Health → List Resolution × Index × Health
  | [], health => ([], index, health)
  | (method, mode) :: rest, health =>
    let (resolution, index, health) := index.resolve mode (.returnType method) none health
    let (resolutions, index, health) := resolveEach index rest health
    (resolution :: resolutions, index, health)

/-- Nothing is in progress, and what is settled is settled on its meaning. -/
structure Canonical (index : Index) : Prop where
  fits : (index.pass {}).Fits index.outline (fun _ => none) .batch
  idle : ∀ ref, (index.outline.use? ref).isSome = true → (index.standing ref).status ≠ .inProgress

variable {index : Index}

/-- A request about a return type answers with its meaning and leaves only meanings behind. -/
theorem Canonical.resolve (hwell : index.outline.WellFormed)
    (hacyclic : index.outline.AcyclicBounds (fun _ => none)) (h : index.Canonical) (mode : Mode)
    (method : NodeId) (health : Health) :
    (index.resolve mode (.returnType method) none health).1 = index.outline.canonAnswer method ∧
      (index.resolve mode (.returnType method) none health).2.1.Canonical := by
  have hfits : (index.pass health).Fits index.outline (fun _ => none) .batch :=
    ⟨h.fits.resolved, h.fits.free, h.fits.failed⟩
  by_cases haccepts : ∃ use, index.outline.Accepts (.returnType method) none use
  · obtain ⟨use, haccepts⟩ := haccepts
    have hany : (index.pass health).Fits index.outline (fun _ => none) mode :=
      ⟨hfits.resolved, hfits.free, fun huse _ => hfits.failed huse rfl⟩
    have hagrees := hwell.resolve_agrees hacyclic (fun _ _ => rfl) haccepts rfl hany
      (fun ref huse hstatus => absurd hstatus (h.idle ref huse))
    have hfinal := hagrees.settles.fits hfits
    refine ⟨?_, ⟨hfinal.resolved, hfinal.free, hfinal.failed⟩, ?_⟩
    · rw [Outline.canonAnswer, haccepts.use_eq]
      simp only [if_neg haccepts.name_ne]
      exact hagrees.answer
    · intro ref huse hstatus
      rcases hagrees.settles ref with hsame | ⟨_, _, hsettled⟩
      · exact h.idle ref huse ((congrArg Standing.status hsame).symm.trans hstatus)
      · exact Status.of_meaning_ne_in_progress _ (hsettled.symm.trans hstatus)
  · have hskip : index.outline.resolve mode (.returnType method) none (index.pass health) = _ :=
      Outline.resolve_of_not_accepts (index.pass health) (fun use huse => haccepts ⟨use, huse⟩)
    simp only [Index.resolve, hskip]
    refine ⟨?_, h⟩
    unfold Outline.canonAnswer
    split
    · rfl
    · next use huse =>
        split
        · rfl
        · next hname => exact absurd ⟨use, huse, fun _ => nofun, hname⟩ haccepts

/-- Requests about return types, in any order and in any modes, answer with meanings. -/
theorem Canonical.resolve_each (hwell : index.outline.WellFormed)
    (hacyclic : index.outline.AcyclicBounds (fun _ => none)) (h : index.Canonical)
    (calls : List (NodeId × Mode)) (health : Health) :
    (index.resolveEach calls health).1 =
        calls.map (fun call => index.outline.canonAnswer call.1) ∧
      (index.resolveEach calls health).2.1.Canonical := by
  induction calls generalizing index health with
  | nil => exact ⟨rfl, h⟩
  | cons call rest ih =>
      obtain ⟨method, mode⟩ := call
      obtain ⟨hanswer, hafter⟩ := h.resolve hwell hacyclic mode method health
      obtain ⟨hanswers, hfinal⟩ := @ih (index.resolve mode (.returnType method) none health).2.1
        hwell hacyclic hafter (index.resolve mode (.returnType method) none health).2.2
      simp only [resolveEach, List.map_cons]
      exact ⟨by rw [hanswer, hanswers]; rfl, hfinal⟩

@[simp] theorem outline_resolve_each (index : Index) (calls : List (NodeId × Mode))
    (health : Health) : (index.resolveEach calls health).2.1.outline = index.outline := by
  induction calls generalizing index health with
  | nil => rfl
  | cons call rest ih => exact ih _ _

/-- On a reachable index without outcomes and with acyclic bounds, every request about a return
type answers with its meaning, whatever requests went before it in whatever modes. What the
requests leave behind is settled on meanings as well. -/
theorem resolve_each_eq_canon (hreach : index.Reachable)
    (hunresolved : ∀ ref, (index.outline.use? ref).isSome = true →
      (index.standing ref).status = .unresolved)
    (hacyclic : index.outline.AcyclicBounds (fun _ => none)) (calls : List (NodeId × Mode))
    (health : Health) :
    (index.resolveEach calls health).1 =
        calls.map (fun call => index.outline.canonAnswer call.1) ∧
      ∀ ref, (index.outline.use? ref).isSome = true →
        ((index.resolveEach calls health).2.1.standing ref).status = .unresolved ∨
        ((index.resolveEach calls health).2.1.standing ref).status =
          .ofMeaning (index.outline.canon ref (index.outline.home ref)) := by
  have hstart : index.Canonical := by
    refine ⟨⟨?_, fun _ _ => rfl, ?_⟩, ?_⟩
    · intro ref canonical origin huse hstatus
      rw [show (index.pass {}).standing ref = index.standing ref from rfl, hunresolved ref huse]
        at hstatus
      cases hstatus
    · intro ref huse _ hstatus
      rw [show (index.pass {}).standing ref = index.standing ref from rfl, hunresolved ref huse]
        at hstatus
      cases hstatus
    · intro ref huse
      rw [hunresolved ref huse]
      exact nofun
  obtain ⟨hanswers, hfinal⟩ := hstart.resolve_each hreach.well_formed hacyclic calls health
  refine ⟨hanswers, fun ref huse => ?_⟩
  have huse' : ((index.resolveEach calls health).2.1.outline.use? ref).isSome = true := by
    rw [outline_resolve_each]
    exact huse
  have hfits := hfinal.fits
  rw [outline_resolve_each] at hfits
  rcases hstatus : ((index.resolveEach calls health).2.1.standing ref).status
    with _ | _ | ⟨canonical, origin⟩ | _
  · exact Or.inl rfl
  · exact absurd hstatus (hfinal.idle ref huse')
  · exact Or.inr (Status.of_meaning_eq_resolved_iff.2 (hfits.resolved huse hstatus)).symm
  · exact Or.inr (Status.of_meaning_eq_failed_iff.2 (hfits.failed huse rfl hstatus)).symm

/-- A class with two type parameters, the second bounded by the first, and a method that returns
the second. -/
def boundsHistory : List Operation :=
  [.insertFile
    { path := ⟨"p/A.java"⟩
      package := "p"
      classes :=
        [{ name := "A"
           typeParams := [{ name := "T", bounds := [.text "A"] }, { name := "U", bounds := [.text "T"] }]
           methods := [{ name := "m", returnType := .text "U" }] }] }]

theorem resolve_each_bounds_history :
    ((afterHistory boundsHistory).resolveEach [(6, .live), (3, .batch), (6, .batch)] {}).1 =
      [.resolved "p.A", .skipped, .resolved "p.A"] := by
  have hunresolved : (afterHistory boundsHistory).standings = {} := by decide +kernel
  have hacyclic : ∀ owner < (afterHistory boundsHistory).outline.places.size,
      ∀ param ∈ (afterHistory boundsHistory).outline.paramsOf (fun _ => none) owner,
      ∀ named ∈ (afterHistory boundsHistory).outline.paramsOf (fun _ => none) owner,
      Meaning.Names ((afterHistory boundsHistory).outline.paramsOf (fun _ => none) owner) param named →
        ((afterHistory boundsHistory).outline.paramsOf (fun _ => none) owner).idxOf named <
          ((afterHistory boundsHistory).outline.paramsOf (fun _ => none) owner).idxOf param := by
    decide +kernel
  refine (resolve_each_eq_canon ⟨boundsHistory, rfl⟩ ?_ ?_ _ _).1.trans (by decide +kernel)
  · intro ref _
    rw [standing, hunresolved]
    rfl
  · exact Outline.acyclic_bounds_of_forall_lt (fun owner hlt =>
      Meaning.acyclic_of_declared_before (hacyclic owner hlt))

end Index

end CanonicalNames
