import CanonicalNames.Proofs.Index.Preorder
import CanonicalNames.Proofs.Report.Schedule

/-!
# What a report counts, and making it again

`Runs classifier index report after` says that a report may be made on an index and leave it as
`after`, with the files in any order or at the same time. Two things hold of every run, on
whatever index it is made.

A reference is counted at most once, when its only attempt ends, so that where nothing was known
before the counters are the numbers of references that end with the outcomes they stand for
(`Pass.counted_invariant`, `Progress.follow?_keeps`).

The answer about a method stays its answer. A request leaves nothing to find out about the
return type that it is about (`Outline.known_resolve`), and no later request takes that back
(`Pass.Known.resolve`). A run that is done has asked about every method (`Progress.Faithful`),
and another one gets the same answers and changes nothing: `counts_once_and_repeats`.
-/

namespace CanonicalNames

/-- No reference is listed twice. -/
theorem Outline.nodup_refs (outline : Outline) : outline.refs.Nodup :=
  nodup_flat_map_refs_of List.nodup_range

/-! ## Return types with nothing left to find out -/

/-- A request about the return type of a method is answered with `answer` and changes nothing:
it is not well formed, or no attempt may begin. -/
def Pass.Known (outline : Outline) (pass : Pass) (method : NodeId) (answer : Resolution) : Prop :=
  ((∀ use, ¬ outline.Accepts (.returnType method) none use) ∧ answer = .skipped) ∨
    ((∃ use, outline.Accepts (.returnType method) none use) ∧
      (pass.standing (.returnType method)).mayBegin false = false ∧
      answer = (pass.standing (.returnType method)).answer)

section Known

variable {outline : Outline} {pass after : Pass} {method other : NodeId} {answer : Resolution}

theorem Pass.Known.resolve_eq (h : pass.Known outline method answer) :
    outline.resolve .batch (.returnType method) none pass = (answer, pass) := by
  rcases h with ⟨hnot, rfl⟩ | ⟨⟨use, haccepts⟩, hbegin, rfl⟩
  · exact Outline.resolve_of_not_accepts pass hnot
  · rw [Outline.resolve_eq_attempt]
    exact Outline.attempt_of_not_may_begin _ pass haccepts hbegin

/-- What is known depends on the return type alone. -/
theorem Pass.Known.of_standing_eq (h : pass.Known outline method answer)
    (hsame : after.standing (.returnType method) = pass.standing (.returnType method)) :
    after.Known outline method answer := by
  rcases h with h | h
  · exact Or.inl h
  · rw [← hsame] at h
    exact Or.inr h

/-- A request leaves nothing to find out about its return type. -/
theorem Outline.known_resolve (outline : Outline) (pass : Pass) (method : NodeId) :
    (outline.resolve .batch (.returnType method) none pass).2.Known outline method
      (outline.resolve .batch (.returnType method) none pass).1 := by
  by_cases haccepts : ∃ use, outline.Accepts (.returnType method) none use
  · obtain ⟨use, haccepts⟩ := haccepts
    refine Or.inr ⟨⟨use, haccepts⟩, ?_, Outline.resolve_fst_eq_answer pass haccepts⟩
    -- An attempt may begin without a retry on an unresolved reference only.
    have hstatus : ((outline.resolve .batch (.returnType method) none pass).2.standing
        (.returnType method)).status ≠ .unresolved :=
      Outline.status_resolve_ne_unresolved pass haccepts
    unfold Standing.mayBegin
    cases hafter : ((outline.resolve .batch (.returnType method) none pass).2.standing
      (.returnType method)).status with
    | unresolved => exact absurd hafter hstatus
    | _ => rfl
  · have hnot : ∀ use, ¬ outline.Accepts (.returnType method) none use :=
      fun use h => haccepts ⟨use, h⟩
    rw [Outline.resolve_of_not_accepts pass hnot]
    exact Or.inl ⟨hnot, rfl⟩

/-- Requests about return types take back nothing that is known of one. -/
theorem Pass.Known.resolve (h : pass.Known outline method answer) (other : NodeId) :
    (outline.resolve .batch (.returnType other) none pass).2.Known outline method answer := by
  by_cases hsame : other = method
  · subst hsame
    rw [h.resolve_eq]
    exact h
  · refine h.of_standing_eq (Outline.standing_resolve_return_type (fun heq => hsame ?_) pass)
    exact congrArg RefId.owner heq

end Known

namespace Report

namespace Progress

variable {outline : Outline} {progress next finish : Progress} {position : Nat}

/-! ## Along a schedule -/

/-- What every request about a return type keeps, a schedule keeps, if it is reflexive and
transitive. -/
theorem follow?_keeps {motive : Pass → Pass → Prop} (hrefl : ∀ pass, motive pass pass)
    (htrans : ∀ {first second third}, motive first second → motive second third → motive first third)
    (hmethod : ∀ method pass, motive pass (outline.resolve .batch (.returnType method) none pass).2)
    {schedule : List Nat} (hrun : progress.follow? outline schedule = some finish) :
    motive progress.pass finish.pass := by
  induction schedule generalizing progress with
  | nil =>
      cases hrun
      exact hrefl _
  | cons position rest ih =>
      simp only [follow?, bind, Option.bind_eq_some_iff] at hrun
      obtain ⟨next, hcall, hrest⟩ := hrun
      obtain ⟨task, method, -, -, -, rfl⟩ := call?_eq_some_iff.1 hcall
      exact htrans (hmethod method progress.pass) (ih hrest)

/-- Every task has asked about the first of its methods, in order, and its answers still stand. -/
structure Faithful (outline : Outline) (progress : Progress) : Prop where
  entries : progress.tasks.map Task.entry = sortedFiles outline
  methods : ∀ task ∈ progress.tasks,
    task.answers.map Prod.fst ++ task.todo = outline.methodsUnder task.file
  known : ∀ task ∈ progress.tasks, ∀ answer ∈ task.answers,
    progress.pass.Known outline answer.1 answer.2

/-- Before the first turn nothing was asked. -/
theorem faithful_start (index : Index) : (start index).Faithful index.outline := by
  refine ⟨?_, fun task htask => ?_, fun task htask => ?_⟩
  · simp only [start, List.map_map]
    exact List.map_id _
  · obtain ⟨entry, -, rfl⟩ := List.mem_map.1 htask
    rfl
  · obtain ⟨entry, -, rfl⟩ := List.mem_map.1 htask
    exact fun answer hanswer => absurd hanswer List.not_mem_nil

/-- A turn adds an answer that stands, and leaves those of the other tasks standing. -/
theorem Faithful.call (h : progress.Faithful outline)
    (hcall : progress.call? outline position = some next) : next.Faithful outline := by
  obtain ⟨task, method, rest, htask, htodo, rfl⟩ := call?_eq_some_iff.1 hcall
  have hmem : task ∈ progress.tasks := List.mem_of_getElem? htask
  have hstands : ∀ other ∈ progress.tasks, ∀ answer ∈ other.answers,
      (outline.resolve .batch (.returnType method) none progress.pass).2.Known outline
        answer.1 answer.2 :=
    fun other hother answer hanswer => (h.known other hother answer hanswer).resolve method
  refine ⟨(map_entry_set htask).trans h.entries, fun other hother => ?_, fun other hother => ?_⟩
  · rcases List.mem_or_eq_of_mem_set hother with hother | rfl
    · exact h.methods other hother
    · show (task.answers ++ [_]).map Prod.fst ++ task.todo.tail = outline.methodsUnder task.file
      rw [← h.methods task hmem, htodo]
      simp
  · rcases List.mem_or_eq_of_mem_set hother with hother | rfl
    · exact hstands other hother
    · intro answer hanswer
      rcases List.mem_append.1 hanswer with hold | hnew
      · exact hstands task hmem answer hold
      · obtain rfl := List.mem_singleton.1 hnew
        exact outline.known_resolve progress.pass method

theorem Faithful.follow (h : progress.Faithful outline) {schedule : List Nat}
    (hrun : progress.follow? outline schedule = some finish) : finish.Faithful outline := by
  induction schedule generalizing progress with
  | nil =>
      cases hrun
      exact h
  | cons position rest ih =>
      simp only [follow?, bind, Option.bind_eq_some_iff] at hrun
      obtain ⟨next, hcall, hrest⟩ := hrun
      exact ih (h.call hcall) hrest

/-- A run that is done has an answer that stands about every method of every file. -/
theorem Faithful.known_of_done (h : progress.Faithful outline) (hdone : progress.isDone = true)
    {entry : SourcePath × NodeId} (hentry : entry ∈ sortedFiles outline) {method : NodeId}
    (hmethod : method ∈ outline.methodsUnder entry.2) :
    ∃ answer, progress.pass.Known outline method answer := by
  rw [← h.entries] at hentry
  obtain ⟨task, htask, rfl⟩ := List.mem_map.1 hentry
  have hmethods := h.methods task htask
  rw [todo_of_done hdone htask, List.append_nil] at hmethods
  rw [Task.entry, ← hmethods] at hmethod
  obtain ⟨answer, hanswer, rfl⟩ := List.mem_map.1 hmethod
  exact ⟨answer.2, h.known task htask answer hanswer⟩

/-- The work on a file when there is nothing left to find out about its methods. -/
def wholeAt (outline : Outline) (pass : Pass) (entry : SourcePath × NodeId) : Task :=
  { path := entry.1, file := entry.2, todo := []
    answers := (outline.methodsUnder entry.2).map (fun method =>
      (method, (outline.resolve .batch (.returnType method) none pass).1)) }

/-- The answers of a run that is done are those that would be given at its end. -/
theorem Faithful.tasks_of_done (h : progress.Faithful outline) (hdone : progress.isDone = true) :
    progress.tasks = (sortedFiles outline).map (wholeAt outline progress.pass) := by
  have hwhole : ∀ task ∈ progress.tasks,
      id task = (wholeAt outline progress.pass ∘ Task.entry) task := by
    intro task htask
    have hmethods := h.methods task htask
    have htodo := todo_of_done hdone htask
    rw [htodo, List.append_nil] at hmethods
    have hanswers : task.answers = (outline.methodsUnder task.file).map (fun method =>
        (method, (outline.resolve .batch (.returnType method) none progress.pass).1)) := by
      rw [← hmethods, List.map_map]
      refine (List.map_id _).symm.trans (List.map_congr_left (fun answer hanswer => ?_))
      simp [(h.known task htask answer hanswer).resolve_eq]
    show task = { path := task.path, file := task.file, todo := [], answers := _ }
    rw [← htodo]
    exact congrArg (Task.mk task.path task.file task.todo) hanswers
  calc progress.tasks = progress.tasks.map id := (List.map_id _).symm
    _ = progress.tasks.map (wholeAt outline progress.pass ∘ Task.entry) :=
        List.map_congr_left hwhole
    _ = (sortedFiles outline).map (wholeAt outline progress.pass) := by
        rw [← h.entries, List.map_map]

/-- Where nothing is left to find out about any method, a schedule changes nothing. -/
theorem Faithful.pass_eq_of_follow (h : progress.Faithful outline)
    (hknown : ∀ entry ∈ sortedFiles outline, ∀ method ∈ outline.methodsUnder entry.2,
      ∃ answer, progress.pass.Known outline method answer)
    {schedule : List Nat} (hrun : progress.follow? outline schedule = some finish) :
    finish.pass = progress.pass := by
  induction schedule generalizing progress with
  | nil =>
      cases hrun
      rfl
  | cons position rest ih =>
      simp only [follow?, bind, Option.bind_eq_some_iff] at hrun
      obtain ⟨next, hcall, hrest⟩ := hrun
      have hnext := h.call hcall
      obtain ⟨task, method, left, htask, htodo, rfl⟩ := call?_eq_some_iff.1 hcall
      have hmem : task ∈ progress.tasks := List.mem_of_getElem? htask
      have hentry : task.entry ∈ sortedFiles outline := by
        rw [← h.entries]
        exact List.mem_map_of_mem hmem
      have hmethod : method ∈ outline.methodsUnder task.file := by
        rw [← h.methods task hmem, htodo]
        simp
      obtain ⟨answer, hanswer⟩ := hknown task.entry hentry method hmethod
      have hpass : (outline.resolve .batch (.returnType method) none progress.pass).2 =
          progress.pass := by
        rw [hanswer.resolve_eq]
      exact (ih hnext (by simpa only [hpass] using hknown) hrest).trans hpass

end Progress

/-! ## Runs -/

/-- A report may be made on an index and leave it as `after`: the files take turns in some way
until all their methods have been resolved. -/
def Runs (classifier : Classifier) (index : Index) (report : Report) (after : Index) : Prop :=
  ∃ schedule finish, (Progress.start index).follow? index.outline schedule = some finish ∧
    finish.isDone = true ∧ report = finish.report index.outline classifier ∧
    after = index.afterPass finish.pass

variable {classifier : Classifier} {index after last : Index} {report second : Report}

/-- Taking the files one after the other makes a report. -/
theorem runs_run (classifier : Classifier) (index : Index) :
    Runs classifier index (run classifier index).1 (run classifier index).2 := by
  obtain ⟨finish, hrun, hdone, hreport, hafter⟩ := Progress.exists_sequential_run classifier index
  exact ⟨_, finish, hrun, hdone, hreport.symm, hafter.symm⟩

/-- The number of references of an index whose status is of some sort. -/
def tally (index : Index) (sort : Status → Bool) : Nat :=
  index.outline.refs.countP (fun ref => sort (index.standing ref).status)

/-- The counters of a report on an index about which nothing is known. -/
theorem Runs.health_eq (h : Runs classifier index report after)
    (hopen : ∀ ref ∈ index.outline.refs, (index.standing ref).status = .unresolved) :
    report.health =
      { dependencyImports := tally after Status.isDependency
        failures := tally after (· == .failed) } := by
  obtain ⟨schedule, finish, hrun, -, rfl, rfl⟩ := h
  have hcounted : finish.pass.Counted index.outline :=
    Progress.follow?_keeps (motive := fun before after =>
        before.Counted index.outline → after.Counted index.outline)
      (fun _ => id) (fun hfirst hsecond => hsecond ∘ hfirst)
      (fun method pass => (Pass.counted_invariant index.outline).resolve _ none) hrun
      (Pass.counted_of_unresolved rfl hopen)
  have hcard : ∀ sort, (finish.pass.having index.outline sort).card =
      tally (index.afterPass finish.pass) sort := by
    intro sort
    rw [Pass.having, ← List.toFinset_filter,
      List.toFinset_card_of_nodup (index.outline.nodup_refs.filter _),
      ← List.countP_eq_length_filter]
    rfl
  show finish.pass.health = _
  rw [hcounted, hcard, hcard]

/-- No reference is left in progress. -/
theorem Runs.status_ne (h : Runs classifier index report after) {ref : RefId}
    (hopen : (index.standing ref).status ≠ .inProgress) :
    (after.standing ref).status ≠ .inProgress := by
  obtain ⟨schedule, finish, hrun, -, rfl, rfl⟩ := h
  have hkept := Progress.follow?_keeps (motive := fun before after =>
      (after.standing ref).status = .inProgress ↔ (before.standing ref).status = .inProgress)
    (fun _ => Iff.rfl) (fun hfirst hsecond => hsecond.trans hfirst)
    (fun method pass => Outline.status_resolve_eq_in_progress_iff pass) hrun
  exact fun hstatus => hopen (hkept.1 hstatus)

/-- A second run makes the same report but for the counters, and changes nothing. -/
theorem Runs.repeats (h : Runs classifier index report after)
    (k : Runs classifier after second last) :
    second.records = report.records ∧ second.groups = report.groups ∧ second.health = {} ∧
      last = after := by
  obtain ⟨schedule, finish, hrun, hdone, rfl, rfl⟩ := h
  obtain ⟨schedule', finish', hrun', hdone', rfl, rfl⟩ := k
  have hfinish : finish.Faithful index.outline := (Progress.faithful_start index).follow hrun
  -- The second run starts with the references of the first one's end.
  have hknown : ∀ {method answer}, finish.pass.Known index.outline method answer →
      (Progress.start (index.afterPass finish.pass)).pass.Known index.outline method answer :=
    fun h => h.of_standing_eq rfl
  have hstart := Progress.faithful_start (index.afterPass finish.pass)
  have hpass : finish'.pass = (Progress.start (index.afterPass finish.pass)).pass := by
    refine hstart.pass_eq_of_follow (fun entry hentry method hmethod => ?_) hrun'
    obtain ⟨answer, hanswer⟩ := hfinish.known_of_done hdone hentry hmethod
    exact ⟨answer, hknown hanswer⟩
  have htasks : finish'.tasks = finish.tasks := by
    rw [(hstart.follow hrun').tasks_of_done hdone', hfinish.tasks_of_done hdone, hpass]
    refine List.map_congr_left (fun entry hentry => ?_)
    refine congrArg (Task.mk entry.1 entry.2 []) (List.map_congr_left (fun method hmethod => ?_))
    obtain ⟨answer, hanswer⟩ := hfinish.known_of_done hdone hentry hmethod
    show (method, (index.outline.resolve _ _ _ _).1) = _
    rw [(hknown hanswer).resolve_eq, hanswer.resolve_eq]
  refine ⟨?_, ?_, ?_, ?_⟩
  · show (ofRecords classifier (finish'.tasks.flatMap _) _).records = _
    rw [htasks]
    rfl
  · show (ofRecords classifier (finish'.tasks.flatMap _) _).groups = _
    rw [htasks]
    rfl
  · show finish'.pass.health = {}
    rw [hpass]
    rfl
  · rw [hpass]
    rfl

/-- A report made on an index counts every reference that failed, and every one that was accepted
from an import outside the outline, once, and leaves none in progress, if no reference was
attempted before. Whatever was known before, a second report has the same records and groups,
counts nothing and leaves the index as it is. Reports are made by taking the files one after
the other, or in any other way. -/
theorem counts_once_and_repeats (classifier : Classifier) (index : Index) :
    Runs classifier index (run classifier index).1 (run classifier index).2 ∧
    ∀ report after, Runs classifier index report after →
      ((∀ ref ∈ index.outline.refs, (index.standing ref).status = .unresolved) →
        report.health.failures = tally after (· == .failed) ∧
        report.health.dependencyImports = tally after Status.isDependency ∧
        ∀ ref ∈ after.outline.refs, (after.standing ref).status ≠ .inProgress) ∧
      ∀ second last, Runs classifier after second last →
        second.records = report.records ∧ second.groups = report.groups ∧
        second.health = {} ∧ last = after := by
  refine ⟨runs_run classifier index, fun report after h => ⟨fun hopen => ?_, fun second last k =>
    h.repeats k⟩⟩
  rw [h.health_eq hopen]
  refine ⟨rfl, rfl, fun ref href => h.status_ne ?_⟩
  obtain ⟨_, _, -, -, -, rfl⟩ := h
  rw [hopen ref href]
  exact nofun

/-- A class with a method whose type parameters bound each other, one that returns an imported
type, and one that returns a type that nobody declares. -/
def entangled : Index :=
  Index.afterHistory [.insertFile
    { path := ⟨"p/A.java"⟩
      package := "p"
      imports := ["x.Dep"]
      classes :=
        [{ name := "A"
           methods :=
             [{ name := "m", returnType := .text "T"
                typeParams :=
                  [{ name := "T", bounds := [.text "U"] },
                   { name := "U", bounds := [.text "T"] }] },
              { name := "n", returnType := .text "Dep" },
              { name := "k", returnType := .text "Missing" }] }] }]

/-- The two bounds and two of the methods fail, and a second report finds nothing to count. -/
theorem entangled_counts_once :
    (∀ ref ∈ entangled.outline.refs, (entangled.standing ref).status = .unresolved) ∧
    (run (.ofGrouping {}) entangled).1.health = { dependencyImports := 1, failures := 4 } ∧
    tally (run (.ofGrouping {}) entangled).2 (· == .failed) = 4 ∧
    tally (run (.ofGrouping {}) entangled).2 Status.isDependency = 1 ∧
    (run (.ofGrouping {}) (run (.ofGrouping {}) entangled).2).1.health = {} ∧
    (run (.ofGrouping {}) (run (.ofGrouping {}) entangled).2).2 =
      (run (.ofGrouping {}) entangled).2 := by
  obtain ⟨hruns, hall⟩ := counts_once_and_repeats (.ofGrouping {}) entangled
  obtain ⟨hcounts, hrepeats⟩ := hall _ _ hruns
  have hopen : ∀ ref ∈ entangled.outline.refs, (entangled.standing ref).status = .unresolved := by
    decide +kernel
  obtain ⟨hfailures, hdependency, -⟩ := hcounts hopen
  -- There is one file, so that sorting the files is not part of what is evaluated.
  have hfiles : sortedFiles entangled.outline = entangled.outline.files.entries :=
    List.mergeSort_of_pairwise (by decide +kernel)
  have hhealth : (run (.ofGrouping {}) entangled).1.health =
      { dependencyImports := 1, failures := 4 } := by
    show (recordsOf entangled.outline (.ofGrouping {}) (sortedFiles entangled.outline)
      (entangled.pass {})).2.health = _
    rw [hfiles]
    decide +kernel
  rw [hhealth] at hfailures hdependency
  obtain ⟨-, -, hagain, hsame⟩ := hrepeats _ _ (runs_run _ _)
  exact ⟨hopen, hhealth, hfailures.symm, hdependency.symm, hagain, hsame⟩

end Report

end CanonicalNames
