import CanonicalNames.Proofs.Report.Batch
import CanonicalNames.Proofs.Resolution.Twins
import CanonicalNames.Report

/-!
# Files resolved at the same time

A report may work on all files at once. Each file is a `Task` that resolves its methods in
order, all tasks share one pass, and a schedule says whose turn it is: it lists the positions
of the tasks that make the next call. `Progress.call?` is one turn and `Progress.follow?` a
whole schedule.

However turns are dealt out, a task goes as it would go alone. A call leaves every reference
outside its file, and what it does inside depends on the references of its own file only
(`Separate.call`). The answers and the references of a complete run are then those of the
files taken alone, and the counters follow from the references. Taking the files one after
the other is one of the schedules (`exists_sequential_run`), so that all of them make the same
report (`schedules_agree`).
-/

namespace CanonicalNames

/-- Resolving one method more. -/
theorem Outline.resolve_methods_concat (outline : Outline) (mode : Mode) (front : List NodeId)
    (method : NodeId) (pass : Pass) :
    outline.resolveMethods mode (front ++ [method]) pass =
      let (answers, middle) := outline.resolveMethods mode front pass
      let (answer, after) := outline.resolve mode (.returnType method) none middle
      (answers ++ [(method, answer)], after) := by
  induction front generalizing pass with
  | nil => rfl
  | cons first rest ih => simp only [List.cons_append, resolveMethods, ih]

namespace Report

/-- The work on one file. -/
structure Task where
  path : SourcePath
  file : NodeId
  /-- The methods that are still to be resolved. -/
  todo : List NodeId
  answers : List (NodeId × Resolution) := []

/-- How far the work on the files of an outline has come. -/
structure Progress where
  tasks : List Task
  pass : Pass

namespace Task

/-- The work on a file before its first method. -/
def ofFile (outline : Outline) (entry : SourcePath × NodeId) : Task :=
  { path := entry.1, file := entry.2, todo := outline.methodsUnder entry.2 }

/-- The work on a file when all its methods were resolved and no other file was. -/
def whole (outline : Outline) (entry : SourcePath × NodeId) : Task :=
  { path := entry.1, file := entry.2, todo := []
    answers := (outline.resolveUnder .batch entry.2 {}).1 }

/-- The file that a task works on. -/
def entry (task : Task) : SourcePath × NodeId :=
  (task.path, task.file)

/-- The task when it has an answer about the first of its methods. -/
def answered (task : Task) (method : NodeId) (answer : Resolution) : Task :=
  { task with todo := task.todo.tail, answers := task.answers ++ [(method, answer)] }

/-- The records of the answers so far. -/
def records (outline : Outline) (classifier : Classifier) (task : Task) : List Record :=
  task.answers.filterMap (fun (method, resolution) =>
    Record.ofMethod? outline classifier task.path method resolution)

end Task

namespace Progress

/-- All files of an index are before their first method. -/
def start (index : Index) : Progress where
  tasks := (sortedFiles index.outline).map (Task.ofFile index.outline)
  pass := index.pass {}

/-- The task at a position resolves its next method, if there is one. -/
def call? (outline : Outline) (progress : Progress) (position : Nat) : Option Progress := do
  let task ← progress.tasks[position]?
  let method ← task.todo.head?
  let (answer, pass) := outline.resolve .batch (.returnType method) none progress.pass
  return { tasks := progress.tasks.set position (task.answered method answer), pass }

/-- Tasks take turns as a schedule says. -/
def follow? (outline : Outline) : List Nat → Progress → Option Progress
  | [], progress => some progress
  | position :: rest, progress => progress.call? outline position >>= follow? outline rest

/-- All methods have been resolved. -/
def isDone (progress : Progress) : Bool :=
  progress.tasks.all (fun task => task.todo.isEmpty)

/-- The report on the answers so far. -/
def report (outline : Outline) (classifier : Classifier) (progress : Progress) : Report :=
  ofRecords classifier (progress.tasks.flatMap (Task.records outline classifier))
    progress.pass.health

variable {outline : Outline} {progress next : Progress} {position : Nat}

/-- What a turn does. -/
theorem call?_eq_some_iff : progress.call? outline position = some next ↔
    ∃ task method rest, progress.tasks[position]? = some task ∧ task.todo = method :: rest ∧
      next =
        let (answer, pass) := outline.resolve .batch (.returnType method) none progress.pass
        { tasks := progress.tasks.set position (task.answered method answer), pass } := by
  simp only [call?, bind, Option.bind_eq_some_iff, pure, Option.some.injEq, List.head?_eq_some_iff]
  constructor
  · rintro ⟨task, htask, method, ⟨rest, htodo⟩, rfl⟩
    exact ⟨task, method, rest, htask, htodo, rfl⟩
  · rintro ⟨task, method, rest, htask, htodo, rfl⟩
    exact ⟨task, htask, method, ⟨rest, htodo⟩, rfl⟩

theorem todo_of_done (hdone : progress.isDone = true) {task : Task} (htask : task ∈ progress.tasks) :
    task.todo = [] :=
  List.isEmpty_iff.1 (List.all_eq_true.1 hdone task htask)

theorem follow?_append (outline : Outline) (first second : List Nat) (progress : Progress) :
    follow? outline (first ++ second) progress =
      (follow? outline first progress >>= follow? outline second) := by
  induction first generalizing progress with
  | nil => rfl
  | cons position rest ih =>
      simp only [List.cons_append, follow?]
      cases progress.call? outline position with
      | none => rfl
      | some next => exact ih next

end Progress

/-! ## Tasks do not meet -/

/-- A task has gone as it goes alone: its answers and the references of its file are those after
the methods that it has resolved, taken in order from the start. -/
def Task.Alone (outline : Outline) (pass : Pass) (task : Task) : Prop :=
  ∃ done, outline.methodsUnder task.file = done ++ task.todo ∧
    task.answers = (outline.resolveMethods .batch done {}).1 ∧
    ∀ ref, outline.Below ref.owner task.file → (pass.standing ref).status =
      ((outline.resolveMethods .batch done {}).2.standing ref).status

/-- Every task has gone as it goes alone, and nothing happened outside the files. -/
structure Progress.Separate (outline : Outline) (progress : Progress) : Prop where
  entries : progress.tasks.map Task.entry = sortedFiles outline
  alone : ∀ task ∈ progress.tasks, task.Alone outline progress.pass
  outside : ∀ ref, (∀ entry ∈ sortedFiles outline, ¬ outline.Below ref.owner entry.2) →
    (progress.pass.standing ref).status = .unresolved
  tallied : progress.pass.Tallied outline

namespace Task.Alone

variable {outline : Outline} {source? : SourcePath → Option FileDecl} {pass after : Pass}
  {task : Task} {method : NodeId} {rest : List NodeId}

/-- The methods of a task lie in its file. -/
theorem below (h : task.Alone outline pass) (hwell : outline.WellFormed)
    (htodo : task.todo = method :: rest) : outline.Below method task.file := by
  obtain ⟨done, hdone, -⟩ := h
  refine (hwell.mem_methods_under_iff.1 ?_).1
  simp [hdone, htodo]

/-- What happens outside its file is not noticed by a task. -/
theorem of_standing_eq (h : task.Alone outline pass)
    (hsame : ∀ ref : RefId, outline.Below ref.owner task.file →
      after.standing ref = pass.standing ref) : task.Alone outline after := by
  obtain ⟨done, hdone, hanswers, hstatus⟩ := h
  refine ⟨done, hdone, hanswers, fun ref hbelow => ?_⟩
  rw [hsame ref hbelow]
  exact hstatus ref hbelow

/-- The next call of a task goes as it goes alone. -/
theorem answered (h : task.Alone outline pass) (hfiling : outline.Filing source?)
    (hfile : outline.fileAt? task.path = some task.file) (htodo : task.todo = method :: rest) :
    (task.answered method (outline.resolve .batch (.returnType method) none pass).1).Alone outline
      (outline.resolve .batch (.returnType method) none pass).2 := by
  have hwell := hfiling.ground.well
  have hbelow := h.below hwell htodo
  have hmirror := hfiling.mirror hfiling hfile hfile
  obtain ⟨done, hdone, hanswers, hstatus⟩ := h
  -- The pass may hold more than the task has done, but not about references of its file.
  have halike : Pass.Alike outline outline task.file task.file pass
      (outline.resolveMethods .batch done {}).2 :=
    hmirror.alike_of_status_eq (fun {ref} => hstatus ref)
  obtain ⟨hanswer, hafter, -⟩ :
      (outline.resolve .batch (.returnType method) none pass).1 =
        (outline.resolve .batch (.returnType method) none
          (outline.resolveMethods .batch done {}).2).1 ∧
      Pass.Alike outline outline task.file task.file
        (outline.resolve .batch (.returnType method) none pass).2
        (outline.resolve .batch (.returnType method) none
          (outline.resolveMethods .batch done {}).2).2 ∧ _ :=
    hmirror.resolve_alike (hwell.twins_of_below hbelow) .none halike
  refine ⟨done ++ [method], ?_, ?_, fun ref href => ?_⟩
  · simp [Task.answered, hdone, htodo]
  · rw [Outline.resolve_methods_concat]
    show task.answers ++ [(method, _)] = _ ++ [(method, _)]
    rw [hanswers, hanswer]
  · rw [Outline.resolve_methods_concat]
    exact hafter (hwell.twins_of_below href) ref.slot

end Task.Alone

section Loaded

variable {index : Index} {progress next finish : Progress} {task : Task} {position : Nat}

/-- No file is listed twice. -/
theorem nodup_sorted_files (h : index.Loaded) :
    ((sortedFiles index.outline).map Prod.snd).Nodup := by
  obtain ⟨source?, hfiling⟩ := h.filing
  have hentries : (index.outline.files.entries.map Prod.snd).Nodup := by
    refine List.pairwise_map.2 (h.unique.imp_of_mem (fun {left right} hleft hright hne hsame => ?_))
    -- A file node has one source path, so that the two keys are equal.
    have hfound := h.file_at hleft
    rw [hsame] at hfound
    obtain ⟨node, source, _, _, hnode, hcontent, hpath⟩ := hfiling.ground.well.fileAt.1 hfound
    obtain ⟨node', source', _, _, hnode', hcontent', hpath'⟩ :=
      hfiling.ground.well.fileAt.1 (h.file_at hright)
    rw [hnode, Option.some.injEq] at hnode'
    subst hnode'
    rw [hcontent] at hcontent'
    cases hcontent'
    rw [PartialEquivBEq.trans (BEq.symm hpath) hpath'] at hne
    cases hne
  exact (((List.mergeSort_perm _ _).map Prod.snd).nodup_iff).2 hentries

/-- A turn leaves the files that tasks work on. -/
theorem map_entry_set {tasks : List Task} (h : tasks[position]? = some task)
    {method : NodeId} {answer : Resolution} :
    (tasks.set position (task.answered method answer)).map Task.entry = tasks.map Task.entry := by
  obtain ⟨hlt, rfl⟩ := List.getElem?_eq_some_iff.1 h
  rw [List.map_set]
  show (tasks.map Task.entry).set position tasks[position].entry = _
  rw [← List.getElem_map Task.entry, List.set_getElem_self]
  simpa using hlt

namespace Progress.Separate

theorem entry_mem (h : progress.Separate index.outline) (htask : task ∈ progress.tasks) :
    task.entry ∈ sortedFiles index.outline := by
  rw [← h.entries]
  exact List.mem_map_of_mem htask

theorem file_at (h : progress.Separate index.outline) (hloaded : index.Loaded)
    (htask : task ∈ progress.tasks) : index.outline.fileAt? task.path = some task.file := by
  have hentry : task.entry ∈ index.outline.files.entries :=
    List.mem_mergeSort.1 (h.entry_mem htask)
  exact @Index.Loaded.file_at index hloaded task.entry hentry

/-- Tasks at different positions work on different files. -/
theorem file_ne (h : progress.Separate index.outline) (hloaded : index.Loaded) {other : Task}
    {place : Nat} (htask : progress.tasks[position]? = some task)
    (hother : progress.tasks[place]? = some other) (hne : position ≠ place) :
    other.file ≠ task.file := by
  have hnodup := nodup_sorted_files hloaded
  rw [← h.entries, List.map_map] at hnodup
  intro hsame
  have hlt : position < (progress.tasks.map (Prod.snd ∘ Task.entry)).length := by
    simpa using (List.getElem?_eq_some_iff.1 htask).1
  refine hne ((List.getElem?_inj hlt hnodup).1 ?_)
  simp only [List.getElem?_map, htask, hother, Option.map_some, Function.comp_apply, Task.entry,
    hsame]

/-- Before the first turn. -/
theorem start (hloaded : index.Loaded) : (Progress.start index).Separate index.outline := by
  have hpass : (Progress.start index).pass = {} := by
    simp only [Progress.start, Index.pass, hloaded.standings, hloaded.subscriptions]
  refine ⟨?_, fun task htask => ?_, fun ref _ => ?_, ?_⟩
  · simp only [Progress.start, List.map_map]
    exact List.map_id _
  · obtain ⟨entry, -, rfl⟩ := List.mem_map.1 htask
    exact ⟨[], rfl, rfl, fun ref _ => by rw [hpass]; rfl⟩
  · rw [hpass]
    rfl
  · rw [hpass]
    exact Pass.tallied_start _

/-- A turn of one task goes as it goes alone, and is not noticed by the others. -/
theorem call (h : progress.Separate index.outline) (hloaded : index.Loaded)
    (hcall : progress.call? index.outline position = some next) :
    next.Separate index.outline := by
  obtain ⟨task, method, rest, htask, htodo, rfl⟩ := Progress.call?_eq_some_iff.1 hcall
  obtain ⟨source?, hfiling⟩ := hloaded.filing
  have hwell := hfiling.ground.well
  have hmem : task ∈ progress.tasks := List.mem_of_getElem? htask
  have hfile := h.file_at hloaded hmem
  have hentries : ∀ answer, (progress.tasks.set position (task.answered method answer)).map
      Task.entry = sortedFiles index.outline :=
    fun _ => (map_entry_set htask).trans h.entries
  have houtside : ∀ ref : RefId, ¬ index.outline.Below ref.owner task.file →
      (index.outline.resolve .batch (.returnType method) none progress.pass).2.standing ref =
        progress.pass.standing ref :=
    fun ref => (hfiling.mirror hfiling hfile hfile).standing_resolve_of_not_below
      ((h.alone task hmem).below hwell htodo)
  refine ⟨hentries _, fun other hother => ?_, fun ref hnot => ?_, ?_⟩
  · obtain ⟨place, hplace⟩ := List.getElem?_of_mem hother
    by_cases hsame : position = place
    · subst hsame
      obtain rfl : task.answered method _ = other := by
        simpa [List.getElem?_set_self (List.getElem?_eq_some_iff.1 htask).1] using hplace
      exact (h.alone task hmem).answered hfiling hfile htodo
    · rw [List.getElem?_set_ne hsame] at hplace
      have hmem' := List.mem_of_getElem? hplace
      refine (h.alone other hmem').of_standing_eq (fun ref hbelow => houtside ref ?_)
      exact Index.Removed.not_below_of_file hfiling.ground (hwell.is_file_of_file_at hfile)
        (hwell.is_file_of_file_at (h.file_at hloaded hmem')) (h.file_ne hloaded htask hplace hsame)
        hbelow
  · rw [houtside ref (hnot task.entry (h.entry_mem hmem))]
    exact h.outside ref hnot
  · exact (Pass.tallied_invariant _).resolve _ none h.tallied

/-- A whole schedule. -/
theorem follow (h : progress.Separate index.outline) (hloaded : index.Loaded) {schedule : List Nat}
    (hrun : progress.follow? index.outline schedule = some finish) :
    finish.Separate index.outline := by
  induction schedule generalizing progress with
  | nil =>
      cases hrun
      exact h
  | cons position rest ih =>
      simp only [Progress.follow?, bind, Option.bind_eq_some_iff] at hrun
      obtain ⟨next, hcall, hrest⟩ := hrun
      exact ih (h.call hloaded hcall) hrest

/-- The tasks of a run that is done. -/
theorem tasks_of_done (h : progress.Separate index.outline) (hdone : progress.isDone = true) :
    progress.tasks = (sortedFiles index.outline).map (Task.whole index.outline) := by
  have hwhole : ∀ task ∈ progress.tasks, id task = Task.whole index.outline task.entry := by
    intro task htask
    obtain ⟨done, hmethods, hanswers, -⟩ := h.alone task htask
    have htodo := todo_of_done hdone htask
    rw [htodo, List.append_nil] at hmethods
    subst hmethods
    show task = { path := task.path, file := task.file, todo := [], answers := _ }
    rw [← htodo]
    exact congrArg (Task.mk task.path task.file task.todo) hanswers
  calc progress.tasks = progress.tasks.map id := (List.map_id _).symm
    _ = progress.tasks.map (Task.whole index.outline ∘ Task.entry) := List.map_congr_left hwhole
    _ = (sortedFiles index.outline).map (Task.whole index.outline) := by
        rw [← h.entries, List.map_map]

/-- The references of a file after a run that is done. -/
theorem status_of_done (h : progress.Separate index.outline) (hdone : progress.isDone = true)
    {entry : SourcePath × NodeId} (hentry : entry ∈ sortedFiles index.outline) {ref : RefId}
    (hbelow : index.outline.Below ref.owner entry.2) : (progress.pass.standing ref).status =
      ((index.outline.resolveUnder .batch entry.2 {}).2.standing ref).status := by
  rw [← h.entries] at hentry
  obtain ⟨task, htask, rfl⟩ := List.mem_map.1 hentry
  obtain ⟨done, hmethods, -, hstatus⟩ := h.alone task htask
  rw [todo_of_done hdone htask, List.append_nil] at hmethods
  subst hmethods
  exact hstatus ref hbelow

/-- Two runs that are done have done the same. -/
theorem eq_of_done {left right : Progress} (h : left.Separate index.outline)
    (k : right.Separate index.outline) (hdone : left.isDone = true) (kdone : right.isDone = true) :
    left.tasks = right.tasks ∧
      (∀ ref, left.pass.standing ref = right.pass.standing ref) ∧
      left.pass.subscriptions = right.pass.subscriptions ∧
      left.pass.health = right.pass.health := by
  refine ⟨(h.tasks_of_done hdone).trans (k.tasks_of_done kdone).symm,
    h.tallied.eq_of_status_eq k.tallied (fun ref => ?_)⟩
  by_cases hinside : ∃ entry ∈ sortedFiles index.outline, index.outline.Below ref.owner entry.2
  · obtain ⟨entry, hentry, hbelow⟩ := hinside
    rw [h.status_of_done hdone hentry hbelow, k.status_of_done kdone hentry hbelow]
  · have hnot : ∀ entry ∈ sortedFiles index.outline, ¬ index.outline.Below ref.owner entry.2 :=
      fun entry hentry hbelow => hinside ⟨entry, hentry, hbelow⟩
    rw [h.outside ref hnot, k.outside ref hnot]

end Progress.Separate

end Loaded

/-! ## One file after the other -/

namespace Progress

/-- A task may take all its turns in a row. -/
theorem follow?_replicate (outline : Outline) (front back : List Task) (path : SourcePath)
    (file : NodeId) (methods : List NodeId) (answers : List (NodeId × Resolution)) (pass : Pass) :
    follow? outline (List.replicate methods.length front.length)
        { tasks := front ++ ⟨path, file, methods, answers⟩ :: back, pass } =
      some
        { tasks := front ++
            ⟨path, file, [], answers ++ (outline.resolveMethods .batch methods pass).1⟩ :: back
          pass := (outline.resolveMethods .batch methods pass).2 } := by
  induction methods generalizing answers pass with
  | nil => simp [follow?, Outline.resolveMethods]
  | cons method rest ih =>
      have hcall : call? outline
          { tasks := front ++ ⟨path, file, method :: rest, answers⟩ :: back, pass } front.length =
          some
            { tasks := front ++ ⟨path, file, rest, answers ++
                [(method, (outline.resolve .batch (.returnType method) none pass).1)]⟩ :: back
              pass := (outline.resolve .batch (.returnType method) none pass).2 } := by
        simp [call?, Task.answered]
      rw [List.length_cons, List.replicate_succ, follow?, hcall]
      show follow? _ _ _ = _
      rw [ih]
      simp [Outline.resolveMethods]

/-- The schedule that takes files one after the other; the first one is at the given position. -/
def sequential (outline : Outline) : (position : Nat) → List (SourcePath × NodeId) → List Nat
  | _, [] => []
  | position, entry :: rest =>
    List.replicate (outline.methodsUnder entry.2).length position ++
      sequential outline (position + 1) rest

/-- Taking files one after the other makes the same records and the same pass as a schedule. -/
theorem follow?_sequential (outline : Outline) (classifier : Classifier)
    (files : List (SourcePath × NodeId)) (front : List Task) (pass : Pass) :
    ∃ tasks, follow? outline (sequential outline front.length files)
        { tasks := front ++ files.map (Task.ofFile outline), pass } =
      some { tasks := front ++ tasks, pass := (recordsOf outline classifier files pass).2 } ∧
      (∀ task ∈ tasks, task.todo = []) ∧
      tasks.flatMap (Task.records outline classifier) =
        (recordsOf outline classifier files pass).1 := by
  induction files generalizing front pass with
  | nil => exact ⟨[], rfl, nofun, rfl⟩
  | cons entry rest ih =>
      obtain ⟨path, file⟩ := entry
      let finished : Task := ⟨path, file, [], (outline.resolveUnder .batch file pass).1⟩
      have hfile : follow? outline (List.replicate (outline.methodsUnder file).length front.length)
          { tasks := front ++ ((path, file) :: rest).map (Task.ofFile outline), pass } =
          some
            { tasks := front ++ [finished] ++ rest.map (Task.ofFile outline)
              pass := (outline.resolveUnder .batch file pass).2 } := by
        rw [List.append_assoc]
        exact follow?_replicate outline front (rest.map (Task.ofFile outline)) path file
          (outline.methodsUnder file) [] pass
      obtain ⟨tasks, hrun, hdone, hrecords⟩ := ih (front ++ [finished])
        (outline.resolveUnder .batch file pass).2
      rw [List.length_append, List.length_singleton] at hrun
      refine ⟨finished :: tasks, ?_, List.forall_mem_cons.2 ⟨rfl, hdone⟩, ?_⟩
      · rw [sequential, follow?_append, hfile]
        exact hrun.trans (by rw [List.append_assoc]; rfl)
      · rw [List.flatMap_cons, hrecords]
        rfl

/-- The run over the files in order is a schedule that is done. -/
theorem exists_sequential_run (classifier : Classifier) (index : Index) :
    ∃ finish, follow? index.outline (sequential index.outline 0 (sortedFiles index.outline))
        (start index) = some finish ∧ finish.isDone = true ∧
      finish.report index.outline classifier = (run classifier index).1 ∧
      index.afterPass finish.pass = (run classifier index).2 := by
  obtain ⟨tasks, hrun, hdone, hrecords⟩ := follow?_sequential index.outline classifier
    (sortedFiles index.outline) [] (index.pass {})
  refine ⟨_, hrun, ?_, ?_, rfl⟩
  · exact List.all_eq_true.2 (fun task htask => List.isEmpty_iff.2 (hdone task htask))
  · show ofRecords classifier (tasks.flatMap _) _ = ofRecords classifier _ _
    rw [hrecords]

end Progress

/-- Every schedule of the files of a loaded index makes the report of the run that takes the files
in order, and leaves every reference and every subscription as that run does. -/
theorem schedules_agree (classifier : Classifier) {listing : Listing} {index : Index}
    (hload : listing.load = .ok index) {schedule : List Nat} {finish : Progress}
    (hrun : (Progress.start index).follow? index.outline schedule = some finish)
    (hdone : finish.isDone = true) :
    finish.report index.outline classifier = (run classifier index).1 ∧
      (∀ ref, finish.pass.standing ref = (run classifier index).2.standing ref) ∧
      finish.pass.subscriptions = (run classifier index).2.subscriptions := by
  have hloaded := Listing.loaded_of_load hload
  have hstart := Progress.Separate.start hloaded
  obtain ⟨last, hsequential, hlast, hreport, hafter⟩ :=
    Progress.exists_sequential_run classifier index
  obtain ⟨htasks, hstanding, hsubscriptions, hhealth⟩ :=
    (hstart.follow hloaded hrun).eq_of_done (hstart.follow hloaded hsequential) hdone hlast
  refine ⟨?_, fun ref => ?_, ?_⟩
  · rw [← hreport, Progress.report, Progress.report, htasks, hhealth]
  · rw [← hafter]
    exact hstanding ref
  · rw [← hafter]
    exact hsubscriptions

/-- Two files of one package. The first has a method whose type parameters bound each other and
one that returns an imported type, the second has a method that returns the class of the first
and one that returns a type that nobody declares. -/
def crossing : Listing where
  types :=
    [{ package := "p", name := "A", imports := ["x.Dep"]
       methods :=
         [{ name := "m", returnType := .text "T"
            typeParams :=
              [{ name := "T", bounds := [.text "U"] }, { name := "U", bounds := [.text "T"] }] },
          { name := "n", returnType := .text "Dep" }] },
     { package := "p", name := "B"
       methods :=
         [{ name := "k", returnType := .text "A" }, { name := "l", returnType := .text "Missing" }] }]

theorem crossing_turns_agree :
    ∃ index finish, crossing.load = .ok index ∧
      (Progress.start index).follow? index.outline [1, 0, 1, 0] = some finish ∧
      finish.isDone = true ∧
      finish.pass.health = { dependencyImports := 1, failures := 4 } ∧
      finish.report index.outline (.ofGrouping {}) = (run (.ofGrouping {}) index).1 ∧
      (∀ ref, finish.pass.standing ref = (run (.ofGrouping {}) index).2.standing ref) ∧
      finish.pass.subscriptions = (run (.ofGrouping {}) index).2.subscriptions := by
  -- The files are listed in order, so that sorting them is not part of what is evaluated.
  have hturns : crossing.load.toOption.any (fun index =>
      decide (index.outline.files.entries.Pairwise (fun left right =>
        SourcePath.ble left.1 right.1 = true)) &&
      (Progress.follow? index.outline [1, 0, 1, 0]
        { tasks := index.outline.files.entries.map (Task.ofFile index.outline)
          pass := index.pass {} }).any (fun finish => finish.isDone &&
            finish.pass.health == { dependencyImports := 1, failures := 4 })) = true := by
    decide +kernel
  rcases hload : crossing.load with error | index
  · rw [hload] at hturns
    cases hturns
  · rw [hload] at hturns
    simp only [Except.toOption, Option.any_some, Bool.and_eq_true, decide_eq_true_eq,
      Option.any_eq_true, beq_iff_eq] at hturns
    obtain ⟨hsorted, finish, hrun, hdone, hhealth⟩ := hturns
    have hstart : Progress.start index =
        { tasks := index.outline.files.entries.map (Task.ofFile index.outline)
          pass := index.pass {} } := by
      rw [Progress.start, sortedFiles, List.mergeSort_of_pairwise hsorted]
    rw [← hstart] at hrun
    exact ⟨index, finish, rfl, hrun, hdone, hhealth,
      schedules_agree (.ofGrouping {}) hload hrun hdone⟩

end Report

end CanonicalNames
