import CanonicalNames.Proofs.Grouping.Classifier
import CanonicalNames.Proofs.Listing.Signatures
import CanonicalNames.Proofs.Report.Rerun

/-!
# Every method is reported once

A report on a loaded listing has one record for each method of its entries, and its groups count
every record once (`Report.accounts_for_methods`), in whatever turns the files are resolved. A
record is made for every method of the outline, since a method has a path and a return type; the
methods of the outline are those of the listing (`Listing.signatures_of_to_files`). What a record
says of its return type is what stands at the end, for later turns take back nothing that is known
(`Pass.Known`).
-/

namespace CanonicalNames

/-! ## Records -/

/-- When a method has a record, and what is in it. -/
theorem Record.of_method?_eq_some_iff {outline : Outline} {classifier : Classifier}
    {file : SourcePath} {method : NodeId} {resolution : Resolution} {record : Record} :
    Record.ofMethod? outline classifier file method resolution = some record ↔
      outline.HasSignature method (record.method, ⟨record.returnType, record.isArray⟩) ∧
      record.file = file ∧ record.canonical = resolution.canonical? ∧
      record.group = classifier.classify record.canonical record.isArray := by
  obtain ⟨path, source, returnType, canonical, isArray, group⟩ := record
  rw [Record.ofMethod?, Outline.HasSignature]
  cases outline.use? (.returnType method) with
  | none => simp
  | some use =>
      cases outline.path? method with
      | none => simp
      | some found =>
          obtain ⟨name, flag⟩ := use
          simp only [Option.some.injEq, Record.mk.injEq, TypeUse.mk.injEq]
          constructor
          · rintro ⟨rfl, rfl, rfl, rfl, rfl, rfl⟩
            exact ⟨⟨rfl, rfl, rfl⟩, rfl, rfl, rfl⟩
          · rintro ⟨⟨rfl, rfl, rfl⟩, rfl, rfl, rfl⟩
            exact ⟨rfl, rfl, rfl, rfl, rfl, rfl⟩

/-- A record tells what an index knows about a method: it has a canonical name exactly if the
return type is resolved to it. -/
structure Record.Tells (index : Index) (record : Record) (method : NodeId) : Prop where
  signature : index.outline.HasSignature method
    (record.method, ⟨record.returnType, record.isArray⟩)
  file : ∃ file, index.outline.fileAt? record.file = some file ∧
    index.outline.fileOf? method = some file
  canonical : ∀ name, record.canonical = some name ↔
    ∃ origin, (index.standing (.returnType method)).status = .resolved name origin

/-- What a record says of a method, as the method is listed. -/
def Record.written (record : Record) : String × List Component × TypeUse :=
  Listing.located record.file (record.method, ⟨record.returnType, record.isArray⟩)

/-- The canonical name in an answer that stands, if a return type that cannot be asked about is not
resolved. -/
theorem Pass.Known.canonical_iff {outline : Outline} {pass : Pass} {method : NodeId}
    {answer : Resolution} (h : pass.Known outline method answer)
    (hopen : (∀ use, ¬outline.Accepts (.returnType method) none use) →
      (pass.standing (.returnType method)).status = .unresolved) (name : String) :
    answer.canonical? = some name ↔
      ∃ origin, (pass.standing (.returnType method)).status = .resolved name origin := by
  rcases h with ⟨hnot, rfl⟩ | ⟨-, -, rfl⟩
  · simp [hopen hnot, Resolution.canonical?]
  · unfold Standing.answer
    cases (pass.standing (.returnType method)).status <;> simp [Resolution.canonical?]

namespace Report

variable {outline : Outline} {classifier : Classifier}

/-- Every method has a record, which lists it. -/
theorem records_of_signatures {path : SourcePath} {methods : List NodeId}
    {signatures : List (String × TypeUse)}
    (h : List.Forall₂ outline.HasSignature methods signatures) (answer : NodeId → Resolution) :
    let record? := fun method => Record.ofMethod? outline classifier path method (answer method)
    List.Forall₂ (fun method record => record? method = some record)
        methods (methods.filterMap record?) ∧
      (methods.filterMap record?).map Record.written = signatures.map (Listing.located path) := by
  intro record?
  induction h with
  | nil => exact ⟨.nil, rfl⟩
  | @cons method signature methods signatures hfirst _ ih =>
      have hrecord : record? method = some
          { method := signature.1, file := path, returnType := signature.2.name
            canonical := (answer method).canonical?, isArray := signature.2.isArray
            group := classifier.classify (answer method).canonical? signature.2.isArray } :=
        Record.of_method?_eq_some_iff.2 ⟨hfirst, rfl, rfl, rfl⟩
      rw [List.filterMap_cons, hrecord, List.map_cons, List.map_cons, ih.2]
      exact ⟨.cons hrecord ih.1, rfl⟩

/-! ## Methods -/

/-- The methods of an outline, file by file in the order of their paths. -/
def methods (outline : Outline) : List NodeId :=
  (sortedFiles outline).flatMap (fun entry => outline.methodsUnder entry.2)

variable {index : Index}

/-- Everything that is a method is listed. -/
theorem mem_methods_iff (h : index.Loaded) {id : NodeId} :
    id ∈ methods index.outline ↔ index.outline.kind? id = some .method := by
  obtain ⟨source?, hfiling⟩ := h.filing
  have hwell := hfiling.ground.well
  constructor
  · intro hid
    obtain ⟨entry, -, hmethod⟩ := List.mem_flatMap.1 hid
    exact (hwell.mem_methods_under_iff.1 hmethod).2
  · intro hkind
    obtain ⟨node, hnode, hmethod⟩ := Option.map_eq_some_iff.1 hkind
    obtain ⟨file, hfile, hbelow⟩ := hfiling.housed hnode (by rw [hmethod]; rfl)
    obtain ⟨path, hpath⟩ := hwell.file_at_of_is_file hfile
    obtain ⟨entry, hentry, -, rfl⟩ := h.unique.find?_eq_some_iff.1 hpath
    exact List.mem_flatMap.2 ⟨entry, List.mem_mergeSort.2 hentry,
      hwell.mem_methods_under_iff.2 ⟨hbelow, hkind⟩⟩

/-- A method belongs to the file that it is listed for. -/
theorem file_of?_of_sorted (h : index.Loaded) {entry : SourcePath × NodeId}
    (hentry : entry ∈ sortedFiles index.outline) {method : NodeId}
    (hmethod : method ∈ index.outline.methodsUnder entry.2) :
    index.outline.fileOf? method = some entry.2 := by
  obtain ⟨source?, hfiling⟩ := h.filing
  exact hfiling.ground.file_of?_of_below
    (hfiling.ground.well.is_file_of_file_at (h.file_at (List.mem_mergeSort.1 hentry)))
    (hfiling.ground.well.mem_methods_under_iff.1 hmethod).1

/-- No method is listed twice: those of one file are not, and each belongs to one file. -/
theorem nodup_methods (h : index.Loaded) : (methods index.outline).Nodup := by
  obtain ⟨source?, hfiling⟩ := h.filing
  refine List.nodup_flatMap.2
    ⟨fun entry _ => (hfiling.ground.well.nodup_preorder entry.2).filter _, ?_⟩
  refine (List.pairwise_map.1 (nodup_sorted_files h)).imp_of_mem
    (fun {entry other} hentry hother hne method hmethod hmethod' => hne ?_)
  rw [← Option.some.injEq, ← file_of?_of_sorted h hentry hmethod,
    file_of?_of_sorted h hother hmethod']

/-! ## A whole run -/

/-- A return type that cannot be asked about stays as it is. -/
theorem Progress.standing_of_not_accepts {finish : Progress} {schedule : List Nat}
    (hrun : (Progress.start index).follow? index.outline schedule = some finish) {method : NodeId}
    (hnot : ∀ use, ¬index.outline.Accepts (.returnType method) none use) :
    finish.pass.standing (.returnType method) = index.standing (.returnType method) := by
  refine Progress.follow?_keeps (motive := fun before after =>
      after.standing (.returnType method) = before.standing (.returnType method))
    (fun _ => rfl) (fun hfirst hsecond => hsecond.trans hfirst) (fun other pass => ?_) hrun
  by_cases hsame : other = method
  · rw [hsame, Outline.resolve_of_not_accepts pass hnot]
  · exact Outline.standing_resolve_return_type
      (fun heq => hsame (congrArg RefId.owner heq)) pass

/-- What a finished run has recorded about a file: a record for every method, which tells what the
index knows at the end. -/
theorem Progress.records_of_file (hloaded : index.Loaded) {finish : Progress} {schedule : List Nat}
    (hrun : (Progress.start index).follow? index.outline schedule = some finish)
    (hdone : finish.isDone = true) {entry : SourcePath × NodeId}
    (hentry : entry ∈ sortedFiles index.outline) {signatures : List (String × TypeUse)}
    (hsignatures : List.Forall₂ index.outline.HasSignature (index.outline.methodsUnder entry.2)
      signatures) :
    let records := (wholeAt index.outline finish.pass entry).records index.outline classifier
    List.Forall₂ (fun method record => Record.Tells (index.afterPass finish.pass) record method ∧
        record.group = classifier.classify record.canonical record.isArray)
      (index.outline.methodsUnder entry.2) records ∧
      records.map Record.written = signatures.map (Listing.located entry.1) := by
  intro records
  have hrecords : records = (index.outline.methodsUnder entry.2).filterMap (fun method =>
      Record.ofMethod? index.outline classifier entry.1 method
        (index.outline.resolve .batch (.returnType method) none finish.pass).1) :=
    List.filterMap_map
  obtain ⟨hmade, hwritten⟩ :=
    @records_of_signatures index.outline classifier entry.1 _ _ hsignatures (fun method =>
      (index.outline.resolve .batch (.returnType method) none finish.pass).1)
  rw [hrecords]
  refine ⟨?_, hwritten⟩
  refine ((List.forall₂_and_left _ _).2 ⟨fun _ => id, hmade⟩).imp (fun method record hrecord => ?_)
  obtain ⟨hmethod, hrecord⟩ := hrecord
  obtain ⟨hsignature, hfile, hcanonical, hgroup⟩ := Record.of_method?_eq_some_iff.1 hrecord
  obtain ⟨answer, hknown⟩ := ((Progress.faithful_start index).follow hrun).known_of_done hdone
    hentry hmethod
  refine ⟨⟨hsignature, ⟨entry.2, ?_, file_of?_of_sorted hloaded hentry hmethod⟩, fun name => ?_⟩,
    hgroup⟩
  · rw [hfile]
    exact hloaded.file_at (List.mem_mergeSort.1 hentry)
  · rw [hcanonical, hknown.resolve_eq]
    refine hknown.canonical_iff (fun hnot => ?_) name
    rw [Progress.standing_of_not_accepts hrun hnot]
    simp [Index.standing, hloaded.standings, Standings.of]

/-- The files of a report are those that were inserted. -/
theorem map_fst_sorted_files_perm {files : List FileDecl}
    (hrun : Listing.insertFiles files {} = .ok () index) :
    ((sortedFiles index.outline).map Prod.fst).Perm (files.map FileDecl.path) := by
  have hloaded := Listing.loaded_of_insert_files Index.loaded_empty hrun
  refine ((List.mergeSort_perm _ _).map Prod.fst).trans ?_
  refine (List.perm_ext_iff_of_nodup hloaded.unique.distinct_keys.nodup
    (Listing.distinct_of_insert_files hrun).nodup).2 (fun path => ?_)
  exact Listing.mem_keys_iff_of_insert_files hrun

/-- The methods that the files of a report declare are those that are listed. -/
theorem signatures_of_sorted_files_perm {listing : Listing} {files : List FileDecl}
    (hfiles : listing.toFiles = .ok files)
    (hinsert : Listing.insertFiles files {} = .ok () index)
    {source? : SourcePath → Option FileDecl} (hmade : Listing.Made files source?) :
    ((sortedFiles index.outline).flatMap (fun entry =>
        ((source? entry.1).elim [] FileDecl.signatures).map (Listing.located entry.1))).Perm
      (listing.types.flatMap (fun entry =>
        entry.signatures.map (Listing.located entry.fileKey))) := by
  have hdecls : (files.map FileDecl.path).flatMap (fun path =>
      ((source? path).elim [] FileDecl.signatures).map (Listing.located path)) =
        files.flatMap (fun file => file.signatures.map (Listing.located file.path)) := by
    rw [List.flatMap_map]
    refine List.flatMap_congr (fun decl hdecl => ?_)
    rw [(hmade decl.path decl).2 ⟨hdecl, BEq.rfl⟩]
    rfl
  have hperm := (map_fst_sorted_files_perm hinsert).flatMap_right (fun path =>
    ((source? path).elim [] FileDecl.signatures).map (Listing.located path))
  rw [List.flatMap_map, hdecls] at hperm
  exact hperm.trans (Listing.signatures_of_to_files hfiles)

/-- What a finished run has recorded, before it is sorted: a record for every method, which tells
what the index knows at the end, and together what is listed. -/
theorem Progress.records_of_done {listing : Listing} (hload : listing.load = .ok index)
    {finish : Progress} {schedule : List Nat}
    (hrun : (Progress.start index).follow? index.outline schedule = some finish)
    (hdone : finish.isDone = true) :
    let records := finish.tasks.flatMap (Task.records index.outline classifier)
    List.Forall₂ (fun method record => Record.Tells (index.afterPass finish.pass) record method ∧
        record.group = classifier.classify record.canonical record.isArray)
      (methods index.outline) records ∧
      (records.map Record.written).Perm (listing.types.flatMap (fun entry =>
        entry.signatures.map (Listing.located entry.fileKey))) := by
  intro records
  obtain ⟨files, hfiles, hinsert⟩ := Listing.load_eq_ok_iff.1 hload
  have hloaded := Listing.loaded_of_load hload
  obtain ⟨source?, hfiling, hmade⟩ := Listing.exists_filing_of_insert_all hinsert
  have hrecords : records = (sortedFiles index.outline).flatMap (fun entry =>
      (wholeAt index.outline finish.pass entry).records index.outline classifier) := by
    simp only [records, ((Progress.faithful_start index).follow hrun).tasks_of_done hdone,
      List.flatMap_map]
  have hfile : ∀ entry ∈ sortedFiles index.outline, List.Forall₂ index.outline.HasSignature
      (index.outline.methodsUnder entry.2) ((source? entry.1).elim [] FileDecl.signatures) := by
    intro entry hentry
    obtain ⟨decl, hsource, hsignatures⟩ := hfiling.methods_under
      (hloaded.file_at (List.mem_mergeSort.1 hentry))
    rw [hsource]
    exact hsignatures
  have hmethods := fun entry hentry =>
    @Progress.records_of_file classifier index hloaded finish schedule hrun hdone entry hentry _
      (hfile entry hentry)
  rw [hrecords]
  refine ⟨?_, ?_⟩
  · have hself : List.Forall₂ (fun entry other => entry = other ∧ entry ∈ sortedFiles index.outline)
        (sortedFiles index.outline) (sortedFiles index.outline) :=
      List.forall₂_same.2 (fun entry hentry => ⟨rfl, hentry⟩)
    refine List.rel_flatMap hself (fun entry other hsame => ?_)
    obtain ⟨rfl, hentry⟩ := hsame
    exact (hmethods entry hentry).1
  · rw [List.map_flatMap, List.flatMap_congr (fun entry hentry => (hmethods entry hentry).2)]
    exact signatures_of_sorted_files_perm hfiles hinsert hmade

/-! ## Counting -/

/-- Counts a record in its group. -/
def countIn (groups : Table String Nat) (record : Record) : Table String Nat :=
  groups.insert record.group ((groups.find? record.group).getD 0 + 1)

section Counting

variable {names : List String} {name : String} {records : List Record}

/-- A table that has a value for every name is changed at one name. -/
theorem insert_tabulated (hnodup : names.Nodup) (hname : name ∈ names) (value : String → Nat)
    (new : Nat) :
    (⟨names.map (fun name => (name, value name))⟩ : Table String Nat).insert name new =
      ⟨names.map (fun other => (other, if other = name then new else value other))⟩ := by
  refine congrArg Table.mk ?_
  induction names with
  | nil => cases hname
  | cons first rest ih =>
      obtain ⟨hfirst, hrest⟩ := List.nodup_cons.1 hnodup
      rw [List.map_cons, List.map_cons, Table.insertEntry]
      by_cases heq : first = name
      · subst heq
        rw [if_pos BEq.rfl, if_pos rfl]
        refine congrArg (List.cons _) (List.map_congr_left (fun other hother => ?_))
        have hne : other ≠ first := fun hsame => hfirst (hsame ▸ hother)
        rw [if_neg hne]
      · rw [if_neg (by simpa using heq), if_neg heq,
          ih hrest ((List.mem_cons.1 hname).resolve_left (Ne.symm heq))]

theorem find?_tabulated (hname : name ∈ names) (value : String → Nat) :
    (⟨names.map (fun name => (name, value name))⟩ : Table String Nat).find? name =
      some (value name) := by
  rw [Table.find?, Option.map_eq_some_iff]
  refine ⟨(name, value name), ?_, rfl⟩
  induction names with
  | nil => cases hname
  | cons first rest ih =>
      rw [List.map_cons]
      by_cases heq : first = name
      · simp [heq]
      · rw [List.find?_cons_of_neg (by simpa using heq)]
        exact ih ((List.mem_cons.1 hname).resolve_left (Ne.symm heq))

/-- Counting records one by one adds to each group the number of its records, if every record has
one of the groups. -/
theorem foldl_count_in (hnodup : names.Nodup) (hgroups : ∀ record ∈ records, record.group ∈ names)
    (value : String → Nat) :
    records.foldl countIn ⟨names.map (fun name => (name, value name))⟩ =
      ⟨names.map (fun name =>
        (name, value name + records.countP (fun record => record.group == name)))⟩ := by
  induction records generalizing value with
  | nil => simp
  | cons record rest ih =>
      obtain ⟨hrecord, hrest⟩ := List.forall_mem_cons.1 hgroups
      rw [List.foldl_cons, countIn, find?_tabulated hrecord, insert_tabulated hnodup hrecord,
        ih hrest]
      refine congrArg Table.mk (List.map_congr_left (fun name _ => congrArg (Prod.mk name) ?_))
      by_cases hsame : name = record.group
      · subst hsame
        simp only [↓reduceIte, Option.getD_some, List.countP_cons, BEq.rfl]
        omega
      · rw [if_neg hsame, List.countP_cons_of_neg (by simpa using Ne.symm hsame)]

/-- The counts of all groups make up the number of records. -/
theorem sum_counts (hnodup : names.Nodup) (hgroups : ∀ record ∈ records, record.group ∈ names) :
    (names.map (fun name => records.countP (fun record => record.group == name))).sum =
      records.length := by
  have hdistinct : Distinct names := hnodup.imp (fun hne => by simpa using hne)
  have hperm := hdistinct.flat_map_filter_perm (fun record hrecord =>
    List.contains_iff_mem.2 (hgroups record hrecord))
  rw [← hperm.length_eq, List.length_flatMap]
  exact congrArg List.sum (List.map_congr_left (fun name _ => List.countP_eq_length_filter))

end Counting

section OfRecords

variable (classifier : Classifier) (records : List Record) (health : Health)

theorem records_of_records_perm : (ofRecords classifier records health).records.Perm records :=
  List.mergeSort_perm _ _

theorem pairwise_of_records : (ofRecords classifier records health).records.Pairwise
    (fun left right => left.method ≤ right.method) := by
  have hsorted :
      (records.mergeSort (fun left right => decide (left.method ≤ right.method))).Pairwise
        (fun left right => decide (left.method ≤ right.method) = true) := by
    refine List.pairwise_mergeSort (fun first second third hfirst hsecond => ?_)
      (fun first second => ?_) records
    · exact decide_eq_true
        (String.le_trans (of_decide_eq_true hfirst) (of_decide_eq_true hsecond))
    · rw [Bool.or_eq_true, decide_eq_true_eq, decide_eq_true_eq]
      exact String.le_total ..
  exact hsorted.imp of_decide_eq_true

/-- Sorting does not change what is counted. -/
theorem groups_of_records : (ofRecords classifier records health).groups =
    classifier.groupNames.map (fun name => (name,
      (ofRecords classifier records health).records.countP (fun record => record.group == name))) :=
  List.map_congr_left (fun name _ => congrArg (Prod.mk name)
    ((records_of_records_perm classifier records health).countP_eq _).symm)

end OfRecords

/-- A report accounts for the methods of a listing, when it leaves the index as `after`. -/
structure Accounts (listing : Listing) (classifier : Classifier) (report : Report) (after : Index) :
    Prop where
  /-- There is one record for each method of the entries: the same paths in the same files with the
  same written types, each as often as it is listed. -/
  methods : (report.records.map Record.written).Perm (listing.types.flatMap (fun entry =>
    entry.methods.map (fun method =>
      (Dotted.join (Dotted.join entry.package entry.name) method.name,
        entry.place, method.returnType.toUse))))
  sorted : report.records.Pairwise (fun left right => left.method ≤ right.method)
  /-- The groups are those of the classifier, in order. -/
  names : report.groups.map Prod.fst = classifier.groupNames
  nodup : classifier.groupNames.Nodup
  counts : ∀ group ∈ report.groups,
    group.2 = report.records.countP (fun record => record.group == group.1)
  total : (report.groups.map Prod.snd).sum = report.records.length
  /-- Counting record by record, from nothing in every group, meets no other group. -/
  counted : report.groups = (report.records.foldl countIn
    ⟨classifier.groupNames.map (fun name => (name, 0))⟩).entries
  group : ∀ record ∈ report.records,
    record.group = classifier.classify record.canonical record.isArray
  /-- Each record tells what the index knows about a method of its own, and no method is left
  out. -/
  told : ∃ methods : List NodeId, methods.Nodup ∧
    (∀ id, id ∈ methods ↔ after.outline.kind? id = some .method) ∧
    List.Forall₂ (Record.Tells after) report.records methods

/-- A report accounts for the methods of a listing if its records do before they are sorted and
counted. -/
theorem accounts_of_records {listing : Listing} {grouping : Grouping} {after : Index}
    {records : List Record} {methods : List NodeId} (health : Health)
    (hnames : (Classifier.ofGrouping grouping).groupNames.Nodup)
    (hwritten : (records.map Record.written).Perm (listing.types.flatMap (fun entry =>
      entry.signatures.map (Listing.located entry.fileKey))))
    (hgroup : ∀ record ∈ records, record.group =
      (Classifier.ofGrouping grouping).classify record.canonical record.isArray)
    (htells : List.Forall₂ (Record.Tells after) records methods) (hnodup : methods.Nodup)
    (hmethods : ∀ id, id ∈ methods ↔ after.outline.kind? id = some .method) :
    Accounts listing (.ofGrouping grouping) (ofRecords (.ofGrouping grouping) records health)
      after := by
  have hsort := records_of_records_perm (.ofGrouping grouping) records health
  have hsorted := pairwise_of_records (.ofGrouping grouping) records health
  have hgroups := groups_of_records (.ofGrouping grouping) records health
  -- From here on only the records of the report count.
  generalize ofRecords (.ofGrouping grouping) records health = report at hsort hsorted hgroups ⊢
  replace hgroup := fun record hrecord => hgroup record (hsort.mem_iff.1 hrecord)
  have hmem : ∀ record ∈ report.records,
      record.group ∈ (Classifier.ofGrouping grouping).groupNames := by
    intro record hrecord
    rw [hgroup record hrecord]
    exact Classifier.classify_mem_group_names ..
  obtain ⟨order, htold, hperm⟩ := List.perm_comp_forall₂ hsort htells
  refine ⟨?_, hsorted, ?_, hnames, ?_, ?_, ?_, hgroup, order, hperm.nodup_iff.2 hnodup,
    fun id => hperm.mem_iff.trans (hmethods id), htold⟩
  · simp only [← ListedType.components_file_key]
    simp only [ListedType.signatures, List.map_map] at hwritten
    exact (hsort.map Record.written).trans hwritten
  · rw [hgroups, List.map_map]
    exact List.map_id _
  · intro group hgroup
    rw [hgroups] at hgroup
    obtain ⟨name, -, rfl⟩ := List.mem_map.1 hgroup
    rfl
  · rw [hgroups, List.map_map]
    exact sum_counts hnames hmem
  · rw [hgroups, foldl_count_in hnames hmem]
    simp only [Nat.zero_add]

/-- The report on a listing accounts for every method once, in whatever turns its files are
resolved, and for every grouping without faults. -/
theorem accounts_for_methods {listing : Listing} {index : Index} (hload : listing.load = .ok index)
    {grouping : Grouping} (hvalid : grouping.validate = .ok grouping) :
    Runs (.ofGrouping grouping) index (run (.ofGrouping grouping) index).1
        (run (.ofGrouping grouping) index).2 ∧
      ∀ report after, Runs (.ofGrouping grouping) index report after →
        Accounts listing (.ofGrouping grouping) report after := by
  refine ⟨runs_run _ index, ?_⟩
  rintro report after ⟨schedule, finish, hrun, hdone, rfl, rfl⟩
  have hnames := Classifier.nodup_group_names (Grouping.fault?_of_validate hvalid)
  have hloaded := Listing.loaded_of_load hload
  obtain ⟨hall, hwritten⟩ := @Progress.records_of_done (.ofGrouping grouping) index listing hload
    finish schedule hrun hdone
  obtain ⟨hgroup, htells⟩ := (List.forall₂_and_left _ _).1
    (hall.imp (fun _ _ hboth => And.symm hboth)).flip
  exact accounts_of_records finish.pass.health hnames hwritten hgroup htells
    (nodup_methods hloaded) (fun _ => mem_methods_iff hloaded)

/-- A class in two parts with two methods of one name, a class nested in it, a class that names the
file of both by another spelling, a class of another package, and one with a file of its own. -/
def partedListing : Listing where
  types :=
    [{ package := "p", name := "A.B", methods := [{ name := "k", returnType := .text "int[]" }] },
     { package := "p"
       name := "A"
       imports := ["x.Dep"]
       methods := [{ name := "n", returnType := .text "Missing" }] },
     { package := "p"
       name := "C"
       file := some ⟨"p//A.java"⟩
       methods := [{ name := "m", returnType := .text "A" }] },
     { package := "p", name := "A", methods := [{ name := "n", returnType := .text "Dep<B>" }] },
     { package := "q.r", name := "D", methods := [{ name := "o", returnType := .text "int" }] },
     { package := "q.r"
       name := "E.F"
       file := some ⟨"src//E.java"⟩
       methods := [{ name := "g", returnType := .text "p.A" }] }]

/-- A grouping in which a group that is listed is a fallback group as well. -/
def sharedGrouping : Grouping where
  groups := [{ name := "unknown", prefixes := ["x."] }, { name := "own", types := ["p.A"] }]

/-- The methods of the parted listing with their files, entry by entry. -/
def partedMethods : List (String × List Component × TypeUse) :=
  [("p.A.B.k", [.name "p", .name "A.java"], ⟨"int", true⟩),
   ("p.A.n", [.name "p", .name "A.java"], ⟨"Missing", false⟩),
   ("p.C.m", [.name "p", .name "A.java"], ⟨"A", false⟩),
   ("p.A.n", [.name "p", .name "A.java"], ⟨"Dep", false⟩),
   ("q.r.D.o", [.name "q", .name "r", .name "D.java"], ⟨"int", false⟩),
   ("q.r.E.F.g", [.name "src", .name "E.java"], ⟨"p.A", false⟩)]

/-- The report has a record for each of the two methods of one name; their group is the one that is
listed for the one and the fallback group for the other. The records name three files. -/
theorem parted_listing_accounts :
    ∃ index report after, partedListing.load = .ok index ∧
      sharedGrouping.validate = .ok sharedGrouping ∧
      Runs (.ofGrouping sharedGrouping) index report after ∧
      (report.records.map Record.written).Perm partedMethods ∧
      report.groups = [("unknown", 2), ("own", 2), ("array", 1), ("primitive", 1)] ∧
      Accounts partedListing (.ofGrouping sharedGrouping) report after := by
  -- The files are listed in order, so that sorting them is not part of what is evaluated.
  have hfacts : partedListing.load.toOption.any (fun index =>
      decide (index.outline.files.entries.Pairwise (fun left right =>
        SourcePath.ble left.1 right.1 = true)) &&
      (ofRecords (.ofGrouping sharedGrouping) (recordsOf index.outline (.ofGrouping sharedGrouping)
          index.outline.files.entries (index.pass {})).1 {}).groups ==
        [("unknown", 2), ("own", 2), ("array", 1), ("primitive", 1)]) = true := by decide +kernel
  rcases hload : partedListing.load with error | index
  · rw [hload] at hfacts
    cases hfacts
  · rw [hload] at hfacts
    simp only [Except.toOption, Option.any_some, Bool.and_eq_true, decide_eq_true_eq,
      beq_iff_eq] at hfacts
    obtain ⟨hsorted, hgroups⟩ := hfacts
    rw [← List.mergeSort_of_pairwise hsorted] at hgroups
    obtain ⟨hruns, hall⟩ := @accounts_for_methods _ _ hload sharedGrouping rfl
    have haccounts := hall _ _ hruns
    have hlisted : partedListing.types.flatMap (fun entry => entry.methods.map (fun method =>
        (Dotted.join (Dotted.join entry.package entry.name) method.name, entry.place,
          method.returnType.toUse))) = partedMethods := by decide +kernel
    exact ⟨index, _, _, rfl, rfl, hruns, haccounts.methods.trans (.of_eq hlisted), hgroups,
      haccounts⟩

end Report

end CanonicalNames
