import CanonicalNames.Proofs.Index.Attempt
import CanonicalNames.Proofs.Index.Justification

/-!
# Imports before packages

A file is searched for a name after everything inside it, and its single imports come before its
package. So a simple name that a single import lets a file write means the import, whatever the
package declares, as long as nothing inside the file takes the name
(`single_import_stands_first`). One thing comes before all scopes: the name taken as a full path.
A class of the default package has its simple name for a path, and so it is found first in every
file, in those of the default package and in those of others.

A search goes past queries that find nothing. What a query has found can be read off the pass that
it leaves (`Query.finds_in_run`), so that it is enough to look at the queries when the whole search
is over (`Probe.exists_first_append`).
-/

namespace CanonicalNames

/-! ## Queries that find nothing -/

/-- What a query finds if the reference that it asks for is resolved as it is in the pass. -/
def Query.findsIn (pass : Pass) : Query → Option Hit
  | .settled hit => hit
  | .asking ref _ read =>
    (pass.standing ref).canonical?.bind (fun canonical =>
      read canonical (pass.standing ref).subscription)

/-- A query that has found something finds it in the pass that it leaves. -/
theorem Query.finds_in_run {outline : Outline} {resolver : Resolver}
    (htruthful : outline.Truthful resolver) (query : Query) {pass : Pass} {hit : Hit}
    (hfound : (query.run resolver pass).1 = some hit) :
    query.findsIn (query.run resolver pass).2 = some hit := by
  cases query with
  | settled found => exact hfound
  | asking ref start read =>
      have htrue := htruthful ref start pass
      simp only [Query.run] at hfound ⊢
      generalize resolver ref start pass = result at hfound htrue ⊢
      obtain ⟨answer, after⟩ := result
      cases answer with
      | resolved canonical =>
          obtain ⟨-, hcanonical⟩ := htrue canonical rfl
          simpa [Query.findsIn, hcanonical] using hfound
      | _ => cases hfound

/-- A search goes past the queries that find nothing when it is over. -/
theorem Probe.exists_first_append {outline : Outline} {resolver : Resolver}
    (htruthful : outline.Truthful resolver) {front back : List Query} {pass : Pass}
    (hnothing : ∀ query ∈ front,
      query.findsIn (first ((front ++ back).map (Query.run resolver)) pass).2 = none) :
    ∃ after, first ((front ++ back).map (Query.run resolver)) pass =
      first (back.map (Query.run resolver)) after := by
  induction front generalizing pass with
  | nil => exact ⟨pass, rfl⟩
  | cons query rest ih =>
      have hquery := hnothing query (List.mem_cons_self ..)
      have hrun : ∀ hit, (query.run resolver pass).1 = some hit →
          query.findsIn (query.run resolver pass).2 = some hit :=
        fun _ => query.finds_in_run htruthful
      simp only [List.cons_append, List.map_cons, first] at hnothing hquery ⊢
      generalize query.run resolver pass = result at hnothing hquery hrun ⊢
      obtain ⟨hit, after⟩ := result
      cases hit with
      | some hit =>
          rw [hrun hit rfl] at hquery
          cases hquery
      | none => exact ih (fun other hother => hnothing other (List.mem_cons_of_mem _ hother))

namespace Outline

variable {outline : Outline} {name : String} {low file frame : NodeId}

/-! ## Names that nothing inside a file takes -/

/-- Everything below a file has the file around it. -/
theorem Grounded.mem_frames_of_below (h : outline.Grounded) (hfile : outline.isFile file = true)
    (hbelow : outline.Below low file) : file ∈ outline.frames low := by
  induction hbelow using Relation.ReflTransGen.head_induction_on with
  | refl => exact outline.mem_frames_self file
  | @head low up hstep hrest ih =>
      obtain ⟨node, hnode, hparent⟩ := Option.bind_eq_some_iff.1 hstep
      have hbelow : outline.Below low file := hrest.head hstep
      have hground := h.not_ground_of_below hfile hbelow hnode
      by_cases hkind : node.kind = .file
      · obtain rfl := h.eq_of_below (by simp [isFile, kind?, hnode, hkind]) hfile hbelow
        exact outline.mem_frames_self low
      · have howner : outline.owner? low = some up := by
          unfold owner?
          rw [hnode]
          cases hcase : node.kind <;> simp_all [Kind.isOwned, Kind.isGround]
        exact h.well.mem_frames_iff.2 (Or.inr ⟨up, howner, ih⟩)

/-- No other file stands around a node than the one around it. -/
theorem WellFormed.eq_of_file_frames (h : outline.WellFormed)
    (hfile : outline.kind? file = some .file) (hframe : outline.kind? frame = some .file)
    (hin : file ∈ outline.frames low) (hin' : frame ∈ outline.frames low) : frame = file := by
  have hsame := (h.file_of?_of_mem_frames hin').trans (h.file_of?_of_mem_frames hin).symm
  rw [h.file_of?_eq, if_pos hframe, h.file_of?_eq, if_pos hfile] at hsame
  exact Option.some.inj hsame

/-- The class leaves the name to what stands around it: it does not have the name itself, and no
class has the path that a nested class of that name would have, or the path that an inherited one
would have below a supertype, as the supertypes are resolved in the pass. -/
structure Leaves (outline : Outline) (pass : Pass) (name : String) (classId : NodeId) : Prop where
  name_ne : ∀ node ∈ outline.node? classId, node.segment ≠ name
  nested : ∀ node ∈ outline.node? classId,
    outline.lookupType? (Dotted.join node.path name) = none
  inherited : ∀ supertype ∈ outline.refsOf classId,
    ∀ canonical ∈ (pass.standing supertype).canonical?,
      outline.lookupType? (Dotted.join canonical name) = none

instance (outline : Outline) (pass : Pass) (name : String) (classId : NodeId) :
    Decidable (outline.Leaves pass name classId) :=
  decidable_of_iff
    ((∀ node ∈ outline.node? classId, node.segment ≠ name) ∧
      (∀ node ∈ outline.node? classId,
        outline.lookupType? (Dotted.join node.path name) = none) ∧
      ∀ supertype ∈ outline.refsOf classId, ∀ canonical ∈ (pass.standing supertype).canonical?,
        outline.lookupType? (Dotted.join canonical name) = none)
    ⟨fun h => ⟨h.1, h.2.1, h.2.2⟩, fun h => ⟨h.name_ne, h.nested, h.inherited⟩⟩

variable {pass : Pass}

theorem Leaves.congr {after : Pass} (h : outline.Leaves after name frame)
    (hsame : ∀ supertype ∈ outline.refsOf frame,
      after.standing supertype = pass.standing supertype) : outline.Leaves pass name frame where
  name_ne := h.name_ne
  nested := h.nested
  inherited supertype hsupertype := by
    rw [← hsame supertype hsupertype]
    exact h.inherited supertype hsupertype

/-- A type parameter of another name is no answer. -/
theorem finds_in_parameter_query (hparam : Scope.isParameterNamed outline name frame = false) :
    (Scope.parameterQuery outline name frame).findsIn pass = none := by
  unfold Scope.parameterQuery
  split
  · next paramName bounds helement =>
      have hne : (paramName == name) = false := by
        simpa [Scope.isParameterNamed, helement] using hparam
      simp [hne, Query.findsIn]
  · rfl

/-- Type parameters of other names are no answer. -/
theorem finds_in_parameters_query
    (hparams : ∀ param ∈ outline.typeParameters frame,
      Scope.isParameterNamed outline name param = false) :
    (Scope.parametersQuery outline name frame).findsIn pass = none := by
  have hnone : (outline.typeParameters frame).find? (Scope.isParameterNamed outline name) = none :=
    List.find?_eq_none.2 (fun param hparam => by simp [hparams param hparam])
  simp [Scope.parametersQuery, hnone, Query.findsIn]

/-- Nothing is found in an element around a node, other than a file, if no type parameter in scope
has the name and a class leaves it. -/
theorem WellFormed.finds_in_frame_queries (hwell : outline.WellFormed)
    (hsingle : Dotted.isSingle name = true)
    (hframe : frame ∈ outline.frames low) (hfile : outline.kind? frame ≠ some .file)
    (hparams : ∀ param, Scope.InScope outline low param →
      Scope.isParameterNamed outline name param = false)
    (hclass : outline.kind? frame = some .classDecl → outline.Leaves pass name frame) :
    ∀ query ∈ Scope.frameQueries outline name frame, query.findsIn pass = none := by
  intro query hquery
  unfold Scope.frameQueries at hquery
  split at hquery
  · cases hquery
  · next node hnode =>
      have hkind : ∀ {element}, node.element? = some element →
          outline.kind? frame = some element.kind := by
        intro element h
        rw [kind?, hnode, Option.map_some, kind_of_element? h]
      split at hquery
      · next h =>
          obtain rfl := List.mem_singleton.1 hquery
          exact finds_in_parameters_query (fun param hparam => hparams param
            (Or.inr ⟨frame, hframe, Or.inl (hkind h), hparam⟩))
      · obtain rfl := List.mem_singleton.1 hquery
        exact finds_in_parameter_query (hparams frame (Or.inl hframe))
      · next className supertypes h =>
          have hleaves := hclass (hkind h)
          have helement : outline.element? frame = some (.classDecl className supertypes) := by
            rw [element?, hnode, Option.bind_some, h]
          simp only [List.cons_append, List.nil_append, List.mem_cons, List.mem_map,
            List.mem_range] at hquery
          rcases hquery with rfl | rfl | ⟨position, hposition, rfl⟩
          · have hcontent : node.content = .declared (.classDecl className supertypes) := by
              rcases hcontent : node.content <;> simp_all [Node.element?, Content.element?]
            have hsegment : node.segment = className := hwell.segment hnode hcontent
            have hname : (Dotted.first name == className) = false := by
              rw [Dotted.first_of_single hsingle, ← hsegment]
              simpa using (hleaves.name_ne node hnode).symm
            simp [Query.findsIn, Scope.nestedPath, hname, Scope.declared,
              hleaves.nested node hnode]
          · exact finds_in_parameters_query (fun param hparam => hparams param
              (Or.inr ⟨frame, hframe, Or.inr (hkind h), hparam⟩))
          · have hsupertype : ⟨frame, .supertype position⟩ ∈ outline.refsOf frame := by
              simp [refsOf, helement, Element.slots, hposition]
            cases hcanonical : (pass.standing ⟨frame, .supertype position⟩).canonical? with
            | none => simp [Query.findsIn, Scope.supertypeQuery, hcanonical]
            | some canonical =>
                simp [Query.findsIn, Scope.supertypeQuery, hcanonical, Scope.declared,
                  hleaves.inherited _ hsupertype canonical hcanonical]
      · next h => exact absurd (hkind h) hfile
      · cases hquery

/-! ## What a single import lets a file write -/

/-- The single import of a name of one segment gives its own path, whether the outline has a class
there or not. -/
theorem WellFormed.outcome_single_import (h : outline.WellFormed) {imports : List Import}
    {found : Import} (hsingle : Dotted.isSingle name = true)
    (himport : imports.find? (fun i => !i.isWildcard && i.simpleName == name) = some found) :
    ∃ hit, Scope.singleImport outline imports name = some hit ∧
      (outline.outcome hit).1 = found.path := by
  have hsearch : Scope.singleImport outline imports name =
      some ((Scope.declared outline found.path).getD (.dependency found.path)) := by
    rw [Scope.singleImport, Dotted.first_of_single hsingle, himport, Option.map_some,
      Dotted.replace_first_of_single hsingle]
  refine ⟨_, hsearch, ?_⟩
  cases hclass : outline.lookupType? found.path with
  | none => simp [Scope.declared, hclass, outcome]
  | some node => simp [Scope.declared, hclass, outcome, h.path?_of_lookup_type? hclass]

/-- A search comes to the single imports of a file after what stands inside the file. -/
theorem exists_queries_eq_append {anchor : NodeId} {source : SourcePath} {package : String}
    {imports : List Import} (hfile : outline.element? file = some (.file source package imports))
    (hframe : file ∈ outline.frames anchor) :
    ∃ front back, Scope.queries outline name anchor =
        front ++ .settled (Scope.singleImport outline imports name) :: back ∧
      ∀ query ∈ front, query = .settled (Scope.builtin name) ∨
        query = .settled (Scope.declared outline name) ∨
        ∃ frame ∈ outline.frames anchor, frame ≠ file ∧
          query ∈ Scope.frameQueries outline name frame := by
  obtain ⟨node, hnode, helement⟩ := Option.bind_eq_some_iff.1 hfile
  obtain ⟨inside, outside, hframes, hfirst⟩ := List.eq_append_cons_of_mem hframe
  obtain ⟨later, hlater⟩ : ∃ later, Scope.frameQueries outline name file =
      .settled (Scope.singleImport outline imports name) :: later := by
    simp [Scope.frameQueries, hnode, helement]
  refine ⟨.settled (Scope.builtin name) :: .settled (Scope.declared outline name) ::
    inside.flatMap (Scope.frameQueries outline name),
    later ++ outside.flatMap (Scope.frameQueries outline name), ?_, fun query hquery => ?_⟩
  · rw [Scope.queries, hframes, List.flatMap_append, List.flatMap_cons, hlater]
    simp only [List.cons_append, List.nil_append]
  · simp only [List.mem_cons, List.mem_flatMap] at hquery
    rcases hquery with hquery | hquery | ⟨frame, hmem, hquery⟩
    · exact Or.inl hquery
    · exact Or.inr (Or.inl hquery)
    · exact Or.inr (Or.inr ⟨frame, by simp [hframes, hmem], fun heq => hfirst (heq ▸ hmem), hquery⟩)

/-- A search inside a file ends on the first single import of the file for the name, if the name is
no keyword and no path of a class and everything inside the file leaves it. -/
theorem Grounded.search_imported (h : outline.Grounded) {resolver : Resolver} {source : SourcePath}
    {package : String} {imports : List Import} {found : Import}
    (htruthful : outline.Truthful resolver)
    (hfile : outline.element? file = some (.file source package imports))
    (hin : outline.Below low file) (hsingle : Dotted.isSingle name = true)
    (hkeyword : isPrimitive name = false) (hraw : outline.lookupType? name = none)
    (himport : imports.find? (fun i => !i.isWildcard && i.simpleName == name) = some found)
    (hparams : ∀ param, Scope.InScope outline low param →
      Scope.isParameterNamed outline name param = false)
    (hclasses : ∀ classId ∈ outline.frames low, outline.kind? classId = some .classDecl →
      outline.Leaves (Probe.first
        ((Scope.queries outline name low).map (Query.run resolver)) pass).2 name classId) :
    ∃ hit after, Probe.first ((Scope.queries outline name low).map (Query.run resolver)) pass =
      (some hit, after) ∧ (outline.outcome hit).1 = found.path := by
  have hkind : outline.kind? file = some .file := by
    obtain ⟨node, hnode, helement⟩ := Option.bind_eq_some_iff.1 hfile
    rw [kind?, hnode, Option.map_some, kind_of_element? helement, Element.kind]
  have hframe := h.mem_frames_of_below (by simp [isFile, hkind]) hin
  obtain ⟨front, back, hqueries, hfront⟩ :=
    @exists_queries_eq_append outline name file low source package imports hfile hframe
  obtain ⟨hit, hhit, houtcome⟩ := h.well.outcome_single_import hsingle himport
  rw [hqueries, hhit] at hclasses ⊢
  obtain ⟨after, hafter⟩ := Probe.exists_first_append htruthful (fun query hquery => by
    rcases hfront query hquery with rfl | rfl | ⟨frame, hmem, hne, hquery⟩
    · simp [Query.findsIn, Scope.builtin, hkeyword]
    · simp [Query.findsIn, Scope.declared, hraw]
    · exact h.well.finds_in_frame_queries hsingle hmem
        (fun hother => hne (h.well.eq_of_file_frames hkind hother hframe hmem)) hparams
        (hclasses frame hmem) query hquery)
  exact ⟨hit, after, hafter, houtcome⟩

/-- The return type of a method is the first single import of the file for its name, if the name is
no keyword and no path of a class and everything between the method and the file leaves it. -/
theorem Grounded.resolve_imported (h : outline.Grounded) {mode : Mode} {method : NodeId}
    {source : SourcePath} {package methodName : String} {imports : List Import} {found : Import}
    {use : TypeUse} (hfile : outline.element? file = some (.file source package imports))
    (hmethod : outline.element? method = some (.method methodName use))
    (hin : outline.Below method file) (hsingle : Dotted.isSingle use.name = true)
    (hkeyword : isPrimitive use.name = false) (hraw : outline.lookupType? use.name = none)
    (himport : imports.find? (fun i => !i.isWildcard && i.simpleName == use.name) = some found)
    (hparams : ∀ param, Scope.InScope outline method param →
      Scope.isParameterNamed outline use.name param = false)
    (hstatus : (pass.standing (.returnType method)).status = .unresolved)
    (hclasses : ∀ classId ∈ outline.frames method, outline.kind? classId = some .classDecl →
      outline.Leaves (outline.resolve mode (.returnType method) none pass).2 use.name classId) :
    (outline.resolve mode (.returnType method) none pass).1 = .resolved found.path := by
  have haccepts : outline.Accepts (.returnType method) none use := by
    refine ⟨by simp [use?, RefId.returnType, hmethod, Element.use?], nofun, fun hempty => ?_⟩
    simp [hempty, Dotted.isSingle] at hsingle
  have hbegin : (pass.standing (.returnType method)).mayBegin mode.retriesFailed = true := by
    simp [Standing.mayBegin, hstatus]
  have htruthful : outline.Truthful (outline.resolve mode) := by
    rw [resolve_eq_attempt]
    exact truthful_attempt _
  have hkind : outline.kind? method = some .method := by
    obtain ⟨node, hnode, helement⟩ := Option.bind_eq_some_iff.1 hmethod
    rw [kind?, hnode, Option.map_some, kind_of_element? helement, Element.kind]
  have hresolve := attempt_of_may_begin (outline.resolve mode) pass haccepts hbegin
  rw [← resolve_eq_attempt, Option.getD_none] at hresolve
  -- Settling the return type leaves what the supertypes are resolved to.
  obtain ⟨hit, after, hsearch, houtcome⟩ := h.search_imported htruthful hfile hin hsingle hkeyword
    hraw himport hparams (fun classId hclassId hclass =>
      (hclasses classId hclassId hclass).congr (fun supertype hsupertype => by
        rw [hresolve, standing_conclude_of_ne]
        · rfl
        · rintro rfl
          rw [← (Index.mem_refs_of_iff.1 hsupertype).1, RefId.returnType, hkind] at hclass
          cases hclass))
  rw [hresolve, show (RefId.returnType method).owner = method from rfl, hsearch]
  simp [conclude, houtcome]

end Outline

namespace Index

/-- Files that are inserted one after the other, also where an insertion fails, leave packages and
files grounded and nothing known about any reference. -/
theorem grounded_after_insertions (files : List FileDecl) :
    (afterHistory (files.map .insertFile)).outline.Grounded ∧
      (afterHistory (files.map .insertFile)).standings = {} := by
  induction files using List.reverseRecOn with
  | nil => exact ⟨Outline.filing_empty.ground, rfl⟩
  | append_singleton files file ih =>
      have hattempted := (attempted_insert_file ih.1 file).1
      rw [List.map_append, List.map_singleton, afterHistory, List.foldl_append]
      exact ⟨hattempted.ground, hattempted.grown.standings.trans ih.2⟩

/-- A single import stands before the package of its file, whatever the package is and whether or
not the import is indexed. In every index that is built from files, the return type of a method,
written as a simple name that is no keyword, is the path of the first single import of that name,
if no type parameter in scope has the name and the classes around the method leave it. Only a
class that has the simple name for its path, one of the default package, comes before. -/
theorem single_import_stands_first {files : List FileDecl} {index : Index}
    (hbuilt : afterHistory (files.map .insertFile) = index) {mode : Mode} {health : Health}
    {file method : NodeId} {source : SourcePath} {package methodName : String}
    {imports : List Import} {found : Import} {use : TypeUse}
    (hfile : index.outline.element? file = some (.file source package imports))
    (hmethod : index.outline.element? method = some (.method methodName use))
    (hin : index.outline.Below method file)
    (hsingle : Dotted.isSingle use.name = true) (hkeyword : isPrimitive use.name = false)
    (himport : imports.find? (fun i => !i.isWildcard && i.simpleName == use.name) = some found)
    (hparams : ∀ param, Scope.InScope index.outline method param →
      Scope.isParameterNamed index.outline use.name param = false)
    (hclasses : ∀ classId ∈ index.outline.frames method,
      index.outline.kind? classId = some .classDecl →
      index.outline.Leaves ((index.resolve mode (.returnType method) none health).2.1.pass health)
        use.name classId) :
    (index.resolve mode (.returnType method) none health).1 =
      .resolved (if (index.outline.lookupType? use.name).isSome then use.name else found.path) := by
  obtain ⟨hground, hstandings⟩ := grounded_after_insertions files
  rw [hbuilt] at hground hstandings
  have huse : index.outline.use? (.returnType method) = some use := by
    simp [Outline.use?, RefId.returnType, hmethod, Element.use?]
  have hstatus : ((index.pass health).standing (.returnType method)).status = .unresolved := by
    simp [Pass.standing, Index.pass, hstandings, Standings.of]
  rw [resolve_fst]
  cases hraw : index.outline.lookupType? use.name with
  | some node =>
      exact Outline.resolve_path hraw (hground.well.path?_of_lookup_type? hraw) huse
        (fun _ hstart => absurd hstart (Option.some_ne_none _).symm) hstatus
  | none =>
      exact hground.resolve_imported hfile hmethod hin hsingle hkeyword hraw himport hparams hstatus
        (fun classId hclassId hclass =>
          (hclasses classId hclassId hclass).congr (fun _ _ => rfl))

/-- A package that declares a class, and a nested class of the package whose file imports two
classes of the same name from elsewhere. -/
def importingFiles : List FileDecl :=
  [{ path := ⟨"p/Foo.java"⟩, package := "p", classes := [{ name := "Foo" }] },
   { path := ⟨"p/B.java"⟩
     package := "p"
     classes := [{ name := "B", classes := [{ name := "C" }] }] },
   { path := ⟨"p/User.java"⟩
     package := "p"
     imports := ["p.*", "a.b.Foo", "c.Foo"]
     classes :=
       [{ name := "User"
          supertypes := [.text "B"]
          typeParams := [{ name := "T", bounds := [.text "B"] }]
          classes :=
            [{ name := "Inner"
               methods :=
                 [{ name := "m"
                    returnType := .text "Foo[]"
                    typeParams := [{ name := "K" }] }] }] }] }]

/-- The method means the first of the two imports, of which nothing is indexed, and not the class
of its package; the supertype of the class around it is resolved on the way. -/
theorem import_stands_before_own_class :
    ∃ index, afterHistory (importingFiles.map .insertFile) = index ∧
      (index.outline.lookupType? "p.Foo").isSome = true ∧
      ((index.resolve .live (.returnType 11) none {}).2.1.standing ⟨8, .supertype 0⟩).canonical? =
        some "p.B" ∧
      (index.resolve .live (.returnType 11) none {}).1 = .resolved "a.b.Foo" := by
  have hbefore : ∃ index, afterHistory (importingFiles.map .insertFile) = index ∧
      (index.outline.lookupType? "p.Foo").isSome = true ∧
      (index.outline.lookupType? "Foo").isSome = false ∧
      index.outline.element? 7 = some (.file ⟨"p/User.java"⟩ "p"
        [⟨"p", true⟩, ⟨"a.b.Foo", false⟩, ⟨"c.Foo", false⟩]) ∧
      index.outline.element? 11 = some (.method "m" ⟨"Foo", true⟩) ∧
      index.outline.parent? 11 = some 10 ∧ index.outline.parent? 10 = some 8 ∧
      index.outline.parent? 8 = some 7 ∧
      (∀ param ∈ index.outline.frames 11,
        Scope.isParameterNamed index.outline "Foo" param = false) ∧
      (∀ owner ∈ index.outline.frames 11, ∀ param ∈ index.outline.typeParameters owner,
        Scope.isParameterNamed index.outline "Foo" param = false) ∧
      ((index.resolve .live (.returnType 11) none {}).2.1.standing ⟨8, .supertype 0⟩).canonical? =
        some "p.B" ∧
      ∀ classId ∈ index.outline.frames 11, index.outline.kind? classId = some .classDecl →
        index.outline.Leaves ((index.resolve .live (.returnType 11) none {}).2.1.pass {}) "Foo"
          classId := ⟨_, rfl, by decide +kernel⟩
  obtain ⟨index, hbuilt, hown, hraw, hfile, hmethod, hinner, houter, htop, haround, hbelow,
    hsupertype, hclasses⟩ := hbefore
  have himport : ([⟨"p", true⟩, ⟨"a.b.Foo", false⟩, ⟨"c.Foo", false⟩] : List Import).find?
      (fun i => !i.isWildcard && i.simpleName == "Foo") = some ⟨"a.b.Foo", false⟩ := by
    decide +kernel
  have hanswer := single_import_stands_first hbuilt hfile hmethod
    (.head hinner (.head houter (.single htop))) (by decide) (by decide) himport
    (fun param hscope => by
      rcases hscope with hparam | ⟨owner, howner, -, hparam⟩
      · exact haround param hparam
      · exact hbelow owner howner param hparam) hclasses
  rw [hraw] at hanswer
  exact ⟨index, hbuilt, hown, hsupertype, hanswer⟩

/-- A class of the default package, and another one whose file imports a class of the same name. -/
def defaultPackageFiles : List FileDecl :=
  [{ path := ⟨"Foo.java"⟩, classes := [{ name := "Foo" }] },
   { path := ⟨"User.java"⟩
     imports := ["a.b.Foo"]
     classes := [{ name := "User", methods := [{ name := "m", returnType := .text "Foo" }] }] }]

/-- A class whose file imports a class, and a class of the same name in a package that has the path
of the first one. -/
def classPathPackageFiles : List FileDecl :=
  [{ path := ⟨"p/User.java"⟩
     package := "p"
     imports := ["a.b.Foo"]
     classes := [{ name := "User", methods := [{ name := "m", returnType := .text "Foo" }] }] },
   { path := ⟨"p/User/Foo.java"⟩, package := "p.User", classes := [{ name := "Foo" }] }]

/-- A class that extends another one, and a class in a package that has the path of that one. The
file of the first class imports a class of the same name as the last. -/
def supertypePathPackageFiles : List FileDecl :=
  [{ path := ⟨"q/S.java"⟩, package := "q", classes := [{ name := "S" }] },
   { path := ⟨"q/S/Foo.java"⟩, package := "q.S", classes := [{ name := "Foo" }] },
   { path := ⟨"p/User.java"⟩
     package := "p"
     imports := ["a.b.Foo"]
     classes :=
       [{ name := "User"
          supertypes := [.text "q.S"]
          methods := [{ name := "m", returnType := .text "Foo" }] }] }]

/-- Three classes that stand before a single import, though no class is nested or inherited and
there are no type parameters: one of the default package, to which the file belongs, and one of a
package that has the path of the class around the method or that of its supertype. -/
theorem classes_overtake_import :
    (let index := afterHistory (defaultPackageFiles.map .insertFile)
     index.outline.element? 3 = some (.file ⟨"User.java"⟩ "" [⟨"a.b.Foo", false⟩]) ∧
      index.outline.frames 5 = [5, 4, 3] ∧
      index.outline.element? 4 = some (.classDecl "User" []) ∧
      index.outline.element? 5 = some (.method "m" ⟨"Foo", false⟩) ∧
      index.outline.childrenOfKind 4 .classDecl = [] ∧
      index.outline.typeParameters 4 = [] ∧ index.outline.typeParameters 5 = [] ∧
      (index.resolve .live (.returnType 5) none {}).1 = .resolved "Foo" ∧
      (index.resolve .batch (.returnType 5) none {}).1 = .resolved "Foo") ∧
    (let index := afterHistory (classPathPackageFiles.map .insertFile)
     index.outline.element? 2 = some (.file ⟨"p/User.java"⟩ "p" [⟨"a.b.Foo", false⟩]) ∧
      index.outline.frames 4 = [4, 3, 2] ∧
      index.outline.element? 3 = some (.classDecl "User" []) ∧
      index.outline.element? 4 = some (.method "m" ⟨"Foo", false⟩) ∧
      index.outline.childrenOfKind 3 .classDecl = [] ∧
      index.outline.typeParameters 3 = [] ∧ index.outline.typeParameters 4 = [] ∧
      (index.resolve .live (.returnType 4) none {}).1 = .resolved "p.User.Foo" ∧
      (index.resolve .batch (.returnType 4) none {}).1 = .resolved "p.User.Foo") ∧
    let index := afterHistory (supertypePathPackageFiles.map .insertFile)
    index.outline.element? 8 = some (.file ⟨"p/User.java"⟩ "p" [⟨"a.b.Foo", false⟩]) ∧
      index.outline.frames 10 = [10, 9, 8] ∧
      index.outline.element? 9 = some (.classDecl "User" [⟨"q.S", false⟩]) ∧
      index.outline.element? 10 = some (.method "m" ⟨"Foo", false⟩) ∧
      index.outline.childrenOfKind 9 .classDecl = [] ∧
      index.outline.lookupType? "q.S" = some 3 ∧
      index.outline.element? 3 = some (.classDecl "S" []) ∧
      index.outline.childrenOfKind 3 .classDecl = [] ∧
      index.outline.typeParameters 9 = [] ∧ index.outline.typeParameters 10 = [] ∧
      (index.resolve .live (.returnType 10) none {}).1 = .resolved "q.S.Foo" ∧
      (index.resolve .batch (.returnType 10) none {}).1 = .resolved "q.S.Foo" := by
  decide +kernel

end Index

end CanonicalNames
