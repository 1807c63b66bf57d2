import CanonicalNames.Grouping.Basic
import CanonicalNames.Listing
import CanonicalNames.Proofs.Json.Faithful

/-!
# Declarations, listings and groupings survive as documents

What is written as a document is read back as it was: source files with classes nested to any
depth, listings, and groupings (`documents_are_read_back`). Each kind of record has a faithful
encoder and decoder, which is shown for the kinds that it is made of first. Classes hold classes, so
that they need an induction over the nesting (`ClassDecl.decoder_to_json`), in which the room for
the document shrinks by one for the class and by one for the list around it.
-/

namespace CanonicalNames

open Json (Faithful faithful_text faithful_flag faithful_strings)

/-! ## Declarations -/

/-- A text is read back as a text, and a detailed type with both of its fields. -/
theorem WrittenType.faithful : Faithful toJson decoder := by
  rintro (written | ⟨name, isArray⟩) room hroom
  · rfl
  · obtain ⟨inner, rfl, hfields, hready⟩ :=
      Json.exists_fields ["name", "array"] (by decide) rfl hroom
    have hname := faithful_text.required hready 0 rfl
    have harray := faithful_flag.with_default hready 1 rfl false
    simp [toJson, decoder, hfields, hname, harray, Json.isReadable, bind, Except.bind, pure,
      Except.pure]

theorem TypeParamDecl.faithful : Faithful toJson decoder := by
  intro param room hroom
  obtain ⟨inner, rfl, hfields, hready⟩ :=
    Json.exists_fields ["name", "bounds"] (by decide) rfl hroom
  have hname := faithful_text.required hready 0 rfl
  have hbounds := WrittenType.faithful.list.with_default hready 1 rfl []
  simp only [decoder, toJson, hfields, hname, hbounds, bind, Except.bind, pure, Except.pure]

theorem MethodDecl.faithful : Faithful toJson decoder := by
  intro method room hroom
  obtain ⟨inner, rfl, hfields, hready⟩ :=
    Json.exists_fields ["name", "return_type", "type_parameters"] (by decide) rfl hroom
  have hname := faithful_text.required hready 0 rfl
  have hreturn := WrittenType.faithful.required hready 1 rfl
  have hparams := TypeParamDecl.faithful.list.with_default hready 2 rfl []
  simp only [decoder, toJson, hfields, hname, hreturn, hparams, bind, Except.bind, pure,
    Except.pure]

namespace ClassDecl

/-- An array of classes is entered if there is room for it. -/
theorem list_decoder_array {items : List Json} {room : Nat}
    (hroom : (Json.array items).depth ≤ room) :
    ∃ inner, Json.itemsDepth items ≤ inner ∧
      listDecoder room (.array items) = items.mapM (decoder inner) := by
  rw [Json.depth] at hroom
  cases room with
  | zero => omega
  | succ inner => exact ⟨inner, by omega, by rw [listDecoder]⟩

mutual

/-- A class is read back with all classes nested in it. -/
theorem decoder_to_json (decl : ClassDecl) {room : Nat} (hroom : decl.toJson.depth ≤ room) :
    decoder room decl.toJson = .ok decl := by
  match decl with
  | ⟨name, supertypes, typeParams, methods, classes⟩ =>
      rw [toJson] at hroom ⊢
      obtain ⟨inner, rfl, hfields, hready⟩ := Json.exists_fields fieldNames (by decide) rfl hroom
      have hname := faithful_text.required hready 0 rfl
      have hsupertypes := WrittenType.faithful.list.with_default hready 1 rfl []
      have hparams := TypeParamDecl.faithful.list.with_default hready 2 rfl []
      have hmethods := MethodDecl.faithful.list.with_default hready 3 rfl []
      obtain ⟨hnested, hdepth⟩ := hready.find? 4 rfl
      obtain ⟨innermost, hinnermost, hclasses⟩ := list_decoder_array hdepth
      rw [map_m_decoder classes hinnermost] at hclasses
      simp only [decoder, hfields, hname, hsupertypes, hparams, hmethods, hnested, hclasses, bind,
        Except.bind, pure, Except.pure]

/-- Classes are read back in order. -/
theorem map_m_decoder (classes : List ClassDecl) {room : Nat}
    (hroom : Json.itemsDepth (listToJson classes) ≤ room) :
    (listToJson classes).mapM (decoder room) = .ok classes := by
  match classes with
  | [] => rfl
  | decl :: rest =>
      rw [listToJson, Json.itemsDepth, Nat.max_le] at hroom
      rw [listToJson, List.mapM_cons, decoder_to_json decl hroom.1, map_m_decoder rest hroom.2]
      rfl

end

theorem faithful_list : Faithful (fun classes => .array (listToJson classes)) listDecoder := by
  intro classes room hroom
  obtain ⟨inner, hinner, hclasses⟩ := list_decoder_array hroom
  exact hclasses.trans (map_m_decoder classes hinner)

end ClassDecl

theorem FileDecl.faithful : Faithful toJson decoder := by
  intro file room hroom
  obtain ⟨inner, rfl, hfields, hready⟩ :=
    Json.exists_fields ["path", "package", "imports", "classes"] (by decide) rfl hroom
  have hpath := faithful_text.required hready 0 rfl
  have hpackage := faithful_text.with_default hready 1 rfl ""
  have himports := faithful_strings.with_default hready 2 rfl []
  have hclasses := ClassDecl.faithful_list.with_default hready 3 rfl []
  simp only [decoder, toJson, hfields, hpath, hpackage, himports, hclasses, bind, Except.bind, pure,
    Except.pure]

/-! ## Listings -/

theorem ListedType.faithful : Faithful toJson decoder := by
  intro entry room hroom
  obtain ⟨inner, rfl, hfields, hready⟩ := Json.exists_fields fieldNames (by decide) rfl hroom
  -- The decoder reads the spelling of a path, if there is one, before it makes a path of it.
  have hspelling : Json.ofOption (fun path => .string path.spelling) entry.file =
      Json.ofOption .string (entry.file.map SourcePath.spelling) := by
    cases entry.file <;> rfl
  have hpath : (entry.file.map SourcePath.spelling).map SourcePath.mk = entry.file := by
    cases entry.file <;> rfl
  have hpackage := faithful_text.with_default hready 0 rfl ""
  have hname := faithful_text.required hready 1 rfl
  have hfile := (faithful_text.optional (fun _ => nofun)).with_default hready 2
    (congrArg (fun document => some ("file", document)) hspelling) none
  have himports := faithful_strings.with_default hready 3 rfl []
  have hsupertypes := WrittenType.faithful.list.with_default hready 4 rfl []
  have hparams := TypeParamDecl.faithful.list.with_default hready 5 rfl []
  have hmethods := MethodDecl.faithful.list.with_default hready 6 rfl []
  simp only [decoder, toJson, hfields, hpackage, hname, hfile, hpath, himports, hsupertypes,
    hparams, hmethods, bind, Except.bind, pure, Except.pure]

theorem Listing.faithful : Faithful toJson decoder := by
  intro listing room hroom
  obtain ⟨inner, rfl, hfields, hready⟩ := Json.exists_fields ["types"] (by decide) rfl hroom
  have htypes := ListedType.faithful.list.with_default hready 0 rfl []
  simp only [decoder, toJson, hfields, htypes, bind, Except.bind, pure, Except.pure]

/-! ## Groupings -/

theorem Group.faithful : Faithful toJson decoder := by
  intro group room hroom
  obtain ⟨inner, rfl, hfields, hready⟩ :=
    Json.exists_fields ["name", "types", "prefixes"] (by decide) rfl hroom
  have hname := faithful_text.required hready 0 rfl
  have htypes := faithful_strings.with_default hready 1 rfl []
  have hprefixes := faithful_strings.with_default hready 2 rfl []
  simp only [decoder, toJson, hfields, hname, htypes, hprefixes, bind, Except.bind, pure,
    Except.pure]

theorem Grouping.faithful : Faithful toJson decoder := by
  intro grouping room hroom
  obtain ⟨inner, rfl, hfields, hready⟩ :=
    Json.exists_fields ["groups", "primitive_group", "array_group", "unknown_group"] (by decide) rfl
      hroom
  have hgroups := Group.faithful.list.with_default hready 0 rfl []
  have hprimitive := faithful_text.with_default hready 1 rfl "primitive"
  have harray := faithful_text.with_default hready 2 rfl "array"
  have hunknown := faithful_text.with_default hready 3 rfl "unknown"
  simp only [decoder, toJson, hfields, hgroups, hprimitive, harray, hunknown, bind, Except.bind,
    pure, Except.pure]

/-- Source files, listings and groupings are read back from their documents as they were, and so is
every written type, in the form that it was given in. -/
theorem documents_are_read_back :
    (∀ file : FileDecl, Json.decode FileDecl.decoder file.toJson = .ok file) ∧
      (∀ listing : Listing, Json.decode Listing.decoder listing.toJson = .ok listing) ∧
      (∀ grouping : Grouping, Json.decode Grouping.decoder grouping.toJson = .ok grouping) ∧
      (∀ written : String,
        Json.decode WrittenType.decoder (WrittenType.text written).toJson = .ok (.text written)) ∧
      ∀ (name : String) (isArray : Bool),
        Json.decode WrittenType.decoder (WrittenType.detailed name isArray).toJson =
          .ok (.detailed name isArray) :=
  ⟨FileDecl.faithful.decode_eq, Listing.faithful.decode_eq, Grouping.faithful.decode_eq,
    fun _ => WrittenType.faithful.decode_eq _, fun _ _ => WrittenType.faithful.decode_eq _⟩

end CanonicalNames
