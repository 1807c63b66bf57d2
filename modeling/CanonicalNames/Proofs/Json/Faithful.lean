import CanonicalNames.Json.Decode
import CanonicalNames.Proofs.Table

/-!
# Writing and reading back

An encoder and a decoder are faithful to each other if every value is read back from its document
wherever there is room for it (`Faithful`). Faithful pairs for texts and truth values, for lists and
for optional values are put together from each other; a record is read back field by field
(`Faithful.required`, `Faithful.with_default`) once its document is entered
(`exists_fields`).
-/

namespace CanonicalNames.Json

variable {α : Type} {encode : α → Json} {decoder : Decoder α}

/-- Every value is read back from its document, whatever room there is beyond its depth. -/
def Faithful (encode : α → Json) (decoder : Decoder α) : Prop :=
  ∀ value room, (encode value).depth ≤ room → decoder room (encode value) = .ok value

theorem Faithful.decode_eq (h : Faithful encode decoder) (value : α) :
    decode decoder (encode value) = .ok value :=
  h value _ (Nat.le_refl _)

theorem faithful_text : Faithful Json.string text :=
  fun _ _ _ => rfl

theorem faithful_flag : Faithful Json.bool flag :=
  fun _ _ _ => rfl

/-! ## Lists and optional values -/

theorem depth_le_of_mem {item : Json} {items : List Json} (h : item ∈ items) :
    item.depth ≤ itemsDepth items := by
  induction h with
  | head rest => exact Nat.le_max_left ..
  | tail first _ ih => exact Nat.le_trans ih (Nat.le_max_right ..)

/-- Values that are read back one by one are read back in a row. -/
theorem map_m_ok {β : Type} {read : β → Except Fault α} {write : α → β} {values : List α}
    (h : ∀ value ∈ values, read (write value) = .ok value) :
    (values.map write).mapM read = .ok values := by
  induction values with
  | nil => rfl
  | cons value rest ih =>
      rw [List.map_cons, List.mapM_cons, h value (List.mem_cons_self ..),
        ih (fun other hother => h other (List.mem_cons_of_mem _ hother))]
      rfl

theorem Faithful.list (h : Faithful encode decoder) :
    Faithful (fun values => .array (values.map encode)) (list decoder) := by
  intro values room hroom
  rw [depth] at hroom
  cases room with
  | zero => omega
  | succ room =>
      refine map_m_ok fun value hvalue => h value room ?_
      have hmem : encode value ∈ values.map encode := List.mem_map_of_mem hvalue
      have hdepth := depth_le_of_mem hmem
      omega

theorem faithful_strings : Faithful strings (list text) :=
  faithful_text.list

/-- An optional value is read back if no value is written as `null`. -/
theorem Faithful.optional (h : Faithful encode decoder) (hnull : ∀ value, encode value ≠ .null) :
    Faithful (ofOption encode) (optional decoder) := by
  intro value room hroom
  cases value with
  | none => rfl
  | some value =>
      rw [ofOption, Json.optional, h value room hroom]
      · rfl
      · exact hnull value

/-! ## Records -/

theorem depth_le_of_mem_fields {name : String} {value : Json} {fields : List (String × Json)}
    (h : (name, value) ∈ fields) : value.depth ≤ fieldsDepth fields := by
  induction fields with
  | nil => cases h
  | cons first rest ih =>
      rw [fieldsDepth]
      rcases List.mem_cons.1 h with rfl | hrest
      · exact Nat.le_max_left ..
      · exact Nat.le_trans (ih hrest) (Nat.le_max_right ..)

theorem repeated?_of_nodup {names : List String} (h : names.Nodup) : repeated? names = none := by
  induction names with
  | nil => rfl
  | cons name rest ih =>
      obtain ⟨hname, hrest⟩ := List.nodup_cons.1 h
      simp [repeated?, hname, ih hrest]

/-- The fields of a record that is written with all of its names, each once. -/
theorem fields_object {names : List String} {values : List (String × Json)}
    (hnames : values.map Prod.fst = names) (hnodup : names.Nodup) (room : Nat) :
    fields names (room + 1) (.object values) = .ok { room, values } := by
  have hknown : values.filter (fun field => names.contains field.1) = values := by
    refine List.filter_eq_self.2 fun field hfield => ?_
    rw [List.contains_iff_mem, ← hnames]
    exact List.mem_map_of_mem hfield
  simp only [fields, hknown]
  rw [hnames, repeated?_of_nodup hnodup]

/-- Fields as they are written: no name comes twice, and there is room for the values. -/
structure Fields.Ready (fields : Fields) : Prop where
  nodup : (fields.values.map Prod.fst).Nodup
  room : fieldsDepth fields.values ≤ fields.room

/-- The document of a record is entered, and its fields are ready. -/
theorem exists_fields (names : List String) (hnodup : names.Nodup)
    {values : List (String × Json)} (hnames : values.map Prod.fst = names) {room : Nat}
    (hroom : (Json.object values).depth ≤ room) :
    ∃ inner, room = inner + 1 ∧ fields names room (.object values) = .ok ⟨inner, values⟩ ∧
      Fields.Ready ⟨inner, values⟩ := by
  rw [depth] at hroom
  cases room with
  | zero => omega
  | succ inner =>
      refine ⟨inner, rfl, fields_object hnames hnodup inner, hnames ▸ hnodup, ?_⟩
      show fieldsDepth values ≤ inner
      omega

section

variable {fields : Fields} {name : String}

/-- A field is found by its name, and there is room for its document. -/
theorem Fields.Ready.find? (h : fields.Ready) (index : Nat) {document : Json}
    (hfield : fields.values[index]? = some (name, document)) :
    fields.find? name = some document ∧ document.depth ≤ fields.room := by
  have hmem := List.mem_of_getElem? hfield
  have hunique : Table.Unique (⟨fields.values⟩ : Table String Json) :=
    (List.pairwise_map.1 h.nodup).imp beq_eq_false_iff_ne.2
  exact ⟨hunique.find?_eq_some_iff.2 ⟨_, hmem, BEq.refl name, rfl⟩,
    Nat.le_trans (depth_le_of_mem_fields hmem) h.room⟩

variable {value : α}

theorem Faithful.required (h : Faithful encode decoder) (hready : fields.Ready) (index : Nat)
    (hfield : fields.values[index]? = some (name, encode value)) :
    fields.required name decoder = .ok value := by
  obtain ⟨hfind, hroom⟩ := hready.find? index hfield
  rw [Fields.required, hfind]
  exact h value _ hroom

theorem Faithful.with_default (h : Faithful encode decoder) (hready : fields.Ready) (index : Nat)
    (hfield : fields.values[index]? = some (name, encode value)) (default : α) :
    fields.withDefault name default decoder = .ok value := by
  obtain ⟨hfind, hroom⟩ := hready.find? index hfield
  rw [Fields.withDefault, hfind]
  exact h value _ hroom

end

end CanonicalNames.Json
