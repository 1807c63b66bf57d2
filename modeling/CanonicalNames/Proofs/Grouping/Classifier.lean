import CanonicalNames.Grouping.Classifier
import CanonicalNames.Proofs.Table

/-!
# The groups of a classifier

Adding a name only once leaves it with the first group that lists it (`find?_exact`). Whatever a
classifier answers is one of its groups (`classify_mem_group_names`), and the groups of a grouping
without faults have different names, also where a fallback group is one that the grouping lists
(`nodup_group_names`).
-/

namespace CanonicalNames

namespace Classifier

variable {grouping : Grouping} {group : String}

/-- Under a name that had no group before, the group is found under which it is listed now. -/
theorem find?_list_names (exact : Table String String) (names : List String) (name : String) :
    (listNames group exact names).find? name =
      (exact.find? name).or (if names.contains name then some group else none) := by
  unfold listNames
  induction names generalizing exact with
  | nil => simp
  | cons first rest ih =>
      rw [List.foldl_cons, ih, List.contains_cons, Table.contains_eq_is_some_find?]
      by_cases hname : name = first
      · subst hname
        cases hfound : exact.find? name with
        | none => simp [Table.find?_insert]
        | some found => simp [hfound]
      · have hfirst : (first == name) = false := by simpa using Ne.symm hname
        have hkept : (if (exact.find? first).isSome then exact else exact.insert first group).find?
            name = exact.find? name := by
          split
          · rfl
          · rw [Table.find?_insert, hfirst]
            rfl
        rw [hkept, beq_eq_false_iff_ne.2 hname, Bool.false_or]

/-- The index has a name under the first group that lists it. -/
theorem find?_exact (grouping : Grouping) (name : String) :
    (ofGrouping grouping).exact.find? name =
      (grouping.groups.find? (fun group => group.types.contains name)).map Group.name := by
  have hfold : ∀ (groups : List Group) (exact : Table String String),
      (groups.foldl (fun exact group => listNames group.name exact group.types) exact).find? name =
        (exact.find? name).or
          ((groups.find? (fun group => group.types.contains name)).map Group.name) := by
    intro groups
    induction groups with
    | nil => simp
    | cons first rest ih =>
        intro exact
        rw [List.foldl_cons, ih, find?_list_names, Option.or_assoc, List.find?_cons]
        cases first.types.contains name <;> simp
  exact (hfold _ _).trans (Option.none_or ..)

/-- A group that lists a name is a group of the grouping. -/
theorem mem_of_find?_exact {name : String}
    (h : (ofGrouping grouping).exact.find? name = some group) :
    group ∈ grouping.groups.map Group.name := by
  rw [find?_exact] at h
  obtain ⟨found, hfound, rfl⟩ := Option.map_eq_some_iff.1 h
  exact List.mem_map_of_mem (List.mem_of_find?_eq_some hfound)

/-- A group that has a prefix is a group of the grouping. -/
theorem mem_of_mem_prefixes {entry : String × String}
    (h : entry ∈ (ofGrouping grouping).prefixes) : entry.2 ∈ grouping.groups.map Group.name := by
  obtain ⟨found, hfound, hentry⟩ := List.mem_flatMap.1 (List.mem_mergeSort.1 h)
  obtain ⟨start, -, rfl⟩ := List.mem_map.1 hentry
  exact List.mem_map_of_mem hfound

/-- The names of the groups that are listed and of the three fallback groups. -/
theorem mem_group_names_iff : group ∈ (ofGrouping grouping).groupNames ↔
    group ∈ grouping.groups.map Group.name ∨ group = grouping.arrayGroup ∨
      group = grouping.primitiveGroup ∨ group = grouping.unknownGroup := by
  rw [← List.contains_iff_mem, groupNames, contains_foldl_append_new, Bool.or_eq_true,
    List.contains_iff_mem, List.contains_iff_mem]
  simp [ofGrouping]

/-- Every answer is one of the groups. -/
theorem classify_mem_group_names (grouping : Grouping) (canonical : Option String)
    (isArray : Bool) :
    (ofGrouping grouping).classify canonical isArray ∈ (ofGrouping grouping).groupNames := by
  rw [mem_group_names_iff]
  unfold classify
  split
  · exact Or.inr (Or.inr (Or.inr rfl))
  · split
    · next hfound => exact Or.inl (mem_of_find?_exact hfound)
    · split
      · next hfound => exact Or.inl (mem_of_mem_prefixes (List.mem_of_find?_eq_some hfound))
      · rw [fallback]
        split
        · exact Or.inr (Or.inl rfl)
        · split
          · exact Or.inr (Or.inr (Or.inl rfl))
          · exact Or.inr (Or.inr (Or.inr rfl))

end Classifier

/-- Groups without faults have names that were not seen before and are apart. -/
theorem Grouping.distinct_of_group_fault {seen : List String} {groups : List Group}
    (h : groupFault? seen groups = none) :
    (∀ name ∈ groups.map Group.name, seen.contains name = false) ∧
      Distinct (groups.map Group.name) := by
  induction groups generalizing seen with
  | nil => exact ⟨nofun, List.Pairwise.nil⟩
  | cons first rest ih =>
      rw [groupFault?] at h
      split at h
      · cases h
      · split at h
        · cases h
        · next hnew =>
            obtain ⟨hseen, hdistinct⟩ := ih h
            rw [Bool.not_eq_true] at hnew
            simp only [List.contains_cons, Bool.or_eq_false_iff] at hseen
            rw [List.map_cons, distinct_cons, List.forall_mem_cons]
            refine ⟨⟨hnew, fun name hname => (hseen name hname).2⟩, fun name hname => ?_, hdistinct⟩
            rw [BEq.comm]
            exact (hseen name hname).1

/-- A valid grouping has no faults. -/
theorem Grouping.fault?_of_validate {grouping : Grouping}
    (h : grouping.validate = .ok grouping) : grouping.fault? = none := by
  unfold validate at h
  cases hfault : grouping.fault? with
  | none => rfl
  | some fault => simp [hfault] at h

/-- The groups of a grouping without faults have different names. -/
theorem Classifier.nodup_group_names {grouping : Grouping} (h : grouping.fault? = none) :
    (ofGrouping grouping).groupNames.Nodup := by
  unfold Grouping.fault? at h
  split at h
  · cases h
  · exact ((Grouping.distinct_of_group_fault h).2.foldl_append_new _).nodup

end CanonicalNames
