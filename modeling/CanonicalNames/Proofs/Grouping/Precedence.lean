import CanonicalNames.Proofs.Grouping.Classifier
import CanonicalNames.Proofs.Resolution.Meaning

/-!
# The precedence of groups

`Grouping.Places` says which group a reference belongs to, in terms of the grouping alone: the
first group that lists the name, else the first group with a longest prefix of it, else a fallback
group. A classifier answers from its index instead, and the answers are the same
(`classify_follows_precedence`): sorting prefixes by length keeps those of equal length in order, so
that the first match in the index is the longest and, of several, the earliest
(`first_of_find?_prefixes`).
-/

namespace CanonicalNames

/-- Some prefix of a group starts a name and takes the given number of bytes. -/
def Group.Starts (group : Group) (name : String) (size : Nat) : Prop :=
  ∃ start ∈ group.prefixes, start.toList <+: name.toList ∧ start.utf8ByteSize = size

instance (group : Group) (name : String) (size : Nat) : Decidable (group.Starts name size) :=
  inferInstanceAs (Decidable (∃ start ∈ group.prefixes,
    start.toList <+: name.toList ∧ start.utf8ByteSize = size))

namespace Grouping

/-- `grouping.First has group` says that `group` has a property and that no group declared before it
does. -/
def First (grouping : Grouping) (has : Group → Prop) (group : Group) : Prop :=
  ∃ before after, grouping.groups = before ++ group :: after ∧ has group ∧
    ∀ other ∈ before, ¬ has other

/-- No group lists a name. -/
def Unlisted (grouping : Grouping) (name : String) : Prop :=
  ∀ group ∈ grouping.groups, name ∉ group.types

instance (grouping : Grouping) (name : String) : Decidable (grouping.Unlisted name) :=
  inferInstanceAs (Decidable (∀ group ∈ grouping.groups, name ∉ group.types))

/-- No group has a prefix of a name. -/
def Unstarted (grouping : Grouping) (name : String) : Prop :=
  ∀ group ∈ grouping.groups, ∀ size, ¬ group.Starts name size

/-- `grouping.Places canonical isArray group` says that a reference with the given canonical name,
if it has one, belongs to the group with the name `group`. -/
inductive Places (grouping : Grouping) : Option String → Bool → String → Prop where
  | unresolved (isArray) : Places grouping none isArray grouping.unknownGroup
  | listed (name isArray group) :
      grouping.First (fun group => name ∈ group.types) group →
      Places grouping (some name) isArray group.name
  | started (name isArray group size) :
      grouping.Unlisted name →
      (∀ other ∈ grouping.groups, ∀ less, other.Starts name less → less ≤ size) →
      grouping.First (fun group => group.Starts name size) group →
      Places grouping (some name) isArray group.name
  | array (name) :
      grouping.Unlisted name → grouping.Unstarted name →
      Places grouping (some name) true grouping.arrayGroup
  | primitive (name) :
      grouping.Unlisted name → grouping.Unstarted name → IsKeyword name →
      Places grouping (some name) false grouping.primitiveGroup
  | unknown (name) :
      grouping.Unlisted name → grouping.Unstarted name → ¬ IsKeyword name →
      Places grouping (some name) false grouping.unknownGroup

variable {grouping : Grouping} {group : Group} {name : String}

theorem first_iff {has : Group → Prop} [DecidablePred has] :
    grouping.First has group ↔
      grouping.groups.find? (fun group => decide (has group)) = some group := by
  rw [List.find?_eq_some_iff_append]
  simp only [First, decide_eq_true_eq, Bool.not_eq_true', decide_eq_false_iff_not]
  constructor
  · rintro ⟨before, after, hgroups, hhas, hbefore⟩
    exact ⟨hhas, before, after, hgroups, hbefore⟩
  · rintro ⟨hhas, before, after, hgroups, hbefore⟩
    exact ⟨before, after, hgroups, hhas, hbefore⟩

theorem First.unique {has : Group → Prop} {other : Group} (h : grouping.First has group)
    (hother : grouping.First has other) : group = other := by
  classical
  exact Option.some.inj ((first_iff.1 h).symm.trans (first_iff.1 hother))

theorem First.mem {has : Group → Prop} (h : grouping.First has group) :
    group ∈ grouping.groups := by
  obtain ⟨before, after, hgroups, -⟩ := h
  simp [hgroups]

theorem First.has {has : Group → Prop} (h : grouping.First has group) : has group := by
  obtain ⟨-, -, -, hhas, -⟩ := h
  exact hhas

theorem First.not_unlisted (h : grouping.First (fun group => name ∈ group.types) group) :
    ¬ grouping.Unlisted name :=
  fun hunlisted => hunlisted group h.mem h.has

theorem First.not_unstarted {size : Nat}
    (h : grouping.First (fun group => group.Starts name size) group) :
    ¬ grouping.Unstarted name :=
  fun hunstarted => hunstarted group h.mem size h.has

/-- A name that no group takes belongs to a fallback group. -/
theorem places_fallback (hunlisted : grouping.Unlisted name) (hunstarted : grouping.Unstarted name)
    (isArray : Bool) :
    grouping.Places (some name) isArray (Classifier.fallback grouping name isArray) := by
  unfold Classifier.fallback
  cases isArray with
  | true => exact .array name hunlisted hunstarted
  | false =>
      by_cases hkeyword : IsKeyword name
      · simpa [is_primitive_iff, hkeyword] using .primitive name hunlisted hunstarted hkeyword
      · simpa [is_primitive_iff, hkeyword] using .unknown name hunlisted hunstarted hkeyword

theorem Places.eq_fallback {isArray : Bool} {found : String}
    (h : grouping.Places (some name) isArray found) (hunlisted : grouping.Unlisted name)
    (hunstarted : grouping.Unstarted name) : found = Classifier.fallback grouping name isArray := by
  cases h with
  | listed _ _ _ hfirst => exact absurd hunlisted hfirst.not_unlisted
  | started _ _ _ _ _ _ hfirst => exact absurd hunstarted hfirst.not_unstarted
  | array => rfl
  | primitive _ _ _ hkeyword => simp [Classifier.fallback, is_primitive_iff, hkeyword]
  | unknown _ _ _ hkeyword => simp [Classifier.fallback, is_primitive_iff, hkeyword]

/-- A reference belongs to one group only. -/
theorem Places.unique {canonical : Option String} {isArray : Bool} {left right : String}
    (h : grouping.Places canonical isArray left)
    (hother : grouping.Places canonical isArray right) : left = right := by
  cases h with
  | unresolved => cases hother; rfl
  | listed _ _ _ hfirst =>
      cases hother with
      | listed _ _ _ hother => rw [hfirst.unique hother]
      | _ => exact absurd ‹_› hfirst.not_unlisted
  | started _ _ _ size hunlisted hmost hfirst =>
      cases hother with
      | listed _ _ _ hother => exact absurd hunlisted hother.not_unlisted
      | started _ _ _ size' _ hmost' hother =>
          have hsize : size = size' := Nat.le_antisymm (hmost' _ hfirst.mem _ hfirst.has)
            (hmost _ hother.mem _ hother.has)
          subst hsize
          rw [hfirst.unique hother]
      | _ => exact absurd ‹_› hfirst.not_unstarted
  | array _ hunlisted hunstarted => exact (hother.eq_fallback hunlisted hunstarted).symm
  | primitive _ hunlisted hunstarted hkeyword =>
      rw [hother.eq_fallback hunlisted hunstarted]
      simp [Classifier.fallback, is_primitive_iff, hkeyword]
  | unknown _ hunlisted hunstarted hkeyword =>
      rw [hother.eq_fallback hunlisted hunstarted]
      simp [Classifier.fallback, is_primitive_iff, hkeyword]

end Grouping

/-- Sorting leaves the first of some elements where it is among them, if the order does not tell
them apart. -/
theorem find?_merge_sort {α : Type} {le : α → α → Bool}
    (htrans : ∀ a b c, le a b = true → le b c = true → le a c = true)
    (htotal : ∀ a b, (le a b || le b a) = true) {wanted : α → Bool}
    (hwanted : ∀ a b, wanted a = true → wanted b = true → le a b = true) (elements : List α) :
    (elements.mergeSort le).find? wanted = elements.find? wanted := by
  have hpairwise : (elements.filter wanted).Pairwise (fun a b => le a b = true) :=
    List.pairwise_of_forall_mem_list (fun a ha b hb =>
      hwanted a b (List.mem_filter.1 ha).2 (List.mem_filter.1 hb).2)
  have hsublist : (elements.filter wanted).Sublist ((elements.mergeSort le).filter wanted) := by
    simpa using (List.sublist_mergeSort htrans htotal hpairwise List.filter_sublist).filter wanted
  have hlength := ((List.mergeSort_perm elements le).filter wanted).length_eq
  rw [← List.head?_filter, ← List.head?_filter, hsublist.eq_of_length hlength.symm]

namespace Classifier

variable {grouping : Grouping} {name : String}

/-! ## The index -/

theorem longer_trans (first second third : String × String)
    (h : decide (second.1.utf8ByteSize ≤ first.1.utf8ByteSize) = true)
    (hnext : decide (third.1.utf8ByteSize ≤ second.1.utf8ByteSize) = true) :
    decide (third.1.utf8ByteSize ≤ first.1.utf8ByteSize) = true :=
  decide_eq_true (Nat.le_trans (of_decide_eq_true hnext) (of_decide_eq_true h))

theorem longer_total (left right : String × String) :
    (decide (right.1.utf8ByteSize ≤ left.1.utf8ByteSize) ||
      decide (left.1.utf8ByteSize ≤ right.1.utf8ByteSize)) = true := by
  simpa using Nat.le_total ..

theorem starts_with_iff {start : String} :
    startsWith name start = true ↔ start.toList <+: name.toList :=
  List.isPrefixOf_iff_prefix

theorem mem_prefixes_iff {entry : String × String} :
    entry ∈ (ofGrouping grouping).prefixes ↔
      ∃ group ∈ grouping.groups, ∃ start ∈ group.prefixes, (start, group.name) = entry := by
  simp only [ofGrouping, List.mem_mergeSort, List.mem_flatMap, List.mem_map]

/-- Nothing in the index starts a name that no group has a prefix of. -/
theorem unstarted_of_find?_prefixes
    (h : (ofGrouping grouping).prefixes.find? (fun entry => startsWith name entry.1) = none) :
    grouping.Unstarted name := by
  rintro group hgroup size ⟨start, hstart, hname, -⟩
  have hentry := mem_prefixes_iff.2 ⟨group, hgroup, start, hstart, rfl⟩
  exact List.find?_eq_none.1 h _ hentry (starts_with_iff.2 hname)

/-- The first prefix of a name in the index is a longest one. -/
theorem size_le_of_find?_prefixes {entry : String × String}
    (h : (ofGrouping grouping).prefixes.find? (fun entry => startsWith name entry.1) = some entry)
    {other : String × String} (hother : other ∈ (ofGrouping grouping).prefixes)
    (hname : startsWith name other.1 = true) :
    other.1.utf8ByteSize ≤ entry.1.utf8ByteSize := by
  obtain ⟨-, before, after, hprefixes, hbefore⟩ := List.find?_eq_some_iff_append.1 h
  have hsorted : (ofGrouping grouping).prefixes.Pairwise (fun left right =>
      decide (right.1.utf8ByteSize ≤ left.1.utf8ByteSize) = true) :=
    List.pairwise_mergeSort longer_trans longer_total _
  rw [hprefixes] at hother hsorted
  rcases List.mem_append.1 hother with hother | hother
  · simpa [hname] using hbefore other hother
  · rcases List.mem_cons.1 hother with rfl | hother
    · exact Nat.le_refl _
    · exact of_decide_eq_true
        ((List.pairwise_cons.1 (List.pairwise_append.1 hsorted).2.1).1 other hother)

/-- The first prefix of a name in the index belongs to the first group with a prefix of its
length. -/
theorem first_of_find?_prefixes {entry : String × String}
    (h : (ofGrouping grouping).prefixes.find? (fun entry => startsWith name entry.1) =
      some entry) :
    ∃ group, entry.2 = group.name ∧
      grouping.First (fun group => group.Starts name entry.1.utf8ByteSize) group := by
  -- Among the prefixes of the greatest length the index has the order of the grouping.
  have hfirst : (ofGrouping grouping).prefixes.find? (fun other =>
      startsWith name other.1 && other.1.utf8ByteSize == entry.1.utf8ByteSize) = some entry := by
    obtain ⟨hname, before, after, hprefixes, hbefore⟩ := List.find?_eq_some_iff_append.1 h
    refine List.find?_eq_some_iff_append.2 ⟨by simpa using hname, before, after, hprefixes, ?_⟩
    intro other hother
    rw [Bool.not_and, hbefore other hother, Bool.true_or]
  unfold ofGrouping at hfirst
  rw [find?_merge_sort longer_trans longer_total, List.find?_flatMap] at hfirst
  · obtain ⟨before, group, after, hgroups, hentry, hbefore⟩ := List.findSome?_eq_some_iff.1 hfirst
    obtain ⟨start, hstart, rfl⟩ := List.mem_map.1 (List.mem_of_find?_eq_some hentry)
    have hname := List.find?_some h
    refine ⟨group, rfl, before, after, hgroups, ⟨start, hstart, starts_with_iff.1 hname, rfl⟩, ?_⟩
    rintro other hother ⟨start', hstart', hname', hsize⟩
    have hnone := List.find?_eq_none.1 (hbefore other hother) _ (List.mem_map_of_mem hstart')
    simp [starts_with_iff.2 hname', hsize] at hnone
  · intro left right hleft hright
    simp only [Bool.and_eq_true, beq_iff_eq] at hleft hright
    simp [hleft.2, hright.2]

/-- The answer of a classifier is a group that the reference belongs to. -/
theorem places_classify (grouping : Grouping) (canonical : Option String) (isArray : Bool) :
    grouping.Places canonical isArray ((ofGrouping grouping).classify canonical isArray) := by
  cases canonical with
  | none => exact .unresolved isArray
  | some name =>
      have hexact := find?_exact grouping name
      simp only [classify]
      cases hlisted : grouping.groups.find? (fun group => group.types.contains name) with
      | some group =>
          rw [hlisted] at hexact
          rw [hexact]
          refine .listed name isArray group (Grouping.first_iff.2 ?_)
          simpa using hlisted
      | none =>
          rw [hlisted] at hexact
          rw [hexact]
          have hunlisted : grouping.Unlisted name := by
            simpa [Grouping.Unlisted, List.find?_eq_none] using hlisted
          cases hfound : (ofGrouping grouping).prefixes.find?
              (fun entry => startsWith name entry.1) with
          | some entry =>
              obtain ⟨group, hgroup, hfirst⟩ := first_of_find?_prefixes hfound
              simp only [Option.map_none, hgroup]
              refine .started name isArray group _ hunlisted ?_ hfirst
              rintro other hother _ ⟨start, hstart, hname, rfl⟩
              exact size_le_of_find?_prefixes hfound
                (mem_prefixes_iff.2 ⟨other, hother, start, hstart, rfl⟩) (starts_with_iff.2 hname)
          | none =>
              exact Grouping.places_fallback hunlisted (unstarted_of_find?_prefixes hfound) isArray

/-- A classifier of a grouping without faults answers by precedence: its answer is the one group
that a reference belongs to, which is always among the group names, and these are all different. -/
theorem classify_follows_precedence {grouping : Grouping}
    (hvalid : grouping.validate = .ok grouping) (canonical : Option String) (isArray : Bool) :
    (∀ group, (ofGrouping grouping).classify canonical isArray = group ↔
        grouping.Places canonical isArray group) ∧
      (ofGrouping grouping).classify canonical isArray ∈ (ofGrouping grouping).groupNames ∧
      (ofGrouping grouping).groupNames.Nodup := by
  have hplaces := places_classify grouping canonical isArray
  exact ⟨fun group => ⟨fun hgroup => hgroup ▸ hplaces, fun hgroup => hplaces.unique hgroup⟩,
    classify_mem_group_names grouping canonical isArray,
    nodup_group_names (Grouping.fault?_of_validate hvalid)⟩

/-- A grouping with a name that two groups list, a prefix that two groups have, one of them twice, a
longer prefix, the empty prefix, and a fallback group among those that are listed. -/
def overlappingGrouping : Grouping where
  groups :=
    [{ name := "all", types := ["java.util.List"], prefixes := ["", "java."] },
     { name := "util", prefixes := ["java.util.", "java.util."] },
     { name := "sync", types := ["java.util.List"], prefixes := ["java.util.", "java.util.sync."] }]
  arrayGroup := "all"

/-- A listed name belongs to the first group that lists it, whatever prefixes it has, and another
one to the first group with its longest prefix. -/
theorem overlapping_grouping_follows_precedence :
    overlappingGrouping.validate = .ok overlappingGrouping ∧
      overlappingGrouping.Places (some "java.util.List") true "all" ∧
      overlappingGrouping.Places (some "java.util.Map") true "util" ∧
      (ofGrouping overlappingGrouping).classify (some "java.util.List") true = "all" ∧
      (ofGrouping overlappingGrouping).classify (some "java.util.Map") true = "util" ∧
      (ofGrouping overlappingGrouping).groupNames =
        ["all", "util", "sync", "primitive", "unknown"] ∧
      (ofGrouping overlappingGrouping).groupNames.Nodup := by
  have hvalid : overlappingGrouping.validate = .ok overlappingGrouping := rfl
  have hlist : overlappingGrouping.Places (some "java.util.List") true "all" :=
    .listed "java.util.List" true ⟨"all", ["java.util.List"], ["", "java."]⟩
      (Grouping.first_iff.2 (by decide))
  have hmost : ∀ other ∈ overlappingGrouping.groups, ∀ start ∈ other.prefixes,
      start.toList <+: "java.util.Map".toList → start.utf8ByteSize ≤ 10 := by decide
  have hmap : overlappingGrouping.Places (some "java.util.Map") true "util" := by
    refine .started "java.util.Map" true ⟨"util", [], ["java.util.", "java.util."]⟩ 10
      (by decide) ?_ (Grouping.first_iff.2 (by decide))
    rintro other hother _ ⟨start, hstart, hname, rfl⟩
    exact hmost other hother start hstart hname
  exact ⟨hvalid, hlist, hmap, ((classify_follows_precedence hvalid _ true).1 _).2 hlist,
    ((classify_follows_precedence hvalid _ true).1 _).2 hmap, rfl,
    (classify_follows_precedence hvalid none true).2.2⟩

end Classifier

end CanonicalNames
