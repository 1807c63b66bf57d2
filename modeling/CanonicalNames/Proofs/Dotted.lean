import Mathlib.Data.List.TakeWhile
import CanonicalNames.Dotted

/-!
# The algebra of dotted names

Names with the empty name and `join` are a monoid (`join_assoc`), and a joined name is valid if
both names are (`is_valid_join`). A valid name is joined from its segments
(`foldl_join_segments`, `intercalate_segments`), from what stands before its last dot and what
stands after it (`join_parent_last`), and from its first segment and a rest that stays when that
segment is replaced (`exists_rest`). So what the operations do to valid names can be said of the
lists of their segments: `names_follow_segments`.
-/

namespace CanonicalNames.Dotted

open Text (pieces glue)

/-! ## Joining -/

theorem join_eq_empty_iff {outer inner : String} :
    join outer inner = "" ↔ outer = "" ∧ inner = "" := by
  by_cases houter : outer = ""
  · simp [houter]
  · by_cases hinner : inner = ""
    · simp [hinner]
    · simp [join, houter, hinner]

/-- Nothing but the empty name can be joined without effect. -/
theorem join_eq_left_iff {outer inner : String} : join outer inner = outer ↔ inner = "" := by
  by_cases houter : outer = ""
  · simp [houter]
  · by_cases hinner : inner = ""
    · simp [hinner]
    · refine iff_of_false (fun hjoin => ?_) hinner
      have hlength := congrArg (fun name => name.toList.length) hjoin
      simp [to_list_join houter hinner] at hlength

theorem join_assoc (first second third : String) :
    join (join first second) third = join first (join second third) := by
  by_cases hfirst : first = ""
  · simp [hfirst]
  by_cases hsecond : second = ""
  · simp [hsecond]
  by_cases hthird : third = ""
  · simp [hthird]
  apply String.toList_injective
  rw [to_list_join (fun h => hfirst (join_eq_empty_iff.1 h).1) hthird, to_list_join hfirst hsecond,
    to_list_join hfirst (fun h => hsecond (join_eq_empty_iff.1 h).1), to_list_join hsecond hthird]
  simp

/-- A joined name is valid exactly if both names are. -/
theorem is_valid_join (outer inner : String) :
    isValid (join outer inner) = (isValid outer && isValid inner) := by
  by_cases houter : outer = ""
  · simp [houter, isValid]
  by_cases hinner : inner = ""
  · simp [hinner, isValid]
  have houter' : outer.toList.isEmpty = false := by simpa using houter
  have hinner' : inner.toList.isEmpty = false := by simpa using hinner
  simp [isValid, to_list_join houter hinner, Text.pieces_append_cons, houter', hinner']

/-- A start can be joined to the rest as a whole. -/
theorem foldl_join_eq (start : String) (parts : List String) :
    parts.foldl join start = join start (parts.foldl join "") := by
  induction parts generalizing start with
  | nil => simp
  | cons part rest ih =>
      rw [List.foldl_cons, List.foldl_cons, ih, ih (join "" part), join_empty_left, join_assoc]

/-! ## Segments of valid names -/

/-- Joining segments that are not empty glues them. -/
theorem foldl_join (start : String) (hstart : start ≠ "") (parts : List (List Char))
    (hparts : ∀ part ∈ parts, part ≠ []) :
    ((parts.map String.ofList).foldl join start).toList = glue '.' (start.toList :: parts) := by
  induction parts generalizing start with
  | nil => rfl
  | cons part rest ih =>
      have hpart : String.ofList part ≠ "" := by simpa using hparts part (List.mem_cons_self ..)
      have hjoin := to_list_join hstart hpart
      have hne : join start (String.ofList part) ≠ "" := by
        intro hempty
        rw [hempty] at hjoin
        simp at hjoin
      rw [List.map_cons, List.foldl_cons,
        ih _ hne (fun other hother => hparts other (List.mem_cons_of_mem _ hother)), hjoin,
        String.toList_ofList]
      cases rest with
      | nil => rfl
      | cons next rest => simp [glue]

/-- The segments of a valid name that is not empty are its pieces. -/
theorem segments_of_valid {name : String} (hvalid : isValid name = true) (hne : name ≠ "") :
    segments name = (pieces '.' name.toList).map String.ofList ∧
      ∀ piece ∈ pieces '.' name.toList, piece ≠ [] := by
  have hpieces : ∀ piece ∈ pieces '.' name.toList, piece ≠ [] := by
    intro piece hpiece hnil
    simp only [isValid, Bool.or_eq_true, List.isEmpty_iff, String.toList_eq_nil_iff, hne,
      false_or, List.all_eq_true] at hvalid
    simpa [hnil] using hvalid piece hpiece
  refine ⟨?_, hpieces⟩
  rw [segments, List.filter_eq_self.2]
  intro piece hpiece
  simpa using hpieces piece hpiece

/-- Joining segments that are not empty, from nothing, glues them. -/
theorem to_list_foldl_join {parts : List (List Char)} (hparts : ∀ part ∈ parts, part ≠ []) :
    ((parts.map String.ofList).foldl join "").toList = glue '.' parts := by
  cases parts with
  | nil => rfl
  | cons first rest =>
      have hfirst : String.ofList first ≠ "" := by simpa using hparts first (List.mem_cons_self ..)
      rw [List.map_cons, List.foldl_cons, join_empty_left, foldl_join _ hfirst _
        (fun part hpart => hparts part (List.mem_cons_of_mem _ hpart)), String.toList_ofList]

/-- A valid name is joined from its segments. -/
theorem foldl_join_segments {name : String} (hvalid : isValid name = true) :
    (segments name).foldl join "" = name := by
  by_cases hne : name = ""
  · simp [hne, segments, pieces]
  · obtain ⟨hsegments, hpieces⟩ := segments_of_valid hvalid hne
    apply String.toList_injective
    rw [hsegments, to_list_foldl_join hpieces, Text.glue_pieces]

/-- With dots between them, the segments of a valid name that is not empty give back the name. -/
theorem intercalate_segments {name : String} (hvalid : isValid name = true) (hne : name ≠ "") :
    ".".intercalate (segments name) = name := by
  obtain ⟨hsegments, _⟩ := segments_of_valid hvalid hne
  apply String.toList_injective
  calc (".".intercalate (segments name)).toList
      = ['.'].intercalate (pieces '.' name.toList) := by
        rw [String.toList_intercalate, hsegments, List.map_map]
        simp [Function.comp_def]
    _ = glue '.' (pieces '.' name.toList) := (Text.glue_eq_intercalate ..).symm
    _ = name.toList := Text.glue_pieces ..

/-- A valid name that is not empty has segments. -/
theorem segments_ne_nil {name : String} (hvalid : isValid name = true) (hne : name ≠ "") :
    segments name ≠ [] := by
  intro hnil
  rw [← foldl_join_segments hvalid, hnil] at hne
  exact hne rfl

/-- Segments that are joined to a name come after its own. -/
theorem segments_foldl_join (start : String) {parts : List String}
    (hparts : ∀ part ∈ parts, part ≠ "" ∧ '.' ∉ part.toList) :
    segments (parts.foldl join start) = segments start ++ parts := by
  induction parts generalizing start with
  | nil => simp
  | cons part rest ih =>
      obtain ⟨hne, hdot⟩ := hparts part (List.mem_cons_self ..)
      rw [List.foldl_cons, ih _ (fun other hother => hparts other (List.mem_cons_of_mem _ hother)),
        segments_join, segments_of_not_mem hne hdot, List.append_assoc, List.singleton_append]

/-- Where the segments of a valid name are cut in two, the name is joined from two valid names with
these segments. -/
theorem exists_join_of_segments {name : String} {front rest : List String}
    (hvalid : isValid name = true) (hcut : segments name = front ++ rest) :
    ∃ outer inner, join outer inner = name ∧ isValid outer = true ∧
      segments outer = front ∧ segments inner = rest := by
  have hparts : ∀ part ∈ front ++ rest, part ≠ "" ∧ '.' ∉ part.toList := by
    rw [← hcut]
    exact fun part hpart => ⟨ne_empty_of_mem_segments hpart, dot_not_mem_of_mem_segments hpart⟩
  have hjoin : join (front.foldl join "") (rest.foldl join "") = name := by
    rw [← foldl_join_eq, ← List.foldl_append, ← hcut, foldl_join_segments hvalid]
  rw [← hjoin, is_valid_join, Bool.and_eq_true] at hvalid
  exact ⟨_, _, hjoin, hvalid.1,
    segments_foldl_join "" (fun part hpart => hparts part (List.mem_append_left _ hpart)),
    segments_foldl_join "" (fun part hpart => hparts part (List.mem_append_right _ hpart))⟩

/-! ## The last segment -/

theorem last_eq_get_last (name : String) : last name =
    String.ofList ((pieces '.' name.toList).getLast (Text.pieces_ne_nil '.' name.toList)) := by
  simp [last, List.getLast?_eq_some_getLast (Text.pieces_ne_nil '.' name.toList)]

/-- What stands after the last dot of a valid name is one segment. -/
theorem single_last {name : String} (hvalid : isValid name = true) (hne : name ≠ "") :
    last name ≠ "" ∧ '.' ∉ (last name).toList := by
  obtain ⟨-, hpieces⟩ := segments_of_valid hvalid hne
  have hcut := Text.pieces_ne_nil '.' name.toList
  have hmem := List.getLast_mem hcut
  rw [last_eq_get_last]
  exact ⟨by simpa using hpieces _ hmem, by simpa using Text.not_mem_of_mem_pieces hmem⟩

/-- A valid name is what stands before its last dot joined with what stands after it. -/
theorem join_parent_last {name : String} (hvalid : isValid name = true) :
    join (parent name) (last name) = name := by
  by_cases hne : name = ""
  · simp [hne, parent, last, pieces, glue]
  obtain ⟨hsegments, hpieces⟩ := segments_of_valid hvalid hne
  have hcut := Text.pieces_ne_nil '.' name.toList
  have hparent : parent name =
      ((pieces '.' name.toList).dropLast.map String.ofList).foldl join "" := by
    apply String.toList_injective
    rw [to_list_foldl_join (fun part hpart => hpieces part (List.dropLast_subset _ hpart))]
    simp [parent]
  calc join (parent name) (last name)
      = (((pieces '.' name.toList).dropLast ++ [(pieces '.' name.toList).getLast hcut]).map
          String.ofList).foldl join "" := by
        rw [List.map_append, List.foldl_append, ← hparent, last_eq_get_last, List.map_cons,
          List.map_nil, List.foldl_cons, List.foldl_nil]
    _ = name := by rw [List.dropLast_concat_getLast, ← hsegments, foldl_join_segments hvalid]

/-- The segments of a valid name are those before its last dot and the one after it. -/
theorem segments_eq_concat {name : String} (hvalid : isValid name = true) (hne : name ≠ "") :
    segments name = segments (parent name) ++ [last name] := by
  obtain ⟨hlast, hdot⟩ := single_last hvalid hne
  calc segments name = segments (join (parent name) (last name)) := by rw [join_parent_last hvalid]
    _ = segments (parent name) ++ [last name] := by
        rw [segments_join, segments_of_not_mem hlast hdot]

/-! ## Names of one segment -/

theorem is_single_iff {name : String} : isSingle name = true ↔ name ≠ "" ∧ '.' ∉ name.toList := by
  simp [isSingle]

theorem ne_dot_of_not_mem {text : List Char} (h : '.' ∉ text) : ∀ c ∈ text, (c != '.') = true := by
  intro c hc
  rw [bne_iff_ne]
  intro hdot
  exact h (hdot ▸ hc)

/-- The text before the first dot holds no dot. -/
theorem dot_not_mem_first (name : String) : '.' ∉ (first name).toList := by
  intro hdot
  rw [first, String.toList_ofList] at hdot
  simpa using List.mem_takeWhile_imp hdot

theorem first_of_single {name : String} (h : isSingle name = true) : first name = name := by
  rw [first, List.takeWhile_eq_self_iff.2 (ne_dot_of_not_mem (is_single_iff.1 h).2),
    String.ofList_toList]

/-- Of a name of one segment, nothing is left when its first segment is replaced. -/
theorem replace_first_of_single {name : String} (h : isSingle name = true) (replacement : String) :
    replaceFirst name replacement = replacement := by
  rw [replaceFirst, List.dropWhile_eq_nil_iff.2 (ne_dot_of_not_mem (is_single_iff.1 h).2),
    List.append_nil, String.ofList_toList]

/-! ## Cutting at a dot -/

/-- A text before its first dot, and from that dot on. -/
theorem cut_at_first_dot {before : List Char} (h : '.' ∉ before) (after : List Char) :
    (before ++ '.' :: after).takeWhile (· != '.') = before ∧
      (before ++ '.' :: after).dropWhile (· != '.') = '.' :: after := by
  rw [List.takeWhile_append_of_pos (ne_dot_of_not_mem h),
    List.dropWhile_append_of_pos (ne_dot_of_not_mem h)]
  simp

/-- Cutting at the last dot gives what stands before it and what stands after it. -/
theorem split_last_eq (name : String) : splitLast name = (parent name, last name) := by
  by_cases hdot : '.' ∈ name.toList
  · -- Seen from the end of the name, the last dot is the first one.
    obtain ⟨after, before, htext, hafter⟩ := List.eq_append_cons_of_mem (List.mem_reverse.2 hdot)
    obtain ⟨htake, hdrop⟩ := cut_at_first_dot hafter before
    have hend : '.' ∉ after.reverse := by simpa using hafter
    have hpieces : pieces '.' name.toList = pieces '.' before.reverse ++ [after.reverse] := by
      rw [← List.reverse_reverse name.toList, htext, List.reverse_append, List.reverse_cons,
        List.append_assoc, List.singleton_append, Text.pieces_append_cons,
        Text.pieces_of_not_mem hend]
    simp [splitLast, htext, htake, hdrop, parent, last, hpieces, Text.glue_pieces]
  · have hend := ne_dot_of_not_mem (mt List.mem_reverse.1 hdot)
    simp [splitLast, List.takeWhile_eq_self_iff.2 hend, List.dropWhile_eq_nil_iff.2 hend, parent,
      last, Text.pieces_of_not_mem hdot, glue]

/-- A valid name is its first segment joined with a rest, and replacing the first segment keeps the
rest. -/
theorem exists_rest {name : String} (hvalid : isValid name = true) (hne : name ≠ "") :
    ∃ rest, isSingle (first name) = true ∧ join (first name) rest = name ∧
      ∀ replacement, replacement ≠ "" → replaceFirst name replacement = join replacement rest := by
  by_cases hdot : '.' ∈ name.toList
  · obtain ⟨before, after, htext, hbefore⟩ := List.eq_append_cons_of_mem hdot
    obtain ⟨htake, hdrop⟩ := cut_at_first_dot hbefore after
    -- In a valid name there is something on both sides of the dot.
    obtain ⟨-, hpieces⟩ := segments_of_valid hvalid hne
    rw [htext, Text.pieces_append_cons, Text.pieces_of_not_mem hbefore] at hpieces
    have hfirst : String.ofList before ≠ "" := by simpa using hpieces before (by simp)
    have hrest : String.ofList after ≠ "" := by
      intro hempty
      have hnil : after = [] := by simpa using hempty
      exact hpieces [] (by simp [hnil, pieces]) rfl
    have hname : first name = String.ofList before := by rw [first, htext, htake]
    refine ⟨String.ofList after, ?_, ?_, fun replacement hreplacement => ?_⟩
    · rw [hname, is_single_iff]
      exact ⟨hfirst, by simpa using hbefore⟩
    · apply String.toList_injective
      rw [hname, to_list_join hfirst hrest, htext, String.toList_ofList, String.toList_ofList]
    · apply String.toList_injective
      rw [to_list_join hreplacement hrest, replaceFirst, htext, hdrop, String.toList_ofList,
        String.toList_ofList]
  · have hsingle := is_single_iff.2 ⟨hne, hdot⟩
    refine ⟨"", ?_, ?_, fun replacement _ => ?_⟩
    · rw [first_of_single hsingle, hsingle]
    · rw [first_of_single hsingle, join_empty_right]
    · rw [replace_first_of_single hsingle, join_empty_right]

/-- What takes the place of the first segment of a valid name decides whether the result is
valid. -/
theorem is_valid_replace_first {name replacement : String} (hvalid : isValid name = true)
    (hne : name ≠ "") (hreplacement : replacement ≠ "") :
    isValid (replaceFirst name replacement) = isValid replacement := by
  obtain ⟨rest, -, hjoin, hreplace⟩ := exists_rest hvalid hne
  rw [← hjoin, is_valid_join, Bool.and_eq_true] at hvalid
  rw [hreplace replacement hreplacement, is_valid_join, hvalid.2, Bool.and_true]

/-- The segments of the replacement take the place of the first one. -/
theorem segments_replace_first {name replacement : String} (hvalid : isValid name = true)
    (hne : name ≠ "") (hreplacement : replacement ≠ "") :
    segments (replaceFirst name replacement) = segments replacement ++ (segments name).tail := by
  obtain ⟨rest, hfirst, hjoin, hreplace⟩ := exists_rest hvalid hne
  obtain ⟨hsome, hdot⟩ := is_single_iff.1 hfirst
  have hsegments : segments name = first name :: segments rest := by
    rw [← List.singleton_append, ← segments_of_not_mem hsome hdot, ← segments_join, hjoin]
  rw [hreplace replacement hreplacement, segments_join, hsegments, List.tail_cons]

/-! ## Names and their segments -/

/-- Names with `join` are a monoid, `segments` takes it to lists with `++`, and a joined name is
valid exactly if both parts are. A valid name that is not empty is its segments with dots between
them; cut at its last dot, it is joined from a valid name and its last segment; and a valid name
in the place of its first segment gives a valid name, in which the segments of the replacement
stand before all segments but the first. -/
theorem names_follow_segments :
    (∀ first second third, join (join first second) third = join first (join second third)) ∧
      (∀ name, join "" name = name ∧ join name "" = name) ∧
      (∀ outer inner, segments (join outer inner) = segments outer ++ segments inner) ∧
      (∀ outer inner, isValid (join outer inner) = true ↔
        isValid outer = true ∧ isValid inner = true) ∧
      ∀ name, isValid name = true → name ≠ "" →
        ".".intercalate (segments name) = name ∧
          (join (splitLast name).1 (splitLast name).2 = name ∧
            isValid (splitLast name).1 = true ∧ isSingle (splitLast name).2 = true ∧
            (splitLast name).2 = last name) ∧
          ∀ replacement, isValid replacement = true → replacement ≠ "" →
            isValid (replaceFirst name replacement) = true ∧
              segments (replaceFirst name replacement) =
                segments replacement ++ (segments name).tail := by
  refine ⟨join_assoc, fun name => ⟨join_empty_left name, join_empty_right name⟩, segments_join,
    fun outer inner => by rw [is_valid_join, Bool.and_eq_true], fun name hvalid hne => ?_⟩
  have hjoin := join_parent_last hvalid
  have hparent : isValid (parent name) = true := by
    rw [← hjoin, is_valid_join, Bool.and_eq_true] at hvalid
    exact hvalid.1
  rw [split_last_eq]
  refine ⟨intercalate_segments hvalid hne,
    ⟨hjoin, hparent, is_single_iff.2 (single_last hvalid hne), rfl⟩, ?_⟩
  intro replacement hreplacement hsome
  rw [is_valid_replace_first hvalid hne hsome]
  exact ⟨hreplacement, segments_replace_first hvalid hne hsome⟩

/-- An import takes the place of the outer class of a nested one. One segment holds a blank, another
a letter of more than one byte. -/
theorem imported_name_follows_segments :
    (isValid "Käse.Rad" = true ∧ isValid "java. util.Käse" = true) ∧
      splitLast "java. util.Käse" = ("java. util", "Käse") ∧
      join "java. util" "Käse" = "java. util.Käse" ∧
      isValid (replaceFirst "Käse.Rad" "java. util.Käse") = true ∧
      segments (replaceFirst "Käse.Rad" "java. util.Käse") = ["java", " util", "Käse", "Rad"] := by
  obtain ⟨-, -, -, -, hvalid⟩ := names_follow_segments
  have hname : isValid "Käse.Rad" = true := by decide +kernel
  have himport : isValid "java. util.Käse" = true := by decide +kernel
  have hcut : splitLast "java. util.Käse" = ("java. util", "Käse") := by decide +kernel
  obtain ⟨-, ⟨hjoin, -⟩, -⟩ := hvalid "java. util.Käse" himport (by decide)
  obtain ⟨-, -, hreplace⟩ := hvalid "Käse.Rad" hname (by decide)
  obtain ⟨hresult, hsegments⟩ := hreplace "java. util.Käse" himport (by decide)
  rw [hcut] at hjoin
  refine ⟨⟨hname, himport⟩, hcut, hjoin, hresult, hsegments.trans ?_⟩
  decide +kernel

end CanonicalNames.Dotted
