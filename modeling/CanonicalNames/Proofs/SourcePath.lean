import Mathlib.Data.List.Lex
import CanonicalNames.SourcePath

/-!
# Source paths by their components

Paths are ordered by their components. `SourcePath.rank` turns a path into lists of numbers, so
that the order of paths is the lexicographic order of ranks (`SourcePath.ble_iff_rank_le`), and
equal paths are those of equal rank. A sorted list of paths is strictly ordered and holds the same
paths (`SourcePath.pairwise_sorted`, `SourcePath.contains_sorted`).

A path that is made of texts, one pushed after the other, has the components of their parts
(`SourcePath.components_foldl_push`): `SourcePath.below` says where a text leads from a place.
-/

namespace CanonicalNames

theorem Component.key_injective : Function.Injective Component.key := by
  intro left right h
  cases left with
  | name text =>
      cases right with
      | name other =>
          have hchars : text.toList = other.toList :=
            List.map_injective_iff.2 (fun _ _ => Char.toNat_inj.1) (List.cons.inj h).2
          rw [String.toList_inj.1 hchars]
      | _ => cases h
  | _ => cases right <;> first | rfl | cases h

theorem Component.blt_iff_key_lt {left right : Component} :
    left.blt right = true ↔ left.key < right.key := by
  have hlt : (fun first second => Nat.blt first second = true) = fun first second : Nat =>
      first < second := by
    funext first second
    rw [Nat.blt_eq]
  rw [blt, List.lex_eq_true_iff_lex, hlt]
  exact Iff.rfl

namespace SourcePath

/-- What the order of paths compares. -/
def rank (path : SourcePath) : List (List Nat) :=
  path.components.map Component.key

variable {left right : SourcePath}

theorem ble_iff_rank_le : ble left right = true ↔ left.rank ≤ right.rank := by
  have hlex : ∀ first second : List Component,
      List.Lex (fun one two => Component.blt one two = true) first second ↔
        first.map Component.key < second.map Component.key := by
    intro first second
    induction first generalizing second with
    | nil => cases second <;> simp
    | cons one rest ih =>
        cases second with
        | nil => simp
        | cons two others =>
            rw [List.cons_lex_cons_iff, ih, Component.blt_iff_key_lt, List.map_cons, List.map_cons,
              List.cons_lt_cons_iff, Component.key_injective.eq_iff]
  rw [ble, Bool.not_eq_true', ← Bool.not_eq_true, List.lex_eq_true_iff_lex, hlex]
  exact not_lt

theorem beq_iff_rank_eq : (left == right) = true ↔ left.rank = right.rank := by
  rw [beq_iff_components_eq, rank, rank,
    (List.map_injective_iff.2 Component.key_injective).eq_iff]

/-- Paths that come before each other are equal. -/
theorem beq_of_ble (h : ble left right = true) (k : ble right left = true) :
    (left == right) = true :=
  beq_iff_rank_eq.2 (le_antisymm (ble_iff_rank_le.1 h) (ble_iff_rank_le.1 k))

theorem ble_trans {middle : SourcePath} (h : ble left middle = true)
    (k : ble middle right = true) : ble left right = true :=
  ble_iff_rank_le.2 (le_trans (ble_iff_rank_le.1 h) (ble_iff_rank_le.1 k))

theorem ble_total (left right : SourcePath) : (ble left right || ble right left) = true := by
  rw [Bool.or_eq_true, ble_iff_rank_le, ble_iff_rank_le]
  exact le_total _ _

/-! ## Sorted lists -/

/-- A path comes before another one that is not equal to it. -/
def Precedes (left right : SourcePath) : Prop :=
  ble left right = true ∧ (left == right) = false

theorem precedes_iff_rank_lt : Precedes left right ↔ left.rank < right.rank := by
  rw [Precedes, ble_iff_rank_le, ← Bool.not_eq_true, beq_iff_rank_eq, lt_iff_le_and_ne]

/-- Dropping paths that equal the last one kept makes an ordered list strictly ordered. -/
theorem pairwise_dedup_after {kept : SourcePath} {paths : List SourcePath}
    (h : (kept :: paths).Pairwise (fun first second => ble first second = true)) :
    (kept :: dedupAfter kept paths).Pairwise Precedes := by
  induction paths generalizing kept with
  | nil => simp [dedupAfter]
  | cons first rest ih =>
      unfold dedupAfter
      split
      · exact ih (h.sublist ((List.sublist_cons_self first rest).cons_cons kept))
      · next hne =>
          obtain ⟨hkept, hrest⟩ := List.pairwise_cons.1 h
          have hfirst : Precedes kept first :=
            ⟨hkept first (List.mem_cons_self ..), by rw [BEq.comm]; simpa using hne⟩
          have hothers := ih hrest
          refine List.pairwise_cons.2 ⟨fun path hpath => ?_, hothers⟩
          rcases List.mem_cons.1 hpath with rfl | hpath
          · exact hfirst
          · have hnext := (List.pairwise_cons.1 hothers).1 path hpath
            rw [precedes_iff_rank_lt] at hfirst hnext ⊢
            exact lt_trans hfirst hnext

/-- Sorted paths are strictly ordered. -/
theorem pairwise_sorted (paths : List SourcePath) : (sorted paths).Pairwise Precedes := by
  have hordered : (paths.mergeSort ble).Pairwise (fun first second => ble first second = true) :=
    @List.pairwise_mergeSort _ ble (fun _ _ _ => ble_trans) ble_total paths
  unfold sorted
  cases hsort : paths.mergeSort ble with
  | nil => exact .nil
  | cons first rest =>
      rw [hsort] at hordered
      exact pairwise_dedup_after hordered

/-- No path is lost from a list when those that equal the last one kept are dropped. -/
theorem contains_dedup_after (kept : SourcePath) (paths : List SourcePath) (path : SourcePath) :
    (kept :: dedupAfter kept paths).contains path = (kept :: paths).contains path := by
  induction paths generalizing kept with
  | nil => rfl
  | cons first rest ih =>
      unfold dedupAfter
      split
      · next heq =>
          rw [ih kept, List.contains_cons, List.contains_cons, List.contains_cons,
            BEq.congr_right (a := path) heq, ← Bool.or_assoc, Bool.or_self]
      · rw [List.contains_cons, ih first, List.contains_cons (a := kept)]

theorem contains_sorted (paths : List SourcePath) (path : SourcePath) :
    (sorted paths).contains path = paths.contains path := by
  have hperm : (paths.mergeSort ble).contains path = paths.contains path := by
    rw [Bool.eq_iff_iff, List.contains_iff_exists_mem_beq, List.contains_iff_exists_mem_beq]
    simp only [List.mem_mergeSort]
  rw [← hperm]
  unfold sorted
  cases paths.mergeSort ble with
  | nil => rfl
  | cons first rest => exact contains_dedup_after first rest path

/-! ## Paths put together -/

/-- The components of a text without steps by dots: its parts between slashes. -/
def parts (text : String) : List Component :=
  ((text.toList.splitOn '/').filter (· ≠ [])).map (fun part => .name (String.ofList part))

/-- The place that a text leads to from another: below it, or below the root if the text begins
with a slash. -/
def below (place : List Component) (text : String) : List Component :=
  if text.toList.head? = some '/' then .root :: parts text else place ++ parts text

/-- No part of a text is a step by dots. -/
def IsNamed (text : String) : Prop :=
  ∀ part ∈ text.toList.splitOn '/', part ≠ ['.'] ∧ part ≠ ['.', '.']

/-- A text without dots names its parts, also with an ending that is too long for dots. -/
theorem is_named_append {text ending : String} (hdot : '.' ∉ text.toList)
    (hslash : '/' ∉ ending.toList) (hlong : ending = "" ∨ 2 < ending.toList.length) :
    IsNamed (text ++ ending) := by
  intro part hpart
  rw [← Text.pieces_eq_split_on, String.toList_append] at hpart
  obtain ⟨start, hstart, hpart⟩ := Text.exists_of_mem_pieces_append hdot hslash hpart
  have hplain : start ≠ ['.'] ∧ start ≠ ['.', '.'] := by
    constructor <;> rintro rfl <;> simp at hstart
  rcases hpart with rfl | rfl
  · exact hplain
  · rcases hlong with rfl | hlong
    · simpa using hplain
    · have hlength : 2 < (start ++ ending.toList).length := by
        rw [List.length_append]
        omega
      constructor <;> intro h <;> rw [h] at hlength <;> exact absurd hlength (by decide)

/-- Parts that are no steps by dots are components by name. -/
theorem filter_map_of_piece? {text : String} (h : IsNamed text) :
    (Text.pieces '/' text.toList).filterMap Component.ofPiece? = parts text := by
  rw [Text.pieces_eq_split_on, parts, ← List.filterMap_eq_map, List.filterMap_filter]
  refine List.filterMap_congr (fun part hpart => ?_)
  obtain ⟨hhere, hup⟩ := h part hpart
  by_cases hempty : part = [] <;> simp [Component.ofPiece?, hempty, hhere, hup]

/-- What stands behind a slash is added to what stands before it, or to the root if nothing does. -/
theorem components_append_slash (left right : List Char) :
    components ⟨String.ofList (left ++ '/' :: right)⟩ =
      (if left = [] then [.root] else components ⟨String.ofList left⟩) ++
        (Text.pieces '/' right).filterMap Component.ofPiece? := by
  have hright := Text.pieces_ne_nil '/' right
  simp only [components, String.toList_ofList, Text.pieces_append_cons]
  rcases left with _ | ⟨c, rest⟩
  · simp [Text.pieces, hright]
  · obtain ⟨start, others, hleft⟩ :=
      List.exists_cons_of_ne_nil (Text.pieces_ne_nil '/' (c :: rest))
    -- An empty first piece stands before a slash, since the text is not empty.
    have hothers : start = [] → others ≠ [] := by
      rintro rfl rfl
      have hglue := Text.glue_pieces '/' (c :: rest)
      rw [hleft] at hglue
      cases hglue
    by_cases hstart : start = [] <;> simp [hleft, hright, hstart, hothers]

theorem components_of_absolute {next : SourcePath} (h : IsNamed next.spelling)
    (habsolute : next.spelling.toList.head? = some '/') :
    next.components = .root :: parts next.spelling := by
  obtain ⟨right, hright⟩ := List.head?_eq_some_iff.1 habsolute
  have hnext : next = ⟨String.ofList ([] ++ '/' :: right)⟩ := by
    rw [List.nil_append, ← hright, String.ofList_toList]
  rw [← filter_map_of_piece? h, hright, hnext, components_append_slash, if_pos rfl]
  rfl

theorem components_of_relative {next : SourcePath} (h : IsNamed next.spelling)
    (hrelative : next.spelling.toList.head? ≠ some '/') :
    next.components = parts next.spelling := by
  rw [← filter_map_of_piece? h, components]
  obtain ⟨start, others, hpieces⟩ :=
    List.exists_cons_of_ne_nil (Text.pieces_ne_nil '/' next.spelling.toList)
  have hhere : start ≠ ['.'] := by
    have hmem : start ∈ next.spelling.toList.splitOn '/' := by
      rw [← Text.pieces_eq_split_on, hpieces]
      exact List.mem_cons_self ..
    exact (h start hmem).1
  -- Without a slash in front, an empty first piece is the whole text.
  have hothers : start = [] → others = [] := by
    rintro rfl
    cases others with
    | nil => rfl
    | cons second others =>
        refine absurd ?_ hrelative
        rw [← Text.glue_pieces '/' next.spelling.toList, hpieces]
        rfl
  by_cases hstart : start = []
  · simp [hpieces, hstart, hothers hstart, Component.ofPiece?]
  · cases hpiece : Component.ofPiece? start <;> simp [hpieces, hstart, hhere, hpiece]

/-- A text pushed onto a path leads on from the place of the path. -/
theorem components_push (path : SourcePath) {next : SourcePath} (h : IsNamed next.spelling) :
    (path.push next).components = below path.components next.spelling := by
  unfold push isAbsolute below
  by_cases habsolute : next.spelling.toList.head? = some '/'
  · rw [if_pos (by simpa using habsolute), if_pos habsolute, components_of_absolute h habsolute]
  · rw [if_neg (by simpa using habsolute), if_neg habsolute]
    split
    · next hlast =>
        have hempty : path.spelling = "" := by simpa using hlast
        rw [components_of_relative h habsolute, components, hempty]
        rfl
    · next hlast =>
        obtain ⟨left, hleft⟩ := List.getLast?_eq_some_iff.1 hlast
        have hpath : path = ⟨String.ofList (left ++ '/' :: [])⟩ := by
          rw [← hleft, String.ofList_toList]
        have hpushed : path.spelling ++ next.spelling =
            String.ofList (left ++ '/' :: next.spelling.toList) := by
          rw [← String.toList_inj]
          simp [hleft]
        rw [hpushed, hpath, components_append_slash, components_append_slash,
          filter_map_of_piece? h]
        simp [Text.pieces, Component.ofPiece?]
    · next c hne hlast =>
        have hleft : path.spelling.toList ≠ [] := by
          intro hnil
          rw [hnil] at hlast
          cases hlast
        have hpushed : path.spelling ++ "/" ++ next.spelling =
            String.ofList (path.spelling.toList ++ '/' :: next.spelling.toList) := by
          rw [← String.toList_inj]
          simp
        rw [hpushed, components_append_slash, filter_map_of_piece? h, if_neg hleft,
          String.ofList_toList]

/-- Texts pushed onto a path one after the other. -/
theorem components_foldl_push {names : List String} (h : ∀ name ∈ names, IsNamed name)
    (path : SourcePath) :
    (names.foldl (fun path name => path.push ⟨name⟩) path).components =
      names.foldl below path.components := by
  induction names generalizing path with
  | nil => rfl
  | cons name rest ih =>
      obtain ⟨hname, hrest⟩ := List.forall_mem_cons.1 h
      rw [List.foldl_cons, List.foldl_cons, ih hrest, components_push path hname]

end SourcePath

end CanonicalNames
