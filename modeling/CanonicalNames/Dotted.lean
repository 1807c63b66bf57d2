import CanonicalNames.Text.Blank
import CanonicalNames.Text.Pieces

/-!
# Dotted names

Packages, classes and members are named by their segments with dots between them. The
empty name stands for the root of all names and for the default package. A name is valid
when it is empty or every segment holds something other than white space; the operations
below are defined for every text, valid or not.
-/

namespace CanonicalNames.Dotted

open Text (pieces glue isBlank)

/-- The segments of a name that are not empty. -/
def segments (name : String) : List String :=
  ((pieces '.' name.toList).filter (fun piece => !piece.isEmpty)).map String.ofList

/-- The empty name, or a name in which no segment is blank. -/
def isValid (name : String) : Bool :=
  name.toList.isEmpty || (pieces '.' name.toList).all (fun piece => !piece.all isBlank)

/-- A name of exactly one segment. -/
def isSingle (name : String) : Bool :=
  !name.toList.isEmpty && !name.toList.contains '.'

/-- The text before the first dot, or all of a name without dots. -/
def first (name : String) : String :=
  String.ofList (name.toList.takeWhile (· != '.'))

/-- The text after the last dot, or all of a name without dots. -/
def last (name : String) : String :=
  String.ofList ((pieces '.' name.toList).getLast?.getD [])

/-- The text before the last dot; empty for a name without dots. -/
def parent (name : String) : String :=
  String.ofList (glue '.' (pieces '.' name.toList).dropLast)

/-- The name cut at its last dot, into the text before it and the text after it; before a name
without dots there is nothing. -/
def splitLast (name : String) : String × String :=
  let fromEnd := name.toList.reverse
  (String.ofList ((fromEnd.dropWhile (· != '.')).drop 1).reverse,
    String.ofList (fromEnd.takeWhile (· != '.')).reverse)

/-- The two names with a dot between them; the empty name leaves the other as it is. -/
def join (outer inner : String) : String :=
  if outer.isEmpty then inner
  else if inner.isEmpty then outer
  else String.ofList (outer.toList ++ '.' :: inner.toList)

/-- The name with the text before its first dot replaced. -/
def replaceFirst (name replacement : String) : String :=
  String.ofList (replacement.toList ++ name.toList.dropWhile (· != '.'))

/-- A segment is not empty. -/
theorem ne_empty_of_mem_segments {name segment : String} (h : segment ∈ segments name) :
    segment ≠ "" := by
  obtain ⟨piece, hpiece, rfl⟩ := List.mem_map.1 h
  simpa using (List.mem_filter.1 hpiece).2

/-- A segment holds no dot. -/
theorem dot_not_mem_of_mem_segments {name segment : String} (h : segment ∈ segments name) :
    '.' ∉ segment.toList := by
  obtain ⟨piece, hpiece, rfl⟩ := List.mem_map.1 h
  simpa using Text.not_mem_of_mem_pieces (List.mem_filter.1 hpiece).1

/-- A name without dots is its only segment. -/
theorem segments_of_not_mem {name : String} (hne : name ≠ "") (h : '.' ∉ name.toList) :
    segments name = [name] := by
  simp [segments, Text.pieces_of_not_mem h, hne]

/-! ## Joining -/

/-- The empty name is neutral on the left. -/
@[simp] theorem join_empty_left (name : String) : join "" name = name := by
  simp [join]

/-- The empty name is neutral on the right. -/
@[simp] theorem join_empty_right (name : String) : join name "" = name := by
  by_cases h : name = "" <;> simp [join, h]

/-- The characters of a name joined from two names that are not empty. -/
theorem to_list_join {outer inner : String} (houter : outer ≠ "") (hinner : inner ≠ "") :
    (join outer inner).toList = outer.toList ++ '.' :: inner.toList := by
  simp [join, houter, hinner]

/-- A joined name has the segments of both names. -/
theorem segments_join (outer inner : String) :
    segments (join outer inner) = segments outer ++ segments inner := by
  by_cases houter : outer = ""
  · simp [houter, segments, pieces]
  · by_cases hinner : inner = ""
    · simp [hinner, segments, pieces]
    · simp only [segments, to_list_join houter hinner, Text.pieces_append_cons,
        List.filter_append, List.map_append]

end CanonicalNames.Dotted
