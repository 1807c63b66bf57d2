/-!
# White space

The white space of written types, imports and path segments is the Unicode property
`White_Space`: twenty-five code points, listed in `isBlank`. Information separators,
the zero-width space and the byte order mark are not among them.
-/

namespace CanonicalNames.Text

/-- A character with the Unicode property `White_Space`. -/
def isBlank (c : Char) : Bool :=
  let n := c.toNat
  (9 ≤ n && n ≤ 13) || n == 0x20 || n == 0x85 || n == 0xA0 || n == 0x1680 ||
    (0x2000 ≤ n && n ≤ 0x200A) || n == 0x2028 || n == 0x2029 || n == 0x202F ||
    n == 0x205F || n == 0x3000

/-- The text without its leading white space. -/
def trimStart (text : List Char) : List Char :=
  text.dropWhile isBlank

/-- The text without the trailing characters that satisfy `p`. -/
def dropEndWhile (p : Char → Bool) (text : List Char) : List Char :=
  (text.reverse.dropWhile p).reverse

/-- The text without its trailing white space. -/
def trimEnd (text : List Char) : List Char :=
  dropEndWhile isBlank text

/-- The text without white space at either end. -/
def trim (text : List Char) : List Char :=
  trimEnd (trimStart text)

/-- The text without any white space. -/
def squeeze (text : List Char) : List Char :=
  text.filter (fun c => !isBlank c)

/-- Squeezing leaves no white space behind. -/
theorem is_blank_eq_false_of_mem_squeeze {c : Char} {text : List Char} (h : c ∈ squeeze text) :
    isBlank c = false := by
  simpa using (List.mem_filter.1 h).2

/-- What is not white space stays. -/
theorem mem_squeeze_iff {c : Char} {text : List Char} (hsolid : isBlank c = false) :
    c ∈ squeeze text ↔ c ∈ text := by
  simp [squeeze, hsolid]

theorem squeeze_append (left right : List Char) :
    squeeze (left ++ right) = squeeze left ++ squeeze right :=
  List.filter_append ..

/-- Squeezing leaves alone what is left of a squeezed text. -/
theorem squeeze_of_subset {part text : List Char} (h : part ⊆ squeeze text) :
    squeeze part = part := by
  refine List.filter_eq_self.2 fun c hc => ?_
  simpa using is_blank_eq_false_of_mem_squeeze (h hc)

end CanonicalNames.Text
