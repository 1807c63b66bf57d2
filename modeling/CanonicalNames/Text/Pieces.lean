/-!
# Cutting text at a separator

`pieces sep` cuts a text at every occurrence of a separator, and keeps empty pieces.
`glue sep` puts pieces back together, so that gluing inverts cutting (`glue_pieces`). Texts
with a separator between them are cut there and apart from each other (`pieces_append_cons`).
-/

namespace CanonicalNames.Text

/-- The pieces between separators, one more than there are separators. -/
def pieces (sep : Char) : List Char → List (List Char)
  | [] => [[]]
  | c :: rest =>
    if c = sep then [] :: pieces sep rest
    else
      match pieces sep rest with
      | [] => [[c]]
      | first :: others => (c :: first) :: others

/-- The pieces in order, with one separator between neighbours. -/
def glue (sep : Char) : List (List Char) → List Char
  | [] => []
  | [piece] => piece
  | piece :: next :: others => piece ++ sep :: glue sep (next :: others)

/-- Cutting is the library's way to split a list. -/
theorem pieces_eq_split_on (sep : Char) (text : List Char) :
    pieces sep text = text.splitOn sep := by
  induction text with
  | nil => rfl
  | cons c rest ih =>
      rw [List.splitOn, List.splitOnP_cons_eq_if_modifyHead, pieces, ← List.splitOn, ih]
      obtain ⟨first, others, h⟩ := List.exists_cons_of_ne_nil (List.splitOn_ne_nil sep rest)
      simp [h]

/-- Gluing is the library's way to put a separator between lists. -/
theorem glue_eq_intercalate (sep : Char) (parts : List (List Char)) :
    glue sep parts = [sep].intercalate parts := by
  induction parts with
  | nil => rfl
  | cons piece others ih =>
      cases others with
      | nil => simp [glue]
      | cons next others => simp [glue, ih]

/-- There is always a piece. -/
theorem pieces_ne_nil (sep : Char) (text : List Char) : pieces sep text ≠ [] := by
  rw [pieces_eq_split_on]
  exact List.splitOn_ne_nil sep text

/-- Gluing the pieces gives back the text. -/
theorem glue_pieces (sep : Char) (text : List Char) : glue sep (pieces sep text) = text := by
  rw [pieces_eq_split_on, glue_eq_intercalate, List.intercalate_splitOn]

/-- No piece holds the separator. -/
theorem not_mem_of_mem_pieces {sep : Char} {text piece : List Char} (h : piece ∈ pieces sep text) :
    sep ∉ piece := by
  induction text generalizing piece with
  | nil =>
      simp only [pieces, List.mem_singleton] at h
      simp [h]
  | cons c rest ih =>
      obtain ⟨first, others, hp⟩ := List.exists_cons_of_ne_nil (pieces_ne_nil sep rest)
      by_cases hc : c = sep
      · rw [pieces, if_pos hc, List.mem_cons] at h
        rcases h with h | h
        · simp [h]
        · exact ih h
      · simp only [pieces, if_neg hc, hp, List.mem_cons] at h
        rcases h with h | h
        · subst h
          have hfirst : sep ∉ first := ih (by simp [hp])
          simp [hfirst, Ne.symm hc]
        · exact ih (by simp [hp, h])

/-- A text without the separator is a single piece. -/
theorem pieces_of_not_mem {sep : Char} {text : List Char} (h : sep ∉ text) :
    pieces sep text = [text] := by
  rw [pieces_eq_split_on, List.splitOn_eq_singleton h]

/-- A separator ends the first text's last piece and starts the second text's first one. -/
theorem pieces_append_cons (sep : Char) (left right : List Char) :
    pieces sep (left ++ sep :: right) = pieces sep left ++ pieces sep right := by
  simp only [pieces_eq_split_on, List.splitOn_append_cons_self]

/-- What is cut off a text with an ending is a part of the text, but for the last part, which has
the ending as well. -/
theorem exists_of_mem_pieces_append {sep c : Char} {text ending part : List Char}
    (hc : c ∉ text) (hsep : sep ∉ ending) (h : part ∈ pieces sep (text ++ ending)) :
    ∃ start, c ∉ start ∧ (part = start ∨ part = start ++ ending) := by
  induction text generalizing part with
  | nil =>
      rw [List.nil_append, pieces_of_not_mem hsep, List.mem_singleton] at h
      exact ⟨[], List.not_mem_nil, Or.inr h⟩
  | cons first rest ih =>
      simp only [List.mem_cons, not_or] at hc
      obtain ⟨hfirst, hrest⟩ := hc
      obtain ⟨piece, others, hpieces⟩ :=
        List.exists_cons_of_ne_nil (pieces_ne_nil sep (rest ++ ending))
      rw [List.cons_append, pieces, hpieces] at h
      rw [hpieces] at ih
      split at h
      · rcases List.mem_cons.1 h with rfl | h
        · exact ⟨[], List.not_mem_nil, Or.inl rfl⟩
        · exact ih hrest h
      · rcases List.mem_cons.1 h with rfl | h
        · obtain ⟨start, hstart, hpiece⟩ := ih hrest (List.mem_cons_self ..)
          refine ⟨first :: start, List.not_mem_cons_of_ne_of_not_mem hfirst hstart, ?_⟩
          exact hpiece.imp (congrArg (List.cons first)) (congrArg (List.cons first))
        · exact ih hrest (List.mem_cons_of_mem _ h)

end CanonicalNames.Text
