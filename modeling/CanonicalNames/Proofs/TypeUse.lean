import Mathlib.Data.List.TakeWhile
import CanonicalNames.Declaration.Basic

/-!
# Spellings of written types

A written type is a name, perhaps type arguments, and array marks. `Spells` says which texts write
a row of marks, and `Writes` which texts write a whole type: white space may stand between these
parts and anywhere in the name. Reading is taken apart at the last character that belongs to
neither marks nor white space (`exists_spells`), which makes `parse` a function of the two sides
(`parse_of_spells`).

Every spelling of a type is read as its name, and as an array exactly if there are marks
(`parse_of_writes`). White space counts only where it tears a mark apart
(`parse_squeeze_eq_iff`).
-/

namespace CanonicalNames.TypeUse

open Text (isBlank squeeze squeeze_append mem_squeeze_iff squeeze_of_subset)

/-- What marks an array behind a written type. -/
inductive Mark where
  | brackets
  | dots
  deriving DecidableEq

/-- The characters of a mark. -/
def Mark.chars : Mark → List Char
  | .brackets => ['[', ']']
  | .dots => ['.', '.', '.']

/-- `Spells marks text` says that `text` writes `marks` in order, with any white space before,
between and after them. -/
inductive Spells : List Mark → List Char → Prop where
  | nil : Spells [] []
  | blank (c marks text) : isBlank c = true → Spells marks text → Spells marks (c :: text)
  | mark (mark marks text) : Spells marks text → Spells (mark :: marks) (mark.chars ++ text)

/-- A text that does not end in a mark. -/
def Unmarked (text : List Char) : Prop :=
  ∀ mark : Mark, ¬ mark.chars <:+ text

/-- A text that ends in neither a mark nor white space. -/
structure Bare (text : List Char) : Prop where
  unmarked : Unmarked text
  solid : ∀ c, [c] <:+ text → isBlank c = false

variable {text base tail : List Char} {marks : List Mark}

/-! ## Rows of marks -/

namespace Spells

theorem append {more : List Mark} {rest : List Char} (h : Spells marks text)
    (hrest : Spells more rest) : Spells (marks ++ more) (text ++ rest) := by
  induction h with
  | nil => exact hrest
  | blank c marks text hblank _ ih => exact .blank c _ _ hblank ih
  | mark mark marks text _ ih =>
      rw [List.append_assoc]
      exact .mark mark _ _ ih

theorem single (mark : Mark) : Spells [mark] mark.chars := by
  simpa using Spells.mark mark [] [] .nil

/-- Marks hold no white space, so that they are left when it is taken out. -/
theorem squeezed (h : Spells marks text) : Spells marks (squeeze text) := by
  induction h with
  | nil => exact .nil
  | blank c marks text hblank _ ih => simpa [squeeze, hblank] using ih
  | mark mark marks text _ ih =>
      have hmark : squeeze mark.chars = mark.chars := by cases mark <;> decide
      rw [squeeze_append, hmark]
      exact .mark mark _ _ ih

/-- Type arguments do not start among marks. -/
theorem not_mem (h : Spells marks text) : '<' ∉ text := by
  induction h with
  | nil => exact List.not_mem_nil
  | blank c marks text hblank _ ih =>
      have hc : '<' ≠ c := by
        rintro rfl
        exact absurd hblank (by decide)
      simp [hc, ih]
  | mark mark marks text _ ih =>
      have hmark : '<' ∉ mark.chars := by cases mark <;> decide
      simp [hmark, ih]

/-- Without marks there is only white space. -/
theorem squeeze_eq_nil_iff (h : Spells marks text) : squeeze text = [] ↔ marks = [] := by
  induction h with
  | nil => exact iff_of_true rfl rfl
  | blank c marks text hblank _ ih => simpa [squeeze, hblank] using ih
  | mark mark marks text hspells ih =>
      have hmark : squeeze mark.chars ≠ [] := by cases mark <;> decide
      rw [squeeze_append, List.append_eq_nil_iff]
      exact iff_of_false (fun hnil => hmark hnil.1) (List.cons_ne_nil _ _)

end Spells

/-! ## Taking marks off -/

theorem drop_marks_blank {c : Char} (hblank : isBlank c = true) (rest : List Char) :
    dropMarks (c :: rest) = dropMarks rest := by
  have hbracket : c ≠ ']' := by
    rintro rfl
    exact absurd hblank (by decide)
  have hdot : c ≠ '.' := by
    rintro rfl
    exact absurd hblank (by decide)
  rw [dropMarks.eq_def]
  split
  · next heq => exact absurd (List.cons.inj heq).1 hbracket
  · next heq => exact absurd (List.cons.inj heq).1 hdot
  · next heq =>
      cases heq
      rw [if_pos hblank]
  · next heq => cases heq

theorem drop_marks_mark (mark : Mark) (rest : List Char) :
    dropMarks (mark.chars.reverse ++ rest) = ((dropMarks rest).1, true) := by
  cases mark <;> rfl

/-- A row of marks at the end is taken off as a whole. -/
theorem drop_marks_append (base : List Char) (h : Spells marks tail) :
    dropMarks (base ++ tail).reverse =
      ((dropMarks base.reverse).1, (dropMarks base.reverse).2 || !marks.isEmpty) := by
  induction h generalizing base with
  | nil => simp
  | blank c marks text hblank _ ih =>
      have hstep := ih (base ++ [c])
      rwa [List.reverse_concat, drop_marks_blank hblank, List.append_assoc,
        List.singleton_append] at hstep
  | mark mark marks text _ ih =>
      have hmark : (base ++ mark.chars).reverse = mark.chars.reverse ++ base.reverse :=
        List.reverse_append
      have hstep := ih (base ++ mark.chars)
      rw [hmark, drop_marks_mark] at hstep
      simpa using hstep

/-- What a bare text ends in, said of the reversed text. -/
theorem bare_reverse_iff {reversed : List Char} :
    Bare reversed.reverse ↔ (∀ mark : Mark, ¬ mark.chars.reverse <+: reversed) ∧
      ∀ c, [c] <+: reversed → isBlank c = false := by
  have hends : ∀ ending, ending <:+ reversed.reverse ↔ ending.reverse <+: reversed := by
    intro ending
    rw [← List.reverse_prefix, List.reverse_reverse]
  constructor
  · intro h
    exact ⟨fun mark hmark => h.unmarked mark ((hends _).2 hmark),
      fun c hc => h.solid c ((hends [c]).2 hc)⟩
  · intro h
    exact ⟨fun mark hmark => h.1 mark ((hends _).1 hmark), fun c hc => h.2 c ((hends [c]).1 hc)⟩

/-- Nothing is taken off a bare text. -/
theorem Bare.drop_marks (h : Bare text) : dropMarks text.reverse = (text.reverse, false) := by
  rw [← text.reverse_reverse, bare_reverse_iff] at h
  generalize text.reverse = reversed at h
  unfold dropMarks
  split
  · next rest => exact absurd ⟨rest, rfl⟩ (h.1 .brackets)
  · next rest => exact absurd ⟨rest, rfl⟩ (h.1 .dots)
  · next c rest _ _ => rw [h.2 c ⟨rest, rfl⟩, if_neg Bool.false_ne_true]
  · rfl

/-- Every text is a bare text and a row of marks behind it. -/
theorem exists_spells (text : List Char) :
    ∃ base tail marks, text = base ++ tail ∧ Bare base ∧ Spells marks tail := by
  have hreverse : ∀ reversed : List Char,
      ∃ base tail marks, reversed.reverse = base ++ tail ∧ Bare base ∧ Spells marks tail := by
    intro reversed
    fun_induction dropMarks reversed with
    | case1 rest ih =>
        obtain ⟨base, tail, marks, hrest, hbare, hspells⟩ := ih
        exact ⟨base, _, _, by simp [hrest, Mark.chars], hbare, hspells.append (.single .brackets)⟩
    | case2 rest ih =>
        obtain ⟨base, tail, marks, hrest, hbare, hspells⟩ := ih
        exact ⟨base, _, _, by simp [hrest, Mark.chars], hbare, hspells.append (.single .dots)⟩
    | case3 c rest hbrackets hdots hblank ih =>
        obtain ⟨base, tail, marks, hrest, hbare, hspells⟩ := ih
        exact ⟨base, _, _, by simp [hrest], hbare, hspells.append (.blank c [] [] hblank .nil)⟩
    | case4 c rest hbrackets hdots hsolid =>
        refine ⟨_, [], [], (List.append_nil _).symm, bare_reverse_iff.2 ⟨?_, ?_⟩, .nil⟩
        · rintro (_ | _) ⟨more, hmore⟩
          · exact hbrackets more (List.cons.inj hmore).1.symm (List.cons.inj hmore).2.symm
          · exact hdots more (List.cons.inj hmore).1.symm (List.cons.inj hmore).2.symm
        · rintro other ⟨more, hmore⟩
          rw [(List.cons.inj hmore).1]
          exact Bool.eq_false_iff.2 hsolid
    | case5 =>
        refine ⟨[], [], [], rfl, ⟨fun mark hmark => ?_, fun c hc => ?_⟩, .nil⟩
        · cases mark <;> simp [Mark.chars] at hmark
        · simp at hc
  simpa using hreverse text.reverse

/-- Reading depends on the bare text for the name, and on the marks for the array. -/
theorem parse_of_spells {written : String} (hwritten : written.toList = base ++ tail)
    (hbare : Bare base) (hspells : Spells marks tail) :
    parse written = { name := String.ofList (erase base), isArray := !marks.isEmpty } := by
  rw [parse, hwritten, drop_marks_append base hspells, hbare.drop_marks]
  simp

/-! ## Names -/

theorem erase_args (rest : List Char) : erase ('<' :: rest) = [] := rfl

/-- What stands before the start of type arguments counts, but for its white space. -/
theorem erase_append_of_not_mem (h : '<' ∉ text) (rest : List Char) :
    erase (text ++ rest) = squeeze text ++ erase rest := by
  have hname : ∀ c ∈ text, (c != '<') = true := by
    intro c hc
    rw [bne_iff_ne]
    rintro rfl
    exact h hc
  rw [erase, List.takeWhile_append_of_pos hname, squeeze_append, erase]

theorem erase_of_not_mem (h : '<' ∉ text) : erase text = squeeze text := by
  have herase := erase_append_of_not_mem h []
  rwa [List.append_nil, show erase [] = [] from rfl, List.append_nil] at herase

/-- What follows the start of type arguments does not count. -/
theorem erase_append_of_mem (h : '<' ∈ base) (tail : List Char) :
    erase (base ++ tail) = erase base := by
  obtain ⟨name, args, rfl, hname⟩ := List.eq_append_cons_of_mem h
  rw [List.append_assoc, List.cons_append, erase_append_of_not_mem hname, erase_args,
    erase_append_of_not_mem hname, erase_args]

/-- Marks behind a text belong to the name, unless type arguments start before them. -/
theorem erase_append_eq_iff (hspells : Spells marks tail) :
    erase (base ++ tail) = erase base ↔ marks = [] ∨ '<' ∈ base := by
  by_cases hargs : '<' ∈ base
  · exact iff_of_true (erase_append_of_mem hargs tail) (Or.inr hargs)
  · rw [erase_append_of_not_mem hargs, erase_of_not_mem hspells.not_mem, erase_of_not_mem hargs,
      List.append_right_eq_self, hspells.squeeze_eq_nil_iff, or_iff_left hargs]

/-- White space does not count in a name. -/
theorem erase_squeeze (text : List Char) : erase (squeeze text) = erase text := by
  have hstop : (fun c => !(!isBlank c) || c != '<') = (fun c => c != '<') := by
    funext c
    by_cases hc : c = '<'
    · subst hc
      decide
    · simp [hc]
  simp only [erase, squeeze, List.takeWhile_filter, hstop, List.filter_filter, Bool.and_self]

/-! ## Spellings of a type -/

/-- Type arguments: nothing, or a text in angle brackets. -/
def IsArguments (args : List Char) : Prop :=
  args = [] ∨ args.head? = some '<' ∧ args.getLast? = some '>'

/-- `Writes name args marks text` says that `text` writes a type: the name with white space anywhere
in it, before it and after it, then the arguments, then the marks with white space around them. -/
def Writes (name args : List Char) (marks : List Mark) (text : List Char) : Prop :=
  ∃ spaced tail, text = spaced ++ args ++ tail ∧ squeeze spaced = name ∧ Spells marks tail

/-- Where a text ends in no mark once its white space is taken out, there are no marks to take
off. -/
theorem eq_nil_of_unmarked_squeeze (hspells : Spells marks tail)
    (h : Unmarked (squeeze (base ++ tail))) : marks = [] := by
  have hbare : Bare (squeeze (base ++ tail)) := by
    refine ⟨h, fun c hc => ?_⟩
    exact Text.is_blank_eq_false_of_mem_squeeze (hc.subset (List.mem_singleton_self c))
  have hdrop := hbare.drop_marks
  rw [squeeze_append, drop_marks_append _ hspells.squeezed, Prod.mk.injEq,
    Bool.or_eq_false_iff] at hdrop
  simpa using hdrop.2.2

/-- A text in angle brackets is bare. -/
theorem bare_of_args {args : List Char} (hargs : args.getLast? = some '>') (front : List Char) :
    Bare (front ++ args) := by
  obtain ⟨rest, rfl⟩ := List.getLast?_eq_some_iff.1 hargs
  have hreverse : front ++ (rest ++ ['>']) = ('>' :: (front ++ rest).reverse).reverse := by simp
  rw [hreverse, bare_reverse_iff]
  refine ⟨fun mark hmark => ?_, fun c hc => ?_⟩
  · cases mark <;> simp [Mark.chars] at hmark
  · obtain rfl : c = '>' := by simpa using hc
    decide

/-- A spelling of a type is a bare text that is erased to the name, and the marks behind it. -/
theorem Writes.exists_bare {name args : List Char} (h : Writes name args marks text)
    (hargs : IsArguments args) (hname : '<' ∉ name) (hunmarked : Unmarked name) :
    ∃ base tail, text = base ++ tail ∧ Bare base ∧ Spells marks tail ∧ erase base = name := by
  obtain ⟨spaced, tail, rfl, rfl, hspells⟩ := h
  have hspaced : '<' ∉ spaced := fun hmem => hname ((mem_squeeze_iff (by decide)).2 hmem)
  rcases hargs with rfl | ⟨hstart, hend⟩
  · -- Without arguments, white space behind the name goes with the marks.
    obtain ⟨base, blanks, found, rfl, hbare, hblanks⟩ := exists_spells spaced
    obtain rfl := eq_nil_of_unmarked_squeeze hblanks hunmarked
    have hbase : '<' ∉ base := fun hmem => hspaced (List.mem_append_left _ hmem)
    refine ⟨base, blanks ++ tail, by simp, hbare, hblanks.append hspells, ?_⟩
    rw [erase_of_not_mem hbase, squeeze_append, hblanks.squeeze_eq_nil_iff.2 rfl, List.append_nil]
  · refine ⟨spaced ++ args, tail, rfl, bare_of_args hend spaced, hspells, ?_⟩
    obtain ⟨rest, rfl⟩ := List.head?_eq_some_iff.1 hstart
    rw [erase_append_of_not_mem hspaced, erase_args, List.append_nil]

/-- Every spelling of a type is read as its name, and as an array exactly if there are marks or it
is said to be one. -/
theorem parse_of_writes {name written : String} {args : List Char} {marks : List Mark}
    (hname : '<' ∉ name.toList) (hunmarked : Unmarked name.toList) (hargs : IsArguments args)
    (hwritten : Writes name.toList args marks written.toList) (isArray : Bool) :
    parse written = { name, isArray := !marks.isEmpty } ∧
      (WrittenType.text written).toUse = { name, isArray := !marks.isEmpty } ∧
      (WrittenType.detailed written isArray).toUse =
        { name, isArray := isArray || !marks.isEmpty } := by
  obtain ⟨base, tail, htext, hbare, hspells, herase⟩ :=
    hwritten.exists_bare hargs hname hunmarked
  have hparse := parse_of_spells htext hbare hspells
  rw [herase, String.ofList_toList] at hparse
  refine ⟨hparse, hparse, ?_⟩
  rw [WrittenType.toUse, hparse]

/-- An array of entries with white space in and around all of its parts. -/
def spacedEntry : String := " Map .\tEntry <K[], V...> [] ...\u00a0[] "

/-- Marks and dots in the arguments do not count, nor does white space around the dot of the
name. -/
theorem spaced_entry_is_erased :
    Writes "Map.Entry".toList "<K[], V...>".toList [.brackets, .dots, .brackets]
        spacedEntry.toList ∧
      parse spacedEntry = { name := "Map.Entry", isArray := true } ∧
      (WrittenType.detailed spacedEntry false).toUse =
        { name := "Map.Entry", isArray := true } := by
  have hwrites : Writes "Map.Entry".toList "<K[], V...>".toList [.brackets, .dots, .brackets]
      spacedEntry.toList :=
    ⟨" Map .\tEntry ".toList, " [] ...\u00a0[] ".toList, by decide, by decide,
      .blank _ _ _ (by decide) (.mark .brackets _ _ (.blank _ _ _ (by decide)
        (.mark .dots _ _ (.blank _ _ _ (by decide)
          (.mark .brackets _ _ (.blank _ _ _ (by decide) .nil))))))⟩
  have hentry := parse_of_writes (by decide) (by rintro (_ | _) <;> decide) (.inr (by decide))
    hwrites false
  exact ⟨hwrites, hentry.1, hentry.2.2⟩

/-! ## White space -/

/-- Without white space, a text that ends in no mark is bare, and only such a text has no marks to
take off. -/
theorem unmarked_squeeze_iff (hbase : squeeze text = base ++ tail) (hbare : Bare base)
    (hspells : Spells marks tail) : Unmarked (squeeze text) ↔ marks = [] := by
  constructor
  · intro h
    have hself : squeeze (base ++ tail) = base ++ tail :=
      squeeze_of_subset (fun c hc => hbase ▸ hc)
    rw [hbase, ← hself] at h
    exact eq_nil_of_unmarked_squeeze hspells h
  · rintro rfl
    have htail : squeeze tail = tail :=
      squeeze_of_subset (hbase ▸ List.subset_append_right base tail)
    rw [hbase, ← htail, hspells.squeeze_eq_nil_iff.2 rfl, List.append_nil]
    exact hbare.unmarked

/-- White space counts only where it tears a mark apart. When the marks are taken off a written
type, the type is read the same with and without its white space exactly if what is left ends in no
mark once its white space is taken out, or if type arguments keep that torn mark out of the name and
there are other marks that make the type an array. -/
theorem parse_squeeze_eq_iff (written : String) :
    ∃ base tail marks, written.toList = base ++ tail ∧ Bare base ∧ Spells marks tail ∧
      (parse (String.ofList (squeeze written.toList)) = parse written ↔
        Unmarked (squeeze base) ∨ marks ≠ [] ∧ '<' ∈ base) := by
  obtain ⟨base, tail, marks, htext, hbare, hspells⟩ := exists_spells written.toList
  refine ⟨base, tail, marks, htext, hbare, hspells, ?_⟩
  -- The squeezed text has the same marks behind it, and perhaps torn ones before them.
  obtain ⟨inner, torn, found, hinner, hbareInner, htorn⟩ := exists_spells (squeeze base)
  have hsqueezed : (String.ofList (squeeze written.toList)).toList =
      inner ++ (torn ++ squeeze tail) := by
    rw [String.toList_ofList, htext, squeeze_append, hinner, List.append_assoc]
  have hargs : '<' ∈ base ↔ '<' ∈ inner := by
    rw [← mem_squeeze_iff (by decide), hinner, List.mem_append, or_iff_left htorn.not_mem]
  have hname : erase inner = erase base ↔ found = [] ∨ '<' ∈ inner := by
    rw [← erase_squeeze base, hinner, eq_comm, erase_append_eq_iff htorn]
  have harray : (!(found ++ marks).isEmpty) = (!marks.isEmpty) ↔ found = [] ∨ marks ≠ [] := by
    cases found <;> cases marks <;> simp
  rw [parse_of_spells htext hbare hspells,
    parse_of_spells hsqueezed hbareInner (htorn.append hspells.squeezed), mk.injEq,
    String.ofList_inj, hname, harray, unmarked_squeeze_iff hinner hbareInner htorn, hargs,
    ← or_and_left, and_comm]

/-- White space in a pair of brackets makes the brackets a part of the name. -/
theorem torn_brackets_are_read_as_name :
    parse (String.ofList (squeeze "int[ ]".toList)) ≠ parse "int[ ]" ∧
      parse (String.ofList (squeeze "int[ ]".toList)) = { name := "int", isArray := true } ∧
      parse "int[ ]" = { name := "int[]", isArray := false } := by
  decide

end CanonicalNames.TypeUse
