import Mathlib.Data.List.TakeWhile
import DocCatalog.Comment.Decoration
import DocCatalog.Proofs.Text.Path
import DocCatalog.Proofs.Text.Parts

/-!
# The margin of a text

What is the margin of a text can be said in two other ways. One is a pattern, `^[\s*]*` with `^` at
the start of every line: all its matches are taken out. A match is as long as it can be, and since a
line feed is blank it may run over several lines. The other way looks at every line alone: the line
loses its margin, and if nothing is left it disappears.

Results:
1. `withoutMatches_margin`: taking out the matches of the pattern drops the margin.
2. `stripMargin_eq_flushText`: so does going through the lines.
3. `pieces_flushText`: the lines that are left.
4. `stripMargin_sublist`, `stripMargin_stripMargin`: nothing is added, and no margin is left.
5. `margin_by_lines`: all of this together.
-/

namespace DocCatalog.Comment

/-! ## The pattern -/

/-- Takes all matches of a pattern out of a text, of which `previous` is the character before it. At
each place, from left to right, `matchLength?` is given the character before and the text after the
place, and says how long the match is that begins there. The search goes on behind a match. An empty
match takes out nothing, so the next character stays. -/
def withoutMatches (matchLength? : Option Char → List Char → Option Nat) (previous : Option Char) :
    List Char → List Char
  | [] => []
  | c :: rest =>
    match matchLength? previous (c :: rest) with
    | some (n + 1) => withoutMatches matchLength? (c :: rest)[n]? (rest.drop n)
    | _ => c :: withoutMatches matchLength? (some c) rest
termination_by text => text.length
decreasing_by all_goals simp; try omega

/-- Whether a line starts behind a character, or at the start of the text. -/
def startsLine (previous : Option Char) : Bool :=
  previous.all (· == '\n')

/-- The pattern of the margin: at the start of a line as much margin as there is. -/
def marginLength? (previous : Option Char) (text : List Char) : Option Nat :=
  if startsLine previous then some (text.takeWhile isMargin).length else none

theorem stripMargin_cons_of_ink {c : Char} (ink : isMargin c = false) (atStart : Bool)
    (rest : List Char) : stripMargin atStart (c :: rest) = c :: stripMargin (c == '\n') rest := by
  rw [stripMargin, ink, Bool.and_false, if_neg Bool.false_ne_true]

theorem stripMargin_cons_of_margin {c : Char} (margin : isMargin c = true) (rest : List Char) :
    stripMargin true (c :: rest) = stripMargin true rest := by
  rw [stripMargin, margin, Bool.and_true, if_pos rfl]

theorem stripMargin_false_cons (c : Char) (rest : List Char) :
    stripMargin false (c :: rest) = c :: stripMargin (c == '\n') rest := by
  rw [stripMargin, Bool.false_and, if_neg Bool.false_ne_true]

/-- Behind its margin a line is read alike, whatever stands before it. -/
theorem stripMargin_dropWhile (atStart : Bool) (text : List Char) :
    stripMargin atStart (text.dropWhile isMargin) = stripMargin true text := by
  induction text with
  | nil => cases atStart <;> rfl
  | cons c rest ih =>
    by_cases margin : isMargin c = true
    · rw [List.dropWhile_cons_of_pos margin, ih, stripMargin_cons_of_margin margin]
    · have ink : isMargin c = false := by simpa using margin
      rw [List.dropWhile_cons_of_neg margin, stripMargin_cons_of_ink ink,
        stripMargin_cons_of_ink ink]

/-- Taking out the matches of the pattern drops the margin. -/
theorem withoutMatches_margin (previous : Option Char) (text : List Char) :
    withoutMatches marginLength? previous text = stripMargin (startsLine previous) text := by
  fun_induction withoutMatches marginLength? previous text with
  | case1 => simp [stripMargin]
  | case2 previous c rest n found ih =>
    obtain ⟨atStart, length⟩ : startsLine previous = true ∧
        ((c :: rest).takeWhile isMargin).length = n + 1 := by
      simpa [marginLength?] using found
    have behind : rest.drop n = (c :: rest).dropWhile isMargin := by
      have whole : (c :: rest).takeWhile isMargin ++ (c :: rest).dropWhile isMargin = c :: rest :=
        List.takeWhile_append_dropWhile
      calc rest.drop n
          = (c :: rest).drop ((c :: rest).takeWhile isMargin).length := by
            rw [length, List.drop_succ_cons]
        _ = ((c :: rest).takeWhile isMargin ++ (c :: rest).dropWhile isMargin).drop
              ((c :: rest).takeWhile isMargin).length := by rw [whole]
        _ = (c :: rest).dropWhile isMargin := List.drop_left
    rw [ih, behind, stripMargin_dropWhile, atStart]
  | case3 previous c rest noMatch ih =>
    have here : (startsLine previous && isMargin c) = false := by
      by_contra both
      obtain ⟨atStart, margin⟩ := Bool.and_eq_true_iff.1 (Bool.not_eq_false _ ▸ both)
      refine noMatch (rest.takeWhile isMargin).length ?_
      simp [marginLength?, atStart, margin]
    rw [ih, stripMargin, here, if_neg Bool.false_ne_true]
    rfl

/-! ## The lines -/

/-- The lines of a text without their margin. -/
def strippedLines (text : List Char) : List (List Char) :=
  (Text.pieces '\n' text).map (List.dropWhile isMargin)

/-- Joins the lines that are not empty. When the last line is empty, the text that is left ends with
a line feed. -/
def joinFlush (lines : List (List Char)) : List Char :=
  let kept := lines.filter (· ≠ [])
  Text.joined ['\n'] kept ++ if kept ≠ [] ∧ lines.getLast? = some [] then ['\n'] else []

/-- The text without the margin of its lines, line by line. -/
def flushText (text : List Char) : List Char :=
  joinFlush (strippedLines text)

theorem joinFlush_singleton (line : List Char) : joinFlush [line] = line := by
  by_cases empty : line = [] <;> simp [joinFlush, Text.joined, empty]

/-- An empty line disappears, and any other one stays with its line feed. -/
theorem joinFlush_cons (line : List Char) {others : List (List Char)} (present : others ≠ []) :
    joinFlush (line :: others) =
      if line = [] then joinFlush others else line ++ '\n' :: joinFlush others := by
  have last : (line :: others).getLast? = others.getLast? := List.getLast?_cons_of_ne_nil present
  by_cases empty : line = []
  · have kept : (line :: others).filter (· ≠ []) = others.filter (· ≠ []) :=
      List.filter_cons_of_neg (by simp [empty])
    simp only [joinFlush, kept, last, if_pos empty]
  · have kept : (line :: others).filter (· ≠ []) = line :: others.filter (· ≠ []) :=
      List.filter_cons_of_pos (by simp [empty])
    simp only [joinFlush, kept, last, if_neg empty]
    cases keptOthers : others.filter (· ≠ []) with
    | nil =>
      -- All other lines are empty, the last one too.
      have allEmpty : ∀ other ∈ others, other = [] := by simpa using keptOthers
      have lastEmpty : others.getLast? = some [] := by
        rw [List.getLast?_eq_some_getLast present, allEmpty _ (List.getLast_mem present)]
      simp [lastEmpty, Text.joined]
    | cons next more => simp [Text.joined]

/-- A line without line feeds loses its margin, also when other lines follow. -/
theorem stripMargin_line {line : List Char} (plain : '\n' ∉ line) :
    stripMargin true line = line.dropWhile isMargin ∧
      ∀ rest, stripMargin true (line ++ '\n' :: rest) =
        if line.dropWhile isMargin = [] then stripMargin true rest
        else line.dropWhile isMargin ++ '\n' :: stripMargin true rest := by
  have inLine {text : List Char} (plain : '\n' ∉ text) :
      stripMargin false text = text ∧
        ∀ rest, stripMargin false (text ++ '\n' :: rest) =
          text ++ '\n' :: stripMargin true rest := by
    induction text with
    | nil => exact ⟨rfl, fun rest => stripMargin_false_cons '\n' rest⟩
    | cons c text ih =>
      obtain ⟨differs, away⟩ := List.ne_and_not_mem_of_not_mem_cons plain
      have sameLine : (c == '\n') = false := beq_false_of_ne (Ne.symm differs)
      obtain ⟨alone, before⟩ := ih away
      constructor
      · rw [stripMargin_false_cons, sameLine, alone]
      · intro rest
        rw [List.cons_append, stripMargin_false_cons, sameLine, before, List.cons_append]
  induction line with
  | nil => exact ⟨rfl, fun rest => stripMargin_cons_of_margin (by decide) rest⟩
  | cons c text ih =>
    obtain ⟨differs, away⟩ := List.ne_and_not_mem_of_not_mem_cons plain
    by_cases margin : isMargin c = true
    · simp only [List.cons_append, stripMargin_cons_of_margin margin,
        List.dropWhile_cons_of_pos margin]
      exact ih away
    · have ink : isMargin c = false := by simpa using margin
      have sameLine : (c == '\n') = false := beq_false_of_ne (Ne.symm differs)
      obtain ⟨alone, before⟩ := inLine away
      simp only [List.cons_append, stripMargin_cons_of_ink ink, List.dropWhile_cons_of_neg margin,
        sameLine, alone, before]
      simp

/-- Going through the lines drops the margin. -/
theorem stripMargin_eq_flushText (text : List Char) : stripMargin true text = flushText text := by
  have byLines (lines : List (List Char)) (present : lines ≠ [])
      (plain : ∀ line ∈ lines, '\n' ∉ line) :
      stripMargin true (Text.joined ['\n'] lines) =
        joinFlush (lines.map (List.dropWhile isMargin)) := by
    induction lines with
    | nil => exact absurd rfl present
    | cons line others ih =>
      obtain ⟨first, later⟩ := List.forall_mem_cons.1 plain
      obtain ⟨alone, before⟩ := stripMargin_line first
      cases others with
      | nil => rw [Text.joined, alone, List.map_singleton, joinFlush_singleton]
      | cons next more =>
        have stripped : (next :: more).map (List.dropWhile isMargin) ≠ [] :=
          List.cons_ne_nil _ _
        rw [Text.joined, List.append_assoc, List.singleton_append, before,
          ih (List.cons_ne_nil next more) later, ← joinFlush_cons _ stripped]
        rfl
  have lines := byLines (Text.pieces '\n' text) (Text.pieces_ne_nil '\n' text)
    fun line member => Text.not_mem_of_mem_pieces member
  rwa [Text.joined_pieces] at lines

/-! ## The text that is left -/

/-- Of the lines that are left all but the last are not empty. -/
theorem pieces_joinFlush {lines : List (List Char)} (present : lines ≠ [])
    (plain : ∀ line ∈ lines, '\n' ∉ line) :
    Text.pieces '\n' (joinFlush lines) =
      lines.dropLast.filter (· ≠ []) ++ [lines.getLast present] := by
  induction lines with
  | nil => exact absurd rfl present
  | cons line others ih =>
    obtain ⟨first, later⟩ := List.forall_mem_cons.1 plain
    cases others with
    | nil => simp [joinFlush_singleton, Text.pieces_eq_splitOn, List.splitOn_eq_singleton first]
    | cons next more =>
      have below := ih (List.cons_ne_nil next more) later
      rw [joinFlush_cons line (List.cons_ne_nil next more), List.dropLast_cons_cons,
        List.getLast_cons (List.cons_ne_nil next more)]
      by_cases empty : line = []
      · simpa [empty] using below
      · rw [if_neg empty, Text.pieces_eq_splitOn, List.splitOn_append_cons_self,
          List.splitOn_eq_singleton first, ← Text.pieces_eq_splitOn, below]
        simp [empty]

theorem strippedLines_ne_nil (text : List Char) : strippedLines text ≠ [] := by
  simp [strippedLines, Text.pieces_ne_nil]

theorem plain_of_mem_strippedLines {text line : List Char} (member : line ∈ strippedLines text) :
    '\n' ∉ line := by
  obtain ⟨piece, inText, rfl⟩ := List.mem_map.1 member
  exact fun lineFeed =>
    Text.not_mem_of_mem_pieces inText ((List.dropWhile_sublist _).subset lineFeed)

theorem head?_of_mem_strippedLines {text line : List Char} (member : line ∈ strippedLines text)
    {c : Char} (head : c ∈ line.head?) : isMargin c = false := by
  obtain ⟨piece, -, rfl⟩ := List.mem_map.1 member
  have ink := List.head?_dropWhile_not isMargin piece
  rw [Option.mem_def.1 head] at ink
  simpa using ink

/-- The lines of the text that is left: the lines without their margin that are not empty, but the
last one in any case. -/
theorem pieces_flushText (text : List Char) :
    Text.pieces '\n' (flushText text) =
      (strippedLines text).dropLast.filter (· ≠ []) ++
        [(strippedLines text).getLast (strippedLines_ne_nil text)] :=
  pieces_joinFlush (strippedLines_ne_nil text) fun _ => plain_of_mem_strippedLines

theorem stripMargin_sublist (atStart : Bool) (text : List Char) :
    (stripMargin atStart text).Sublist text := by
  induction text generalizing atStart with
  | nil => exact List.Sublist.refl []
  | cons c rest ih =>
    rw [stripMargin]
    split
    · exact (ih true).cons c
    · exact (ih _).cons_cons c

theorem stripMargin_stripMargin (atStart : Bool) (text : List Char) :
    stripMargin atStart (stripMargin atStart text) = stripMargin atStart text := by
  induction text generalizing atStart with
  | nil => rfl
  | cons c rest ih =>
    rw [stripMargin]
    split
    case isTrue here =>
      obtain ⟨rfl, -⟩ := Bool.and_eq_true_iff.1 here
      exact ih true
    case isFalse stays => rw [stripMargin, if_neg stays, ih]

/-- Taking out the matches of the pattern is going through the lines, and both drop the margin.
What is left is a part of the text, only its last line can be empty, no line begins with margin, and
there is nothing more to take out. -/
theorem margin_by_lines (text : List Char) :
    let stripped := withoutMatches marginLength? none text
    stripMargin true text = stripped ∧ stripped = flushText text ∧
      stripped.Sublist text ∧
      (∀ line ∈ (Text.pieces '\n' stripped).dropLast, line ≠ []) ∧
      (∀ line ∈ Text.pieces '\n' stripped, ∀ c ∈ line.head?, isMargin c = false) ∧
      withoutMatches marginLength? none stripped = stripped := by
  intro stripped
  have byPattern (other : List Char) :
      withoutMatches marginLength? none other = stripMargin true other :=
    withoutMatches_margin none other
  have byLines : stripped = flushText text := (byPattern text).trans (stripMargin_eq_flushText text)
  have linesLeft := pieces_flushText text
  rw [← byLines] at linesLeft
  refine ⟨(byPattern text).symm, byLines, ?_, ?_, ?_, ?_⟩
  · rw [show stripped = stripMargin true text from byPattern text]
    exact stripMargin_sublist true text
  · rw [linesLeft, List.dropLast_concat]
    intro line member
    simpa using (List.mem_filter.1 member).2
  · rw [linesLeft]
    intro line member c head
    rcases List.mem_append.1 member with before | last
    · exact head?_of_mem_strippedLines
        ((List.dropLast_sublist _).subset (List.mem_filter.1 before).1) head
    · rw [List.mem_singleton.1 last] at head
      exact head?_of_mem_strippedLines (List.getLast_mem _) head
  · rw [byPattern, show stripped = stripMargin true text from byPattern text,
      stripMargin_stripMargin]

/-- A match runs over several lines, lines of margin disappear in front, in between and at the end,
and a line feed stays at the end. -/
example : flushText " *\n\n * a *\r\n **\n\n\tb\n  *".toList = "a *\r\nb\n".toList := by decide

end DocCatalog.Comment
