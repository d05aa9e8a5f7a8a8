import DocCatalog.Proofs.Source.Lexer

/-!
# Texts that can be continued on a new line

A text is closed when reading it ends outside string literals and doc comments. What stands open
then is at most a slash, a `/*` or a line comment, and a line feed ends all of these. So a closed
text and a text on the lines after it do not touch: slashes, stars and quotes at the end of the one
never combine with the start of the other.

Results:
1. `bodies_append`: a text in two parts is read by handing on the mode.
2. `bodies_append_lineFeed`, `endMode_append_lineFeed`: after a closed text and a line feed, the
   rest is read as if it stood alone.
3. `isClosed_iff`: closed texts are the only ones of which this holds.
-/

namespace DocCatalog.Source

/-- Whether a line feed leads back to code. -/
def Mode.isClosed : Mode → Bool
  | code | slash | slashStar | line => true
  | string _ _ | doc _ => false

/-- Where a text ends that starts in code. -/
def endMode (text : List Char) : Mode :=
  text.foldl Mode.next .code

/-- Whether a text ends outside string literals and doc comments. -/
def isClosed (text : List Char) : Bool :=
  (endMode text).isClosed

/-- The bodies that end within a text. -/
def endedIn : Mode → List Char → List (List Char)
  | _, [] => []
  | mode, c :: rest => (mode.ended? c).toList ++ endedIn (mode.next c) rest

/-! ## Two parts -/

theorem read_append (mode : Mode) (first second : List Char) :
    read mode (first ++ second) =
      endedIn mode first ++ read (first.foldl Mode.next mode) second := by
  induction first generalizing mode with
  | nil => rfl
  | cons c rest ih =>
    rw [List.cons_append, read, ih, endedIn, List.append_assoc]
    rfl

theorem bodies_append (first second : List Char) :
    bodies (first ++ second) = endedIn .code first ++ read (endMode first) second := by
  rw [bodies_eq_read, read_append, endMode]

theorem bodies_eq_endedIn (text : List Char) :
    bodies text = endedIn .code text ++ (endMode text).cutOff?.toList := by
  have whole := bodies_append text []
  rw [List.append_nil] at whole
  exact whole

/-! ## A line feed after a closed text -/

theorem Mode.next_lineFeed {mode : Mode} (closed : mode.isClosed = true) :
    mode.next '\n' = .code ∧ mode.ended? '\n' = none := by
  cases mode with
  | code | slash | slashStar | line => exact ⟨rfl, rfl⟩
  | string quote previous | doc held => simp [isClosed] at closed

theorem Mode.cutOff?_eq_none {mode : Mode} (closed : mode.isClosed = true) :
    mode.cutOff? = none := by
  cases mode with
  | code | slash | slashStar | line => rfl
  | string quote previous | doc held => simp [isClosed] at closed

theorem bodies_append_lineFeed {first : List Char} (closed : isClosed first = true)
    (second : List Char) : bodies (first ++ '\n' :: second) = bodies first ++ bodies second := by
  obtain ⟨next, ended⟩ := Mode.next_lineFeed closed
  rw [bodies_append, bodies_eq_endedIn first, Mode.cutOff?_eq_none closed, read, next, ended,
    bodies_eq_read second]
  simp

theorem endMode_append_lineFeed {first : List Char} (closed : isClosed first = true)
    (second : List Char) : endMode (first ++ '\n' :: second) = endMode second := by
  have next : (endMode first).next '\n' = .code := (Mode.next_lineFeed closed).1
  rw [endMode, List.foldl_append, List.foldl_cons, ← endMode, next, endMode]

/-! ## No other texts -/

/-- Only quotes start a string literal. -/
def Mode.Quoted : Mode → Prop
  | string quote _ => quote = '\x27' ∨ quote = '\x22'
  | _ => True

theorem Mode.quoted_afterCode (c : Char) : (afterCode c).Quoted := by
  unfold afterCode
  split
  case isTrue quote => exact quote
  case isFalse => split <;> trivial

theorem Mode.Quoted.next {mode : Mode} (quoted : mode.Quoted) (c : Char) :
    (mode.next c).Quoted := by
  cases mode with
  | code => exact quoted_afterCode c
  | slash =>
    simp only [Mode.next]
    split
    · trivial
    · split
      · trivial
      · exact quoted_afterCode c
  | slashStar =>
    simp only [Mode.next]
    split
    · trivial
    · exact quoted_afterCode c
  | string quote previous =>
    simp only [Mode.next]
    split
    · trivial
    · exact quoted
  | line | doc held =>
    simp only [Mode.next]
    split <;> trivial

theorem Mode.Quoted.foldl {mode : Mode} (quoted : mode.Quoted) (text : List Char) :
    (text.foldl Mode.next mode).Quoted := by
  induction text generalizing mode with
  | nil => exact quoted
  | cons c rest ih => exact ih (quoted.next c)

theorem quoted_endMode (text : List Char) : (endMode text).Quoted := by
  have start : Mode.code.Quoted := trivial
  exact start.foldl text

/-- After an open literal or doc comment a whole doc comment on the next line is not found. -/
theorem length_read_of_not_isClosed {mode : Mode} (quoted : mode.Quoted)
    (opened : mode.isClosed = false) :
    (read mode "\n/**/".toList).length = mode.cutOff?.toList.length := by
  cases mode with
  | code | slash | slashStar | line => simp [Mode.isClosed] at opened
  | string quote previous =>
    rcases quoted with rfl | rfl <;> simp [read, Mode.next, Mode.ended?, Mode.cutOff?]
  | doc held => simp [read, Mode.next, Mode.ended?, Mode.ends, Mode.cutOff?]

/-- A text is closed exactly when every text on the lines after it is read as if it stood alone. -/
theorem isClosed_iff (text : List Char) :
    isClosed text = true ↔
      ∀ rest, bodies (text ++ '\n' :: rest) = bodies text ++ bodies rest := by
  constructor
  · exact bodies_append_lineFeed
  · intro composes
    cases opened : isClosed text with
    | true => rfl
    | false =>
      have lost := length_read_of_not_isClosed (quoted_endMode text) opened
      have one : bodies "/**/".toList = [[]] := by
        rw [bodies_eq_read]
        decide
      have feed : '\n' :: "/**/".toList = "\n/**/".toList := by decide
      have count := congrArg List.length (composes "/**/".toList)
      rw [one, feed, bodies_append, bodies_eq_endedIn text] at count
      simp only [List.length_append, lost, List.length_singleton] at count
      omega

end DocCatalog.Source
