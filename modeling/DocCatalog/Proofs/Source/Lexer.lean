import DocCatalog.Source

/-!
# Reading a source text one character at a time

`bodies` looks ahead for `//`, `/**` and `*/` and jumps behind what it passes over. The reader of
this module takes one character at a time, never looks at the next one and never goes back. What it
has read is kept in a mode.

Results:
1. `read_string`, `read_line`, `read_doc`: in every construct the reader goes on in code exactly
   where the scanner resumes, also when the construct is not closed.
2. `bodies_eq_read`: from code on, the reader finds the bodies of the text.
3. `bodies_eq_finish_foldl`: so `bodies` is one fold over the characters, which carries only the
   mode and what was found.
-/

namespace DocCatalog.Source

/-! ## The reader -/

/-- Where the next character stands. -/
inductive Mode where
  | code
  /-- In code, directly after a `/`. -/
  | slash
  /-- In code, directly after a `/*`. -/
  | slashStar
  /-- In a string literal; `previous` is the character passed last. -/
  | string (quote previous : Char)
  /-- In a line comment. -/
  | line
  /-- In a doc comment; `held` is its text since the opener, the newest character first. -/
  | doc (held : List Char)
deriving DecidableEq, Repr

namespace Mode

/-- The mode after a character of code that continues no delimiter. -/
def afterCode (c : Char) : Mode :=
  if c = '\x27' ∨ c = '\x22' then string c c else if c = '/' then slash else code

/-- Whether a `/` ends a doc comment. The last star of the opener counts, so the text may be
empty. -/
def ends (held : List Char) : Bool :=
  held.headD '*' == '*'

def next : Mode → Char → Mode
  | code, c => afterCode c
  | slash, c => if c = '/' then line else if c = '*' then slashStar else afterCode c
  | slashStar, c => if c = '*' then doc [] else afterCode c
  | string quote previous, c => if c = quote ∧ previous ≠ '\\' then code else string quote c
  | line, c => if c = '\n' then code else line
  | doc held, c => if c = '/' ∧ ends held then code else doc (c :: held)

/-- The body of the doc comment that a character ends. -/
def ended? : Mode → Char → Option (List Char)
  | doc held, c => if c = '/' ∧ ends held then some held.tail.reverse else none
  | _, _ => none

/-- The body of the doc comment that the end of the text cuts off. -/
def cutOff? : Mode → Option (List Char)
  | doc held => some held.reverse
  | _ => none

end Mode

/-- What is known after a part of the text. -/
structure Reader where
  mode : Mode
  /-- The bodies that have ended, in order. -/
  found : List (List Char)
deriving DecidableEq, Repr

namespace Reader

def start : Reader := ⟨.code, []⟩

def take (reader : Reader) (c : Char) : Reader :=
  ⟨reader.mode.next c, reader.found ++ (reader.mode.ended? c).toList⟩

/-- The bodies at the end of the text. -/
def finish (reader : Reader) : List (List Char) :=
  reader.found ++ reader.mode.cutOff?.toList

end Reader

/-- The bodies that a text adds when it is read from a mode on. -/
def read : Mode → List Char → List (List Char)
  | mode, [] => mode.cutOff?.toList
  | mode, c :: rest => (mode.ended? c).toList ++ read (mode.next c) rest

/-! ## The constructs -/

theorem read_string (quote previous : Char) (text : List Char) :
    read (.string quote previous) text = read .code (afterString quote previous text) := by
  induction text generalizing previous with
  | nil => rfl
  | cons c rest ih =>
    rw [afterString]
    by_cases closes : c = quote ∧ previous ≠ '\\'
    · simp [read, Mode.next, Mode.ended?, closes]
    · simp [read, Mode.next, Mode.ended?, if_neg closes, ih]

theorem read_line (text : List Char) : read .line text = read .code (afterLine text) := by
  induction text with
  | nil => rfl
  | cons c rest ih =>
    rw [afterLine]
    by_cases feed : c = '\n'
    · simp [read, Mode.next, Mode.ended?, feed]
    · simp [read, Mode.next, Mode.ended?, feed, ih]

/-- A doc comment ends at the first `*/` after what is held, or with the text. The premise keeps a
star that is already held from closing it. -/
theorem read_doc_held {held text : List Char}
    (apart : ∀ rest, text = '/' :: rest → Mode.ends held = false) :
    read (.doc held) text =
      match splitAtClose? text with
      | some (body, after) => (held.reverse ++ body) :: read .code after
      | none => [held.reverse ++ text] := by
  fun_induction splitAtClose? text generalizing held with
  | case1 after => simp [read, Mode.next, Mode.ended?, Mode.ends]
  | case2 c rest noCloser ih =>
    have stays : ¬ (c = '/' ∧ Mode.ends held = true) := by
      rintro ⟨rfl, ends⟩
      simp [apart rest rfl] at ends
    have restApart : ∀ tail, rest = '/' :: tail → Mode.ends (c :: held) = false := by
      rintro tail rfl
      -- A star and a slash here would have been the closer.
      have notStar : c ≠ '*' := fun star => noCloser tail star rfl
      simpa [Mode.ends] using notStar
    simp only [read, Mode.next, Mode.ended?, if_neg stays, ih restApart]
    cases splitAtClose? rest with
    | none => simp
    | some parts => simp
  | case3 => simp [read, Mode.cutOff?]

theorem read_doc (text : List Char) :
    read (.doc []) text = (splitBody text).1 :: read .code (splitBody text).2 := by
  unfold splitBody
  split
  case h_1 after => simp [read, Mode.next, Mode.ended?, Mode.ends]
  case h_2 noSlash =>
    have apart : ∀ rest, text = '/' :: rest → Mode.ends [] = false :=
      fun rest equal => absurd equal (noSlash rest)
    rw [read_doc_held apart]
    cases splitAtClose? text with
    | none => simp [read, Mode.cutOff?]
    | some parts => simp

/-- A slash that opens nothing is forgotten. -/
theorem read_slash {rest : List Char} (noLine : ∀ tail, rest ≠ '/' :: tail)
    (noDoc : ∀ tail, rest ≠ '*' :: '*' :: tail) : read .slash rest = read .code rest := by
  cases rest with
  | nil => rfl
  | cons c tail =>
    have notSlash : c ≠ '/' := fun equal => noLine tail (equal ▸ rfl)
    by_cases star : c = '*'
    · -- After a `/*` the reader is in code as well, as long as no second star follows.
      subst star
      cases tail with
      | nil => rfl
      | cons d more =>
        have notStar : d ≠ '*' := fun equal => noDoc more (equal ▸ rfl)
        simp [read, Mode.next, Mode.ended?, Mode.afterCode, notStar]
    · simp [read, Mode.next, Mode.ended?, notSlash, star]

/-! ## The whole text -/

theorem bodies_eq_read (text : List Char) : bodies text = read .code text := by
  fun_induction bodies text with
  | case1 => rfl
  | case2 rest ih => simp [read, Mode.next, Mode.ended?, Mode.afterCode, read_line, ih]
  | case3 rest ih => simp [read, Mode.next, Mode.ended?, Mode.afterCode, read_doc, ih]
  | case4 c rest noLine noDoc quote ih =>
    simp [read, Mode.next, Mode.ended?, Mode.afterCode, quote, read_string, ih]
  | case5 c rest noLine noDoc noQuote ih =>
    rw [ih]
    by_cases slash : c = '/'
    · have skipped := read_slash (fun tail equal => noLine tail slash equal)
        (fun tail equal => noDoc tail slash equal)
      simp [read, Mode.next, Mode.ended?, Mode.afterCode, slash, skipped]
    · simp [read, Mode.next, Mode.ended?, Mode.afterCode, noQuote, slash]

theorem finish_foldl_take (text : List Char) (reader : Reader) :
    (text.foldl Reader.take reader).finish = reader.found ++ read reader.mode text := by
  induction text generalizing reader with
  | nil => rfl
  | cons c rest ih => rw [List.foldl_cons, ih, read, Reader.take, List.append_assoc]

/-- The bodies of a text are those that are found character by character. No doc comment is missed,
none is invented, and their order is that of the text. -/
theorem bodies_eq_finish_foldl (text : List Char) :
    bodies text = (text.foldl Reader.take Reader.start).finish := by
  rw [finish_foldl_take, bodies_eq_read]
  rfl

end DocCatalog.Source
