/-!
# Styled text

A span is a piece of a line, plain or in a style. The same spans are shown with or without colour;
colour only adds terminal codes around a styled span.
-/

namespace DocCatalog.Outline

inductive Style where
  /-- The name of an entity or of an overload group. -/
  | entity
  | scope
  | faint
  | hidden
  | deprecated
  /-- The word that says what a line is about. -/
  | label
  | customTag
deriving DecidableEq, Repr

/-- The numbers of the terminal code that switches a style on. -/
def Style.codes : Style → List Char
  | entity => ['1', ';', '3', '6']
  | scope => ['1', ';', '3', '5']
  | faint => ['2']
  | hidden => ['3', '3']
  | deprecated => ['3', '1']
  | label => ['3', '2']
  | customTag => ['3', '4']

inductive Span where
  | plain (text : List Char)
  | styled (style : Style) (text : List Char)
deriving DecidableEq, Repr

/-- The terminal code that switches styles on or off. -/
def code (numbers : List Char) : List Char :=
  '\x1b' :: '[' :: numbers ++ ['m']

/-- The code that switches every style off. -/
def reset : List Char :=
  code ['0']

/-- Switches the style on again after every reset inside a text. -/
def resume (opening : List Char) : List Char → List Char
  | '\x1b' :: '[' :: '0' :: 'm' :: rest => reset ++ opening ++ resume opening rest
  | c :: rest => c :: resume opening rest
  | [] => []

/-- The characters of a span. A styled span has its codes even when it is empty. -/
def Span.render (coloured : Bool) : Span → List Char
  | plain text => text
  | styled style text =>
    if coloured then code style.codes ++ resume (code style.codes) text ++ reset else text

/-- A line of spans with its end. -/
def renderLine (coloured : Bool) (line : List Span) : List Char :=
  line.flatMap (Span.render coloured) ++ ['\n']

end DocCatalog.Outline
