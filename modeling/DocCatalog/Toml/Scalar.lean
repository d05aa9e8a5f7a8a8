import DocCatalog.Text.Numeral
import DocCatalog.Toml

/-!
# TOML numbers, dates and truth values

All of these are words without white space, a date and a time that a space separates apart. A word
is taken as a whole and then classified.
-/

namespace DocCatalog.Toml

/-- Digits with single underscores between them, read without the underscores. -/
def digitGroups? (isDigit : Char → Bool) (afterDigit : Bool) : List Char → Option (List Char)
  | [] => if afterDigit then some [] else none
  | c :: rest =>
    if isDigit c then (digitGroups? isDigit true rest).map (c :: ·)
    else if c = '_' ∧ afterDigit then digitGroups? isDigit false rest
    else none

/-- Decimal digits without a needless zero in front, read without underscores. -/
def decimal? (text : List Char) : Option (List Char) :=
  match text with
  | ['0'] => some ['0']
  | '0' :: _ => none
  | _ => digitGroups? Char.isDigit false text

/-- The number that digits write in a base. -/
def ofDigitsIn (base : Nat) (digits : List Char) : Nat :=
  digits.foldl
    (fun value c =>
      let digit :=
        if c.isDigit then c.toNat - 48
        else if c.isLower then c.toNat - 87
        else c.toNat - 55
      base * value + digit)
    0

def isHexDigit (c : Char) : Bool :=
  c.isDigit || ('a' ≤ c && c ≤ 'f') || ('A' ≤ c && c ≤ 'F')

/-- A sign in front of a number, and the number. -/
def splitSign : List Char → Bool × List Char
  | '-' :: rest => (true, rest)
  | '+' :: rest => (false, rest)
  | text => (false, text)

/-- Whether an integer has 64 bits. -/
def isWordSized (value : Int) : Bool :=
  -0x8000000000000000 ≤ value && value < 0x8000000000000000

/-- An integer of 64 bits: decimal with a sign, or hexadecimal, octal or binary without one. -/
def integer? (word : List Char) : Option Int :=
  let based (base : Nat) (isDigit : Char → Bool) (digits : List Char) : Option Int :=
    (digitGroups? isDigit false digits).map fun digits => (ofDigitsIn base digits : Int)
  let read : Option Int :=
    match word with
    | '0' :: 'x' :: digits => based 16 isHexDigit digits
    | '0' :: 'o' :: digits => based 8 (fun c => '0' ≤ c && c ≤ '7') digits
    | '0' :: 'b' :: digits => based 2 (fun c => c = '0' || c = '1') digits
    | _ =>
      let (negative, digits) := splitSign word
      (decimal? digits).map fun digits =>
        if negative then -(ofDigitsIn 10 digits : Int) else ofDigitsIn 10 digits
  read.filter isWordSized

/-- The exponent of a float, read without underscores; it may have a sign. -/
def exponentDigits? (text : List Char) : Option (List Char) :=
  match text with
  | '+' :: digits => digitGroups? Char.isDigit false digits
  | '-' :: digits => (digitGroups? Char.isDigit false digits).map ('-' :: ·)
  | digits => digitGroups? Char.isDigit false digits

/-- The digits of a float before its exponent, read without underscores. -/
def mantissa? (text : List Char) : Option (List Char) :=
  let whole := text.takeWhile (· ≠ '.')
  match text.dropWhile (· ≠ '.') with
  | [] => decimal? whole
  | _ :: fraction => do
    return (← decimal? whole) ++ '.' :: (← digitGroups? Char.isDigit false fraction)

/-- Whether a word is a float. A positive float must be within the range of a double. -/
def isFloat (word : List Char) : Bool :=
  let (negative, text) := splitSign word
  if text = ['i', 'n', 'f'] ∨ text = ['n', 'a', 'n'] then true
  else
    let isMark (c : Char) : Bool := c = 'e' || c = 'E'
    let digits := text.takeWhile fun c => !isMark c
    let numeral? :=
      match text.dropWhile fun c => !isMark c with
      | [] => if digits.contains '.' then mantissa? digits else none
      | _ :: exponent => do
        return (← mantissa? digits) ++ 'e' :: (← exponentDigits? exponent)
    match numeral? with
    | none => false
    | some numeral => negative || !Text.Numeral.exceedsDouble numeral

/-- The number that two digits write. -/
def twoDigits? (a b : Char) : Option Nat :=
  if a.isDigit && b.isDigit then some (10 * (a.toNat - 48) + (b.toNat - 48)) else none

/-- The number of days of a month in the Gregorian calendar. -/
def daysInMonth (year month : Nat) : Nat :=
  if month = 2 then
    if (year % 4 = 0 ∧ year % 100 ≠ 0) ∨ year % 400 = 0 then 29 else 28
  else if month = 4 ∨ month = 6 ∨ month = 9 ∨ month = 11 then 30
  else 31

/-- What follows a date at the start of a text. -/
def afterDate? : List Char → Option (List Char)
  | a :: b :: c :: d :: '-' :: e :: f :: '-' :: g :: h :: rest => do
    let year := 100 * (← twoDigits? a b) + (← twoDigits? c d)
    let month ← twoDigits? e f
    let day ← twoDigits? g h
    if 1 ≤ month ∧ month ≤ 12 ∧ 1 ≤ day ∧ day ≤ daysInMonth year month then some rest else none
  | _ => none

/-- What follows the fraction of a second, which may be missing. -/
def afterFraction? : List Char → Option (List Char)
  | '.' :: c :: rest => if c.isDigit then some (rest.dropWhile Char.isDigit) else none
  | ['.'] => none
  | text => some text

/-- What follows a time at the start of a text. A minute may have a leap second. -/
def afterTime? : List Char → Option (List Char)
  | a :: b :: ':' :: c :: d :: ':' :: e :: f :: rest => do
    let hour ← twoDigits? a b
    let minute ← twoDigits? c d
    let second ← twoDigits? e f
    if hour ≤ 23 ∧ minute ≤ 59 ∧ second ≤ 60 then afterFraction? rest else none
  | _ => none

/-- Whether a text is nothing, or the distance of a time from universal time. -/
def isOffset : List Char → Bool
  | [] | ['Z'] | ['z'] => true
  | [sign, a, b, ':', c, d] =>
    (sign = '+' || sign = '-') &&
      ((twoDigits? a b).any (· ≤ 23)) && ((twoDigits? c d).any (· ≤ 59))
  | _ => false

/-- Whether a word is a time, with an offset only if one is allowed. -/
def isTime (allowOffset : Bool) (word : List Char) : Bool :=
  match afterTime? word with
  | some rest => if allowOffset then isOffset rest else rest.isEmpty
  | none => false

def isDate (word : List Char) : Bool :=
  afterDate? word == some []

/-- Whether a word is a date, a time, or both. -/
def isMoment (word : List Char) : Bool :=
  match afterDate? word with
  | some [] => true
  | some ('T' :: rest) | some ('t' :: rest) => isTime true rest
  | some _ => false
  | none => isTime false word

def isWordChar (c : Char) : Bool :=
  c.isAlphanum || c = '+' || c = '-' || c = '_' || c = '.' || c = ':'

/-- The value of a word. -/
def ofWord? (word : List Char) : Option Value :=
  if word = ['t', 'r', 'u', 'e'] then some (.boolean true)
  else if word = ['f', 'a', 'l', 's', 'e'] then some (.boolean false)
  else if isMoment word then some (.moment (String.ofList word))
  else if isFloat word then some (.float (String.ofList word))
  else (integer? word).map Value.integer

/-- Reads a value that is a word, or a date and a time after a space. -/
def readWord? (text : List Char) : Option (Value × List Char) :=
  let word := text.takeWhile isWordChar
  match text.dropWhile isWordChar with
  | ' ' :: c :: rest =>
    if isDate word ∧ c.isDigit then
      let time := (c :: rest).takeWhile isWordChar
      if isTime true time then
        some (.moment (String.ofList (word ++ ' ' :: time)), (c :: rest).dropWhile isWordChar)
      else none
    else (ofWord? word).map fun value => (value, ' ' :: c :: rest)
  | rest => (ofWord? word).map fun value => (value, rest)

end DocCatalog.Toml
