/-!
# The range of decimal numerals

A numeral may denote a number that no double-precision float can hold. Rounding to nearest keeps 53
bits, and it gives an infinity from the middle between the largest double and the next power of two
on.
-/

namespace DocCatalog.Text.Numeral

/-- The least magnitude that rounds to an infinity. -/
def infinityThreshold : Nat :=
  Nat.pow 2 1024 - Nat.pow 2 970

/-- The nearest number that a significand of 53 bits can write. Of two equally near ones it is the
one with the even significand. -/
def toDouble (n : Nat) : Nat :=
  if n.log2 < 53 then n
  else
    let unit := Nat.pow 2 (n.log2 - 52)
    let low := n / unit
    let twice := 2 * (n % unit)
    if unit < twice ∨ (twice = unit ∧ low % 2 = 1) then (low + 1) * unit else low * unit

/-- The number that decimal digits write. -/
def ofDigits (digits : List Char) : Nat :=
  digits.foldl (fun value c => 10 * value + (c.toNat - 48)) 0

/-- Whether an integer in decimal digits, times a power of ten, rounds to an infinity. The number
of digits settles all but one order of magnitude. -/
def isInfinite (digits : List Char) (exponent : Int) : Bool :=
  let significant := digits.dropWhile (· = '0')
  let order := (significant.length : Int) + exponent
  if significant = [] ∨ order ≤ 308 then false
  else if order ≥ 310 then true
  else if exponent ≥ 0 then
    infinityThreshold ≤ ofDigits significant * Nat.pow 10 exponent.toNat
  else infinityThreshold * Nat.pow 10 (-exponent).toNat ≤ ofDigits significant

/-- The exponent that a numeral states after its digits. -/
def statedExponent : List Char → Int
  | 'e' :: rest | 'E' :: rest =>
    match rest with
    | '-' :: digits => -(ofDigits digits : Int)
    | '+' :: digits => ofDigits digits
    | digits => ofDigits digits
  | _ => 0

/-- Whether an unsigned numeral with a fraction and an exponent, both optional, is too large for a
double. -/
def exceedsDouble (numeral : List Char) : Bool :=
  let whole := numeral.takeWhile Char.isDigit
  match numeral.dropWhile Char.isDigit with
  | '.' :: rest =>
    let fraction := rest.takeWhile Char.isDigit
    isInfinite (whole ++ fraction)
      (statedExponent (rest.dropWhile Char.isDigit) - fraction.length)
  | rest => isInfinite whole (statedExponent rest)

end DocCatalog.Text.Numeral
