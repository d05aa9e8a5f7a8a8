import DocCatalog.Text.Numeral

/-!
# Numbers as significand and power of ten

A JSON number is read in two steps. Its digits go into a significand of 64 bits, and what remains is
a power of ten. Then both are rounded to doubles and multiplied, so that close to the largest double
the range of the numbers is that of this product.
-/

namespace DocCatalog.Json

/-- The number `significand * 10 ^ exponent`. -/
structure Scaled where
  significand : Nat
  exponent : Int
deriving DecidableEq, Repr

namespace Scaled

/-- The least number that 64 bits cannot hold. -/
def significandLimit : Nat :=
  Nat.pow 2 64

/-- Appends digits to a significand up to the first one that no longer fits: the significand, and
how many digits it took. -/
def absorb (significand : Nat) : List Char → Nat × Nat
  | [] => (significand, 0)
  | c :: rest =>
    let longer := 10 * significand + (c.toNat - 48)
    if longer < significandLimit then
      let (whole, taken) := absorb longer rest
      (whole, taken + 1)
    else (significand, 0)

/-- Reads an unsigned numeral. A whole digit that does not fit still counts as a factor of ten; a
digit of the fraction that does not fit is dropped with all that follow it. -/
def ofNumeral (numeral : List Char) : Scaled :=
  let whole := numeral.takeWhile Char.isDigit
  let (high, taken) := absorb 0 whole
  let missing : Int := whole.length - taken
  match numeral.dropWhile Char.isDigit with
  | '.' :: rest =>
    let (significand, places) := absorb high (rest.takeWhile Char.isDigit)
    ⟨significand, missing - places + Text.Numeral.statedExponent (rest.dropWhile Char.isDigit)⟩
  | rest => ⟨high, missing + Text.Numeral.statedExponent rest⟩

/-- The greatest power of ten that is a double. -/
def maxExponent : Nat := 308

/-- Whether the product of significand and power is an infinity. A negative power divides, which
gives none. -/
def isInfinite (number : Scaled) : Bool :=
  if number.significand = 0 ∨ number.exponent < 0 then false
  else if number.exponent > maxExponent then true
  else
    Text.Numeral.infinityThreshold ≤
      Text.Numeral.toDouble number.significand *
        Text.Numeral.toDouble (Nat.pow 10 number.exponent.toNat)

end Scaled

end DocCatalog.Json
