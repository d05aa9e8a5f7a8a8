/-!
# Hexadecimal digits

The reader takes letters of both cases, and a writer keeps to one of them.
-/

namespace DocCatalog.Text

/-- The hexadecimal digit of a number below 16; `ten` is the letter of the first number that needs
one. -/
def hexDigit (ten : Char) (n : Nat) : Char :=
  if n < 10 then Char.ofNat (48 + n) else Char.ofNat (ten.toNat + (n - 10))

/-- The value of a hexadecimal digit of either case. -/
def hexValue? (c : Char) : Option Nat :=
  if '0' ≤ c ∧ c ≤ '9' then some (c.toNat - 48)
  else if 'a' ≤ c ∧ c ≤ 'f' then some (c.toNat - 87)
  else if 'A' ≤ c ∧ c ≤ 'F' then some (c.toNat - 55)
  else none

/-- The number that four hexadecimal digits write. -/
def hexUnit? (a b c d : Char) : Option Nat := do
  return 4096 * (← hexValue? a) + 256 * (← hexValue? b) + 16 * (← hexValue? c) + (← hexValue? d)

theorem hexValue?_hexDigit {ten : Char} (letter : ten = 'a' ∨ ten = 'A') :
    ∀ n < 16, hexValue? (hexDigit ten n) = some n := by
  rcases letter with rfl | rfl <;> decide

/-- A number of two digits is read back behind two zeros. -/
theorem hexUnit?_hexDigit {ten : Char} (letter : ten = 'a' ∨ ten = 'A') {n : Nat}
    (small : n < 256) :
    hexUnit? '0' '0' (hexDigit ten (n / 16)) (hexDigit ten (n % 16)) = some n := by
  have zero : hexValue? '0' = some 0 := rfl
  rw [hexUnit?, zero, hexValue?_hexDigit letter (n / 16) (by omega),
    hexValue?_hexDigit letter (n % 16) (by omega)]
  exact congrArg some (by omega)

end DocCatalog.Text
