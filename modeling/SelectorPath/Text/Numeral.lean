import SelectorPath.Text.Ascii

/-!
# Numerals

Digits and the numbers they write, and the optional sign in front of them.

## Main definitions

* `Text.hexValue`, `Text.decimalValue` — the number that digits write
* `Text.takeSign` — an optional sign, split off
-/

namespace SelectorPath.Text

/-- The value of a hexadecimal digit. -/
def hexDigitValue (c : Char) : Nat :=
  if isDigit c then c.toNat - '0'.toNat
  else if 'a' ≤ c then c.toNat - 'a'.toNat + 10
  else c.toNat - 'A'.toNat + 10

/-- The number that hexadecimal digits write, the most significant first. -/
def hexValue (digits : List Char) : Nat :=
  digits.foldl (fun value digit => 16 * value + hexDigitValue digit) 0

/-- The number that decimal digits write, the most significant first. -/
def decimalValue (digits : List Char) : Nat :=
  digits.foldl (fun value digit => 10 * value + (digit.toNat - '0'.toNat)) 0

/-- A leading `+` or `-`, if there is one, and the rest. -/
def takeSign : List Char → List Char × List Char
  | '+' :: rest => (['+'], rest)
  | '-' :: rest => (['-'], rest)
  | cs => ([], cs)

theorem takeSign_append (cs : List Char) : (takeSign cs).1 ++ (takeSign cs).2 = cs := by
  unfold takeSign
  split <;> rfl

theorem takeSign_length (cs : List Char) : (takeSign cs).2.length ≤ cs.length := by
  have := congrArg List.length (takeSign_append cs)
  rw [List.length_append] at this
  omega

end SelectorPath.Text
