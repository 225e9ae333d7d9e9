import SelectorPath.Series.Basic
import SelectorPath.Text.Blank
import SelectorPath.Text.Numeral
import SelectorPath.Token.Basic

/-!
# Reading a series

A series is read from the text of the tokens in an argument list, one space standing for each gap
between them, without the blanks at its ends and without regard to ASCII case. That text is `odd`,
`even`, a whole number `b`, or `an` with an optional signed `b`, and nothing else: blanks may stand
only around the sign of `b`. Both numbers fit into 32 bits.

## Main definitions

* `Series.Error` — why an argument list is no series
* `Series.parse` — the series that argument tokens denote
-/

namespace SelectorPath.Series

open Text

/-- Why an argument list is no series. -/
inductive Error
  | /-- A quoted string stands among the tokens. -/
    stringToken
  | /-- The text has none of the forms of a series. -/
    invalid (text : String)
  deriving DecidableEq, Repr

/-- The wording of an error. -/
def Error.message : Error → String
  | .stringToken => "String tokens are not allowed in a series"
  | .invalid text => "Invalid an+b expression '" ++ text ++ "'"

/-- The 32-bit number with the given value, if there is one. -/
def toInt32? (value : Int) : Option Int32 :=
  if -2147483648 ≤ value ∧ value < 2147483648 then some (Int32.ofInt value) else none

/-- The value of digits behind a sign. -/
def signedValue (sign digits : List Char) : Int :=
  if sign = ['-'] then -(decimalValue digits : Int) else decimalValue digits

/-- A whole number of 32 bits: an optional sign and digits. -/
def readInteger (cs : List Char) : Option (Int32 × List Char) :=
  let (sign, unsigned) := takeSign cs
  if unsigned.takeWhile isDigit = [] then none
  else
    match toInt32? (signedValue sign (unsigned.takeWhile isDigit)) with
    | some value => some (value, unsigned.dropWhile isDigit)
    | none => none

/-- The number in front of `n`; a sign alone or nothing stands for one. -/
def readCoefficient (cs : List Char) : Int32 × List Char :=
  match readInteger cs with
  | some result => result
  | none =>
    match cs with
    | '-' :: rest => (-1, rest)
    | '+' :: rest => (1, rest)
    | _ => (1, cs)

/-- The blanks that may stand around the sign of the offset; a form feed is not among them. -/
def isOffsetBlank (c : Char) : Bool := c == ' ' || c == '\t' || c == '\r' || c == '\n'

/-- The offset behind `n`: a sign, which may not be missing, and digits. -/
def readOffset (cs : List Char) : Option (Int32 × List Char) :=
  match takeSign (cs.dropWhile isOffsetBlank) with
  | ([], _) => none
  | (sign, rest) =>
    let unsigned := rest.dropWhile isOffsetBlank
    if unsigned.takeWhile isDigit = [] then none
    else
      match toInt32? (signedValue sign (unsigned.takeWhile isDigit)) with
      | some value => some (value, unsigned.dropWhile isDigit)
      | none => none

/-- The form `an` with an optional offset. -/
def readLinear (cs : List Char) : Option (Series × List Char) :=
  match readCoefficient cs with
  | (a, 'n' :: rest) =>
    match readOffset rest with
    | some (b, after) => some (⟨a, b⟩, after)
    | none => some (⟨a, 0⟩, rest)
  | _ => none

/-- The first form of a series that a text begins with, and the rest. -/
def readSeries : List Char → Option (Series × List Char)
  | 'o' :: 'd' :: 'd' :: rest => some (odd, rest)
  | 'e' :: 'v' :: 'e' :: 'n' :: rest => some (even, rest)
  | cs =>
    match readLinear cs with
    | some result => some result
    | none =>
      match readInteger cs with
      | some (b, rest) => some (index b, rest)
      | none => none

/-- The series that a text denotes as a whole. -/
def ofChars? (cs : List Char) : Option Series :=
  match readSeries cs with
  | some (series, []) => some series
  | _ => none

/-- The text from which a series is read: the token values with their gaps, trimmed and in small
letters. -/
def argumentText (tokens : List Token) : String :=
  lowerCase (String.ofList (trimBlanks (Token.join Token.value tokens).toList))

/-- The series that argument tokens denote. -/
def parse (tokens : List Token) : Except Error Series :=
  if tokens.any fun token => token.kind == .string then .error .stringToken
  else
    match ofChars? (argumentText tokens).toList with
    | some series => .ok series
    | none => .error (.invalid (argumentText tokens))

end SelectorPath.Series
