import SelectorPath.Text.Ascii

/-!
# Identifiers

A name may hold letters, digits, `_`, `-` and everything outside ASCII as they stand; a digit or a
hyphen is no start. Any other character needs a backslash, and a digit at the start is written by
its code point.

## Main definitions

* `Text.isNameStart`, `Text.isNamePart` — the characters that need no escape
* `Text.identifier` — a text written as an identifier
-/

namespace SelectorPath.Text

/-- A character that may start a name as it stands. -/
def isNameStart (c : Char) : Bool := c == '_' || isLetter c || isNonAscii c

/-- A character that may continue a name as it stands. -/
def isNamePart (c : Char) : Bool := isNameStart c || isDigit c || c == '-'

/-- A character of an identifier, behind a backslash unless it is a name character. -/
def identifierChar (c : Char) : List Char :=
  if isNamePart c then [c] else ['\\', c]

/-- The first character of an identifier. A digit is escaped by its code point, which for the digit
`d` is `3d` in hexadecimal, and a space ends the escape. -/
def identifierStart (c : Char) : List Char :=
  if isDigit c then ['\\', '3', c, ' '] else identifierChar c

/-- The characters of an identifier that stands for the given characters. -/
def identifierChars : List Char → List Char
  | [] => []
  | c :: cs => identifierStart c ++ cs.flatMap identifierChar

/-- A text written as an identifier. -/
def identifier (text : String) : String := String.ofList (identifierChars text.toList)

@[simp] theorem toList_identifier (text : String) :
    (identifier text).toList = identifierChars text.toList :=
  String.toList_ofList

end SelectorPath.Text
