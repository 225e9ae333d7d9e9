import SelectorPath.Text.Ascii

/-!
# Names in XPath

The names that are written into an expression as they stand. Only ASCII names are: every reader of
XPath takes them for names, and what is left goes into a string literal.

## Main definitions

* `XPath.isPlainName` — letters, digits, `_`, `.` and `-`, starting with a letter or `_`
* `XPath.isPlainQName` — a plain name, or two with a colon between them
-/

namespace SelectorPath.XPath

open Text

/-- A character that may start a plain name. -/
def isPlainStart (c : Char) : Bool := c == '_' || isLetter c

/-- A character that may continue a plain name. -/
def isPlainPart (c : Char) : Bool := isPlainStart c || isDigit c || c == '.' || c == '-'

/-- The characters form a plain name. -/
def isPlainNameChars : List Char → Bool
  | [] => false
  | c :: cs => isPlainStart c && cs.all isPlainPart

/-- A name that can be written as it stands. -/
def isPlainName (name : String) : Bool := isPlainNameChars name.toList

/-- The characters form a plain name, or two with a colon between them. -/
def isPlainQNameChars (cs : List Char) : Bool :=
  isPlainNameChars (cs.takeWhile (· ≠ ':')) &&
    match cs.dropWhile (· ≠ ':') with
    | [] => true
    | _ :: after => isPlainNameChars after

/-- A name, with or without a namespace prefix, that can be written as it stands. -/
def isPlainQName (name : String) : Bool := isPlainQNameChars name.toList

/-- A plain name has no colon. -/
theorem not_colon_of_isPlainNameChars {cs : List Char} (h : isPlainNameChars cs = true) :
    ':' ∉ cs := by
  cases cs with
  | nil => simp
  | cons c cs =>
    simp only [isPlainNameChars, Bool.and_eq_true, List.all_eq_true] at h
    intro hmem
    rcases List.mem_cons.mp hmem with rfl | hmem
    · exact absurd h.1 (by decide)
    · exact absurd (h.2 _ hmem) (by decide)

private theorem span_of_not_colon {cs : List Char} (h : ':' ∉ cs) :
    cs.takeWhile (· ≠ ':') = cs ∧ cs.dropWhile (· ≠ ':') = [] := by
  induction cs with
  | nil => simp
  | cons c cs ih =>
    rw [List.mem_cons, not_or] at h
    have hc : c ≠ ':' := fun heq => h.1 heq.symm
    simpa [hc] using ih h.2

/-- A plain name is a plain qualified name. -/
theorem isPlainQNameChars_of_isPlainNameChars {cs : List Char} (h : isPlainNameChars cs = true) :
    isPlainQNameChars cs = true := by
  have hspan := span_of_not_colon (not_colon_of_isPlainNameChars h)
  simp only [isPlainQNameChars, hspan, h, Bool.and_self]

end SelectorPath.XPath
