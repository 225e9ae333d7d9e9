/-!
# Blank characters

Two sets of blank characters occur. The grammar of selectors knows five, and separates tokens by
them. A text that has already been taken out of a selector may hold any character, and there the
Unicode property `White_Space` decides: it is what is trimmed from the ends of a series, and a word
that contains such a character is no single word.

## Main definitions

* `Text.isCssBlank` — space, tab, carriage return, line feed and form feed
* `Text.isBlank` — the Unicode property `White_Space`
* `Text.trimBlanks` — a text without the blanks at its ends
-/

namespace SelectorPath.Text

/-- The blanks of the selector grammar. -/
def isCssBlank (c : Char) : Bool :=
  c == ' ' || c == '\t' || c == '\r' || c == '\n' || c == '\x0c'

/-- The line breaks of the selector grammar. -/
def isLineBreak (c : Char) : Bool := c == '\n' || c == '\r' || c == '\x0c'

/-- The inclusive ranges of code points with the Unicode property `White_Space`. -/
def blankRanges : List (Nat × Nat) :=
  [(0x09, 0x0D), (0x20, 0x20), (0x85, 0x85), (0xA0, 0xA0), (0x1680, 0x1680), (0x2000, 0x200A),
    (0x2028, 0x2029), (0x202F, 0x202F), (0x205F, 0x205F), (0x3000, 0x3000)]

/-- A character with the Unicode property `White_Space`. -/
def isBlank (c : Char) : Bool :=
  blankRanges.any fun (low, high) => low ≤ c.toNat && c.toNat ≤ high

/-- The characters of a text without the blanks at its two ends. -/
def trimBlanks (text : List Char) : List Char :=
  ((text.dropWhile isBlank).reverse.dropWhile isBlank).reverse

/-- The blanks of the grammar are blank in Unicode too. -/
theorem isBlank_of_isCssBlank {c : Char} (h : isCssBlank c = true) : isBlank c = true := by
  simp only [isCssBlank, Bool.or_eq_true, beq_iff_eq] at h
  rcases h with (((rfl | rfl) | rfl) | rfl) | rfl <;> decide

end SelectorPath.Text
