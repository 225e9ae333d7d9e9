/-!
# ASCII letters, digits and case

Selectors compare names without regard to case for the letters `A` to `Z` only, and call every
character beyond ASCII a name character. The classes below are therefore about ASCII alone: a
letter with an accent has no other case here.

## Main definitions

* `Text.lowerCase` — a text with its ASCII capitals made small
* `Text.isNonAscii`, `Text.isDigit`, `Text.isLetter`, `Text.isHexDigit` — the character classes
-/

namespace SelectorPath.Text

/-- A character outside ASCII. -/
def isNonAscii (c : Char) : Bool := 128 ≤ c.toNat

/-- A decimal digit, `0` to `9`. -/
def isDigit (c : Char) : Bool := '0' ≤ c && c ≤ '9'

/-- A letter, `A` to `Z` or `a` to `z`. -/
def isLetter (c : Char) : Bool := ('a' ≤ c && c ≤ 'z') || ('A' ≤ c && c ≤ 'Z')

/-- A hexadecimal digit of either case. -/
def isHexDigit (c : Char) : Bool :=
  isDigit c || ('a' ≤ c && c ≤ 'f') || ('A' ≤ c && c ≤ 'F')

/-- The text with its ASCII capitals made small; every other character stays. -/
def lowerCase (text : String) : String := text.map Char.toLower

@[simp] theorem toList_lowerCase (text : String) :
    (lowerCase text).toList = text.toList.map Char.toLower :=
  String.toList_map

@[simp] theorem lowerCase_empty : lowerCase "" = "" := by
  rw [← String.toList_inj]; simp

theorem toLower_toLower (c : Char) : c.toLower.toLower = c.toLower := by
  unfold Char.toLower
  split
  · rename_i h
    rw [dif_neg]
    simp only [UInt32.le_iff_toNat_le, UInt32.toNat_add, UInt32.toNat_sub] at h ⊢
    simp at h ⊢
    omega
  · rfl

/-- A text that has been lower-cased stays as it is. -/
@[simp] theorem lowerCase_lowerCase (text : String) :
    lowerCase (lowerCase text) = lowerCase text := by
  rw [← String.toList_inj, toList_lowerCase, toList_lowerCase, List.map_map]
  exact List.map_congr_left fun c _ => toLower_toLower c

end SelectorPath.Text
