import SelectorPath.Options
import SelectorPath.Proofs.Text.Run
import SelectorPath.Text.Blank

/-!
# Small letters

The case of an ASCII letter decides nothing about what a character is good for: a name stays a name
in small letters, the blanks of a text stay where they are, and so do the bytes.

## Main results

* `Text.toNat_toLower` — the code point of a small letter
* `Text.isPlainName_lowerCase` — a plain name stays one
* `Text.trimBlanks_map_toLower` — the same blanks are trimmed
-/

namespace SelectorPath.Text

open XPath

/-! ### Characters -/

/-- A capital is 32 code points in front of its small letter. -/
theorem toNat_toLower (c : Char) :
    c.toLower.toNat = if 65 ≤ c.toNat ∧ c.toNat ≤ 90 then c.toNat + 32 else c.toNat := by
  unfold Char.toLower
  have code : c.val.toNat = c.toNat := rfl
  split
  · rename_i capital
    simp only [ge_iff_le, UInt32.le_iff_toNat_le, code] at capital
    simp at capital
    rw [if_pos capital]
    show (c.val + _).toNat = _
    rw [UInt32.toNat_add, code]
    simp
    omega
  · rename_i other
    simp only [ge_iff_le, UInt32.le_iff_toNat_le, code] at other
    simp at other
    rw [if_neg (by omega)]

theorem isNameStart_toLower {c : Char} (start : isNameStart c = true) :
    isNameStart c.toLower = true := by
  simp only [isNameStart, isLetter, isNonAscii, Bool.or_eq_true, Bool.and_eq_true, beq_iff_eq,
    decide_eq_true_eq, le_iff_toNat, eq_iff_toNat, toNat_toLower] at *
  simp only [Char.reduceToNat] at *
  split <;> omega

theorem isNamePart_toLower {c : Char} (part : isNamePart c = true) :
    isNamePart c.toLower = true := by
  simp only [isNamePart, isDigit, isNameStart, isLetter, isNonAscii, Bool.or_eq_true,
    Bool.and_eq_true, beq_iff_eq, decide_eq_true_eq, le_iff_toNat, eq_iff_toNat,
    toNat_toLower] at *
  simp only [Char.reduceToNat] at *
  split <;> omega

theorem utf8Size_toLower (c : Char) : c.toLower.utf8Size = c.utf8Size := by
  have size (d : Char) (ascii : d.toNat ≤ 127) : d.utf8Size = 1 :=
    Char.utf8Size_eq_one_iff.mpr ascii
  have lower := toNat_toLower c
  by_cases capital : 65 ≤ c.toNat ∧ c.toNat ≤ 90
  · rw [if_pos capital] at lower
    rw [size c (by omega), size c.toLower (by omega)]
  · rw [if_neg capital, ← eq_iff_toNat] at lower
    rw [lower]

/-- No letter is a blank. -/
theorem isBlank_toLower (c : Char) : isBlank c.toLower = isBlank c := by
  simp only [isBlank, blankRanges, List.any_cons, List.any_nil, toNat_toLower]
  split
  · rw [Bool.eq_iff_iff]
    simp only [Bool.or_eq_true, Bool.and_eq_true, decide_eq_true_eq, Bool.false_eq_true, or_false]
    omega
  · rfl

/-! ### Texts -/

theorem lowerCase_append (before after : String) :
    lowerCase (before ++ after) = lowerCase before ++ lowerCase after := by
  rw [← String.toList_inj]
  simp

/-- The blanks at the ends are the same in small letters. -/
theorem trimBlanks_map_toLower (cs : List Char) :
    trimBlanks (cs.map Char.toLower) = (trimBlanks cs).map Char.toLower := by
  have same : isBlank ∘ Char.toLower = isBlank := funext isBlank_toLower
  simp only [trimBlanks, List.dropWhile_map, same, ← List.map_reverse]

/-! ### Names -/

theorem isPlainStart_toLower {c : Char} (start : isPlainStart c = true) :
    isPlainStart c.toLower = true := by
  simp only [isPlainStart, isLetter, Bool.or_eq_true, Bool.and_eq_true, beq_iff_eq,
    decide_eq_true_eq, le_iff_toNat, eq_iff_toNat, toNat_toLower] at *
  simp only [Char.reduceToNat] at *
  split <;> omega

theorem isPlainPart_toLower {c : Char} (part : isPlainPart c = true) :
    isPlainPart c.toLower = true := by
  simp only [isPlainPart, isPlainStart, isLetter, isDigit, Bool.or_eq_true, Bool.and_eq_true,
    beq_iff_eq, decide_eq_true_eq, le_iff_toNat, eq_iff_toNat, toNat_toLower] at *
  simp only [Char.reduceToNat] at *
  split <;> omega

/-- A name that can be written as it stands can be in small letters. -/
theorem isPlainName_lowerCase {name : String} (plain : isPlainName name = true) :
    isPlainName (lowerCase name) = true := by
  rw [isPlainName] at plain ⊢
  rw [toList_lowerCase]
  cases split : name.toList with
  | nil => simp [split, isPlainNameChars] at plain
  | cons first rest =>
    rw [split, isPlainNameChars, Bool.and_eq_true, List.all_eq_true] at plain
    rw [List.map_cons, isPlainNameChars, Bool.and_eq_true, List.all_map, List.all_eq_true]
    exact ⟨isPlainStart_toLower plain.1, fun c member => isPlainPart_toLower (plain.2 c member)⟩

theorem isPlainName_foldCase (fold : Bool) {name : String} (plain : isPlainName name = true) :
    isPlainName (Options.foldCase fold name) = true := by
  cases fold with
  | false => exact plain
  | true => exact isPlainName_lowerCase plain

end SelectorPath.Text
