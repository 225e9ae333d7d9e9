import SelectorPath.Text.Numeral
import SelectorPath.Text.Identifier
import SelectorPath.XPath.Name

/-!
# Runs of characters

A reader takes a run of characters of one class and leaves the rest. If a word of that class was
written and something of another class follows, the run is the word. The numerals are such words.

## Main results

* `Text.takeWhile_run`, `Text.dropWhile_run` — a word in front of something else is read whole
* `Text.takeSign_cases`, `Text.takeSign_of_head` — the sign in front of a text
* `Text.decimalValue_repr` — the decimal digits of a number have its value
-/

namespace SelectorPath.Text

section Run

variable {accepts : Char → Bool} {word rest : List Char}

/-- A word of accepted characters is the whole run if the next character is not accepted. -/
theorem takeWhile_run (inside : ∀ c ∈ word, accepts c = true)
    (stop : ∀ c ∈ rest.head?, accepts c = false) : (word ++ rest).takeWhile accepts = word := by
  rw [List.takeWhile_append_of_pos inside]
  cases rest with
  | nil => simp
  | cons c cs => simp [stop c rfl]

theorem dropWhile_run (inside : ∀ c ∈ word, accepts c = true)
    (stop : ∀ c ∈ rest.head?, accepts c = false) : (word ++ rest).dropWhile accepts = rest := by
  rw [List.dropWhile_append_of_pos inside]
  cases rest with
  | nil => rfl
  | cons c cs => simp [stop c rfl]

/-- There is no run where the first character is of another class. -/
theorem run_of_head (stop : ∀ c ∈ rest.head?, accepts c = false) :
    rest.takeWhile accepts = [] ∧ rest.dropWhile accepts = rest := by
  cases rest with
  | nil => exact ⟨rfl, rfl⟩
  | cons c cs => simp [stop c rfl]

theorem of_mem_takeWhile {c : Char} (member : c ∈ rest.takeWhile accepts) : accepts c = true :=
  List.all_eq_true.mp List.all_takeWhile c member

theorem mem_of_head?_dropWhile {c : Char} (first : c ∈ (rest.dropWhile accepts).head?) :
    accepts c = false ∧ c ∈ rest := by
  have rejected := List.head?_dropWhile_not accepts rest
  rw [Option.mem_def.mp first] at rejected
  refine ⟨by simpa using rejected, ?_⟩
  exact (List.dropWhile_sublist accepts).subset (List.mem_of_mem_head? first)

end Run

/-! ### Signs -/

theorem takeSign_cases (cs : List Char) :
    (takeSign cs).1 = [] ∨ (takeSign cs).1 = ['+'] ∨ (takeSign cs).1 = ['-'] := by
  unfold takeSign
  split <;> simp

/-- Nothing is split off a text that starts with something else. -/
theorem takeSign_of_head {cs : List Char} (other : ∀ c ∈ cs.head?, c ≠ '+' ∧ c ≠ '-') :
    takeSign cs = ([], cs) := by
  unfold takeSign
  split
  · exact absurd rfl (other _ rfl).1
  · exact absurd rfl (other _ rfl).2
  · rfl

/-! ### Numerals -/

/-- The decimal digits of a number. -/
theorem toList_repr (n : Nat) : n.repr.toList = Nat.toDigits 10 n := by
  rw [Nat.repr_eq_ofList_toDigits, String.toList_ofList]

theorem isDigit_of_mem_repr {n : Nat} {c : Char} (member : c ∈ n.repr.toList) :
    isDigit c = true := by
  rw [toList_repr] at member
  exact Nat.isDigit_of_mem_toDigits (by decide) (by decide) member

theorem repr_ne_nil (n : Nat) : n.repr.toList ≠ [] := by
  rw [toList_repr]
  exact Nat.toDigits_ne_nil

/-- The decimal digits of a number have its value. -/
@[simp] theorem decimalValue_repr (n : Nat) : decimalValue n.repr.toList = n := by
  rw [toList_repr]
  exact Nat.ofDigitChars_ten_toDigits

/-! ### Classes of characters -/

theorem le_iff_toNat {c d : Char} : c ≤ d ↔ c.toNat ≤ d.toNat := by
  rw [Char.le_def, UInt32.le_iff_toNat_le]
  rfl

theorem eq_iff_toNat {c d : Char} : c = d ↔ c.toNat = d.toNat :=
  ⟨fun same => same ▸ rfl, fun same => Char.ext (UInt32.toNat_inj.mp same)⟩

theorem isPlainPart_of_isDigit {c : Char} (digit : isDigit c = true) :
    XPath.isPlainPart c = true := by
  simp [XPath.isPlainPart, digit]

theorem isPlainPart_of_isPlainStart {c : Char} (start : XPath.isPlainStart c = true) :
    XPath.isPlainPart c = true := by
  simp [XPath.isPlainPart, start]

/-- A digit starts no name. -/
theorem isPlainStart_of_isDigit {c : Char} (digit : isDigit c = true) :
    XPath.isPlainStart c = false := by
  simp only [isDigit, XPath.isPlainStart, isLetter, le_iff_toNat, eq_iff_toNat, Bool.and_eq_true,
    Bool.or_eq_false_iff, decide_eq_true_eq, beq_eq_false_iff_ne, ne_eq, Bool.and_eq_false_iff,
    decide_eq_false_iff_not] at *
  simp only [Char.reduceToNat] at *
  omega

end SelectorPath.Text
