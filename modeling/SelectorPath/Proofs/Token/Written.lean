import Mathlib.Data.Bool.AllAny
import SelectorPath.Proofs.Text.Run
import SelectorPath.Token.Lexer

/-!
# Reading what has been written

A token that is written in front of other text is read back from it, as long as the text behind it
does not go on with the token. What may stand behind depends on the token: a name ends where no
character of a name and no escape follows, a number where no digit follows and no further point can
belong to it, and a string ends by itself.

## Main definitions

* `Lexer.Lexes` — what the text of a token is read as, in front of a given rest
* `Lexer.EndsName`, `Lexer.EndsNumber` — what may follow a name and a number
* `Lexer.ReadsToken`, `Lexer.ReadsPlain` — which rule a token is read by
* `Text.IsName`, `Text.IsWritable`, `Lexer.IsNumber` — names that need no escape, names that can be
  written with escapes, and numbers

## Main results

* `Lexer.lexes_identifier`, `Lexer.lexes_hash`, `Lexer.lexes_number`, `Lexer.lexes_quoted`,
  `Lexer.lexes_space`, `Lexer.lexes_sign`, `Lexer.lexes_operator` — the tokens that are read
* `Lexer.tokensFrom_lexes` — the tokens of a text that starts with a written token
-/

namespace SelectorPath

namespace Text

/-! ### Names -/

/-- A name that is written without escapes: an optional hyphen, a character that starts a name, and
name characters. -/
def IsName (cs : List Char) : Prop :=
  ∃ hyphen first more, cs = hyphen ++ first :: more ∧ (hyphen = [] ∨ hyphen = ['-']) ∧
    isNameStart first = true ∧ ∀ c ∈ more, isNamePart c = true

/-- A name that an identifier can stand for. A line break cannot be escaped by a backslash alone,
and a hyphen in front must be followed by what starts a name. -/
structure IsWritable (cs : List Char) : Prop where
  nonempty : cs ≠ []
  inLine : ∀ c ∈ cs, isLineBreak c = false
  hyphen : ∀ more, cs = '-' :: more → ∃ c ∈ more.head?, isDigit c = false ∧ c ≠ '-'

theorem isNamePart_of_isNameStart {c : Char} (start : isNameStart c = true) :
    isNamePart c = true := by
  simp [isNamePart, start]

theorem isNamePart_of_isDigit {c : Char} (digit : isDigit c = true) : isNamePart c = true := by
  simp [isNamePart, digit]

theorem isNameStart_of_isDigit {c : Char} (digit : isDigit c = true) : isNameStart c = false := by
  simp only [isDigit, isNameStart, isLetter, isNonAscii, le_iff_toNat, eq_iff_toNat,
    Bool.and_eq_true, Bool.or_eq_false_iff, decide_eq_true_eq, beq_eq_false_iff_ne, ne_eq,
    Bool.and_eq_false_iff, decide_eq_false_iff_not] at *
  simp only [Char.reduceToNat] at *
  omega

theorem isNameStart_of_isHexDigit {c : Char} (hex : isHexDigit c = true)
    (letter : isDigit c = false) : isNameStart c = true := by
  simp only [isHexDigit, letter, Bool.false_or, isNameStart, isLetter, le_iff_toNat, eq_iff_toNat,
    Bool.and_eq_true, Bool.or_eq_true, decide_eq_true_eq, beq_iff_eq] at *
  simp only [Char.reduceToNat] at *
  omega

theorem isNamePart_of_isHexDigit {c : Char} (hex : isHexDigit c = true) : isNamePart c = true := by
  by_cases digit : isDigit c = true
  · exact isNamePart_of_isDigit digit
  · exact isNamePart_of_isNameStart (isNameStart_of_isHexDigit hex (by simpa using digit))

theorem isLineBreak_of_isNamePart {c : Char} (part : isNamePart c = true) :
    isLineBreak c = false := by
  refine Bool.eq_false_iff.mpr fun line => ?_
  simp only [isLineBreak, Bool.or_eq_true, beq_iff_eq] at line
  rcases line with (rfl | rfl) | rfl <;> revert part <;> decide

theorem isCssBlank_of_isNamePart {c : Char} (part : isNamePart c = true) :
    isCssBlank c = false := by
  refine Bool.eq_false_iff.mpr fun blank => ?_
  simp only [isCssBlank, Bool.or_eq_true, beq_iff_eq] at blank
  rcases blank with (((rfl | rfl) | rfl) | rfl) | rfl <;> revert part <;> decide

theorem IsName.isNamePart {cs : List Char} (name : IsName cs) : ∀ c ∈ cs, isNamePart c = true := by
  obtain ⟨hyphen, first, more, rfl, optional, start, parts⟩ := name
  intro c member
  rcases List.mem_append.mp member with inside | inside
  · rcases optional with rfl | rfl
    · simp at inside
    · obtain rfl := List.mem_singleton.mp inside
      rfl
  · rcases List.mem_cons.mp inside with rfl | inside
    · exact isNamePart_of_isNameStart start
    · exact parts c inside

theorem IsName.isWritable {cs : List Char} (name : IsName cs) : IsWritable cs := by
  refine ⟨?_, fun c member => isLineBreak_of_isNamePart (name.isNamePart c member), ?_⟩
  · obtain ⟨hyphen, first, more, rfl, -⟩ := name
    simp
  · intro more split
    obtain ⟨hyphen, first, rest, rfl, rfl | rfl, start, -⟩ := name
    · obtain ⟨rfl, rfl⟩ := List.cons.inj split
      exact absurd start (by decide)
    · obtain ⟨-, rfl⟩ := List.cons.inj split
      refine ⟨first, rfl, ?_, ?_⟩
      · refine Bool.eq_false_iff.mpr fun digit => ?_
        simp [isNameStart_of_isDigit digit] at start
      · rintro rfl
        exact absurd start (by decide)

/-- Name characters are written as they are. -/
theorem flatMap_identifierChar {cs : List Char} (parts : ∀ c ∈ cs, isNamePart c = true) :
    cs.flatMap identifierChar = cs := by
  induction cs with
  | nil => rfl
  | cons c cs ih =>
    have here : identifierChar c = [c] := if_pos (parts c List.mem_cons_self)
    rw [List.flatMap_cons, here, ih fun d member => parts d (List.mem_cons_of_mem c member)]
    rfl

/-- An identifier starts with a backslash, or with a name character that is no digit. -/
theorem identifierChars_eq_cons {cs : List Char} (nonempty : cs ≠ []) :
    ∃ first more, identifierChars cs = first :: more ∧
      (first = '\\' ∨ isNamePart first = true ∧ isDigit first = false) := by
  cases cs with
  | nil => exact absurd rfl nonempty
  | cons c cs =>
    unfold identifierChars identifierStart identifierChar
    repeat' split
    all_goals simp_all

/-- A name that needs no escape is written as it is. -/
theorem IsName.identifierChars_eq {cs : List Char} (name : IsName cs) : identifierChars cs = cs := by
  have parts := name.isNamePart
  cases cs with
  | nil => rfl
  | cons c cs =>
    have noDigit : isDigit c = false := by
      refine Bool.eq_false_iff.mpr fun digit => ?_
      obtain ⟨hyphen, first, more, split, rfl | rfl, start, -⟩ := name
      · obtain ⟨rfl, -⟩ := List.cons.inj split
        simp [isNameStart_of_isDigit digit] at start
      · obtain ⟨rfl, -⟩ := List.cons.inj split
        simp [isDigit] at digit
    have same := flatMap_identifierChar parts
    rw [List.flatMap_cons] at same
    simp [identifierChars, identifierStart, noDigit, same]

end Text

namespace Lexer

open Text

/-- Nothing that would go on with a name comes next. -/
def EndsName (rest : List Char) : Prop := ∀ c ∈ rest.head?, isNamePart c = false ∧ c ≠ '\\'

theorem readEscape_of_ne {c : Char} (plain : c ≠ '\\') (cs : List Char) :
    readEscape (c :: cs) = none := by
  unfold readEscape
  split
  · rename_i eq
    exact absurd (List.cons.inj eq).1 plain
  · rfl

/-- A character behind a backslash stands for itself if it is neither a digit of a code point nor a
line break. -/
theorem readEscape_char {c : Char} (plain : isHexDigit c = false) (inLine : isLineBreak c = false)
    (rest : List Char) : readEscape ('\\' :: c :: rest) = some (c, rest) := by
  simp [readEscape, plain, inLine]

/-- A digit is read from its code point, and the space behind it goes with it. -/
theorem readEscape_digit {c : Char} (digit : isDigit c = true) (rest : List Char) :
    readEscape ('\\' :: '3' :: c :: ' ' :: rest) = some (c, rest) := by
  have hex : isHexDigit c = true := by simp [isHexDigit, digit]
  have digits : takeHexDigits 6 ('3' :: c :: ' ' :: rest) = (['3', c], ' ' :: rest) := by
    have three : isHexDigit '3' = true := rfl
    have space : isHexDigit ' ' = false := rfl
    simp [takeHexDigits, hex, three, space]
  have code : hexValue ['3', c] = c.toNat := by
    simp only [isDigit, le_iff_toNat, Bool.and_eq_true, decide_eq_true_eq] at digit
    simp only [hexValue, List.foldl, hexDigitValue, isDigit, le_iff_toNat, digit,
      decide_true, Bool.and_self, if_true]
    simp only [Char.reduceToNat] at *
    simp
    omega
  have same : charOfCode c.toNat = c := by
    have nonzero : c.toNat ≠ 0 := by
      rintro zero
      simp [isDigit, le_iff_toNat, zero] at digit
    have valid : c.toNat.isValidChar := c.valid
    simp [charOfCode, nonzero, valid, Char.ofNat_toNat]
  have three : isHexDigit '3' = true := rfl
  simp [readEscape, three, digits, code, same, dropOneBlank, isCssBlank]

theorem readCharOrEscape_of_accepts {accepts : Char → Bool} {c : Char} (accepted : accepts c = true)
    (cs : List Char) : readCharOrEscape accepts (c :: cs) = some (c, cs) := by
  simp [readCharOrEscape, accepted]

theorem readCharOrEscape_of_rejects {accepts : Char → Bool} {cs : List Char}
    (stop : ∀ c ∈ cs.head?, accepts c = false ∧ c ≠ '\\') : readCharOrEscape accepts cs = none := by
  cases cs with
  | nil => rfl
  | cons c cs => simp [readCharOrEscape, (stop c rfl).1, readEscape_of_ne (stop c rfl).2]

/-- A character as it is written in a name is read back. -/
theorem readCharOrEscape_identifierChar {c : Char} (inLine : isLineBreak c = false)
    (rest : List Char) :
    readCharOrEscape isNamePart (identifierChar c ++ rest) = some (c, rest) := by
  by_cases part : isNamePart c = true
  · rw [identifierChar, if_pos part]
    exact readCharOrEscape_of_accepts part rest
  · have plain : isHexDigit c = false :=
      Bool.eq_false_iff.mpr fun hex => part (isNamePart_of_isHexDigit hex)
    rw [identifierChar, if_neg part]
    exact readEscape_char plain inLine rest

/-- The first character of an identifier is read back where a name starts, and inside one. -/
theorem readCharOrEscape_identifierStart (accepts : Char → Bool) {c : Char}
    (bar : accepts '\\' = false)
    (plain : isNamePart c = true → isDigit c = false → accepts c = true)
    (inLine : isLineBreak c = false) (rest : List Char) :
    readCharOrEscape accepts (identifierStart c ++ rest) = some (c, rest) := by
  unfold identifierStart
  split
  · rename_i digit
    simp [readCharOrEscape, bar, readEscape_digit digit]
  · rename_i noDigit
    by_cases part : isNamePart c = true
    · rw [identifierChar, if_pos part]
      exact readCharOrEscape_of_accepts (plain part (by simpa using noDigit)) rest
    · have noHex : isHexDigit c = false :=
        Bool.eq_false_iff.mpr fun hex => part (isNamePart_of_isHexDigit hex)
      rw [identifierChar, if_neg part]
      simp [readCharOrEscape, bar, readEscape_char noHex inLine]

theorem readNameParts_of_none {cs : List Char} (stop : readCharOrEscape isNamePart cs = none) :
    readNameParts cs = ([], cs) := by
  unfold readNameParts
  split
  · rfl
  · simp_all

theorem readNameParts_of_some {cs rest : List Char} {c : Char}
    (first : readCharOrEscape isNamePart cs = some (c, rest)) :
    readNameParts cs = (c :: (readNameParts rest).1, (readNameParts rest).2) := by
  rw [readNameParts]
  split
  · simp_all
  · rename_i found
    rw [first] at found
    obtain ⟨rfl, rfl⟩ := Prod.mk.inj (Option.some.inj found)
    rfl

/-- The rest of a name is read back up to where it ends. -/
theorem readNameParts_written {cs rest : List Char} (inLine : ∀ c ∈ cs, isLineBreak c = false)
    (ends : EndsName rest) :
    readNameParts (cs.flatMap identifierChar ++ rest) = (cs, rest) := by
  induction cs with
  | nil => exact readNameParts_of_none (readCharOrEscape_of_rejects ends)
  | cons c cs ih =>
    have first := readCharOrEscape_identifierChar (inLine c List.mem_cons_self)
      (cs.flatMap identifierChar ++ rest)
    rw [List.flatMap_cons, List.append_assoc, readNameParts_of_some first,
      ih fun d member => inLine d (List.mem_cons_of_mem c member)]

/-- An identifier starts with a hyphen only if its text does. -/
theorem takeHyphen_identifierStart {c : Char} (noHyphen : c ≠ '-') (rest : List Char) :
    takeHyphen (identifierStart c ++ rest) = ([], identifierStart c ++ rest) := by
  unfold identifierStart identifierChar
  repeat' split
  all_goals simp [takeHyphen, noHyphen]

/-- The identifier of a name is read as that name. -/
theorem readIdent_identifierChars {cs rest : List Char} (writable : IsWritable cs)
    (ends : EndsName rest) : readIdent (identifierChars cs ++ rest) = some (cs, rest) := by
  obtain ⟨nonempty, inLine, hyphen⟩ := writable
  -- where the name starts, with or without a hyphen in front, no digit stands as it is
  have start (c : Char) (part : isNamePart c = true) (noDigit : isDigit c = false)
      (noHyphen : c ≠ '-') : isNameStart c = true := by
    simpa [isNamePart, noDigit, noHyphen] using part
  cases cs with
  | nil => exact absurd rfl nonempty
  | cons c cs =>
    by_cases first : c = '-'
    · subst first
      obtain ⟨d, member, noDigit, noHyphen⟩ := hyphen cs rfl
      cases cs with
      | nil => simp at member
      | cons e cs =>
        obtain rfl : e = d := by simpa using member
        have inside := inLine e (by simp)
        have plain : identifierStart '-' = ['-'] := rfl
        have second : identifierChar e = identifierStart e := by simp [identifierStart, noDigit]
        have found := readCharOrEscape_identifierStart isNameStart rfl
          (fun part digit => start e part digit noHyphen) inside
          (cs.flatMap identifierChar ++ rest)
        have parts : readNameParts (cs.flatMap identifierChar ++ rest) = (cs, rest) :=
          readNameParts_written (fun d member => inLine d (by simp [member])) ends
        simp [readIdent, identifierChars, plain, takeHyphen, second, found, parts]
    · have found := readCharOrEscape_identifierStart isNameStart rfl
        (fun part digit => start c part digit first) (inLine c (by simp))
        (cs.flatMap identifierChar ++ rest)
      have parts : readNameParts (cs.flatMap identifierChar ++ rest) = (cs, rest) :=
        readNameParts_written (fun d member => inLine d (by simp [member])) ends
      simp [readIdent, identifierChars, takeHyphen_identifierStart first, found, parts]

/-- A hash whose value is written as an identifier is read as that value. -/
theorem readHash_identifierChars {cs rest : List Char} (nonempty : cs ≠ [])
    (inLine : ∀ c ∈ cs, isLineBreak c = false) (ends : EndsName rest) :
    readHash ('#' :: (identifierChars cs ++ rest)) = some (cs, rest) := by
  cases cs with
  | nil => exact absurd rfl nonempty
  | cons c cs =>
    have first := readCharOrEscape_identifierStart isNamePart rfl
      (fun part _ => part) (inLine c List.mem_cons_self) (cs.flatMap identifierChar ++ rest)
    have parts := readNameParts_written
      (fun d member => inLine d (List.mem_cons_of_mem c member)) ends
    simp [readHash, identifierChars, readNameParts_of_some first, parts]

/-! ### Numbers -/

/-- A number: an optional sign, then digits, a fraction, or both. -/
def IsNumber (cs : List Char) : Prop :=
  ∃ sign digits fraction, cs = sign ++ (digits ++ fraction) ∧
    (sign = [] ∨ sign = ['+'] ∨ sign = ['-']) ∧ (∀ c ∈ digits, isDigit c = true) ∧
    (fraction = [] ∧ digits ≠ [] ∨
      ∃ decimals, fraction = '.' :: decimals ∧ decimals ≠ [] ∧ ∀ c ∈ decimals, isDigit c = true)

/-- Nothing that would go on with the number `cs` comes next. -/
def EndsNumber (cs rest : List Char) : Prop :=
  ∀ c ∈ rest.head?, isDigit c = false ∧ (c = '.' → '.' ∈ cs)

theorem readFraction_of_ne {rest : List Char} (noPoint : ∀ c ∈ rest.head?, c ≠ '.') :
    readFraction rest = none := by
  cases rest with
  | nil => rfl
  | cons c cs =>
    unfold readFraction
    split
    · rename_i eq
      exact absurd (List.cons.inj eq).1 (noPoint c rfl)
    · rfl

/-- Digits, a fraction, or both are read back in front of what ends a number. -/
theorem readUnsigned_written {digits fraction rest : List Char}
    (allDigits : ∀ c ∈ digits, isDigit c = true)
    (written : fraction = [] ∧ digits ≠ [] ∨
      ∃ decimals, fraction = '.' :: decimals ∧ decimals ≠ [] ∧ ∀ c ∈ decimals, isDigit c = true)
    (noDigit : ∀ c ∈ rest.head?, isDigit c = false)
    (noFraction : fraction = [] → readFraction rest = none) :
    readUnsigned (digits ++ (fraction ++ rest)) = some (digits ++ fraction, rest) := by
  rcases written with ⟨rfl, nonempty⟩ | ⟨decimals, rfl, nonempty, allDecimals⟩
  · have taken := takeWhile_run allDigits noDigit
    have dropped := dropWhile_run allDigits noDigit
    simp [readUnsigned, taken, dropped, noFraction rfl, nonempty]
  · have point : ∀ c ∈ ('.' :: (decimals ++ rest)).head?, isDigit c = false := by
      simp [isDigit]
    have taken := takeWhile_run allDigits point
    have dropped := dropWhile_run allDigits point
    have fraction : readFraction ('.' :: (decimals ++ rest)) = some ('.' :: decimals, rest) := by
      simp [readFraction, takeWhile_run allDecimals noDigit, dropWhile_run allDecimals noDigit,
        nonempty]
    simp [readUnsigned, taken, dropped, fraction]

/-- The first character of a number without its sign. -/
theorem head_of_unsigned {digits fraction : List Char} (allDigits : ∀ c ∈ digits, isDigit c = true)
    (written : fraction = [] ∧ digits ≠ [] ∨
      ∃ decimals, fraction = '.' :: decimals ∧ decimals ≠ [] ∧ ∀ c ∈ decimals, isDigit c = true) :
    ∃ c cs, digits ++ fraction = c :: cs ∧ (isDigit c = true ∨ c = '.') := by
  cases digits with
  | nil =>
    rcases written with ⟨-, nonempty⟩ | ⟨decimals, rfl, -⟩
    · exact absurd rfl nonempty
    · exact ⟨'.', decimals, rfl, .inr rfl⟩
  | cons c cs => exact ⟨c, cs ++ fraction, rfl, .inl (allDigits c List.mem_cons_self)⟩

/-- A number is read where neither a digit follows nor, behind a number without a point, a
fraction. -/
theorem IsNumber.readNumber {cs rest : List Char} (number : IsNumber cs)
    (noDigit : ∀ c ∈ rest.head?, isDigit c = false)
    (noFraction : '.' ∈ cs ∨ readFraction rest = none) :
    readNumber (cs ++ rest) = some (cs, rest) := by
  obtain ⟨sign, digits, fraction, rfl, signed, allDigits, written⟩ := number
  have split : takeSign (sign ++ (digits ++ fraction ++ rest))
      = (sign, digits ++ fraction ++ rest) := by
    rcases signed with rfl | rfl | rfl
    · obtain ⟨c, cs, eq, first⟩ := head_of_unsigned allDigits written
      refine takeSign_of_head fun d next => ?_
      obtain rfl : c = d := by simpa [eq] using next
      constructor
      · rintro rfl
        simp [isDigit] at first
      · rintro rfl
        simp [isDigit] at first
    · rfl
    · rfl
  have unsigned := readUnsigned_written allDigits written noDigit fun none => by
    refine noFraction.resolve_left fun inside => ?_
    -- neither the sign nor the digits hold a point
    rcases signed with rfl | rfl | rfl <;>
      simp [none] at inside <;> exact absurd (allDigits _ inside) (by decide)
  rw [List.append_assoc, readNumber_eq_some_iff, split]
  exact ⟨_, by rw [List.append_assoc, unsigned], rfl⟩

theorem readNumber_written {cs rest : List Char} (number : IsNumber cs)
    (ends : EndsNumber cs rest) : readNumber (cs ++ rest) = some (cs, rest) := by
  refine number.readNumber (fun c next => (ends c next).1) ?_
  by_cases point : '.' ∈ cs
  · exact .inl point
  · exact .inr (readFraction_of_ne fun c next dot => point ((ends c next).2 dot))

/-! ### Where other tokens start -/

theorem readBlanks_of_ne {c : Char} (noBlank : isCssBlank c = false) (cs : List Char) :
    readBlanks (c :: cs) = none := by
  simp [readBlanks, noBlank]

theorem readIdent_of_rejects {cs : List Char}
    (stop : ∀ c ∈ (takeHyphen cs).2.head?, isNameStart c = false ∧ c ≠ '\\') :
    readIdent cs = none := by
  simp [readIdent, readCharOrEscape_of_rejects stop]

theorem readHash_of_ne {c : Char} (noHash : c ≠ '#') (cs : List Char) :
    readHash (c :: cs) = none := by
  unfold readHash
  split
  · rename_i eq
    exact absurd (List.cons.inj eq).1 noHash
  · rfl

theorem readOperator_of_start {c : Char} (noOperator : isOperatorStart c = false)
    (cs : List Char) : readOperator (c :: cs) = none := by
  unfold readOperator
  split
  · rename_i eq
    obtain ⟨rfl, -⟩ := List.cons.inj eq
    simp [noOperator]
  · rfl

theorem readOperator_of_next {rest : List Char} (next : ∀ c ∈ rest.head?, c ≠ '=') (c : Char) :
    readOperator (c :: rest) = none := by
  unfold readOperator
  split
  · rename_i eq
    obtain ⟨-, rfl⟩ := List.cons.inj eq
    exact absurd rfl (next '=' rfl)
  · rfl

theorem takeHyphen_of_ne {c : Char} (noHyphen : c ≠ '-') (cs : List Char) :
    takeHyphen (c :: cs) = ([], c :: cs) := by
  unfold takeHyphen
  split
  · rename_i eq
    exact absurd (List.cons.inj eq).1 noHyphen
  · rfl

theorem takeSign_of_ne {c : Char} (noPlus : c ≠ '+') (noHyphen : c ≠ '-') (cs : List Char) :
    takeSign (c :: cs) = ([], c :: cs) :=
  takeSign_of_head (by simp [noPlus, noHyphen])

/-- No number starts where neither a digit nor, behind the sign, a point before a digit does. -/
theorem readNumber_of_rejects {cs : List Char}
    (noDigit : ∀ c ∈ (takeSign cs).2.head?, isDigit c = false)
    (noFraction : readFraction (takeSign cs).2 = none) : readNumber cs = none := by
  have none : readUnsigned (takeSign cs).2 = none := by
    have stays := run_of_head noDigit
    simp [readUnsigned, stays.1, stays.2, noFraction]
  simp [readNumber, none]

/-! ### Written tokens -/

/-- In front of `rest`, `source` is read as one token. -/
def Lexes (source : List Char) (kind : Token.Kind) (text rest : List Char) : Prop :=
  ∃ c cs, source = c :: cs ∧
    ∀ start, readLexeme start c (cs ++ rest) = .ok (.token kind text, rest)

/-- The tokens of a text that starts with a written token. -/
theorem tokensFrom_lexes {source text rest : List Char} {kind : Token.Kind}
    (lexes : Lexes source kind text rest) (pos : Nat) :
    tokensFrom pos (source ++ rest) =
      match tokensFrom (pos + byteSize source) rest with
      | .ok tokens => .ok (⟨kind, String.ofList text, pos⟩ :: tokens)
      | .error e => .error e := by
  obtain ⟨c, cs, rfl, read⟩ := lexes
  rw [List.cons_append, tokensFrom]
  split
  · simp_all
  · rename_i found
    rw [read pos] at found
    obtain ⟨rfl, rfl⟩ := Prod.mk.inj (Except.ok.inj found)
    have size : byteSize (c :: (cs ++ rest)) - byteSize rest = byteSize (c :: cs) := by
      rw [← List.cons_append, byteSize_append]
      omega
    cases lexed : tokensFrom (pos + byteSize (c :: cs)) rest <;> simp [size, lexed]

section Lexes

variable {c : Char} {cs rest text : List Char} {kind : Token.Kind}

theorem lexes_of_readPlain (noQuote : c ≠ '"' ∧ c ≠ '\'') (noSlash : c ≠ '/')
    (plain : readPlain c (cs ++ rest) = ((kind, text), rest)) : Lexes (c :: cs) kind text rest := by
  refine ⟨c, cs, rfl, fun start => ?_⟩
  unfold readLexeme
  split
  · exact absurd rfl noSlash
  · simp [noQuote.1, noQuote.2, plain]

/-- What reads as a name and starts as one is an identifier. -/
theorem lexes_of_readIdent (start : c = '\\' ∨ isNamePart c = true)
    (read : readIdent (c :: (cs ++ rest)) = some (text, rest)) : Lexes (c :: cs) .ident text rest := by
  have noBlank : isCssBlank c = false := by
    rcases start with rfl | part
    · rfl
    · exact isCssBlank_of_isNamePart part
  have noMark : c ≠ '"' ∧ c ≠ '\'' ∧ c ≠ '/' := by
    rcases start with rfl | part
    · decide
    · refine ⟨?_, ?_, ?_⟩ <;> rintro rfl <;> exact absurd part (by decide)
  refine lexes_of_readPlain ⟨noMark.1, noMark.2.1⟩ noMark.2.2 ?_
  simp [readPlain, readBlanks_of_ne noBlank, read]

/-- What reads as a hash is one. -/
theorem lexes_of_readHash (read : readHash ('#' :: (cs ++ rest)) = some (text, rest)) :
    Lexes ('#' :: cs) .hash text rest := by
  refine lexes_of_readPlain (by decide) (by decide) ?_
  have noName : readIdent ('#' :: (cs ++ rest)) = none :=
    readIdent_of_rejects (by simp [takeHyphen, isNameStart, isLetter, isNonAscii])
  simp [readPlain, readBlanks_of_ne, isCssBlank, noName, read]

/-- An identifier is read as the name it stands for. -/
theorem lexes_identifier (writable : IsWritable cs) (ends : EndsName rest) :
    Lexes (identifierChars cs) .ident cs rest := by
  have read := readIdent_identifierChars writable ends
  obtain ⟨first, more, eq, start⟩ := identifierChars_eq_cons writable.nonempty
  rw [eq] at read ⊢
  exact lexes_of_readIdent (start.imp_right And.left) read

/-- A hash is read as the value whose identifier stands behind its sign. -/
theorem lexes_hash (nonempty : cs ≠ []) (inLine : ∀ c ∈ cs, isLineBreak c = false)
    (ends : EndsName rest) : Lexes ('#' :: identifierChars cs) .hash cs rest :=
  lexes_of_readHash (readHash_identifierChars nonempty inLine ends)

/-- What reads as a number and not as a name is a number, whatever it starts with. -/
theorem lexes_of_readNumber (read : readNumber (c :: cs ++ rest) = some (c :: cs, rest))
    (first : isDigit c = true ∨ c = '.' ∨ c = '+' ∨ c = '-')
    (noName : readIdent (c :: (cs ++ rest)) = none) : Lexes (c :: cs) .number (c :: cs) rest := by
  have noBlank : isCssBlank c = false := by
    rcases first with digit | rfl | rfl | rfl
    · exact isCssBlank_of_isNamePart (isNamePart_of_isDigit digit)
    all_goals rfl
  have noOperator : isOperatorStart c = false := by
    refine Bool.eq_false_iff.mpr fun operator => ?_
    simp only [isOperatorStart, Bool.or_eq_true, beq_iff_eq] at operator
    rcases operator with ((((rfl | rfl) | rfl) | rfl) | rfl) | rfl <;> revert first <;> decide
  have noMark : (c ≠ '"' ∧ c ≠ '\'') ∧ c ≠ '/' ∧ c ≠ '#' := by
    refine ⟨⟨?_, ?_⟩, ?_, ?_⟩ <;> rintro rfl <;> revert first <;> decide
  rw [List.cons_append] at read
  refine lexes_of_readPlain noMark.1 noMark.2.1 ?_
  simp [readPlain, readBlanks_of_ne noBlank, noName, readHash_of_ne noMark.2.2,
    readOperator_of_start noOperator, read]

/-- Where a number is read whole, it is a token: no name starts like a number. -/
theorem lexes_of_isNumber (number : IsNumber cs) (read : readNumber (cs ++ rest) = some (cs, rest)) :
    Lexes cs .number cs rest := by
  obtain ⟨sign, digits, fraction, rfl, signed, allDigits, written⟩ := number
  obtain ⟨c, more, eq, first⟩ := head_of_unsigned allDigits written
  have noName : isNameStart c = false ∧ c ≠ '\\' := by
    rcases first with digit | rfl
    · refine ⟨isNameStart_of_isDigit digit, ?_⟩
      rintro rfl
      exact absurd digit (by decide)
    · decide
  rw [eq] at read ⊢
  rcases signed with rfl | rfl | rfl
  · have noHyphen : c ≠ '-' := by
      rintro rfl
      exact absurd first (by decide)
    refine lexes_of_readNumber read (first.imp_right .inl) (readIdent_of_rejects ?_)
    simpa [takeHyphen_of_ne noHyphen] using noName
  · refine lexes_of_readNumber read (by simp) (readIdent_of_rejects ?_)
    simp [takeHyphen, isNameStart, isLetter, isNonAscii]
  · exact lexes_of_readNumber read (by simp)
      (readIdent_of_rejects (by simpa [takeHyphen] using noName))

/-- A number is read as its own text. -/
theorem lexes_number (number : IsNumber cs) (ends : EndsNumber cs rest) :
    Lexes cs .number cs rest :=
  lexes_of_isNumber number (readNumber_written number ends)

theorem readString_quote (quote : Char) (start : Nat) (rest : List Char) :
    readString quote start (quote :: rest) = .ok ([], rest) := by
  rw [readString.eq_def]
  simp

/-- A character that is neither the quote, a line feed nor a backslash stands for itself. -/
theorem readString_char {quote c : Char} (inside : c ≠ quote) (noBreak : c ≠ '\n')
    (plain : c ≠ '\\') (start : Nat) (rest : List Char) :
    readString quote start (c :: rest) =
      match readString quote start rest with
      | .ok (text, behind) => .ok (c :: text, behind)
      | .error e => .error e := by
  rw [readString.eq_def]
  cases found : readString quote start rest <;> simp [inside, noBreak, plain, found]

/-- A backslash before a character that ends no line is read as an escape. -/
theorem readString_escape {quote c : Char} {rest after : List Char} (inside : '\\' ≠ quote)
    (inLine : readContinuation ('\\' :: rest) = none)
    (escape : readEscape ('\\' :: rest) = some (c, after)) (start : Nat) :
    readString quote start ('\\' :: rest) =
      match readString quote start after with
      | .ok (text, behind) => .ok (c :: text, behind)
      | .error e => .error e := by
  rw [readString.eq_def]
  simp only [if_neg inside]
  rw [if_neg (by decide), if_pos trivial]
  split
  · rename_i found
    simp [inLine] at found
  · split
    · rename_i found
      rw [escape] at found
      obtain ⟨rfl, rfl⟩ := Prod.mk.inj (Option.some.inj found)
      rfl
    · rename_i found
      simp [escape] at found

/-- A character inside double quotes is read as that character, unless it is a line feed. -/
theorem readString_quotedChar {c : Char} (noBreak : c ≠ '\n') (start : Nat) (rest : List Char) :
    readString '"' start (Token.quotedChar c ++ rest) =
      match readString '"' start rest with
      | .ok (text, behind) => .ok (c :: text, behind)
      | .error e => .error e := by
  by_cases marked : c = '\\' ∨ c = '"'
  · have quoted : Token.quotedChar c = ['\\', c] := by simp [Token.quotedChar, marked]
    have inLine (rest : List Char) : readContinuation ('\\' :: c :: rest) = none := by
      rcases marked with rfl | rfl <;> rfl
    have escape (rest : List Char) : readEscape ('\\' :: c :: rest) = some (c, rest) := by
      rcases marked with rfl | rfl <;> rfl
    rw [quoted, List.cons_append, List.cons_append, List.nil_append,
      readString_escape (by decide) (inLine _) (escape _)]
  · rw [not_or] at marked
    have quoted : Token.quotedChar c = [c] := by simp [Token.quotedChar, marked]
    rw [quoted, List.cons_append, List.nil_append, readString_char marked.2 noBreak marked.1]

/-- A text in double quotes is read as that text. -/
theorem readString_quoted (noBreak : ∀ c ∈ cs, c ≠ '\n') (start : Nat) :
    readString '"' start (cs.flatMap Token.quotedChar ++ '"' :: rest) = .ok (cs, rest) := by
  induction cs with
  | nil => exact readString_quote '"' start rest
  | cons c cs ih =>
    rw [List.forall_mem_cons] at noBreak
    rw [List.flatMap_cons, List.append_assoc, readString_quotedChar noBreak.1, ih noBreak.2]

theorem lexes_quoted (noBreak : ∀ c ∈ cs, c ≠ '\n') :
    Lexes ('"' :: cs.flatMap Token.quotedChar ++ ['"']) .string cs rest := by
  refine ⟨'"', cs.flatMap Token.quotedChar ++ ['"'], rfl, fun start => ?_⟩
  simp [readLexeme, readString_quoted noBreak]

/-! ### Blanks and signs -/

/-- Blanks in front of something else are one token. -/
theorem lexes_blanks (nonempty : cs ≠ []) (blank : ∀ c ∈ cs, isCssBlank c = true)
    (visible : ∀ c ∈ rest.head?, isCssBlank c = false) : Lexes cs .space cs rest := by
  obtain ⟨c, cs, rfl⟩ := List.exists_cons_of_ne_nil nonempty
  have noMark : (c ≠ '"' ∧ c ≠ '\'') ∧ c ≠ '/' := by
    refine ⟨⟨?_, ?_⟩, ?_⟩ <;> rintro rfl <;> exact absurd (blank _ List.mem_cons_self) (by decide)
  refine lexes_of_readPlain noMark.1 noMark.2 ?_
  have taken := takeWhile_run blank visible
  have dropped := dropWhile_run blank visible
  rw [List.cons_append] at taken dropped
  simp [readPlain, readBlanks, taken, dropped]

/-- A single space in front of something else is a blank. -/
theorem lexes_space (noBlank : ∀ c ∈ rest.head?, isCssBlank c = false) :
    Lexes [' '] .space [' '] rest :=
  lexes_blanks (by simp) (by simp [isCssBlank]) noBlank

/-- A sign that starts no name and no hash is read alone unless an operator or a number starts with
it. -/
theorem lexes_sign (sign : c ∈ "[](),:=>.*|~+".toList)
    (operator : isOperatorStart c = true → ∀ d ∈ rest.head?, d ≠ '=')
    (number : readNumber (c :: rest) = none) : Lexes [c] .delim [c] rest := by
  have facts : ∀ c ∈ "[](),:=>.*|~+".toList, ((c ≠ '"' ∧ c ≠ '\'') ∧ c ≠ '/') ∧
      isCssBlank c = false ∧ (isNameStart c = false ∧ c ≠ '\\') ∧ c ≠ '-' ∧ c ≠ '#' :=
    List.all_iff_forall_prop.mp (by decide)
  obtain ⟨noMark, noBlank, noName, noHyphen, noHash⟩ := facts c sign
  have noIdent : readIdent (c :: rest) = none :=
    readIdent_of_rejects (by simpa [takeHyphen_of_ne noHyphen] using noName)
  have noOperator : readOperator (c :: rest) = none := by
    by_cases starts : isOperatorStart c = true
    · exact readOperator_of_next (operator starts) c
    · exact readOperator_of_start (by simpa using starts) rest
  refine lexes_of_readPlain noMark.1 noMark.2 ?_
  simp [readPlain, readBlanks_of_ne noBlank, noIdent, readHash_of_ne noHash, noOperator, number]

theorem readNumber_of_ne (noDigit : isDigit c = false) (noPoint : c ≠ '.')
    (noSign : c ≠ '+' ∧ c ≠ '-') (cs : List Char) : readNumber (c :: cs) = none := by
  have sign := takeSign_of_ne noSign.1 noSign.2 cs
  refine readNumber_of_rejects ?_ ?_
  · simp [sign, noDigit]
  · rw [sign]
    exact readFraction_of_ne (by simp [noPoint])

/-- A bracket, a comma and the like are read alone whatever follows. -/
theorem lexes_bracket (sign : c ∈ "[](),:=>".toList) : Lexes [c] .delim [c] rest := by
  have facts : ∀ c ∈ "[](),:=>".toList, c ∈ "[](),:=>.*|~+".toList ∧ isOperatorStart c = false ∧
      isDigit c = false ∧ c ≠ '.' ∧ c ≠ '+' ∧ c ≠ '-' :=
    List.all_iff_forall_prop.mp (by decide)
  obtain ⟨known, noOperator, noDigit, noPoint, noSign⟩ := facts c sign
  exact lexes_sign known (by simp [noOperator]) (readNumber_of_ne noDigit noPoint noSign rest)

/-- A star, a bar and a tilde are read alone where they do not belong to an operator. -/
theorem lexes_star (sign : c ∈ "*|~".toList) (next : ∀ d ∈ rest.head?, d ≠ '=') :
    Lexes [c] .delim [c] rest := by
  have facts : ∀ c ∈ "*|~".toList, c ∈ "[](),:=>.*|~+".toList ∧ isDigit c = false ∧ c ≠ '.' ∧
      c ≠ '+' ∧ c ≠ '-' :=
    List.all_iff_forall_prop.mp (by decide)
  obtain ⟨known, noDigit, noPoint, noSign⟩ := facts c sign
  exact lexes_sign known (fun _ => next) (readNumber_of_ne noDigit noPoint noSign rest)

theorem lexes_point (next : ∀ d ∈ rest.head?, isDigit d = false) :
    Lexes ['.'] .delim ['.'] rest := by
  refine lexes_sign (by decide) (by simp [isOperatorStart]) (readNumber_of_rejects ?_ ?_)
  · simp [takeSign, isDigit]
  · simp [takeSign, readFraction, (run_of_head next).1]

/-- Behind a sign no number starts if neither a digit nor a point follows. -/
theorem readNumber_of_sign (sign : c = '+' ∨ c = '-')
    (next : ∀ d ∈ rest.head?, isDigit d = false ∧ d ≠ '.') : readNumber (c :: rest) = none := by
  have split : takeSign (c :: rest) = ([c], rest) := by
    rcases sign with rfl | rfl <;> rfl
  apply readNumber_of_rejects
  · rw [split]
    exact fun d here => (next d here).1
  · rw [split]
    exact readFraction_of_ne fun d here => (next d here).2

theorem lexes_plus (next : ∀ d ∈ rest.head?, isDigit d = false ∧ d ≠ '.') :
    Lexes ['+'] .delim ['+'] rest :=
  lexes_sign (by decide) (by simp [isOperatorStart]) (readNumber_of_sign (.inl rfl) next)

theorem lexes_hyphen (next : ∀ d ∈ rest.head?, isDigit d = false ∧ d ≠ '.')
    (noName : ∀ d ∈ rest.head?, isNameStart d = false ∧ d ≠ '\\') :
    Lexes ['-'] .delim ['-'] rest := by
  have noIdent : readIdent ('-' :: rest) = none := readIdent_of_rejects noName
  have noOperator : readOperator ('-' :: rest) = none := readOperator_of_start rfl rest
  have noNumber := readNumber_of_sign (.inr rfl) next
  refine lexes_of_readPlain (by decide) (by decide) ?_
  simp [readPlain, readBlanks_of_ne, isCssBlank, noIdent, readHash_of_ne, noOperator, noNumber]

/-- The operator of an attribute selector. -/
theorem lexes_operator (start : isOperatorStart c = true) :
    Lexes [c, '='] .delim [c, '='] rest := by
  simp only [isOperatorStart, Bool.or_eq_true, beq_iff_eq] at start
  have facts : (c ≠ '"' ∧ c ≠ '\'') ∧ c ≠ '/' := by
    rcases start with ((((rfl | rfl) | rfl) | rfl) | rfl) | rfl <;> decide
  refine lexes_of_readPlain facts.1 facts.2 ?_
  rcases start with ((((rfl | rfl) | rfl) | rfl) | rfl) | rfl <;> rfl

end Lexes

/-! ### The first token -/

/-- What a token is read by where neither a comment nor a string starts: the first rule that
applies, so that none of the earlier ones does. -/
inductive ReadsPlain (c : Char) (cs : List Char) : Token.Kind → List Char → List Char → Prop
  | blanks {text rest : List Char} (found : readBlanks (c :: cs) = some (text, rest)) :
      ReadsPlain c cs .space text rest
  | name {text rest : List Char} (noBlank : readBlanks (c :: cs) = none)
      (found : readIdent (c :: cs) = some (text, rest)) : ReadsPlain c cs .ident text rest
  | hash {text rest : List Char} (noBlank : readBlanks (c :: cs) = none)
      (noName : readIdent (c :: cs) = none) (found : readHash (c :: cs) = some (text, rest)) :
      ReadsPlain c cs .hash text rest
  | operator {text rest : List Char} (noBlank : readBlanks (c :: cs) = none)
      (noName : readIdent (c :: cs) = none) (noHash : readHash (c :: cs) = none)
      (found : readOperator (c :: cs) = some (text, rest)) : ReadsPlain c cs .delim text rest
  | number {text rest : List Char} (noBlank : readBlanks (c :: cs) = none)
      (noName : readIdent (c :: cs) = none) (noHash : readHash (c :: cs) = none)
      (noOperator : readOperator (c :: cs) = none)
      (found : readNumber (c :: cs) = some (text, rest)) : ReadsPlain c cs .number text rest
  | sign (noBlank : readBlanks (c :: cs) = none) (noName : readIdent (c :: cs) = none)
      (noHash : readHash (c :: cs) = none) (noOperator : readOperator (c :: cs) = none)
      (noNumber : readNumber (c :: cs) = none) : ReadsPlain c cs .delim [c] cs

section Reads

variable {start : Nat} {c : Char} {cs text rest value : List Char} {kind : Token.Kind}

theorem readsPlain (read : readPlain c cs = ((kind, text), rest)) :
    ReadsPlain c cs kind text rest := by
  unfold readPlain at read
  split at read
  · rename_i found
    obtain ⟨⟨rfl, rfl⟩, rfl⟩ := by simpa only [Prod.mk.injEq] using read
    exact .blanks found
  rename_i noBlank
  split at read
  · rename_i found
    obtain ⟨⟨rfl, rfl⟩, rfl⟩ := by simpa only [Prod.mk.injEq] using read
    exact .name noBlank found
  rename_i noName
  split at read
  · rename_i found
    obtain ⟨⟨rfl, rfl⟩, rfl⟩ := by simpa only [Prod.mk.injEq] using read
    exact .hash noBlank noName found
  rename_i noHash
  split at read
  · rename_i found
    obtain ⟨⟨rfl, rfl⟩, rfl⟩ := by simpa only [Prod.mk.injEq] using read
    exact .operator noBlank noName noHash found
  rename_i noOperator
  split at read
  · rename_i found
    obtain ⟨⟨rfl, rfl⟩, rfl⟩ := by simpa only [Prod.mk.injEq] using read
    exact .number noBlank noName noHash noOperator found
  · rename_i noNumber
    obtain ⟨⟨rfl, rfl⟩, rfl⟩ := by simpa only [Prod.mk.injEq] using read
    exact .sign noBlank noName noHash noOperator noNumber

theorem ReadsPlain.kind_ne_string (reads : ReadsPlain c cs kind text rest) : kind ≠ .string := by
  cases reads <;> decide

/-- What a token is read by: the rule of strings where a quote stands, and the plain rules where
neither a quote stands nor a comment starts. -/
inductive ReadsToken (start : Nat) (c : Char) (cs : List Char) :
    Token.Kind → List Char → List Char → Prop
  | string {text rest : List Char} (mark : c = '"' ∨ c = '\'')
      (found : readString c start cs = .ok (text, rest)) : ReadsToken start c cs .string text rest
  | plain {kind : Token.Kind} {text rest : List Char} (noQuote : c ≠ '"' ∧ c ≠ '\'')
      (noComment : c = '/' → ∀ d ∈ cs.head?, d ≠ '*')
      (found : readPlain c cs = ((kind, text), rest)) : ReadsToken start c cs kind text rest

theorem readsToken (read : readLexeme start c cs = .ok (.token kind text, rest)) :
    ReadsToken start c cs kind text rest := by
  unfold readLexeme at read
  split at read
  · simp at read
  rename_i noComment
  split at read
  · rename_i mark
    split at read
    · rename_i found
      obtain ⟨same, rfl⟩ := Prod.mk.inj (Except.ok.inj read)
      obtain ⟨rfl, rfl⟩ := Lexeme.token.inj same
      exact .string mark found
    · simp at read
  · rename_i noQuote
    obtain ⟨same, behind⟩ := Prod.mk.inj (Except.ok.inj read)
    obtain ⟨sort, value⟩ := Lexeme.token.inj same
    refine .plain (not_or.mp noQuote) ?_ (Prod.ext (Prod.ext sort value) behind)
    rintro slash d first rfl
    obtain ⟨inside, eq⟩ := List.head?_eq_some_iff.mp first
    exact noComment inside slash eq

/-- No rule gives the token at the end of the input. -/
theorem ReadsToken.kind_ne_eof (reads : ReadsToken start c cs kind text rest) : kind ≠ .eof := by
  cases reads with
  | string => decide
  | plain _ _ found => cases readsPlain found <;> decide

/-- A delimiter starts with the character it is read from. -/
theorem readLexeme_delim (read : readLexeme start c cs = .ok (.token .delim value, rest)) :
    ∃ more, value = c :: more := by
  cases readsToken read with
  | plain _ _ found =>
    cases readsPlain found with
    | operator _ _ _ found =>
      unfold readOperator at found
      split at found
      · rename_i eq
        split at found
        · obtain ⟨rfl, -⟩ := Prod.mk.inj (Option.some.inj found)
          obtain ⟨rfl, -⟩ := List.cons.inj eq
          exact ⟨_, rfl⟩
        · simp at found
      · simp at found
    | sign => exact ⟨[], rfl⟩

end Reads

/-- Where no comment starts, the first character starts the first token. -/
theorem head_tokensFrom {pos : Nat} {c : Char} {cs : List Char} {tokens : List Token}
    (noSlash : c ≠ '/') (read : tokensFrom pos (c :: cs) = .ok tokens) :
    ∃ kind value rest others, readLexeme pos c cs = .ok (.token kind value, rest) ∧
      tokens = ⟨kind, String.ofList value, pos⟩ :: others := by
  rw [tokensFrom] at read
  split at read
  · simp at read
  rename_i lexeme rest found
  cases lexeme with
  | comment =>
    unfold readLexeme at found
    split at found
    · exact absurd rfl noSlash
    · repeat' split at found
      all_goals simp at found
  | token kind value =>
    simp only at read
    split at read
    · obtain rfl := Except.ok.inj read
      exact ⟨kind, value, rest, _, found, rfl⟩
    · simp at read

end Lexer

/-- A text has the tokens that its tokenization gives as an option. -/
theorem tokenize_eq_ok {text : String} {tokens : List Token}
    (lexed : (tokenize text).toOption = some tokens) : tokenize text = .ok tokens := by
  cases eq : tokenize text with
  | ok read =>
    rw [eq] at lexed
    rw [Option.some.inj lexed]
  | error e =>
    rw [eq] at lexed
    exact absurd lexed (by simp [Except.toOption])

end SelectorPath
