import Mathlib.Data.List.TakeWhile
import SelectorPath.Proofs.Text.Run
import SelectorPath.Series.Parser

/-!
# The texts of series

A text denotes a series by its form: it is `odd`, `even`, a number, or a coefficient, `n` and an
offset. The reader tries the forms in this order, takes the longest run of digits, and never goes
back once a form has begun to fit. Nothing is lost by that. Of the four forms a text has at most
one, where one has digits no sign alone could have stood, and where the offset is no offset, no
other form has the text either.

## Main definitions

* `Series.IsNumeral` — a sign and digits with a value of 32 bits
* `Series.IsCoefficient`, `Series.IsOffset` — what stands around `n`
* `Series.Denotes` — a text has the form of a series

## Main results

* `Series.ofChars?_eq_some_iff` — exactly the texts that denote a series are read, and as that
  series
* `Series.parse_iff_denotes` — what an argument list is read as, and when it is rejected
-/

namespace SelectorPath.Series

open Text

/-! ### Forms -/

/-- The value of digits behind a sign, which may be missing. -/
inductive Signed (digits : List Char) : List Char → Int → Prop
  | bare : Signed digits [] (decimalValue digits)
  | plus : Signed digits ['+'] (decimalValue digits)
  | minus : Signed digits ['-'] (-decimalValue digits)

/-- A sign and at least one digit that write a 32-bit number. -/
structure IsNumeral (sign digits : List Char) (value : Int32) : Prop where
  nonempty : digits ≠ []
  all : ∀ c ∈ digits, isDigit c = true
  signed : Signed digits sign value.toInt

/-- What stands in front of `n`: a number, or a sign or nothing for one. -/
inductive IsCoefficient : List Char → Int32 → Prop
  | none : IsCoefficient [] 1
  | plus : IsCoefficient ['+'] 1
  | minus : IsCoefficient ['-'] (-1)
  | number {sign digits : List Char} {a : Int32} (numeral : IsNumeral sign digits a) :
    IsCoefficient (sign ++ digits) a

/-- What stands behind `n`: nothing, or a number with a sign and blanks around the sign. -/
inductive IsOffset : List Char → Int32 → Prop
  | none : IsOffset [] 0
  | number {before sign after digits : List Char} {b : Int32}
    (blankBefore : ∀ c ∈ before, isOffsetBlank c = true) (hasSign : sign ≠ [])
    (blankAfter : ∀ c ∈ after, isOffsetBlank c = true) (numeral : IsNumeral sign digits b) :
    IsOffset (before ++ (sign ++ (after ++ digits))) b

/-- A text has the form of a series. -/
inductive Denotes : List Char → Series → Prop
  | odd : Denotes ['o', 'd', 'd'] ⟨2, 1⟩
  | even : Denotes ['e', 'v', 'e', 'n'] ⟨2, 0⟩
  | single {sign digits : List Char} {b : Int32} (numeral : IsNumeral sign digits b) :
    Denotes (sign ++ digits) ⟨0, b⟩
  | linear {front behind : List Char} {a b : Int32} (coefficient : IsCoefficient front a)
    (offset : IsOffset behind b) : Denotes (front ++ 'n' :: behind) ⟨a, b⟩

/-! ### Signs -/

section Sign

variable {sign digits cs : List Char}

/-- No sign, or one of the two. -/
def IsSign (sign : List Char) : Prop := sign = [] ∨ sign = ['+'] ∨ sign = ['-']

theorem signed_iff {value : Int} :
    Signed digits sign value ↔ IsSign sign ∧ value = signedValue sign digits := by
  constructor
  · rintro (_ | _ | _) <;> simp [IsSign, signedValue]
  · rintro ⟨rfl | rfl | rfl, rfl⟩
    · exact .bare
    · exact .plus
    · exact .minus

/-- A sign that is there is split off whatever follows. -/
theorem IsSign.takeSign (isSign : IsSign sign) (hasSign : sign ≠ []) (rest : List Char) :
    takeSign (sign ++ rest) = (sign, rest) := by
  rcases isSign with rfl | rfl | rfl
  · exact absurd rfl hasSign
  · rfl
  · rfl

end Sign

/-! ### Numbers -/

/-- A number has 32 bits exactly if one of these is its value. -/
theorem toInt32?_eq_some_iff {value : Int} {number : Int32} :
    toInt32? value = some number ↔ number.toInt = value := by
  unfold toInt32?
  constructor
  · intro read
    split at read
    · rename_i range
      rw [← Option.some.inj read]
      exact Int32.toInt_ofInt_of_le range.1 range.2
    · exact nomatch read
  · rintro rfl
    rw [if_pos ⟨number.le_toInt, number.toInt_lt⟩, Int32.ofInt_toInt]

/-- The number that digits at the start of a text write behind a sign, and the rest. -/
def readDigits (sign cs : List Char) : Option (Int32 × List Char) :=
  if cs.takeWhile isDigit = [] then none
  else
    match toInt32? (signedValue sign (cs.takeWhile isDigit)) with
    | some value => some (value, cs.dropWhile isDigit)
    | none => none

theorem readInteger_eq (cs : List Char) :
    readInteger cs = readDigits (takeSign cs).1 (takeSign cs).2 := rfl

section Numeral

variable {sign digits cs rest : List Char} {value : Int32}

namespace IsNumeral

variable (numeral : IsNumeral sign digits value)

include numeral

theorem isSign : IsSign sign := (signed_iff.mp numeral.signed).1

/-- Whatever holds of all digits holds of the first. -/
theorem head {p : Char → Prop} (each : ∀ c, isDigit c = true → p c) (rest : List Char) :
    ∀ c ∈ (digits ++ rest).head?, p c := by
  obtain ⟨first, others, eq⟩ := List.exists_cons_of_ne_nil numeral.nonempty
  rw [eq, List.cons_append, List.head?_cons]
  rintro c ⟨⟩
  exact each _ (numeral.all _ (eq ▸ List.mem_cons_self))

theorem takeSign (rest : List Char) :
    takeSign (sign ++ (digits ++ rest)) = (sign, digits ++ rest) := by
  by_cases hasSign : sign = []
  · rw [hasSign, List.nil_append]
    refine takeSign_of_head (numeral.head (fun c digit => ?_) rest)
    constructor <;> rintro rfl <;> exact absurd digit (by decide)
  · exact numeral.isSign.takeSign hasSign _

theorem readDigits (stop : ∀ c ∈ rest.head?, isDigit c = false) :
    readDigits sign (digits ++ rest) = some (value, rest) := by
  have same := toInt32?_eq_some_iff.mpr (signed_iff.mp numeral.signed).2
  rw [Series.readDigits, takeWhile_run numeral.all stop, dropWhile_run numeral.all stop,
    if_neg numeral.nonempty, same]

theorem readInteger (stop : ∀ c ∈ rest.head?, isDigit c = false) :
    readInteger (sign ++ (digits ++ rest)) = some (value, rest) := by
  rw [readInteger_eq, numeral.takeSign rest]
  exact numeral.readDigits stop

theorem readInteger_whole : Series.readInteger (sign ++ digits) = some (value, []) := by
  rw [← List.append_nil digits]
  exact numeral.readInteger (by simp)

end IsNumeral

/-- What is read behind a sign is a numeral. -/
theorem exists_isNumeral (isSign : IsSign sign) (read : readDigits sign cs = some (value, rest)) :
    ∃ digits, cs = digits ++ rest ∧ IsNumeral sign digits value := by
  unfold readDigits at read
  split at read
  · exact nomatch read
  rename_i nonempty
  split at read
  · rename_i number fits
    obtain ⟨rfl, rfl⟩ := Prod.mk.inj (Option.some.inj read)
    exact ⟨cs.takeWhile isDigit, (List.takeWhile_append_dropWhile ..).symm, nonempty,
      fun _ => List.mem_takeWhile_imp, signed_iff.mpr ⟨isSign, toInt32?_eq_some_iff.mp fits⟩⟩
  · exact nomatch read

theorem exists_numeral_of_readInteger (read : readInteger cs = some (value, rest)) :
    ∃ sign digits, cs = sign ++ (digits ++ rest) ∧ IsNumeral sign digits value := by
  obtain ⟨digits, eq, numeral⟩ := exists_isNumeral (takeSign_cases cs) (readInteger_eq cs ▸ read)
  exact ⟨(takeSign cs).1, digits, eq ▸ (takeSign_append cs).symm, numeral⟩

end Numeral

/-! ### Coefficients -/

theorem stop_n (rest : List Char) : ∀ c ∈ ('n' :: rest).head?, isDigit c = false := by
  simp
  decide

/-- A sign alone in front of `n` is no number. -/
theorem IsSign.readInteger {sign : List Char} (isSign : IsSign sign) (rest : List Char) :
    readInteger (sign ++ 'n' :: rest) = none := by
  have split : Text.takeSign (sign ++ 'n' :: rest) = (sign, 'n' :: rest) := by
    rcases isSign with rfl | rfl | rfl <;> rfl
  rw [readInteger_eq, split, readDigits, (run_of_head (stop_n rest)).1]
  rfl

theorem IsCoefficient.readCoefficient {front : List Char} {a : Int32}
    (coefficient : IsCoefficient front a) (rest : List Char) :
    readCoefficient (front ++ 'n' :: rest) = (a, 'n' :: rest) := by
  unfold Series.readCoefficient
  -- a number is tried first, and only where there is none the sign stands for one
  cases coefficient with
  | none => rw [IsSign.readInteger (.inl rfl)]; rfl
  | plus => rw [IsSign.readInteger (.inr (.inl rfl))]; rfl
  | minus => rw [IsSign.readInteger (.inr (.inr rfl))]; rfl
  | number numeral => rw [List.append_assoc, numeral.readInteger (stop_n rest)]

/-- What is read in front of `n` is a coefficient. -/
theorem exists_isCoefficient {cs rest : List Char} {a : Int32}
    (read : readCoefficient cs = (a, rest)) :
    ∃ front, cs = front ++ rest ∧ IsCoefficient front a := by
  unfold readCoefficient at read
  split at read
  -- a number; or else a sign alone, also where its digits have no value of 32 bits
  · rename_i result number
    rw [read] at number
    obtain ⟨sign, digits, rfl, numeral⟩ := exists_numeral_of_readInteger number
    exact ⟨sign ++ digits, (List.append_assoc ..).symm, .number numeral⟩
  · split at read
    all_goals obtain ⟨rfl, rfl⟩ := Prod.mk.inj read
    · exact ⟨['-'], rfl, .minus⟩
    · exact ⟨['+'], rfl, .plus⟩
    · exact ⟨[], rfl, .none⟩

/-! ### Offsets -/

theorem readOffset_eq {cs sign rest : List Char} (hasSign : sign ≠ [])
    (split : takeSign (cs.dropWhile isOffsetBlank) = (sign, rest)) :
    readOffset cs = readDigits sign (rest.dropWhile isOffsetBlank) := by
  unfold readOffset
  rw [split]
  cases sign with
  | nil => exact absurd rfl hasSign
  | cons first others => rfl

theorem not_isOffsetBlank_of_isDigit (c : Char) (digit : isDigit c = true) :
    isOffsetBlank c = false := by
  refine Bool.eq_false_iff.mpr fun blank => ?_
  simp only [isOffsetBlank, Bool.or_eq_true, beq_iff_eq] at blank
  rcases blank with ((rfl | rfl) | rfl) | rfl <;> exact absurd digit (by decide)

/-- No sign is a blank. -/
theorem IsSign.not_isOffsetBlank {sign : List Char} (isSign : IsSign sign) (hasSign : sign ≠ [])
    (rest : List Char) : ∀ c ∈ (sign ++ rest).head?, isOffsetBlank c = false := by
  rcases isSign with rfl | rfl | rfl
  · exact absurd rfl hasSign
  · simp; decide
  · simp; decide

/-- An offset is read to its end; if it is empty, none is read. -/
theorem IsOffset.readOffset {behind : List Char} {b : Int32} (offset : IsOffset behind b) :
    (behind = [] ∧ b = 0) ∨ readOffset behind = some (b, []) := by
  cases offset with
  | none => exact .inl ⟨rfl, rfl⟩
  | @number before sign after digits _ blankBefore hasSign blankAfter numeral =>
    right
    have signRead := numeral.isSign.takeSign hasSign (after ++ digits)
    rw [← dropWhile_run blankBefore (numeral.isSign.not_isOffsetBlank hasSign _)] at signRead
    rw [readOffset_eq hasSign signRead, ← List.append_nil digits,
      dropWhile_run blankAfter (numeral.head not_isOffsetBlank_of_isDigit [])]
    exact numeral.readDigits (by simp)

/-- What is read behind `n` is an offset. -/
theorem exists_isOffset {cs rest : List Char} {b : Int32}
    (read : Series.readOffset cs = some (b, rest)) :
    ∃ behind, cs = behind ++ rest ∧ IsOffset behind b := by
  obtain ⟨sign, unsigned, split⟩ : ∃ sign unsigned,
    takeSign (cs.dropWhile isOffsetBlank) = (sign, unsigned) := ⟨_, _, rfl⟩
  have isSign := takeSign_cases (cs.dropWhile isOffsetBlank)
  have whole := takeSign_append (cs.dropWhile isOffsetBlank)
  rw [split] at isSign whole
  by_cases noSign : sign = []
  · rw [Series.readOffset, split, noSign] at read
    exact nomatch read
  · rw [readOffset_eq noSign split] at read
    obtain ⟨digits, eq, numeral⟩ := exists_isNumeral isSign read
    -- the two runs of blanks, the sign and the digits make up what was read
    refine ⟨cs.takeWhile isOffsetBlank ++ (sign ++ (unsigned.takeWhile isOffsetBlank ++ digits)), ?_,
      .number (fun _ => List.mem_takeWhile_imp) noSign (fun _ => List.mem_takeWhile_imp) numeral⟩
    simp only [List.append_assoc]
    rw [← eq, List.takeWhile_append_dropWhile, whole, List.takeWhile_append_dropWhile]

/-! ### The reader and the grammar -/

/-- A sign and digits start with a sign or a digit, and so with none of the words. -/
theorem IsNumeral.no_word {sign digits : List Char} {value : Int32}
    (numeral : IsNumeral sign digits value) (rest : List Char) :
    ∀ c ∈ (sign ++ (digits ++ rest)).head?, c ≠ 'o' ∧ c ≠ 'e' := by
  rcases numeral.isSign with rfl | rfl | rfl
  · refine numeral.head (fun c digit => ?_) rest
    constructor <;> rintro rfl <;> exact absurd digit (by decide)
  · simp
  · simp

theorem IsCoefficient.no_word {front : List Char} {a : Int32} (coefficient : IsCoefficient front a)
    (behind : List Char) : ∀ c ∈ (front ++ 'n' :: behind).head?, c ≠ 'o' ∧ c ≠ 'e' := by
  cases coefficient with
  | none => simp
  | plus => simp
  | minus => simp
  | number numeral =>
    rw [List.append_assoc]
    exact numeral.no_word _

/-- A text that starts with neither word is read as `an` if it can be, and as a number if not. -/
theorem readSeries_of_head {cs : List Char} (other : ∀ c ∈ cs.head?, c ≠ 'o' ∧ c ≠ 'e') :
    readSeries cs =
      match readLinear cs with
      | some result => some result
      | none =>
        match readInteger cs with
        | some (b, rest) => some (index b, rest)
        | none => none := by
  unfold readSeries
  split
  · exact absurd rfl (other _ rfl).1
  · exact absurd rfl (other _ rfl).2
  · rfl

theorem readLinear_of_denotes {front behind : List Char} {a b : Int32}
    (coefficient : IsCoefficient front a) (offset : IsOffset behind b) :
    readLinear (front ++ 'n' :: behind) = some (⟨a, b⟩, []) := by
  unfold readLinear
  rw [coefficient.readCoefficient behind]
  rcases offset.readOffset with ⟨rfl, rfl⟩ | read
  · rfl
  · simp only [read]

/-- A number alone is no coefficient: no `n` follows. -/
theorem IsNumeral.readLinear {sign digits : List Char} {value : Int32}
    (numeral : IsNumeral sign digits value) : readLinear (sign ++ digits) = none := by
  unfold Series.readLinear readCoefficient
  rw [numeral.readInteger_whole]

/-- A text with the form of a series is read to its end. -/
theorem Denotes.readSeries {cs : List Char} {series : Series} (denotes : Denotes cs series) :
    readSeries cs = some (series, []) := by
  cases denotes with
  | odd => rfl
  | even => rfl
  | @single sign digits b numeral =>
    have noWord := numeral.no_word []
    rw [List.append_nil] at noWord
    -- `an` is tried first and takes the digits, and is given up where no `n` follows
    rw [readSeries_of_head noWord, numeral.readLinear, numeral.readInteger_whole]
    rfl
  | @linear front behind a b coefficient offset =>
    rw [readSeries_of_head (coefficient.no_word behind), readLinear_of_denotes coefficient offset]

/-- What is read as `an` has its form. -/
theorem denotes_of_readLinear {cs rest : List Char} {series : Series}
    (read : readLinear cs = some (series, rest)) :
    ∃ word, cs = word ++ rest ∧ Denotes word series := by
  unfold readLinear at read
  split at read
  · rename_i a behind coefficient
    obtain ⟨front, rfl, isCoefficient⟩ := exists_isCoefficient coefficient
    split at read
    · rename_i b after offset
      obtain ⟨rfl, rfl⟩ := Prod.mk.inj (Option.some.inj read)
      obtain ⟨word, rfl, isOffset⟩ := exists_isOffset offset
      exact ⟨front ++ 'n' :: word, by simp, .linear isCoefficient isOffset⟩
    · -- no offset: what follows `n` stays unread
      obtain ⟨rfl, rfl⟩ := Prod.mk.inj (Option.some.inj read)
      exact ⟨front ++ ['n'], by simp, .linear isCoefficient .none⟩
  · exact nomatch read

/-- What is read has the form of a series. -/
theorem denotes_of_readSeries {cs rest : List Char} {series : Series}
    (read : Series.readSeries cs = some (series, rest)) :
    ∃ word, cs = word ++ rest ∧ Denotes word series := by
  unfold Series.readSeries at read
  -- the two words, then `an`, then a number
  split at read
  · obtain ⟨rfl, rfl⟩ := Prod.mk.inj (Option.some.inj read)
    exact ⟨['o', 'd', 'd'], rfl, .odd⟩
  · obtain ⟨rfl, rfl⟩ := Prod.mk.inj (Option.some.inj read)
    exact ⟨['e', 'v', 'e', 'n'], rfl, .even⟩
  split at read
  · rename_i result linear
    rw [Option.some.inj read] at linear
    exact denotes_of_readLinear linear
  split at read
  · rename_i b after number
    obtain ⟨rfl, rfl⟩ := Prod.mk.inj (Option.some.inj read)
    obtain ⟨sign, digits, rfl, numeral⟩ := exists_numeral_of_readInteger number
    exact ⟨sign ++ digits, (List.append_assoc ..).symm, .single numeral⟩
  · exact nomatch read

/-- Exactly the texts with the form of a series are read. -/
theorem ofChars?_eq_some_iff {cs : List Char} {series : Series} :
    ofChars? cs = some series ↔ Denotes cs series := by
  unfold ofChars?
  constructor
  · intro read
    split at read
    · rename_i found whole
      obtain rfl := Option.some.inj read
      obtain ⟨word, rfl, denotes⟩ := denotes_of_readSeries whole
      rwa [List.append_nil]
    · exact nomatch read
  · intro denotes
    rw [denotes.readSeries]

/-- A text has the form of one series at most. -/
theorem Denotes.unique {cs : List Char} {series other : Series} (denotes : Denotes cs series)
    (also : Denotes cs other) : series = other :=
  Option.some.inj ((ofChars?_eq_some_iff.mpr denotes).symm.trans (ofChars?_eq_some_iff.mpr also))

/-! ### Argument lists -/

/-- A list with a string among its tokens is no series for that reason. Any other denotes the series
that its text has the form of, and if there is none, the error shows the text. -/
theorem parse_iff_denotes (tokens : List Token) :
    (parse tokens = .error .stringToken ↔ ∃ token ∈ tokens, token.kind = .string) ∧
    (∀ series, parse tokens = .ok series ↔
      (∀ token ∈ tokens, token.kind ≠ .string) ∧ Denotes (argumentText tokens).toList series) ∧
    ∀ text, parse tokens = .error (.invalid text) ↔
      (∀ token ∈ tokens, token.kind ≠ .string) ∧ text = argumentText tokens ∧
        ∀ series, ¬ Denotes text.toList series := by
  have strings : (tokens.any fun token => token.kind == .string) = true ↔
      ∃ token ∈ tokens, token.kind = .string := by simp
  unfold parse
  by_cases quoted : ∃ token ∈ tokens, token.kind = .string
  · -- a string decides before the text is looked at
    have present : ¬ ∀ token ∈ tokens, token.kind ≠ .string := by simpa using quoted
    rw [if_pos (strings.mpr quoted)]
    exact ⟨iff_of_true rfl quoted, fun _ => iff_of_false nofun fun denotes => present denotes.1,
      fun _ => iff_of_false nofun fun invalid => present invalid.1⟩
  · have absent : ∀ token ∈ tokens, token.kind ≠ .string := by simpa using quoted
    rw [if_neg (mt strings.mp quoted)]
    -- the form is the only one that the text has, or it has none
    cases read : ofChars? (argumentText tokens).toList with
    | some found =>
      have denotes := ofChars?_eq_some_iff.mp read
      refine ⟨iff_of_false nofun quoted, fun series => ?_, fun text => ?_⟩
      · simp only [Except.ok.injEq]
        exact ⟨fun same => ⟨absent, same ▸ denotes⟩, fun form => denotes.unique form.2⟩
      · refine iff_of_false nofun ?_
        rintro ⟨-, rfl, none⟩
        exact none found denotes
    | none =>
      have noForm (series : Series) : ¬ Denotes (argumentText tokens).toList series := by
        rw [← ofChars?_eq_some_iff, read]
        exact nofun
      refine ⟨iff_of_false nofun quoted, fun series => ?_, fun text => ?_⟩
      · exact iff_of_false nofun fun denotes => noForm series denotes.2
      · simp only [Except.error.injEq, Error.invalid.injEq]
        constructor
        · rintro rfl
          exact ⟨absent, rfl, noForm⟩
        · rintro ⟨-, rfl, -⟩
          rfl

/-- The least offset of 32 bits, behind a sign alone and a capital: `-N - 2147483648`. -/
theorem parse_iff_denotes_least :
    parse [⟨.ident, "-N", 0⟩, ⟨.delim, "-", 3⟩, ⟨.number, "2147483648", 5⟩] =
      .ok ⟨-1, -2147483648⟩ := by
  refine ((parse_iff_denotes _).2.1 _).mpr ⟨by decide, ?_⟩
  have text : (argumentText
      [⟨.ident, "-N", 0⟩, ⟨.delim, "-", 3⟩, ⟨.number, "2147483648", 5⟩]).toList =
        ['-'] ++ 'n' :: ([' '] ++ (['-'] ++ ([' '] ++ "2147483648".toList))) := by decide +kernel
  have signed : Signed "2147483648".toList ['-'] (-2147483648 : Int32).toInt := by
    have value : (-2147483648 : Int32).toInt = -decimalValue "2147483648".toList := by
      decide +kernel
    exact value ▸ .minus
  have digits : ∀ c ∈ "2147483648".toList, isDigit c = true :=
    List.all_eq_true.mp (by decide +kernel)
  rw [text]
  exact .linear .minus (.number (List.all_eq_true.mp rfl) (by decide) (List.all_eq_true.mp rfl)
    ⟨by decide +kernel, digits, signed⟩)

end SelectorPath.Series
