import SelectorPath.Proofs.Token.ReadsBack

/-!
# What an identifier stands for

`Text.identifier` writes any text as an identifier: a digit in front by its code point, every other
character that is no name character behind a backslash. Read again it need not be that text. A
backslash does not escape a line break, so the name ends in front of it; and where a hyphen starts
the text, what follows it stands as it is, although neither a digit nor a second hyphen starts a
name. Behind the sign of a hash any name character may come first, and only line breaks are in the
way.

## Main definitions

* `HasOneToken` — a text has one token before the end
* `Lexer.firstLine` — the characters in front of the first line break

## Main results

* `Lexer.readNameParts_identifierChars` — a name is read up to its first line break
* `hasOneToken_identifier` — which texts their identifier stands for, alone and as a hash
-/

namespace SelectorPath

open Text

namespace Lexer

variable {c : Char} {cs rest : List Char}

/-! ### Line breaks in an identifier -/

/-- A backslash in front of a line break is no escape. -/
theorem readEscape_lineBreak (line : isLineBreak c = true) (rest : List Char) :
    readEscape ('\\' :: c :: rest) = none := by
  have noHex : isHexDigit c = false := by
    refine Bool.eq_false_iff.mpr fun hex => ?_
    simp [isLineBreak_of_isNamePart (isNamePart_of_isHexDigit hex)] at line
  simp [readEscape, noHex, line]

theorem readCharOrEscape_lineBreak {accepts : Char → Bool} (bar : accepts '\\' = false)
    (line : isLineBreak c = true) (rest : List Char) :
    readCharOrEscape accepts ('\\' :: c :: rest) = none := by
  simp [readCharOrEscape, bar, readEscape_lineBreak line]

theorem identifierChar_lineBreak (line : isLineBreak c = true) : identifierChar c = ['\\', c] := by
  refine if_neg fun part => ?_
  simp [isLineBreak_of_isNamePart part] at line

theorem identifierStart_lineBreak (line : isLineBreak c = true) :
    identifierStart c = ['\\', c] := by
  rw [← identifierChar_lineBreak line]
  refine if_neg fun digit => ?_
  simp [isLineBreak_of_isNamePart (isNamePart_of_isDigit digit)] at line

/-! ### Names up to a line break -/

/-- The characters in front of the first line break. -/
def firstLine (cs : List Char) : List Char := cs.takeWhile fun c => !isLineBreak c

theorem firstLine_cons_of_lineBreak (line : isLineBreak c = true) (cs : List Char) :
    firstLine (c :: cs) = [] := by
  simp [firstLine, line]

theorem firstLine_cons (inLine : isLineBreak c = false) (cs : List Char) :
    firstLine (c :: cs) = c :: firstLine cs := by
  simp [firstLine, inLine]

theorem firstLine_eq_self_iff : firstLine cs = cs ↔ ∀ c ∈ cs, isLineBreak c = false := by
  simp [firstLine]

theorem readNameParts_flatMap (cs : List Char) :
    (readNameParts (cs.flatMap identifierChar)).1 = firstLine cs := by
  induction cs with
  | nil => rw [List.flatMap_nil, readNameParts_of_none rfl]; rfl
  | cons c cs ih =>
    rw [List.flatMap_cons]
    by_cases line : isLineBreak c = true
    · rw [firstLine_cons_of_lineBreak line, identifierChar_lineBreak line, readNameParts_of_none]
      exact readCharOrEscape_lineBreak rfl line _
    · have inLine : isLineBreak c = false := by simpa using line
      rw [readNameParts_of_some (readCharOrEscape_identifierChar inLine _), ih,
        firstLine_cons inLine]

/-- Where any name character may come first, an identifier is read up to the first line break. -/
theorem readNameParts_identifierChars (cs : List Char) :
    (readNameParts (identifierChars cs)).1 = firstLine cs := by
  cases cs with
  | nil => rw [identifierChars, readNameParts_of_none rfl]; rfl
  | cons c cs =>
    rw [identifierChars]
    by_cases line : isLineBreak c = true
    · rw [firstLine_cons_of_lineBreak line, identifierStart_lineBreak line, readNameParts_of_none]
      exact readCharOrEscape_lineBreak rfl line _
    · have inLine : isLineBreak c = false := by simpa using line
      have first := readCharOrEscape_identifierStart isNamePart rfl (fun part _ => part) inLine
        (cs.flatMap identifierChar)
      rw [readNameParts_of_some first, readNameParts_flatMap, firstLine_cons inLine]

/-! ### Where a name starts -/

/-- A character inside of an identifier that starts a name is no line break, and neither a digit nor
a hyphen, for these two stand there as they are. -/
theorem readCharOrEscape_isNameStart {first : Char} {after : List Char}
    (read : readCharOrEscape isNameStart (identifierChar c ++ rest) = some (first, after)) :
    after = rest ∧ isLineBreak c = false ∧ isDigit c = false ∧ c ≠ '-' := by
  -- a name character is written as it is, and anything else behind a backslash
  by_cases part : isNamePart c = true
  · rw [identifierChar, if_pos part, List.singleton_append, readCharOrEscape] at read
    split at read
    · rename_i start
      obtain ⟨-, rfl⟩ := Prod.mk.inj (Option.some.inj read)
      refine ⟨rfl, isLineBreak_of_isNamePart part, ?_, ?_⟩
      · refine Bool.eq_false_iff.mpr fun digit => ?_
        simp [isNameStart_of_isDigit digit] at start
      · rintro rfl
        exact absurd start (by decide)
    · have plain : c ≠ '\\' := by
        rintro rfl
        exact absurd part (by decide)
      rw [readEscape_of_ne plain] at read
      cases read
  · by_cases line : isLineBreak c = true
    · rw [identifierChar_lineBreak line, List.cons_append, List.singleton_append,
        readCharOrEscape_lineBreak rfl line] at read
      cases read
    · have inLine : isLineBreak c = false := by simpa using line
      have noHex : isHexDigit c = false :=
        Bool.eq_false_iff.mpr fun hex => part (isNamePart_of_isHexDigit hex)
      have escape : readCharOrEscape isNameStart ('\\' :: c :: rest) = some (c, rest) :=
        readEscape_char noHex inLine rest
      rw [identifierChar, if_neg part, List.cons_append, List.singleton_append, escape] at read
      obtain ⟨-, rfl⟩ := Prod.mk.inj (Option.some.inj read)
      refine ⟨rfl, inLine, Bool.eq_false_iff.mpr fun digit => ?_, ?_⟩
      · exact part (isNamePart_of_isDigit digit)
      · rintro rfl
        exact part rfl

/-- An identifier is read as the text it was written for only if that can be written. -/
theorem isWritable_of_readIdent (read : readIdent (identifierChars cs) = some (cs, rest)) :
    IsWritable cs := by
  cases cs with
  | nil => simp [identifierChars, readIdent, takeHyphen, readCharOrEscape] at read
  | cons c cs =>
    rw [identifierChars] at read
    unfold readIdent at read
    split at read
    case h_2 => cases read
    rename_i first after found
    obtain ⟨same, -⟩ := Prod.mk.inj (Option.some.inj read)
    by_cases hyphen : c = '-'
    · subst hyphen
      -- Behind the hyphen a name starts, and the character that starts it is there.
      have start : identifierStart '-' = ['-'] := rfl
      simp only [start, List.singleton_append, takeHyphen] at found same
      have behind := (List.cons.inj same).2
      cases cs with
      | nil => simp at behind
      | cons d cs =>
        rw [List.flatMap_cons] at found
        obtain ⟨rfl, inLine, noDigit, noHyphen⟩ := readCharOrEscape_isNameStart found
        have whole := (List.cons.inj behind).2
        rw [readNameParts_flatMap, firstLine_eq_self_iff] at whole
        refine ⟨by simp, ?_, fun more split => ?_⟩
        · simpa [inLine] using ⟨rfl, whole⟩
        · obtain rfl := (List.cons.inj split).2
          exact ⟨d, rfl, noDigit, noHyphen⟩
    · rw [takeHyphen_identifierStart hyphen] at found same
      have inLine : isLineBreak c = false := by
        refine Bool.eq_false_iff.mpr fun line => ?_
        rw [identifierStart_lineBreak line, List.cons_append, List.singleton_append,
          readCharOrEscape_lineBreak rfl line] at found
        cases found
      have plain (part : isNamePart c = true) (noDigit : isDigit c = false) :
          isNameStart c = true := by
        simpa [isNamePart, noDigit, hyphen] using part
      rw [readCharOrEscape_identifierStart isNameStart rfl plain inLine] at found
      obtain ⟨rfl, rfl⟩ := Prod.mk.inj (Option.some.inj found)
      have whole := (List.cons.inj same).2
      rw [readNameParts_flatMap, firstLine_eq_self_iff] at whole
      refine ⟨by simp, List.forall_mem_cons.mpr ⟨inLine, whole⟩, fun more split => ?_⟩
      exact absurd (List.cons.inj split).1 hyphen

/-- A hash is read as the text it was written for only if that is not empty and has no line
break. -/
theorem inLine_of_readHash (read : readHash ('#' :: identifierChars cs) = some (cs, rest)) :
    cs ≠ [] ∧ ∀ c ∈ cs, isLineBreak c = false := by
  have parts := readNameParts_identifierChars cs
  unfold readHash at read
  split at read
  · rename_i eq
    obtain rfl := (List.cons.inj eq).2
    split at read
    · cases read
    · rename_i nonempty found
      obtain ⟨rfl, -⟩ := Prod.mk.inj (Option.some.inj read)
      rw [found] at parts
      exact ⟨nonempty, firstLine_eq_self_iff.mp parts.symm⟩
  · cases read

/-- A text is in one line if it has none of the three line breaks. -/
theorem inLine_iff :
    (∀ c ∈ cs, isLineBreak c = false) ↔ '\n' ∉ cs ∧ '\r' ∉ cs ∧ '\x0c' ∉ cs := by
  constructor
  · intro inLine
    refine ⟨?_, ?_, ?_⟩ <;> intro member <;> exact absurd (inLine _ member) (by decide)
  · rintro ⟨noFeed, noReturn, noPage⟩ c member
    refine Bool.eq_false_iff.mpr fun line => ?_
    simp only [isLineBreak, Bool.or_eq_true, beq_iff_eq] at line
    rcases line with (rfl | rfl) | rfl
    exacts [noFeed member, noReturn member, noPage member]

/-- A text can be written as an identifier if it is not empty, has no line break, and a hyphen in
front is followed by neither the end, nor a digit, nor a second hyphen. -/
theorem isWritable_iff :
    IsWritable cs ↔ cs ≠ [] ∧ ('\n' ∉ cs ∧ '\r' ∉ cs ∧ '\x0c' ∉ cs) ∧ cs ≠ ['-'] ∧
      ∀ c more, cs = '-' :: c :: more → isDigit c = false ∧ c ≠ '-' := by
  rw [← inLine_iff]
  constructor
  · rintro ⟨nonempty, inLine, hyphen⟩
    refine ⟨nonempty, inLine, ?_, fun c more split => ?_⟩
    · intro alone
      obtain ⟨c, member, -⟩ := hyphen [] alone
      simp at member
    · obtain ⟨d, member, start⟩ := hyphen (c :: more) split
      obtain rfl : c = d := by simpa using member
      exact start
  · rintro ⟨nonempty, inLine, notAlone, second⟩
    refine ⟨nonempty, inLine, fun more split => ?_⟩
    cases more with
    | nil => exact absurd split notAlone
    | cons c more => exact ⟨c, rfl, second c more split⟩

end Lexer

open Lexer

/-! ### Texts of one token -/

/-- The text has one token before the end, of the given category and value. -/
def HasOneToken (text : String) (kind : Token.Kind) (value : String) : Prop :=
  ∃ pos stop, tokenize text = .ok [⟨kind, value, pos⟩, ⟨.eof, "", stop⟩]

theorem Lexer.Lexes.hasOneToken {source text rest : List Char} {kind : Token.Kind}
    (lexes : Lexes source kind text rest) :
    HasOneToken (String.ofList source) kind (String.ofList text) :=
  ⟨_, _, lexes.alone⟩

/-- The first character of the text decides which rule its only token is read by. -/
theorem HasOneToken.readsToken {kind : Token.Kind} {value text : String} {c : Char}
    {cs : List Char} (one : HasOneToken text kind value) (split : text.toList = c :: cs)
    (noSlash : c ≠ '/') : ∃ rest, ReadsToken 0 c cs kind value.toList rest := by
  obtain ⟨pos, stop, lexed⟩ := one
  rw [tokenize, split] at lexed
  obtain ⟨_, _, rest, _, read, same⟩ := head_tokensFrom noSlash lexed
  obtain ⟨rfl, rfl, -⟩ := Token.mk.inj (List.cons.inj same).1
  rw [String.toList_ofList]
  exact ⟨rest, Lexer.readsToken read⟩

theorem isWritable_of_hasOneToken {text : String}
    (one : HasOneToken (identifier text) .ident text) : IsWritable text.toList := by
  have nonempty : text.toList ≠ [] := by
    intro empty
    obtain ⟨pos, stop, lexed⟩ := one
    rw [tokenize, toList_identifier, empty, identifierChars, tokensFrom] at lexed
    simp at lexed
  obtain ⟨first, more, split, mark⟩ := identifierChars_eq_cons nonempty
  have noSlash : first ≠ '/' := by
    rcases mark with rfl | ⟨part, -⟩
    · decide
    · rintro rfl
      exact absurd part (by decide)
  obtain ⟨rest, reads⟩ := one.readsToken (by rw [toList_identifier, split]) noSlash
  cases reads with
  | plain _ _ found =>
    cases readsPlain found with
    | name _ found =>
      rw [← split] at found
      exact isWritable_of_readIdent found

theorem inLine_of_hasOneToken {text : String}
    (one : HasOneToken ("#" ++ identifier text) .hash text) :
    text.toList ≠ [] ∧ ∀ c ∈ text.toList, isLineBreak c = false := by
  have split : ("#" ++ identifier text).toList = '#' :: identifierChars text.toList := by simp
  obtain ⟨rest, reads⟩ := one.readsToken split (by decide)
  cases reads with
  | plain _ _ found =>
    cases readsPlain found with
    | hash _ _ found => exact inLine_of_readHash found

/-- The identifier of a text is one token with that text as its value exactly if the text is not
empty, has no line break, and does not consist of a hyphen or start with one in front of a digit or
a second hyphen. Behind the sign of a hash, exactly if it is not empty and has no line break. -/
theorem hasOneToken_identifier (text : String) :
    (HasOneToken (identifier text) .ident text ↔
      text ≠ "" ∧ ('\n' ∉ text.toList ∧ '\r' ∉ text.toList ∧ '\x0c' ∉ text.toList) ∧
        text ≠ "-" ∧
        ∀ c more, text.toList = '-' :: c :: more → isDigit c = false ∧ c ≠ '-') ∧
    (HasOneToken ("#" ++ identifier text) .hash text ↔
      text ≠ "" ∧ '\n' ∉ text.toList ∧ '\r' ∉ text.toList ∧ '\x0c' ∉ text.toList) := by
  have empty : text ≠ "" ↔ text.toList ≠ [] := by simp
  have hyphen : text ≠ "-" ↔ text.toList ≠ ['-'] := by rw [Ne, ← String.toList_inj]; rfl
  have ends : EndsName [] := by simp [EndsName]
  rw [empty, hyphen]
  constructor
  · rw [← isWritable_iff]
    refine ⟨isWritable_of_hasOneToken, fun writable => ?_⟩
    simpa [identifier] using (lexes_identifier writable ends).hasOneToken
  · rw [← inLine_iff]
    refine ⟨inLine_of_hasOneToken, fun written => ?_⟩
    obtain ⟨nonempty, inLine⟩ := written
    have one := (lexes_hash nonempty inLine ends).hasOneToken
    rwa [String.ofList_cons, String.ofList_toList] at one

/-- Digits and colons are escaped, and the hyphen in front is followed by an escape. -/
example : identifier "1a:b" = "\\31 a\\:b" ∧ identifier "-:" = "-\\:" := by decide +kernel

end SelectorPath
