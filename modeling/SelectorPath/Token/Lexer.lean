import SelectorPath.Text.Ascii
import SelectorPath.Text.Blank
import SelectorPath.Text.Identifier
import SelectorPath.Text.Numeral
import SelectorPath.Token.Basic

/-!
# Reading tokens

At each place of the input the first rule that applies decides, in this order: a comment, a quoted
string, a run of blanks, an identifier, a hash, a delimiter of two characters, a number, and last
any single character as a delimiter. Comments leave no token. The last rule accepts everything, so
only a string can fail: when the input ends before its closing quote, or when it holds a bare line
feed.

A rule takes the characters from the current place on and gives what it read together with the rest.
Each rule reads at least one character (`readLexeme_length` and the lemmas before it), which bounds
the recursion of `tokensFrom`.

## Main definitions

* `Lexer.readEscape`, `Lexer.readName`, `Lexer.readIdent`, `Lexer.readString`, … — the rules
* `Lexer.tokensFrom` — the tokens from a place on
* `tokenize` — the tokens of a text, the last of them `eof`
* `LexicalError` — why a text has no tokens
-/

namespace SelectorPath

/-- Why a text cannot be split into tokens; both name the offset of the opening quote. -/
inductive LexicalError
  | /-- The input ends inside the string. -/
    unclosedString (pos : Nat)
  | /-- The string holds a line feed that no backslash precedes. -/
    invalidString (pos : Nat)
  deriving DecidableEq, Repr

/-- The wording of a lexical error. -/
def LexicalError.message : LexicalError → String
  | .unclosedString pos => "Unclosed string at position " ++ toString pos
  | .invalidString pos =>
    "Invalid string at position " ++ toString pos ++ ": unescaped newline"

/-- The offset a lexical error points to. -/
def LexicalError.pos : LexicalError → Nat
  | .unclosedString pos => pos
  | .invalidString pos => pos

namespace Lexer

open Text

/-! ### Escapes -/

/-- The first `limit` hexadecimal digits at most, and the rest. -/
def takeHexDigits : Nat → List Char → List Char × List Char
  | 0, cs => ([], cs)
  | _ + 1, [] => ([], [])
  | limit + 1, c :: cs =>
    if isHexDigit c then
      let (digits, rest) := takeHexDigits limit cs
      (c :: digits, rest)
    else ([], c :: cs)

theorem takeHexDigits_append (limit : Nat) (cs : List Char) :
    (takeHexDigits limit cs).1 ++ (takeHexDigits limit cs).2 = cs := by
  induction limit generalizing cs with
  | zero => rfl
  | succ limit ih =>
    cases cs with
    | nil => rfl
    | cons c cs =>
      unfold takeHexDigits
      split
      · simpa using ih cs
      · rfl

/-- The rest after one blank, if there is one; a carriage return and a line feed count as one. -/
def dropOneBlank : List Char → List Char
  | '\r' :: '\n' :: rest => rest
  | [] => []
  | c :: rest => if isCssBlank c then rest else c :: rest

theorem dropOneBlank_length (cs : List Char) : (dropOneBlank cs).length ≤ cs.length := by
  unfold dropOneBlank
  split
  · simp only [List.length_cons]
    omega
  · simp
  · split <;> simp

/-- The character with a given code point. There is none for zero, for surrogates and beyond
U+10FFFF; those give the replacement character U+FFFD. -/
def charOfCode (code : Nat) : Char :=
  if code ≠ 0 ∧ code.isValidChar then Char.ofNat code else '\uFFFD'

/-- An escape: a backslash with one to six hexadecimal digits and an optional blank, or a backslash
with any other character that is no line break. -/
def readEscape : List Char → Option (Char × List Char)
  | '\\' :: c :: cs =>
    if isHexDigit c then
      let (digits, rest) := takeHexDigits 6 (c :: cs)
      some (charOfCode (hexValue digits), dropOneBlank rest)
    else if isLineBreak c then none
    else some (c, cs)
  | _ => none

/-- An escape starts with a backslash. -/
theorem readEscape_head {cs rest : List Char} {c : Char} (h : readEscape cs = some (c, rest)) :
    ∃ more, cs = '\\' :: more := by
  unfold readEscape at h
  split at h
  · exact ⟨_, rfl⟩
  · exact nomatch h

theorem readEscape_length {cs rest : List Char} {c : Char} (h : readEscape cs = some (c, rest)) :
    rest.length < cs.length := by
  unfold readEscape at h
  split at h
  · rename_i d ds
    split at h
    · rename_i hd
      have hlen := congrArg List.length (takeHexDigits_append 6 (d :: ds))
      have hdrop := dropOneBlank_length (takeHexDigits 6 (d :: ds)).2
      simp only [Option.some.injEq, Prod.mk.injEq] at h
      rw [← h.2]
      simp only [List.length_append, List.length_cons] at hlen ⊢
      omega
    · split at h
      · simp at h
      · simp only [Option.some.injEq, Prod.mk.injEq] at h
        rw [← h.2]
        simp only [List.length_cons]
        omega
  · simp at h

/-! ### Names -/

/-- One character for which `accepts` holds, or one escape. -/
def readCharOrEscape (accepts : Char → Bool) : List Char → Option (Char × List Char)
  | [] => none
  | c :: cs => if accepts c then some (c, cs) else readEscape (c :: cs)

theorem readCharOrEscape_eq_some_iff {accepts : Char → Bool} {cs rest : List Char} {c : Char} :
    readCharOrEscape accepts cs = some (c, rest) ↔
      cs = c :: rest ∧ accepts c = true ∨
        readEscape cs = some (c, rest) ∧ accepts '\\' = false := by
  constructor
  · intro h
    unfold readCharOrEscape at h
    split at h
    · exact nomatch h
    · split at h
      · rename_i haccepts
        obtain ⟨rfl, rfl⟩ := Prod.mk.inj (Option.some.inj h)
        exact .inl ⟨rfl, haccepts⟩
      · rename_i hrejects
        obtain ⟨more, hcons⟩ := readEscape_head h
        obtain ⟨rfl, -⟩ := List.cons.inj hcons
        exact .inr ⟨h, by simpa using hrejects⟩
  · rintro (⟨rfl, haccepts⟩ | ⟨h, hrejects⟩)
    · rw [readCharOrEscape, if_pos haccepts]
    · obtain ⟨more, rfl⟩ := readEscape_head h
      rw [readCharOrEscape, if_neg (by simp [hrejects]), h]

theorem readCharOrEscape_length {accepts : Char → Bool} {cs rest : List Char} {c : Char}
    (h : readCharOrEscape accepts cs = some (c, rest)) : rest.length < cs.length := by
  obtain ⟨rfl, -⟩ | ⟨hescape, -⟩ := readCharOrEscape_eq_some_iff.mp h
  · simp
  · exact readEscape_length hescape

/-- As many name characters as there are, with escapes undone. -/
def readNameParts (cs : List Char) : List Char × List Char :=
  match h : readCharOrEscape isNamePart cs with
  | none => ([], cs)
  | some (c, rest) =>
    have := readCharOrEscape_length h
    let (name, after) := readNameParts rest
    (c :: name, after)
termination_by cs.length
decreasing_by assumption

theorem readNameParts_length (cs : List Char) : (readNameParts cs).2.length ≤ cs.length := by
  fun_induction readNameParts cs with
  | case1 => simp
  | case2 cs c rest h hlt name after heq ih =>
    rw [heq] at ih
    simp only at ih ⊢
    omega

/-- A leading hyphen, if there is one, and the rest. -/
def takeHyphen : List Char → List Char × List Char
  | '-' :: rest => (['-'], rest)
  | cs => ([], cs)

theorem takeHyphen_append (cs : List Char) : (takeHyphen cs).1 ++ (takeHyphen cs).2 = cs := by
  unfold takeHyphen
  split <;> rfl

/-- An identifier: an optional hyphen, a character that starts a name, and name characters. -/
def readIdent (cs : List Char) : Option (List Char × List Char) :=
  match readCharOrEscape isNameStart (takeHyphen cs).2 with
  | some (first, rest) =>
    some ((takeHyphen cs).1 ++ first :: (readNameParts rest).1, (readNameParts rest).2)
  | none => none

theorem readIdent_eq_some_iff {cs name rest : List Char} :
    readIdent cs = some (name, rest) ↔
      ∃ first after parts, readCharOrEscape isNameStart (takeHyphen cs).2 = some (first, after) ∧
        readNameParts after = (parts, rest) ∧ name = (takeHyphen cs).1 ++ first :: parts := by
  constructor
  · intro h
    unfold readIdent at h
    split at h
    · rename_i hread
      obtain ⟨rfl, rfl⟩ := Prod.mk.inj (Option.some.inj h)
      exact ⟨_, _, _, hread, rfl, rfl⟩
    · exact nomatch h
  · rintro ⟨first, after, parts, hread, hparts, rfl⟩
    simp only [readIdent, hread, hparts]

theorem readIdent_eq_none_iff {cs : List Char} :
    readIdent cs = none ↔ readCharOrEscape isNameStart (takeHyphen cs).2 = none := by
  rw [readIdent]
  cases readCharOrEscape isNameStart (takeHyphen cs).2 <;> simp

theorem readIdent_length {cs name rest : List Char} (h : readIdent cs = some (name, rest)) :
    rest.length < cs.length := by
  obtain ⟨first, after, parts, hread, hparts, -⟩ := readIdent_eq_some_iff.mp h
  have hhyphen := congrArg List.length (takeHyphen_append cs)
  have hfirst := readCharOrEscape_length hread
  have hrest := readNameParts_length after
  rw [hparts] at hrest
  simp only [List.length_append] at hhyphen hrest
  omega

/-- A hash: `#` and at least one name character. -/
def readHash : List Char → Option (List Char × List Char)
  | '#' :: cs =>
    match readNameParts cs with
    | ([], _) => none
    | (name, rest) => some (name, rest)
  | _ => none

theorem readHash_eq_some_iff {cs name rest : List Char} :
    readHash cs = some (name, rest) ↔
      ∃ behind, cs = '#' :: behind ∧ readNameParts behind = (name, rest) ∧ name ≠ [] := by
  constructor
  · intro h
    unfold readHash at h
    split at h
    · split at h
      · exact nomatch h
      · rename_i hne heq
        obtain ⟨rfl, rfl⟩ := Prod.mk.inj (Option.some.inj h)
        exact ⟨_, rfl, heq, hne⟩
    · exact nomatch h
  · rintro ⟨behind, rfl, heq, hne⟩
    obtain ⟨c, more, rfl⟩ := List.exists_cons_of_ne_nil hne
    rw [readHash, heq]

theorem readHash_length {cs name rest : List Char} (h : readHash cs = some (name, rest)) :
    rest.length < cs.length := by
  obtain ⟨behind, rfl, heq, -⟩ := readHash_eq_some_iff.mp h
  have hparts := readNameParts_length behind
  rw [heq] at hparts
  exact Nat.lt_succ_of_le hparts

/-! ### Blanks, delimiters and numbers -/

/-- A run of blanks, at least one. -/
def readBlanks (cs : List Char) : Option (List Char × List Char) :=
  if cs.takeWhile isCssBlank = [] then none
  else some (cs.takeWhile isCssBlank, cs.dropWhile isCssBlank)

/-- The characters that form a delimiter together with a following `=`. -/
def isOperatorStart (c : Char) : Bool :=
  c == '~' || c == '|' || c == '^' || c == '$' || c == '*' || c == '!'

/-- A delimiter of two characters: an attribute operator that ends in `=`. -/
def readOperator : List Char → Option (List Char × List Char)
  | c :: '=' :: rest => if isOperatorStart c then some ([c, '='], rest) else none
  | _ => none

/-- A point and the digits after it, at least one. -/
def readFraction : List Char → Option (List Char × List Char)
  | '.' :: cs =>
    if cs.takeWhile isDigit = [] then none
    else some ('.' :: cs.takeWhile isDigit, cs.dropWhile isDigit)
  | _ => none

/-- Digits and a fraction, or a fraction alone, or digits alone. -/
def readUnsigned (cs : List Char) : Option (List Char × List Char) :=
  match readFraction (cs.dropWhile isDigit) with
  | some (fraction, rest) => some (cs.takeWhile isDigit ++ fraction, rest)
  | none =>
    if cs.takeWhile isDigit = [] then none
    else some (cs.takeWhile isDigit, cs.dropWhile isDigit)

/-- A number: an optional sign before digits, a fraction, or both. What it stands for is its own
source text. -/
def readNumber (cs : List Char) : Option (List Char × List Char) :=
  match readUnsigned (takeSign cs).2 with
  | some (number, rest) => some ((takeSign cs).1 ++ number, rest)
  | none => none

theorem readBlanks_eq_some_iff {cs blanks rest : List Char} :
    readBlanks cs = some (blanks, rest) ↔
      blanks ≠ [] ∧ cs.takeWhile isCssBlank = blanks ∧ cs.dropWhile isCssBlank = rest := by
  constructor
  · intro h
    unfold readBlanks at h
    split at h
    · exact nomatch h
    · rename_i hne
      obtain ⟨rfl, rfl⟩ := Prod.mk.inj (Option.some.inj h)
      exact ⟨hne, rfl, rfl⟩
  · rintro ⟨hne, rfl, rfl⟩
    rw [readBlanks, if_neg hne]

theorem readOperator_eq_some_iff {cs symbol rest : List Char} :
    readOperator cs = some (symbol, rest) ↔
      ∃ c, isOperatorStart c = true ∧ symbol = [c, '='] ∧ cs = c :: '=' :: rest := by
  constructor
  · intro h
    unfold readOperator at h
    split at h
    · split at h
      · obtain ⟨rfl, rfl⟩ := Prod.mk.inj (Option.some.inj h)
        exact ⟨_, ‹_›, rfl, rfl⟩
      · exact nomatch h
    · exact nomatch h
  · rintro ⟨c, hstart, rfl, rfl⟩
    rw [readOperator, if_pos hstart]

theorem readFraction_eq_some_iff {cs fraction rest : List Char} :
    readFraction cs = some (fraction, rest) ↔
      ∃ behind, cs = '.' :: behind ∧ behind.takeWhile isDigit ≠ [] ∧
        fraction = '.' :: behind.takeWhile isDigit ∧ rest = behind.dropWhile isDigit := by
  constructor
  · intro h
    unfold readFraction at h
    split at h
    · split at h
      · exact nomatch h
      · obtain ⟨rfl, rfl⟩ := Prod.mk.inj (Option.some.inj h)
        exact ⟨_, rfl, ‹_›, rfl, rfl⟩
    · exact nomatch h
  · rintro ⟨behind, rfl, hne, rfl, rfl⟩
    rw [readFraction, if_neg hne]

theorem readNumber_eq_some_iff {cs number rest : List Char} :
    readNumber cs = some (number, rest) ↔
      ∃ unsigned, readUnsigned (takeSign cs).2 = some (unsigned, rest) ∧
        number = (takeSign cs).1 ++ unsigned := by
  constructor
  · intro h
    unfold readNumber at h
    split at h
    · rename_i hread
      obtain ⟨rfl, rfl⟩ := Prod.mk.inj (Option.some.inj h)
      exact ⟨_, hread, rfl⟩
    · exact nomatch h
  · rintro ⟨unsigned, hread, rfl⟩
    simp only [readNumber, hread]

theorem readNumber_eq_none_iff {cs : List Char} :
    readNumber cs = none ↔ readUnsigned (takeSign cs).2 = none := by
  rw [readNumber]
  cases readUnsigned (takeSign cs).2 <;> simp

private theorem takeWhile_dropWhile_length (p : Char → Bool) (cs : List Char) :
    (cs.takeWhile p).length + (cs.dropWhile p).length = cs.length := by
  rw [← List.length_append, List.takeWhile_append_dropWhile]

theorem readBlanks_length {cs blanks rest : List Char} (h : readBlanks cs = some (blanks, rest)) :
    rest.length < cs.length := by
  obtain ⟨hne, rfl, rfl⟩ := readBlanks_eq_some_iff.mp h
  have hsplit := takeWhile_dropWhile_length isCssBlank cs
  have := mt List.eq_nil_of_length_eq_zero hne
  omega

theorem readOperator_length {cs symbol rest : List Char}
    (h : readOperator cs = some (symbol, rest)) : rest.length < cs.length := by
  obtain ⟨c, -, -, rfl⟩ := readOperator_eq_some_iff.mp h
  simp only [List.length_cons]
  omega

theorem readFraction_length {cs fraction rest : List Char}
    (h : readFraction cs = some (fraction, rest)) : rest.length < cs.length := by
  obtain ⟨behind, rfl, -, -, rfl⟩ := readFraction_eq_some_iff.mp h
  have hsplit := takeWhile_dropWhile_length isDigit behind
  simp only [List.length_cons]
  omega

theorem readUnsigned_length {cs number rest : List Char}
    (h : readUnsigned cs = some (number, rest)) : rest.length < cs.length := by
  unfold readUnsigned at h
  have hsplit := takeWhile_dropWhile_length isDigit cs
  split at h
  · have hlt := readFraction_length ‹_›
    simp only [Option.some.injEq, Prod.mk.injEq] at h
    rw [← h.2]
    omega
  · split at h
    · simp at h
    · rename_i hne
      have := mt List.eq_nil_of_length_eq_zero hne
      simp only [Option.some.injEq, Prod.mk.injEq] at h
      rw [← h.2]
      omega

theorem readNumber_length {cs number rest : List Char}
    (h : readNumber cs = some (number, rest)) : rest.length < cs.length := by
  obtain ⟨unsigned, hread, -⟩ := readNumber_eq_some_iff.mp h
  exact Nat.lt_of_lt_of_le (readUnsigned_length hread) (takeSign_length cs)

/-! ### Comments and strings -/

/-- The rest behind the first `*/`, or nothing if there is none. -/
def skipComment : List Char → List Char
  | '*' :: '/' :: rest => rest
  | [] => []
  | _ :: rest => skipComment rest

theorem skipComment_length (cs : List Char) : (skipComment cs).length ≤ cs.length := by
  fun_induction skipComment cs with
  | case1 =>
    simp only [List.length_cons]
    omega
  | case2 => exact Nat.le_refl _
  | case3 _ _ _ ih =>
    simp only [List.length_cons]
    omega

/-- The rest behind the line break that follows a backslash; a carriage return and a line feed are
one line break. -/
def readContinuation : List Char → Option (List Char)
  | '\\' :: '\r' :: '\n' :: rest => some rest
  | '\\' :: c :: rest => if isLineBreak c then some rest else none
  | _ => none

theorem readContinuation_length {cs rest : List Char} (h : readContinuation cs = some rest) :
    rest.length < cs.length := by
  unfold readContinuation at h
  split at h
  · simp only [Option.some.injEq] at h
    rw [← h]
    simp only [List.length_cons]
    omega
  · split at h
    · simp only [Option.some.injEq] at h
      rw [← h]
      simp only [List.length_cons]
      omega
    · simp at h
  · simp at h

/-- The text of a string up to its closing quote, and the rest behind the quote. `start` is the
offset of the opening quote. A backslash before a line break continues the string on the next line;
a line feed alone is an error. -/
def readString (quote : Char) (start : Nat) (cs : List Char) :
    Except LexicalError (List Char × List Char) :=
  match cs with
  | [] => .error (.unclosedString start)
  | c :: rest =>
    if c = quote then .ok ([], rest)
    else if c = '\n' then .error (.invalidString start)
    else if c = '\\' then
      match hcont : readContinuation (c :: rest) with
      | some after =>
        have := readContinuation_length hcont
        readString quote start after
      | none =>
        match hesc : readEscape (c :: rest) with
        | some (escaped, after) =>
          have := readEscape_length hesc
          match readString quote start after with
          | .ok (text, behind) => .ok (escaped :: text, behind)
          | .error e => .error e
        | none => .error (.unclosedString start)
    else
      match readString quote start rest with
      | .ok (text, behind) => .ok (c :: text, behind)
      | .error e => .error e
termination_by cs.length
decreasing_by
  · assumption
  · assumption
  · exact Nat.lt_succ_self _

theorem readString_length {quote : Char} {start : Nat} {cs text rest : List Char}
    (h : readString quote start cs = .ok (text, rest)) : rest.length < cs.length := by
  fun_induction readString quote start cs generalizing text rest with
  | case1 => simp at h
  | case2 =>
    simp only [Except.ok.injEq, Prod.mk.injEq] at h
    rw [← h.2]
    simp
  | case3 => simp at h
  | case4 _ _ _ _ _ hlt ih =>
    have := ih h
    omega
  | case5 _ _ _ _ _ heq _ _ _ _ hlt ih =>
    have := ih heq
    simp only [Except.ok.injEq, Prod.mk.injEq] at h
    rw [← h.2]
    omega
  | case6 => simp at h
  | case7 => simp at h
  | case8 _ _ _ _ _ _ _ heq ih =>
    have := ih heq
    simp only [Except.ok.injEq, Prod.mk.injEq] at h
    rw [← h.2]
    simp only [List.length_cons]
    omega
  | case9 => simp at h

/-! ### The token at a place -/

/-- The category and text of the token that starts at a place where no comment and no string
starts, and the rest. There is always one. -/
def readPlain (c : Char) (cs : List Char) : (Token.Kind × List Char) × List Char :=
  match readBlanks (c :: cs) with
  | some (blanks, rest) => ((.space, blanks), rest)
  | none =>
    match readIdent (c :: cs) with
    | some (name, rest) => ((.ident, name), rest)
    | none =>
      match readHash (c :: cs) with
      | some (name, rest) => ((.hash, name), rest)
      | none =>
        match readOperator (c :: cs) with
        | some (symbol, rest) => ((.delim, symbol), rest)
        | none =>
          match readNumber (c :: cs) with
          | some (number, rest) => ((.number, number), rest)
          | none => ((.delim, [c]), cs)

theorem readPlain_length (c : Char) (cs : List Char) :
    (readPlain c cs).2.length < (c :: cs).length := by
  unfold readPlain
  split
  · exact readBlanks_length ‹_›
  · split
    · exact readIdent_length ‹_›
    · split
      · exact readHash_length ‹_›
      · split
        · exact readOperator_length ‹_›
        · split
          · exact readNumber_length ‹_›
          · simp

/-- What stands at a place: a comment, or a token with its category and text. -/
inductive Lexeme
  | comment
  | token (kind : Token.Kind) (text : List Char)
  deriving DecidableEq, Repr

/-- What starts with the character `c` before `cs`, and the rest. `start` is the offset of `c`. -/
def readLexeme (start : Nat) (c : Char) (cs : List Char) :
    Except LexicalError (Lexeme × List Char) :=
  match c, cs with
  | '/', '*' :: rest => .ok (.comment, skipComment rest)
  | c, cs =>
    if c = '"' ∨ c = '\'' then
      match readString c start cs with
      | .ok (text, rest) => .ok (.token .string text, rest)
      | .error e => .error e
    else
      let ((kind, text), rest) := readPlain c cs
      .ok (.token kind text, rest)

theorem readLexeme_comment_iff {start : Nat} {c : Char} {cs rest : List Char} :
    readLexeme start c cs = .ok (.comment, rest) ↔
      ∃ inside, c = '/' ∧ cs = '*' :: inside ∧ rest = skipComment inside := by
  constructor
  · intro h
    unfold readLexeme at h
    split at h
    · obtain ⟨-, rfl⟩ := Prod.mk.inj (Except.ok.inj h)
      exact ⟨_, rfl, rfl, rfl⟩
    · repeat' split at h
      all_goals simp at h
  · rintro ⟨inside, rfl, rfl, rfl⟩
    rfl

theorem readLexeme_length {start : Nat} {c : Char} {cs rest : List Char} {lexeme : Lexeme}
    (h : readLexeme start c cs = .ok (lexeme, rest)) : rest.length < (c :: cs).length := by
  unfold readLexeme at h
  split at h
  · rename_i tail
    have := skipComment_length tail
    simp only [Except.ok.injEq, Prod.mk.injEq] at h
    rw [← h.2]
    simp only [List.length_cons]
    omega
  · split at h
    · split at h
      · have := readString_length ‹_›
        simp only [Except.ok.injEq, Prod.mk.injEq] at h
        rw [← h.2]
        simp only [List.length_cons]
        omega
      · simp at h
    · have := readPlain_length c cs
      simp only [Except.ok.injEq, Prod.mk.injEq] at h
      rw [← h.2]
      exact this

/-- The number of bytes of a list of characters in UTF-8. -/
def byteSize : List Char → Nat
  | [] => 0
  | c :: cs => c.utf8Size + byteSize cs

@[simp] theorem byteSize_append (before after : List Char) :
    byteSize (before ++ after) = byteSize before + byteSize after := by
  induction before with
  | nil => simp [byteSize]
  | cons c cs ih => simp [byteSize, ih, Nat.add_assoc]

/-- The tokens from the offset `pos` on, where `cs` are the characters from there to the end. -/
def tokensFrom (pos : Nat) (cs : List Char) : Except LexicalError (List Token) :=
  match cs with
  | [] => .ok [⟨.eof, "", pos⟩]
  | c :: tail =>
    match h : readLexeme pos c tail with
    | .error e => .error e
    | .ok (lexeme, rest) =>
      have := readLexeme_length h
      -- offsets count bytes, and the rest shows how many have been read
      let next := pos + (byteSize (c :: tail) - byteSize rest)
      match lexeme with
      | .comment => tokensFrom next rest
      | .token kind text =>
        match tokensFrom next rest with
        | .ok tokens => .ok (⟨kind, String.ofList text, pos⟩ :: tokens)
        | .error e => .error e
termination_by cs.length
decreasing_by all_goals assumption

end Lexer

/-- The tokens of a text; the last is `eof`, at the offset of the end. -/
def tokenize (text : String) : Except LexicalError (List Token) :=
  Lexer.tokensFrom 0 text.toList

end SelectorPath
