import SelectorPath.Proofs.Token.Written

/-!
# What escapes and strings consist of

An escape is a backslash with one to six hexadecimal digits and the blank behind them, or a
backslash with any other character that is no line break. Which digits and which blank belong to it
is decided by what follows: all digits up to the sixth, and a carriage return together with the line
feed behind it. So the relation is one between the source of an escape, its character and the rest.
Between the quotes of a string stand characters that mean themselves, escapes, and line breaks
behind a backslash, which mean nothing.

## Main definitions

* `Lexer.AreDigits`, `Lexer.IsOneBlank`, `Lexer.IsEscape` — the parts of an escape, and an escape
* `Lexer.IsContinuation` — a line break behind a backslash
* `Lexer.Piece`, `Lexer.IsInside` — pieces of a string, one behind the other

## Main results

* `Lexer.readEscape_iff`, `Lexer.readContinuation_iff` — exactly these are read
* `Lexer.exists_inside` — any text is cut into pieces up to a quote, a line feed or the end
* `Lexer.readString_ok_iff`, `Lexer.readString_invalid_iff` — strings that are read and rejected
-/

namespace SelectorPath.Lexer

open Text

section Escapes

variable {source cs rest : List Char} {c : Char}

/-! ### Digits and a blank -/

/-- All hexadecimal digits in front of the rest, or `limit` of them. -/
structure AreDigits (limit : Nat) (digits rest : List Char) : Prop where
  hex : ∀ d ∈ digits, isHexDigit d = true
  few : digits.length ≤ limit
  all : digits.length < limit → ∀ d ∈ rest.head?, isHexDigit d = false

/-- One blank in front of the rest, or none if the rest starts with none. A carriage return and a
line feed are one. -/
inductive IsOneBlank : List Char → List Char → Prop
  | pair (rest : List Char) : IsOneBlank ['\r', '\n'] rest
  | single {c : Char} {rest : List Char} (blank : isCssBlank c = true)
      (noPair : c = '\r' → ∀ d ∈ rest.head?, d ≠ '\n') : IsOneBlank [c] rest
  | none {rest : List Char} (visible : ∀ d ∈ rest.head?, isCssBlank d = false) : IsOneBlank [] rest

theorem takeHexDigits_of_rejects (limit : Nat) (stop : ∀ d ∈ cs.head?, isHexDigit d = false) :
    takeHexDigits limit cs = ([], cs) := by
  cases limit with
  | zero => rfl
  | succ limit =>
    cases cs with
    | nil => rfl
    | cons c cs => simp [takeHexDigits, stop c rfl]

theorem areDigits_of_takeHexDigits {limit : Nat} {digits : List Char}
    (taken : takeHexDigits limit cs = (digits, rest)) :
    cs = digits ++ rest ∧ AreDigits limit digits rest := by
  induction limit generalizing cs digits with
  | zero =>
    obtain ⟨rfl, rfl⟩ := Prod.mk.inj taken
    exact ⟨rfl, by simp, Nat.le_refl 0, by simp⟩
  | succ limit ih =>
    by_cases stop : ∀ d ∈ cs.head?, isHexDigit d = false
    · rw [takeHexDigits_of_rejects _ stop] at taken
      obtain ⟨rfl, rfl⟩ := Prod.mk.inj taken
      exact ⟨rfl, by simp, Nat.zero_le _, fun _ => stop⟩
    · cases cs with
      | nil => exact absurd (by simp) stop
      | cons c cs =>
        have hex : isHexDigit c = true := by simpa using stop
        rw [takeHexDigits, if_pos hex] at taken
        obtain ⟨rfl, rfl⟩ := Prod.mk.inj taken
        obtain ⟨split, others⟩ := ih (rfl : takeHexDigits limit cs = _)
        refine ⟨by rw [List.cons_append, ← split], ?_, ?_, fun more => ?_⟩
        · exact List.forall_mem_cons.mpr ⟨hex, others.hex⟩
        · exact Nat.succ_le_succ others.few
        · exact others.all (Nat.lt_of_succ_lt_succ more)

theorem AreDigits.takeHexDigits {limit : Nat} {digits : List Char}
    (areDigits : AreDigits limit digits rest) :
    takeHexDigits limit (digits ++ rest) = (digits, rest) := by
  induction limit generalizing digits with
  | zero =>
    obtain rfl := List.eq_nil_of_length_eq_zero (Nat.le_zero.mp areDigits.few)
    rfl
  | succ limit ih =>
    cases digits with
    | nil => exact takeHexDigits_of_rejects _ (areDigits.all (Nat.succ_pos limit))
    | cons d digits =>
      obtain ⟨hex, hexes⟩ := List.forall_mem_cons.mp areDigits.hex
      have others : AreDigits limit digits rest :=
        ⟨hexes, Nat.le_of_succ_le_succ areDigits.few,
          fun more => areDigits.all (Nat.succ_lt_succ more)⟩
      rw [List.cons_append, Lexer.takeHexDigits, if_pos hex, ih others]

theorem dropOneBlank_of_noBlank {cs : List Char} (noBlank : ∀ c ∈ cs.head?, isCssBlank c = false) :
    dropOneBlank cs = cs := by
  unfold dropOneBlank
  split
  · exact absurd (noBlank '\r' rfl) (by decide)
  · rfl
  · rename_i c rest _
    simp [noBlank c rfl]

theorem dropOneBlank_of_blank {c : Char} {cs : List Char} (blank : isCssBlank c = true)
    (single : c = '\r' → ∀ d ∈ cs.head?, d ≠ '\n') : dropOneBlank (c :: cs) = cs := by
  unfold dropOneBlank
  split
  · rename_i eq
    obtain ⟨rfl, rfl⟩ := List.cons.inj eq
    exact absurd rfl (single rfl '\n' rfl)
  · rename_i eq
    simp at eq
  · rename_i d ds _ eq
    obtain ⟨rfl, rfl⟩ := List.cons.inj eq
    simp [blank]

theorem dropOneBlank_iff :
    dropOneBlank cs = rest ↔ ∃ blank, cs = blank ++ rest ∧ IsOneBlank blank rest := by
  constructor
  · rintro rfl
    unfold dropOneBlank
    split
    · exact ⟨_, rfl, .pair _⟩
    · exact ⟨[], rfl, .none (by simp)⟩
    · rename_i c rest noPair
      split
      · rename_i blank
        refine ⟨[c], rfl, .single blank ?_⟩
        rintro rfl d first rfl
        obtain ⟨ds, rfl⟩ := List.head?_eq_some_iff.mp first
        exact noPair ds rfl rfl
      · rename_i visible
        exact ⟨[], rfl, .none (by simpa using visible)⟩
  · rintro ⟨blank, rfl, isOneBlank⟩
    cases isOneBlank with
    | pair => rfl
    | single blank noPair => exact dropOneBlank_of_blank blank noPair
    | none visible => exact dropOneBlank_of_noBlank visible

/-! ### Escapes -/

/-- An escape in front of the rest, with the character that it stands for. -/
inductive IsEscape : List Char → Char → List Char → Prop
  | code {digits blank rest : List Char} (nonempty : digits ≠ [])
      (areDigits : AreDigits 6 digits (blank ++ rest)) (isOneBlank : IsOneBlank blank rest) :
      IsEscape ('\\' :: (digits ++ blank)) (charOfCode (hexValue digits)) rest
  | char {c : Char} (noHex : isHexDigit c = false) (inLine : isLineBreak c = false)
      (rest : List Char) : IsEscape ['\\', c] c rest

/-- Exactly the escapes are read as escapes. -/
theorem readEscape_iff :
    readEscape cs = some (c, rest) ↔ ∃ source, cs = source ++ rest ∧ IsEscape source c rest := by
  constructor
  · intro read
    unfold readEscape at read
    split at read
    · rename_i d ds
      split at read
      · rename_i hex
        -- a digit stands there, so the digits and one blank behind them make the escape
        obtain ⟨digits, behind, taken⟩ :
            ∃ digits behind, takeHexDigits 6 (d :: ds) = (digits, behind) := ⟨_, _, rfl⟩
        have nonempty : digits ≠ [] := by
          rintro rfl
          simp [takeHexDigits, hex] at taken
        rw [taken] at read
        obtain ⟨rfl, dropped⟩ := Prod.mk.inj (Option.some.inj read)
        obtain ⟨split, areDigits⟩ := areDigits_of_takeHexDigits taken
        obtain ⟨blank, rfl, isOneBlank⟩ := dropOneBlank_iff.mp dropped
        refine ⟨_, ?_, .code nonempty areDigits isOneBlank⟩
        rw [List.cons_append, List.append_assoc, ← split]
      · rename_i noHex
        split at read
        · simp at read
        · rename_i inLine
          obtain ⟨rfl, rfl⟩ := Prod.mk.inj (Option.some.inj read)
          exact ⟨['\\', d], rfl, .char (by simpa using noHex) (by simpa using inLine) ds⟩
    · simp at read
  · rintro ⟨source, rfl, isEscape⟩
    cases isEscape with
    | @code digits blank rest nonempty areDigits isOneBlank =>
      obtain ⟨d, digits, rfl⟩ := List.exists_cons_of_ne_nil nonempty
      have hex := areDigits.hex d List.mem_cons_self
      have taken := areDigits.takeHexDigits
      have dropped := dropOneBlank_iff.mpr ⟨blank, rfl, isOneBlank⟩
      rw [List.cons_append] at taken
      simp only [List.cons_append, List.append_assoc, readEscape, hex, if_true, taken, dropped]
    | char noHex inLine => exact readEscape_char noHex inLine rest

/-- An escape starts with a backslash and goes on in the same line. -/
theorem IsEscape.eq_cons (isEscape : IsEscape source c rest) :
    ∃ d more, source = '\\' :: d :: more ∧ isLineBreak d = false := by
  cases isEscape with
  | code nonempty areDigits =>
    obtain ⟨d, digits, rfl⟩ := List.exists_cons_of_ne_nil nonempty
    have hex := areDigits.hex d List.mem_cons_self
    exact ⟨d, digits ++ _, rfl, isLineBreak_of_isNamePart (isNamePart_of_isHexDigit hex)⟩
  | @char c _ inLine => exact ⟨c, [], rfl, inLine⟩

/-- No escape starts where no backslash stands in front of a character in its line. -/
theorem readEscape_eq_none_iff :
    readEscape rest = none ↔ ∀ c cs, rest = '\\' :: c :: cs → isLineBreak c = true := by
  constructor
  · rintro nothing c cs rfl
    unfold readEscape at nothing
    simp only at nothing
    split at nothing
    · exact nomatch nothing
    · split at nothing
      · assumption
      · exact nomatch nothing
  · intro line
    unfold readEscape
    split
    · rename_i c cs
      have broken := line c cs rfl
      have noHex : isHexDigit c = false := Bool.eq_false_iff.mpr fun hex => by
        rw [isLineBreak_of_isNamePart (isNamePart_of_isHexDigit hex)] at broken
        exact absurd broken (by decide)
      rw [if_neg (by simp [noHex]), if_pos broken]
    · rfl

/-! ### Continuations -/

/-- A backslash and a line break in front of the rest. -/
inductive IsContinuation : List Char → List Char → Prop
  | pair (rest : List Char) : IsContinuation ['\\', '\r', '\n'] rest
  | single {c : Char} {rest : List Char} (line : isLineBreak c = true)
      (noPair : c = '\r' → ∀ d ∈ rest.head?, d ≠ '\n') : IsContinuation ['\\', c] rest

theorem readContinuation_iff :
    readContinuation cs = some rest ↔ ∃ source, cs = source ++ rest ∧ IsContinuation source rest := by
  constructor
  · intro read
    unfold readContinuation at read
    split at read
    · obtain rfl := Option.some.inj read
      exact ⟨['\\', '\r', '\n'], rfl, .pair _⟩
    · -- any other line break, and a carriage return only where no line feed follows
      rename_i c behind noPair
      split at read
      · rename_i line
        obtain rfl := Option.some.inj read
        refine ⟨['\\', c], rfl, .single line ?_⟩
        rintro rfl d first rfl
        obtain ⟨ds, rfl⟩ := List.head?_eq_some_iff.mp first
        exact noPair ds rfl rfl
      · simp at read
    · simp at read
  · rintro ⟨source, rfl, isContinuation⟩
    cases isContinuation with
    | pair => rfl
    | @single c rest line noPair =>
      unfold readContinuation
      split
      · rename_i ds eq
        obtain ⟨rfl, rfl⟩ : '\r' = c ∧ '\n' :: ds = rest := by simpa using eq.symm
        exact absurd rfl (noPair rfl '\n' rfl)
      · rename_i d ds _ eq
        obtain ⟨rfl, rfl⟩ : c = d ∧ rest = ds := by simpa using eq
        rw [if_pos line]
      · rename_i other
        exact absurd rfl (other c rest)

/-- A continuation starts with a backslash in front of a line break. -/
theorem IsContinuation.eq_cons (isContinuation : IsContinuation source rest) :
    ∃ d more, source = '\\' :: d :: more ∧ isLineBreak d = true := by
  cases isContinuation with
  | pair => exact ⟨'\r', ['\n'], rfl, by decide⟩
  | @single c _ line => exact ⟨c, [], rfl, line⟩

/-- What starts an escape does not go on in the next line. -/
theorem readContinuation_of_escape (read : readEscape cs = some (c, rest)) :
    readContinuation cs = none := by
  obtain ⟨source, rfl, isEscape⟩ := readEscape_iff.mp read
  obtain ⟨d, more, rfl, inLine⟩ := isEscape.eq_cons
  refine Option.eq_none_iff_forall_ne_some.mpr fun after goesOn => ?_
  obtain ⟨source, split, isContinuation⟩ := readContinuation_iff.mp goesOn
  obtain ⟨e, others, rfl, line⟩ := isContinuation.eq_cons
  obtain ⟨rfl, -⟩ := List.cons.inj (List.cons.inj split).2
  simp [inLine] at line

/-- A backslash before a line break goes on in the next line. -/
theorem readString_continuation {quote : Char} {rest after : List Char} (inside : '\\' ≠ quote)
    (goesOn : readContinuation ('\\' :: rest) = some after) (start : Nat) :
    readString quote start ('\\' :: rest) = readString quote start after := by
  rw [readString.eq_def]
  simp only [if_neg inside]
  rw [if_neg (by decide), if_pos trivial]
  split
  · rename_i found
    rw [goesOn] at found
    rw [Option.some.inj found]
  · rename_i found
    simp [goesOn] at found

end Escapes

/-! ### Pieces of a string -/

/-- A piece of what stands between the quotes of a string: a character that means itself, a line
break behind a backslash, or an escape. -/
inductive Piece
  | plain (c : Char)
  | continuation (source : List Char)
  | escape (source : List Char) (c : Char)

namespace Piece

/-- The text of a piece as it is written. -/
def source : Piece → List Char
  | plain c => [c]
  | continuation source => source
  | escape source _ => source

/-- What the piece stands for. -/
def text : Piece → List Char
  | plain c => [c]
  | continuation _ => []
  | escape _ c => [c]

/-- The piece can stand in front of the rest in a string with the given quote. -/
def StandsIn (quote : Char) (rest : List Char) : Piece → Prop
  | plain c => c ≠ quote ∧ c ≠ '\n' ∧ c ≠ '\\'
  | continuation source => IsContinuation source rest
  | escape source c => IsEscape source c rest

end Piece

/-- The text of some pieces as it is written. -/
def sources (pieces : List Piece) : List Char := pieces.flatMap Piece.source

@[simp] theorem sources_nil : sources [] = [] := rfl

@[simp] theorem sources_cons (piece : Piece) (pieces : List Piece) :
    sources (piece :: pieces) = piece.source ++ sources pieces := rfl

/-- What some pieces stand for. -/
def texts (pieces : List Piece) : List Char := pieces.flatMap Piece.text

/-- Pieces that stand one behind the other in a string, in front of the rest. -/
inductive IsInside (quote : Char) : List Piece → List Char → Prop
  | nil (rest : List Char) : IsInside quote [] rest
  | cons {piece : Piece} {pieces : List Piece} {rest : List Char}
      (stands : piece.StandsIn quote (sources pieces ++ rest))
      (behind : IsInside quote pieces rest) : IsInside quote (piece :: pieces) rest

/-- The marks that strings start and end with. -/
def IsQuote (c : Char) : Prop := c = '"' ∨ c = '\''

section Pieces

variable {quote : Char} {pieces : List Piece} {cs rest text : List Char} {start : Nat}

/-- No line feed means itself. -/
theorem IsInside.ne_feed (inside : IsInside quote pieces rest) {c : Char}
    (plain : .plain c ∈ pieces) : c ≠ '\n' := by
  induction inside with
  | nil => simp at plain
  | cons stands _ ih =>
    rcases List.mem_cons.mp plain with rfl | member
    · exact stands.2.1
    · exact ih member

/-- Strings end at their quote, and pieces are read one after the other. -/
theorem readString_sources (isQuote : IsQuote quote) (inside : IsInside quote pieces rest) :
    readString quote start (sources pieces ++ rest) =
      match readString quote start rest with
      | .ok (text, behind) => .ok (texts pieces ++ text, behind)
      | .error e => .error e := by
  have noQuote : '\\' ≠ quote := by
    rintro rfl
    exact absurd isQuote (by simp [IsQuote])
  induction inside with
  | nil rest =>
    rw [sources_nil, List.nil_append]
    cases readString quote start rest <;> rfl
  | @cons piece pieces rest stands behind ih =>
    rw [sources_cons, List.append_assoc]
    cases piece with
    | plain c =>
      rw [Piece.source, List.singleton_append, readString_char stands.1 stands.2.1 stands.2.2, ih]
      cases readString quote start rest <;> rfl
    | continuation source =>
      have goesOn := readContinuation_iff.mpr ⟨source, rfl, stands⟩
      obtain ⟨d, more, rfl, -⟩ := IsContinuation.eq_cons stands
      rw [List.cons_append] at goesOn
      rw [Piece.source, List.cons_append, readString_continuation noQuote goesOn, ih]
      cases readString quote start rest <;> rfl
    | escape source c =>
      have escape := readEscape_iff.mpr ⟨source, rfl, stands⟩
      obtain ⟨d, more, rfl, -⟩ := IsEscape.eq_cons stands
      rw [List.cons_append] at escape
      rw [Piece.source, List.cons_append,
        readString_escape noQuote (readContinuation_of_escape escape) escape, ih]
      cases readString quote start rest <;> rfl

/-- Any text is cut into pieces up to where it ends, perhaps in a lone backslash, or up to a quote
or a line feed. -/
theorem exists_inside (quote : Char) (cs : List Char) :
    ∃ pieces rest, cs = sources pieces ++ rest ∧ IsInside quote pieces rest ∧
      ((rest = [] ∨ rest = ['\\']) ∨ (∃ behind, rest = quote :: behind) ∨
        ∃ behind, rest = '\n' :: behind) := by
  fun_induction readString quote 0 cs with
  | case1 => exact ⟨[], [], rfl, .nil [], .inl (.inl rfl)⟩
  | case2 behind => exact ⟨[], _, rfl, .nil _, .inr (.inl ⟨behind, rfl⟩)⟩
  | case3 behind => exact ⟨[], _, rfl, .nil _, .inr (.inr ⟨behind, rfl⟩)⟩
  | case4 behind after _ _ goesOn _ ih =>
    obtain ⟨source, split, isContinuation⟩ := readContinuation_iff.mp goesOn
    obtain ⟨pieces, rest, rfl, inside, stop⟩ := ih
    refine ⟨.continuation source :: pieces, rest, ?_, .cons isContinuation inside, stop⟩
    rw [split, sources_cons, Piece.source, List.append_assoc]
  | case5 behind c after _ _ _ _ _ _ escape _ ih | case6 behind c after _ _ _ _ _ escape _ ih =>
    obtain ⟨source, split, isEscape⟩ := readEscape_iff.mp escape
    obtain ⟨pieces, rest, rfl, inside, stop⟩ := ih
    refine ⟨.escape source c :: pieces, rest, ?_, .cons isEscape inside, stop⟩
    rw [split, sources_cons, Piece.source, List.append_assoc]
  | case7 behind _ _ noContinuation noEscape =>
    -- behind a backslash every character goes on with a continuation or an escape
    obtain rfl : behind = [] := by
      cases behind with
      | nil => rfl
      | cons c behind =>
        have line := readEscape_eq_none_iff.mp noEscape c behind rfl
        unfold readContinuation at noContinuation
        split at noContinuation <;> simp_all
    exact ⟨[], ['\\'], rfl, .nil _, .inl (.inr rfl)⟩
  | case8 c behind noQuote noFeed noBackslash _ _ _ ih
  | case9 c behind noQuote noFeed noBackslash _ _ ih =>
    obtain ⟨pieces, rest, rfl, inside, stop⟩ := ih
    exact ⟨.plain c :: pieces, rest, rfl, .cons ⟨noQuote, noFeed, noBackslash⟩ inside, stop⟩

theorem readString_lone (isQuote : IsQuote quote) :
    readString quote start ['\\'] = .error (.unclosedString start) := by
  rcases isQuote with rfl | rfl <;> rw [readString.eq_def] <;> rfl

theorem readString_feed (isQuote : IsQuote quote) :
    readString quote start ('\n' :: rest) = .error (.invalidString start) := by
  rcases isQuote with rfl | rfl <;> simp [readString.eq_def]

/-- A string is read up to the first quote that its pieces lead to. -/
theorem readString_ok_iff (isQuote : IsQuote quote) :
    readString quote start cs = .ok (text, rest) ↔
      ∃ pieces, cs = sources pieces ++ quote :: rest ∧ IsInside quote pieces (quote :: rest) ∧
        text = texts pieces := by
  constructor
  · intro read
    obtain ⟨pieces, stop, rfl, inside, (rfl | rfl) | ⟨behind, rfl⟩ | ⟨behind, rfl⟩⟩ :=
      exists_inside quote cs <;> rw [readString_sources isQuote inside] at read
    · simp [readString] at read
    · simp [readString_lone isQuote] at read
    · rw [readString_quote] at read
      obtain ⟨rfl, rfl⟩ := Prod.mk.inj (Except.ok.inj read)
      exact ⟨pieces, rfl, inside, by simp⟩
    · simp [readString_feed isQuote] at read
  · rintro ⟨pieces, rfl, inside, rfl⟩
    rw [readString_sources isQuote inside, readString_quote]
    simp

/-- A string is rejected for a line break exactly if its pieces lead to a line feed. -/
theorem readString_invalid_iff (isQuote : IsQuote quote) {pos : Nat} :
    readString quote start cs = .error (.invalidString pos) ↔ pos = start ∧
      ∃ pieces behind, cs = sources pieces ++ '\n' :: behind ∧
        IsInside quote pieces ('\n' :: behind) := by
  constructor
  · intro read
    obtain ⟨pieces, stop, rfl, inside, (rfl | rfl) | ⟨behind, rfl⟩ | ⟨behind, rfl⟩⟩ :=
      exists_inside quote cs <;> rw [readString_sources isQuote inside] at read
    · simp [readString] at read
    · simp [readString_lone isQuote] at read
    · simp [readString_quote] at read
    · rw [readString_feed isQuote] at read
      exact ⟨(LexicalError.invalidString.inj (Except.error.inj read)).symm, pieces, behind, rfl,
        inside⟩
  · rintro ⟨rfl, pieces, behind, rfl, inside⟩
    rw [readString_sources isQuote inside, readString_feed isQuote]

end Pieces

end SelectorPath.Lexer
