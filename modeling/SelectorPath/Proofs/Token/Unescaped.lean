import SelectorPath.Proofs.Token.Escapes
import SelectorPath.Selector.Parser

/-!
# Tokens of a text without backslashes

Where nothing is escaped, the source of a token is its value, but for the quotes of a string and the
`#` of a hash. So the offsets of the tokens show the gaps between them exactly, and of two arguments
without a gap the first ends where the second begins.

## Main definitions

* `Lexer.Shows` — how a token stands in a text without backslashes
* `Lexer.NoEscape` — no escape goes on with the name that a text starts with
* `Token.IsPlain` — what such a text can give as the value of a token
* `Token.EndsBefore`, `Token.Chained` — that a token ends before a character, and before another
  token unless there is a gap

## Main results

* `Lexer.plain_tokensFrom` — every token is plain
* `Lexer.chained_tokensFrom` — any two arguments, in their order, have a gap between them or the
  first ends before the second
-/

namespace SelectorPath

namespace Lexer

open Text

/-- How a token stands in a text without backslashes: its category, the text it stands for, its
source and what follows it. -/
inductive Shows : Token.Kind → List Char → List Char → List Char → Prop
  | ident {text rest : List Char} (name : IsName text) (ends : EndsName rest) :
      Shows .ident text text rest
  | hash {text rest : List Char} (nonempty : text ≠ [])
      (parts : ∀ c ∈ text, isNamePart c = true) : Shows .hash text ('#' :: text) rest
  | string {quote : Char} {text rest : List Char} (mark : quote = '"' ∨ quote = '\'')
      (inside : ∀ c ∈ text, c ≠ '\n' ∧ c ≠ '\\') :
      Shows .string text (quote :: (text ++ [quote])) rest
  | number {text rest : List Char} (number : IsNumber text)
      (noDigit : ∀ c ∈ rest.head?, isDigit c = false)
      (noFraction : '.' ∈ text ∨ readFraction rest = none) : Shows .number text text rest
  | sign {text rest : List Char} (nonempty : text ≠ [])
      (noNumber : text = ['+'] ∨ text = ['-'] → readUnsigned rest = none)
      (noName : text = ['-'] → ∀ c ∈ rest.head?, isNameStart c = false ∧ c ≠ '\\') :
      Shows .delim text text rest
  | blanks {text rest : List Char} (nonempty : text ≠ []) : Shows .space text text rest

/-! ### Reading without escapes -/

section Plain

variable {cs rest text name : List Char}

/-- No escape goes on with the name characters that the text starts with. -/
def NoEscape (cs : List Char) : Prop := ∀ c ∈ (cs.dropWhile isNamePart).head?, c ≠ '\\'

theorem noEscape_of_plain (plain : '\\' ∉ cs) : NoEscape cs := by
  rintro c first rfl
  exact plain (mem_of_head?_dropWhile first).2

theorem NoEscape.ne {c : Char} (noEscape : NoEscape (c :: cs)) : c ≠ '\\' := by
  rintro rfl
  exact noEscape '\\' rfl rfl

theorem NoEscape.behind {c : Char} (noEscape : NoEscape (c :: cs)) (part : isNamePart c = true) :
    NoEscape cs := by
  rwa [NoEscape, List.dropWhile_cons_of_pos part] at noEscape

theorem readCharOrEscape_plain {accepts : Char → Bool} {c : Char} (noEscape : NoEscape cs)
    (read : readCharOrEscape accepts cs = some (c, rest)) : cs = c :: rest ∧ accepts c = true := by
  obtain plain | ⟨escape, -⟩ := readCharOrEscape_eq_some_iff.mp read
  · exact plain
  · obtain ⟨more, rfl⟩ := readEscape_head escape
    exact absurd rfl noEscape.ne

theorem readNameParts_plain (noEscape : NoEscape cs) :
    readNameParts cs = (cs.takeWhile isNamePart, cs.dropWhile isNamePart) := by
  induction cs with
  | nil => exact readNameParts_of_none rfl
  | cons c cs ih =>
    by_cases part : isNamePart c = true
    · rw [readNameParts_of_some (readCharOrEscape_of_accepts part cs), ih (noEscape.behind part)]
      simp [part]
    · have stop : readCharOrEscape isNamePart (c :: cs) = none := by
        apply readCharOrEscape_of_rejects
        simp [part, noEscape.ne]
      rw [readNameParts_of_none stop]
      simp [part]

theorem endsName_dropWhile (noEscape : NoEscape cs) : EndsName (cs.dropWhile isNamePart) :=
  fun c first => ⟨(mem_of_head?_dropWhile first).1, noEscape c first⟩

/-- Without escapes an identifier is the name that stands there. -/
theorem readIdent_plain (noEscape : NoEscape cs) (read : readIdent cs = some (name, rest)) :
    cs = name ++ rest ∧ Shows .ident name name rest := by
  have split := takeHyphen_append cs
  obtain ⟨hyphen, behind⟩ : ((takeHyphen cs).1 = [] ∨ (takeHyphen cs).1 = ['-']) ∧
      NoEscape (takeHyphen cs).2 := by
    unfold takeHyphen
    split
    · exact ⟨.inr rfl, noEscape.behind rfl⟩
    · exact ⟨.inl rfl, noEscape⟩
  obtain ⟨first, after, parts, found, others, rfl⟩ := readIdent_eq_some_iff.mp read
  obtain ⟨eq, start⟩ := readCharOrEscape_plain behind found
  rw [eq] at behind
  have inside := behind.behind (isNamePart_of_isNameStart start)
  rw [readNameParts_plain inside] at others
  obtain ⟨rfl, rfl⟩ := Prod.mk.inj others
  refine ⟨?_, .ident ⟨_, first, _, rfl, hyphen, start, ?_⟩ (endsName_dropWhile inside)⟩
  · rw [List.append_assoc, List.cons_append, List.takeWhile_append_dropWhile, ← eq, split]
  · exact fun c member => of_mem_takeWhile member

/-- Without escapes the value of a hash is what stands behind its sign. -/
theorem readHash_plain (noEscape : NoEscape cs.tail) (read : readHash cs = some (name, rest)) :
    cs = '#' :: name ++ rest ∧ Shows .hash name ('#' :: name) rest := by
  obtain ⟨behind, rfl, parts, nonempty⟩ := readHash_eq_some_iff.mp read
  rw [List.tail_cons] at noEscape
  rw [readNameParts_plain noEscape] at parts
  obtain ⟨rfl, rfl⟩ := Prod.mk.inj parts
  refine ⟨?_, .hash nonempty fun c member => of_mem_takeWhile member⟩
  rw [List.cons_append, List.takeWhile_append_dropWhile]

/-- Without backslashes the pieces of a string mean themselves. -/
theorem IsInside.plain {quote : Char} {pieces : List Piece} (inside : IsInside quote pieces rest)
    (plain : '\\' ∉ sources pieces) :
    texts pieces = sources pieces ∧ ∀ c ∈ sources pieces, c ≠ '\n' ∧ c ≠ '\\' := by
  induction inside with
  | nil => exact ⟨rfl, by simp⟩
  | @cons piece pieces rest stands _ ih =>
    rw [sources_cons, List.mem_append, not_or] at plain
    obtain ⟨same, others⟩ := ih plain.2
    cases piece with
    | plain c =>
      exact ⟨congrArg (c :: ·) same, List.forall_mem_cons.mpr ⟨stands.2, others⟩⟩
    | continuation source =>
      obtain ⟨d, more, rfl, -⟩ := IsContinuation.eq_cons stands
      exact absurd List.mem_cons_self plain.1
    | escape source c =>
      obtain ⟨d, more, rfl, -⟩ := IsEscape.eq_cons stands
      exact absurd List.mem_cons_self plain.1

/-- The text of a string without escapes holds neither its quote nor a line feed. -/
theorem readString_plain {quote : Char} (isQuote : IsQuote quote) {start : Nat} (plain : '\\' ∉ cs)
    (read : readString quote start cs = .ok (text, rest)) :
    cs = text ++ quote :: rest ∧ ∀ c ∈ text, c ≠ '\n' ∧ c ≠ '\\' := by
  obtain ⟨pieces, rfl, inside, rfl⟩ := (readString_ok_iff isQuote).mp read
  obtain ⟨same, all⟩ := inside.plain fun member => plain (List.mem_append_left _ member)
  rw [same]
  exact ⟨rfl, all⟩

theorem readFraction_eq_some {fraction : List Char} (read : readFraction cs = some (fraction, rest)) :
    cs = fraction ++ rest ∧ (∃ decimals, fraction = '.' :: decimals ∧ decimals ≠ [] ∧
      ∀ c ∈ decimals, isDigit c = true) ∧ ∀ c ∈ rest.head?, isDigit c = false := by
  obtain ⟨behind, rfl, nonempty, rfl, rfl⟩ := readFraction_eq_some_iff.mp read
  refine ⟨?_, ⟨_, rfl, nonempty, fun c member => of_mem_takeWhile member⟩, ?_⟩
  · rw [List.cons_append, List.takeWhile_append_dropWhile]
  · exact fun c first => (mem_of_head?_dropWhile first).1

/-- What is read as a number is one, and it ends where neither a digit nor, if it has no point yet,
a fraction follows. -/
theorem readNumber_shows (read : readNumber cs = some (text, rest)) :
    cs = text ++ rest ∧ Shows .number text text rest := by
  obtain ⟨unsigned, found, rfl⟩ := readNumber_eq_some_iff.mp read
  have split := takeSign_append cs
  have signed := takeSign_cases cs
  have digits := List.takeWhile_append_dropWhile (p := isDigit) (l := (takeSign cs).2)
  have allDigits : ∀ c ∈ (takeSign cs).2.takeWhile isDigit, isDigit c = true :=
    fun c member => of_mem_takeWhile member
  unfold readUnsigned at found
  split at found
  · rename_i fraction after here
    obtain ⟨rfl, rfl⟩ := Prod.mk.inj (Option.some.inj found)
    obtain ⟨eq, ⟨decimals, rfl, written⟩, noDigit⟩ := readFraction_eq_some here
    refine ⟨?_, .number ⟨_, _, _, rfl, signed, allDigits, .inr ⟨decimals, rfl, written⟩⟩ noDigit
      (.inl (by simp))⟩
    rw [List.append_assoc, List.append_assoc, ← eq, digits, split]
  · rename_i noFraction
    split at found
    · exact nomatch found
    · rename_i nonempty
      obtain ⟨rfl, rfl⟩ := Prod.mk.inj (Option.some.inj found)
      refine ⟨by rw [List.append_assoc, digits, split], .number
        ⟨_, _, [], by rw [List.append_nil], signed, allDigits, .inl ⟨rfl, nonempty⟩⟩ ?_
        (.inr noFraction)⟩
      exact fun c first => (mem_of_head?_dropWhile first).1

/-- A character that no other rule takes is read alone. -/
theorem shows_single {c : Char} (plain : '\\' ∉ rest) (noName : readIdent (c :: rest) = none)
    (noNumber : readNumber (c :: rest) = none) : Shows .delim [c] [c] rest := by
  refine .sign (by simp) ?_ ?_
  · intro sign
    have split : (takeSign (c :: rest)).2 = rest := by
      rcases sign with sign | sign <;> obtain ⟨rfl, -⟩ := List.cons.inj sign <;> rfl
    exact split ▸ readNumber_eq_none_iff.mp noNumber
  · intro sign d first
    obtain ⟨rfl, -⟩ := List.cons.inj sign
    cases rest with
    | nil => simp at first
    | cons e more =>
      obtain rfl : e = d := by simpa using first
      refine ⟨Bool.eq_false_iff.mpr fun start => ?_, ?_⟩
      · simp [readIdent, takeHyphen, readCharOrEscape_of_accepts start] at noName
      · rintro rfl
        exact plain List.mem_cons_self

end Plain

theorem readPlain_shows {c : Char} {cs rest text : List Char} {kind : Token.Kind}
    (plain : '\\' ∉ c :: cs) (read : readPlain c cs = ((kind, text), rest)) :
    ∃ source, c :: cs = source ++ rest ∧ Shows kind text source rest := by
  have inside : '\\' ∉ cs := fun member => plain (List.mem_cons_of_mem c member)
  cases readsPlain read with
  | blanks found =>
    obtain ⟨nonempty, rfl, rfl⟩ := readBlanks_eq_some_iff.mp found
    exact ⟨_, List.takeWhile_append_dropWhile.symm, .blanks nonempty⟩
  | name _ found => exact ⟨_, readIdent_plain (noEscape_of_plain plain) found⟩
  | hash _ _ found => exact ⟨_, readHash_plain (noEscape_of_plain inside) found⟩
  | operator _ _ _ found =>
    obtain ⟨d, -, rfl, split⟩ := readOperator_eq_some_iff.mp found
    exact ⟨_, split, .sign (by simp) (by simp) (by simp)⟩
  | number _ _ _ _ found => exact ⟨_, readNumber_shows found⟩
  | sign _ noName _ _ noNumber => exact ⟨[c], rfl, shows_single inside noName noNumber⟩

/-- A token of a text without backslashes stands there as `Shows` says. -/
theorem readLexeme_shows {start : Nat} {c : Char} {cs rest text : List Char} {kind : Token.Kind}
    (plain : '\\' ∉ c :: cs) (read : readLexeme start c cs = .ok (.token kind text, rest)) :
    ∃ source, c :: cs = source ++ rest ∧ Shows kind text source rest := by
  cases readsToken read with
  | string mark found =>
    obtain ⟨rfl, inside⟩ :=
      readString_plain mark (fun member => plain (List.mem_cons_of_mem c member)) found
    exact ⟨_, by simp, .string mark inside⟩
  | plain _ _ found => exact readPlain_shows plain found

/-! ### The tokens of a text -/

theorem Shows.byteSize {kind : Token.Kind} {text source rest : List Char}
    (shown : Shows kind text source rest) :
    byteSize source = byteSize text + Token.markBytes kind := by
  cases shown with
  | hash => simp [Lexer.byteSize, Token.markBytes, Char.utf8Size]; omega
  | string mark =>
    rcases mark with rfl | rfl <;> simp [Lexer.byteSize, Token.markBytes, Char.utf8Size] <;> omega
  | _ => rfl

theorem Shows.source_ne_nil {kind : Token.Kind} {text source rest : List Char}
    (shown : Shows kind text source rest) : source ≠ [] := by
  cases shown with
  | ident name => exact name.isWritable.nonempty
  | number number =>
    obtain ⟨sign, digits, fraction, rfl, -, allDigits, written⟩ := number
    obtain ⟨c, cs, eq, -⟩ := head_of_unsigned allDigits written
    simp [eq]
  | sign nonempty => exact nonempty
  | blanks nonempty => exact nonempty
  | _ => simp

theorem byteSize_pos {cs : List Char} (nonempty : cs ≠ []) : 0 < byteSize cs := by
  cases cs with
  | nil => exact absurd rfl nonempty
  | cons c cs => exact Nat.lt_of_lt_of_le c.utf8Size_pos (Nat.le_add_right _ _)

/-- The bytes of a text are those of its characters. -/
theorem utf8ByteSize_ofList (cs : List Char) : (String.ofList cs).utf8ByteSize = byteSize cs := by
  induction cs with
  | nil => rfl
  | cons c cs ih =>
    rw [String.ofList_cons, String.utf8ByteSize_append, ih, String.utf8ByteSize_singleton]
    rfl

theorem skipComment_suffix (cs : List Char) : ∃ skipped, cs = skipped ++ skipComment cs := by
  fun_induction skipComment cs with
  | case1 rest => exact ⟨['*', '/'], rfl⟩
  | case2 => exact ⟨[], rfl⟩
  | case3 c rest _ ih =>
    obtain ⟨skipped, eq⟩ := ih
    exact ⟨c :: skipped, by rw [List.cons_append, ← eq]⟩

theorem readLexeme_comment {start : Nat} {c : Char} {cs rest : List Char}
    (read : readLexeme start c cs = .ok (.comment, rest)) :
    ∃ source, source ≠ [] ∧ c :: cs = source ++ rest := by
  obtain ⟨inside, rfl, rfl, rfl⟩ := readLexeme_comment_iff.mp read
  obtain ⟨skipped, eq⟩ := skipComment_suffix inside
  exact ⟨'/' :: '*' :: skipped, by simp, by rw [List.cons_append, List.cons_append, ← eq]⟩

/-- The tokens of a text without backslashes: comments are left out, and every other piece of the
text is one token at its offset. -/
inductive Splits : Nat → List Char → List Token → Prop
  | done (pos : Nat) : Splits pos [] [⟨.eof, "", pos⟩]
  | comment {pos : Nat} {source rest : List Char} {tokens : List Token} (nonempty : source ≠ [])
      (behind : Splits (pos + byteSize source) rest tokens) : Splits pos (source ++ rest) tokens
  | token {pos : Nat} {kind : Token.Kind} {text source rest : List Char} {tokens : List Token}
      (shown : Shows kind text source rest)
      (behind : Splits (pos + byteSize source) rest tokens) :
      Splits pos (source ++ rest) (⟨kind, String.ofList text, pos⟩ :: tokens)

theorem byteSize_append_sub (source rest : List Char) :
    byteSize (source ++ rest) - byteSize rest = byteSize source := by
  rw [byteSize_append]
  omega

theorem splits_tokensFrom {pos : Nat} {cs : List Char} {tokens : List Token} (plain : '\\' ∉ cs)
    (read : tokensFrom pos cs = .ok tokens) : Splits pos cs tokens := by
  fun_induction tokensFrom pos cs generalizing tokens with
  | case1 pos =>
    obtain rfl := Except.ok.inj read
    exact .done pos
  | case2 => simp at read
  | case3 pos c tail rest next lexeme =>
    rename_i ih
    obtain ⟨source, nonempty, eq⟩ := readLexeme_comment lexeme
    have behind := ih (fun member => plain (eq ▸ List.mem_append_right _ member)) read
    simp only [next] at behind
    rw [eq, byteSize_append_sub] at behind
    rw [eq]
    exact .comment nonempty behind
  | case4 pos c tail rest next kind text lexeme others found =>
    rename_i ih
    obtain rfl := Except.ok.inj read
    obtain ⟨source, eq, shown⟩ := readLexeme_shows plain lexeme
    have behind := ih (fun member => plain (eq ▸ List.mem_append_right _ member)) found
    simp only [next] at behind
    rw [eq, byteSize_append_sub] at behind
    rw [eq]
    exact .token shown behind
  | case5 => simp at read

end Lexer

/-! ### Values and neighbours -/

namespace Token

open Text Lexer

/-- The value is one that a token of a text without backslashes can have. -/
def IsPlain (token : Token) : Prop :=
  match token.kind with
  | .ident => IsName token.value.toList
  | .hash => token.value.toList ≠ [] ∧ ∀ c ∈ token.value.toList, isNamePart c = true
  | .string => ∀ c ∈ token.value.toList, c ≠ '\n' ∧ c ≠ '\\'
  | .number => IsNumber token.value.toList
  | .delim | .space | .eof => True

/-- The token ends in front of the character. -/
def EndsBefore (token : Token) (c : Char) : Prop :=
  match token.kind with
  | .ident => isNamePart c = false ∧ c ≠ '\\'
  | .number => isDigit c = false ∧ (c = '.' → '.' ∈ token.value.toList)
  | .delim =>
    (isDigit c = false ∧ c ≠ '.') ∧ (token.value = "-" → isNameStart c = false ∧ c ≠ '\\')
  | .hash | .string | .space | .eof => True

/-- If the tokens are arguments, there is a gap between them or the first ends where the second is
written. -/
def Chained (token next : Token) : Prop :=
  Selector.Reader.isArgument token = true → Selector.Reader.isArgument next = true →
    token.endPos < next.pos ∨ ∀ c ∈ next.css.toList.head?, token.EndsBefore c

end Token

namespace Lexer

open Text

theorem readUnsigned_eq_none {cs : List Char} (read : readUnsigned cs = none) :
    (∀ c ∈ cs.head?, isDigit c = false) ∧ readFraction cs = none := by
  unfold readUnsigned at read
  split at read
  · simp at read
  · rename_i noFraction
    split at read
    · rename_i noDigits
      have split := List.takeWhile_append_dropWhile (p := isDigit) (l := cs)
      rw [noDigits, List.nil_append] at split
      rw [split] at noFraction
      refine ⟨fun c first => ?_, noFraction⟩
      rw [← split] at first
      exact (mem_of_head?_dropWhile first).1
    · simp at read

/-- A number that starts with a point is a fraction. -/
theorem IsNumber.readFraction_ne_none {cs : List Char} (number : IsNumber ('.' :: cs))
    (rest : List Char) : readFraction ('.' :: (cs ++ rest)) ≠ none := by
  obtain ⟨sign, digits, fraction, eq, signed, allDigits, written⟩ := number
  have noSign : sign = [] := by
    rcases signed with rfl | rfl | rfl
    · rfl
    all_goals simp at eq
  subst noSign
  cases digits with
  | cons c more =>
    obtain ⟨rfl, -⟩ := List.cons.inj eq
    exact absurd (allDigits '.' List.mem_cons_self) (by decide)
  | nil =>
    rcases written with ⟨-, nonempty⟩ | ⟨decimals, rfl, nonempty, allDecimals⟩
    · exact absurd rfl nonempty
    · obtain ⟨-, rfl⟩ := List.cons.inj eq
      cases cs with
      | nil => exact absurd rfl nonempty
      | cons d ds => simp [readFraction, allDecimals d List.mem_cons_self]

/-- The first character that an argument is written with: a double quote, or what stands first in
its source, and then a point only if a fraction stands there. -/
theorem Shows.head_css {token : Token} {source rest : List Char} {c : Char}
    (shown : Shows token.kind token.value.toList source rest)
    (argument : Selector.Reader.isArgument token = true) (first : c ∈ token.css.toList.head?) :
    c = '"' ∨ c ∈ (source ++ rest).head? ∧ (c = '.' → readFraction (source ++ rest) ≠ none) := by
  obtain ⟨kind, value, pos⟩ := token
  generalize text : value.toList = cs at shown
  have behind (first : c ∈ cs.head?) : c ∈ (cs ++ rest).head? := by
    rw [List.head?_append, Option.mem_def.mp first]
    rfl
  simp only at shown
  cases shown with
  | ident name =>
    have here : c ∈ source.head? := by simpa [Token.css, text] using first
    refine .inr ⟨behind here, ?_⟩
    rintro rfl
    exact absurd (name.isNamePart '.' (List.mem_of_mem_head? here)) (by decide)
  | hash => simp [Selector.Reader.isArgument, Token.isDelim] at argument
  | string =>
    left
    simpa [Token.css, Token.quoted, eq_comm] using first
  | number number =>
    have here : c ∈ source.head? := by simpa [Token.css, text] using first
    refine .inr ⟨behind here, ?_⟩
    rintro rfl
    obtain ⟨more, rfl⟩ := List.head?_eq_some_iff.mp here
    exact number.readFraction_ne_none rest
  | sign nonempty =>
    have here : c ∈ source.head? := by simpa [Token.css, text] using first
    refine .inr ⟨behind here, ?_⟩
    rintro rfl
    simp only [Selector.Reader.isArgument, Token.isDelim] at argument
    rcases (by simpa using argument : value = "+" ∨ value = "-") with rfl | rfl <;>
      subst text <;> simp at here
  | blanks => simp [Selector.Reader.isArgument, Token.isDelim] at argument

/-- Of two arguments that stand side by side, the first ends where the second is written. -/
theorem Shows.endsBefore {token next : Token} {source behind rest : List Char} {c : Char}
    (shown : Shows token.kind token.value.toList source (behind ++ rest))
    (shownNext : Shows next.kind next.value.toList behind rest)
    (argument : Selector.Reader.isArgument token = true)
    (argumentNext : Selector.Reader.isArgument next = true)
    (first : c ∈ next.css.toList.head?) : token.EndsBefore c := by
  -- the source of the next argument starts as it is written, or it is a string
  have begins := shownNext.head_css argumentNext first
  obtain ⟨kind, value, pos⟩ := token
  generalize text : value.toList = cs at shown
  simp only at shown
  cases shown with
  | ident name ends =>
    rcases begins with rfl | ⟨here, -⟩
    · exact ⟨by decide, by decide⟩
    · exact ends c here
  | hash => trivial
  | string => trivial
  | number number noDigit noFraction =>
    rcases begins with rfl | ⟨here, point⟩
    · exact ⟨by decide, by simp⟩
    · refine ⟨noDigit c here, fun dot => ?_⟩
      simp only [text]
      exact noFraction.resolve_right (point dot)
  | sign nonempty noNumber noName =>
    simp only [Selector.Reader.isArgument, Token.isDelim] at argument
    have sign : value = "+" ∨ value = "-" := by simpa using argument
    have chars : source = ['+'] ∨ source = ['-'] := by
      rcases sign with rfl | rfl <;> simp [← text]
    obtain ⟨noDigit, noFraction⟩ := readUnsigned_eq_none (noNumber chars)
    rcases begins with rfl | ⟨here, point⟩
    · exact ⟨by decide, fun _ => by decide⟩
    · refine ⟨⟨noDigit c here, fun dot => point dot noFraction⟩, fun hyphen => ?_⟩
      simp only at hyphen
      refine noName ?_ c here
      simp [← text, hyphen]
  | blanks => trivial

theorem Shows.isPlain {token : Token} {source rest : List Char}
    (shown : Shows token.kind token.value.toList source rest) : token.IsPlain := by
  obtain ⟨kind, value, pos⟩ := token
  generalize text : value.toList = cs at shown
  simp only at shown
  cases shown <;> simp_all [Token.IsPlain]

/-! ### The tokens of a text without backslashes -/

section Splits

variable {pos : Nat} {cs : List Char} {tokens : List Token}

theorem Splits.isPlain (splits : Splits pos cs tokens) : ∀ token ∈ tokens, token.IsPlain := by
  induction splits with
  | done =>
    intro token member
    obtain rfl := List.mem_singleton.mp member
    trivial
  | comment _ _ ih => exact ih
  | token shown _ ih =>
    intro token member
    rcases List.mem_cons.mp member with rfl | member
    · exact Shows.isPlain (by simpa using shown)
    · exact ih token member

theorem Splits.le_pos (splits : Splits pos cs tokens) : ∀ token ∈ tokens, pos ≤ token.pos := by
  induction splits with
  | done =>
    intro token member
    obtain rfl := List.mem_singleton.mp member
    exact Nat.le_refl _
  | comment _ _ ih => exact fun token member => Nat.le_trans (Nat.le_add_right _ _) (ih token member)
  | token _ _ ih =>
    intro token member
    rcases List.mem_cons.mp member with rfl | member
    · exact Nat.le_refl _
    · exact Nat.le_trans (Nat.le_add_right _ _) (ih token member)

/-- A token that does not stand at the start of the text starts later. -/
theorem Splits.starts (splits : Splits pos cs tokens) {token : Token} (member : token ∈ tokens)
    (inside : token.kind ≠ .eof) :
    pos < token.pos ∨
      ∃ source rest, cs = source ++ rest ∧ Shows token.kind token.value.toList source rest := by
  cases splits with
  | done =>
    obtain rfl := List.mem_singleton.mp member
    exact absurd rfl inside
  | comment nonempty behind =>
    have size := byteSize_pos nonempty
    have later := behind.le_pos token member
    left
    omega
  | token shown behind =>
    rcases List.mem_cons.mp member with rfl | member
    · exact .inr ⟨_, _, rfl, by simpa using shown⟩
    · have size := byteSize_pos shown.source_ne_nil
      have later := behind.le_pos token member
      left
      omega

theorem Splits.chained (splits : Splits pos cs tokens) : tokens.Pairwise Token.Chained := by
  induction splits with
  | done => simp
  | comment _ _ ih => exact ih
  | @token pos kind text source rest tokens shown behind ih =>
    refine List.pairwise_cons.mpr ⟨fun next member argument argumentNext => ?_, ih⟩
    have inside : next.kind ≠ .eof := by
      intro eof
      simp [Selector.Reader.isArgument, Token.isDelim, eof] at argumentNext
    rcases behind.starts member inside with later | ⟨source, rest, rfl, shownNext⟩
    · left
      have size := shown.byteSize
      simp only [Token.endPos, utf8ByteSize_ofList]
      omega
    · right
      intro c first
      exact Shows.endsBefore (by simpa using shown) shownNext argument argumentNext first

/-- Every token of a text without backslashes is plain. -/
theorem plain_tokensFrom (plain : '\\' ∉ cs) (read : tokensFrom pos cs = .ok tokens) :
    ∀ token ∈ tokens, token.IsPlain :=
  (splits_tokensFrom plain read).isPlain

/-- Of any two arguments in a text without backslashes, the first ends where the second is written
unless there is a gap between them. -/
theorem chained_tokensFrom (plain : '\\' ∉ cs) (read : tokensFrom pos cs = .ok tokens) :
    tokens.Pairwise Token.Chained :=
  (splits_tokensFrom plain read).chained

end Splits

end Lexer

end SelectorPath
