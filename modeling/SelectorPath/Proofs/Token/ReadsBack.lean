import SelectorPath.Proofs.Token.Escapes
import SelectorPath.Proofs.Token.Span

/-!
# Tokens that read back

`Token.css` writes the value of an identifier as it is, and puts a backslash only before the quotes
and backslashes of a string. A value may hold any character, since escapes have been undone. So the
text need not be read as the token again. For identifiers it is exactly if the value is a name that
needs no escape: a text is at least as long as any name read from it, and longer if there is an
escape in it. For strings it is exactly if the value holds no line feed, the one character that
ends a string without being escaped.

## Main definitions

* `Lexer.ReadsParts` — name characters are read from themselves, or from a longer text
* `Token.ReadsBack` — the text of a token has that token alone

## Main results

* `Token.readsBack_ident_iff`, `Token.readsBack_string_iff` — which identifiers and strings do
-/

namespace SelectorPath

open Text

namespace Lexer

variable {cs name rest : List Char}

/-! ### Names and the text they are read from -/

/-- A character is read from itself, or from an escape, which is longer. -/
theorem readCharOrEscape_cases {accepts : Char → Bool} {c : Char}
    (read : readCharOrEscape accepts cs = some (c, rest)) :
    cs = c :: rest ∧ accepts c = true ∨ rest.length + 1 < cs.length := by
  obtain plain | ⟨escape, -⟩ := readCharOrEscape_eq_some_iff.mp read
  · exact .inl plain
  · obtain ⟨source, rfl, isEscape⟩ := readEscape_iff.mp escape
    obtain ⟨d, more, rfl, -⟩ := isEscape.eq_cons
    right
    simp only [List.length_append, List.length_cons]
    omega

/-- The text is what has been read and the rest, or it is longer. -/
def ReadsParts (cs name rest : List Char) : Prop :=
  cs = name ++ rest ∧ (∀ c ∈ name, isNamePart c = true) ∨ name.length + rest.length < cs.length

theorem ReadsParts.length_le (reads : ReadsParts cs name rest) :
    name.length + rest.length ≤ cs.length := by
  rcases reads with ⟨rfl, -⟩ | longer
  · rw [List.length_append]
  · exact longer.le

/-- Name characters are read from themselves, or from a longer text. -/
theorem readsParts_readNameParts (cs : List Char) :
    ReadsParts cs (readNameParts cs).1 (readNameParts cs).2 := by
  fun_induction readNameParts cs with
  | case1 cs stop => exact .inl ⟨rfl, by simp⟩
  | case2 cs c rest read shorter name after found ih =>
    rw [found] at ih
    have behind := ih.length_le
    rcases readCharOrEscape_cases read with ⟨rfl, part⟩ | longer
    · rcases ih with ⟨rfl, parts⟩ | longer
      · exact .inl ⟨rfl, List.forall_mem_cons.mpr ⟨part, parts⟩⟩
      · exact .inr (by simp only [List.length_cons] at *; omega)
    · exact .inr (by simp only [List.length_cons] at *; omega)

theorem takeHyphen_cases (cs : List Char) :
    (takeHyphen cs).1 = [] ∨ (takeHyphen cs).1 = ['-'] := by
  unfold takeHyphen
  split <;> simp

/-- A name is read from itself, or from a longer text. -/
theorem readIdent_cases (read : readIdent cs = some (name, rest)) :
    IsName name ∨ name.length + rest.length < cs.length := by
  have size := congrArg List.length (takeHyphen_append cs)
  rw [List.length_append] at size
  obtain ⟨first, after, parts, found, others, rfl⟩ := readIdent_eq_some_iff.mp read
  have reads := readsParts_readNameParts after
  rw [others] at reads
  have behind : parts.length + rest.length ≤ after.length := reads.length_le
  rw [List.length_append, List.length_cons]
  rcases readCharOrEscape_cases found with ⟨eq, start⟩ | longer
  · rw [eq, List.length_cons] at size
    rcases reads with ⟨-, allParts⟩ | longer
    · exact .inl ⟨_, first, _, rfl, takeHyphen_cases cs, start, allParts⟩
    · exact .inr (by simp only at longer; omega)
  · exact .inr (by omega)

theorem Lexes.ident_cases {source : List Char} (lexes : Lexes source .ident name rest) :
    IsName name ∨ name.length < source.length := by
  obtain ⟨c, cs, rfl, read⟩ := lexes
  cases readsToken (read 0) with
  | plain _ _ found =>
    cases readsPlain found with
    | name _ found =>
      apply (readIdent_cases found).imp_right
      intro longer
      rw [← List.cons_append, List.length_append] at longer
      omega

/-! ### Line feeds in strings -/

/-- A line feed is written as it is, and the string that it stands in is no string. -/
theorem readString_lineFeed (lineFeed : '\n' ∈ cs) (start : Nat) (rest : List Char) :
    readString '"' start (cs.flatMap Token.quotedChar ++ rest) = .error (.invalidString start) := by
  induction cs with
  | nil => simp at lineFeed
  | cons c cs ih =>
    rw [List.flatMap_cons, List.append_assoc]
    by_cases here : c = '\n'
    · subst here
      rw [readString.eq_def]
      rfl
    · have behind := (List.mem_cons.mp lineFeed).resolve_left (Ne.symm here)
      rw [readString_quotedChar here, ih behind]

theorem tokenize_quoted_lineFeed {text : String} (lineFeed : '\n' ∈ text.toList) :
    tokenize (Token.quoted text) = .error (.invalidString 0) := by
  have read : readLexeme 0 '"' (text.toList.flatMap Token.quotedChar ++ ['"']) =
      .error (.invalidString 0) := by
    simp [readLexeme, readString_lineFeed lineFeed]
  unfold tokenize Token.quoted
  rw [String.toList_ofList, List.cons_append, tokensFrom]
  split
  · rename_i found
    rw [read] at found
    exact congrArg _ (Except.error.inj found).symm
  · rename_i found
    rw [read] at found
    simp at found

end Lexer

namespace Token

open Lexer

/-- The text of the token has one token before the end, of the same category and value. -/
def ReadsBack (token : Token) : Prop :=
  ∃ pos stop, tokenize token.css = .ok [⟨token.kind, token.value, pos⟩, ⟨.eof, "", stop⟩]

theorem readsBack_of_lexes {token : Token}
    (lexes : Lexes token.css.toList token.kind token.value.toList []) : token.ReadsBack := by
  have alone := lexes.alone
  rw [String.ofList_toList, String.ofList_toList] at alone
  exact ⟨_, _, alone⟩

/-- An identifier reads back exactly if its value is a name that needs no escape. -/
theorem readsBack_ident_iff {value : String} {pos : ℕ} :
    (⟨.ident, value, pos⟩ : Token).ReadsBack ↔ IsName value.toList := by
  constructor
  · rintro ⟨start, stop, read⟩
    obtain ⟨spans, last, covers, same⟩ := tokensFrom_eq_ok_iff.mp read
    obtain ⟨span, rfl, token⟩ : ∃ span, spans = [span] ∧ span.token = ⟨.ident, value, start⟩ := by
      match spans with
      | [] => simp at same
      | [span] => exact ⟨span, rfl, by simpa using (List.cons.inj same).1.symm⟩
      | _ :: _ :: _ => simp at same
    obtain ⟨rest, lexes⟩ := covers.lexes span List.mem_cons_self
    obtain ⟨before, behind, split, -⟩ := covers.isIn span List.mem_cons_self
    rw [token] at lexes
    -- The source of the token is a part of its value.
    apply lexes.ident_cases.resolve_right
    have size : value.toList.length = _ := congrArg List.length split
    rw [List.length_append, List.length_append] at size
    change ¬value.toList.length < span.source.length
    omega
  · intro name
    apply readsBack_of_lexes
    have lexes : Lexes (identifierChars value.toList) .ident value.toList [] :=
      lexes_identifier name.isWritable (by simp [EndsName])
    rwa [name.identifierChars_eq] at lexes

/-- A string reads back exactly if there is no line feed in it. -/
theorem readsBack_string_iff {value : String} {pos : ℕ} :
    (⟨.string, value, pos⟩ : Token).ReadsBack ↔ '\n' ∉ value.toList := by
  constructor
  · rintro ⟨start, stop, read⟩ lineFeed
    have invalid := tokenize_quoted_lineFeed lineFeed
    simp only [css] at read
    rw [invalid] at read
    simp at read
  · intro inLine
    apply readsBack_of_lexes
    have noBreak : ∀ c ∈ value.toList, c ≠ '\n' := by
      rintro c member rfl
      exact inLine member
    have lexes : Lexes _ .string value.toList [] := lexes_quoted noBreak
    simpa [css, quoted] using lexes

end Token

end SelectorPath
