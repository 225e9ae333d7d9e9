import SelectorPath.Proofs.Token.Seam

/-!
# Comments between tokens

A comment can stand in front of any token and leaves no trace but in the offsets. The slash that it
starts with belongs to no token in front of it, whatever rule read that token: no number goes on
with it, no name, no escape and no delimiter of two characters, and a slash that stands there
already starts no comment with it. Only a backslash alone would take it, as an escape.

## Main results

* `isComment_of_noEnd` — any text without an end of a comment makes one
* `tokenize_insert_comment` — the tokens of a text with a comment in front of one of its tokens
-/

namespace SelectorPath

namespace Lexer

/-- A text with no end of a comment in it is the inside of a comment. -/
theorem isComment_of_noEnd {inside : List Char} (noEnd : ¬['*', '/'] <:+: inside) :
    IsComment ('/' :: '*' :: (inside ++ ['*', '/'])) := by
  refine ⟨inside, rfl, fun ⟨before, after, split⟩ => ?_⟩
  -- an end does not stop at the star that is put behind the inside
  rcases List.eq_nil_or_concat after with rfl | ⟨more, c, rfl⟩
  · rw [List.append_nil] at split
    have last := congrArg List.getLast? split
    simp at last
  · rw [List.concat_eq_append, ← List.append_assoc] at split
    exact noEnd ⟨before, more, (List.append_inj' split rfl).1⟩

end Lexer

open Lexer in
/-- A comment in front of a token that does not directly follow a lone backslash moves this token
and those behind it, and changes neither their kinds nor their values. -/
theorem tokenize_insert_comment {text inside : String} {before after : List Token} {token : Token}
    (lexed : tokenize text = .ok (before ++ token :: after)) (notEof : token.kind ≠ .eof)
    (noBackslash : ∀ last ∈ before.getLast?, last.isDelim "\\" = false)
    (noEnd : ¬['*', '/'] <:+: inside.toList) :
    ∃ front back tokens, text = front ++ back ∧ front.utf8ByteSize = token.pos ∧
      tokenize (front ++ ("/*" ++ inside ++ "*/") ++ back) = .ok tokens ∧
      tokens = before ++ (token :: after).map (Token.shift (inside.utf8ByteSize + 4)) ∧
      tokens.map (fun token => (token.kind, token.value)) =
        (before ++ token :: after).map fun token => (token.kind, token.value) := by
  obtain ⟨front, back, spans, span, others, last, whole, cut, rfl, rfl, rfl⟩ :=
    exists_cut_of_tokenize lexed notEof
  have here := cut.here
  rw [Nat.zero_add] at here
  have sources := cut.upTo.getLast?_ne_backslash noBackslash
  have size : byteSize ('/' :: '*' :: (inside.toList ++ ['*', '/'])) = inside.utf8ByteSize + 4 := by
    simp only [byteSize, byteSize_append, Token.utf8ByteSize_eq]
    rw [show ('/').utf8Size = 1 from rfl, show ('*').utf8Size = 1 from rfl]
    omega
  -- behind the place of the cut the same spans cover the text, moved by the size of the comment
  have comment : Covers (0 + byteSize front)
      ('/' :: '*' :: (inside.toList ++ ['*', '/'] ++ (span.source ++ back)))
      ((span :: others).map (Span.shift (inside.utf8ByteSize + 4))) last := by
    have moved := (cut.behind.cons cut.lexes).shift (inside.utf8ByteSize + 4)
    rw [here, ← size, ← Nat.zero_add (byteSize front)] at moved
    rw [← size]
    exact .comment (isComment_of_noEnd noEnd) moved
  -- a slash goes on with no token in front of it but a lone backslash
  have all := cut.upTo.append_stop rfl (by decide)
    (fun span member => ⟨sources span member, mem_stopsOf_of_firm (by decide) _⟩) comment
  refine ⟨String.ofList front, String.ofList (span.source ++ back), _, ?_, ?_, ?_, rfl, ?_⟩
  · rw [← String.toList_inj]
    simpa using whole
  · rw [utf8ByteSize_ofList, here]
  · have written : (String.ofList front ++ ("/*" ++ inside ++ "*/") ++
        String.ofList (span.source ++ back)).toList =
        front ++ '/' :: '*' :: (inside.toList ++ ['*', '/'] ++ (span.source ++ back)) := by simp
    have size : 0 + byteSize (front ++ '/' :: '*' ::
        (inside.toList ++ ['*', '/'] ++ (span.source ++ back))) =
        byteSize text.toList + (inside.utf8ByteSize + 4) := by
      rw [whole, ← size]
      simp only [byteSize, byteSize_append]
      omega
    unfold tokenize
    rw [written, tokensFrom_of_covers all, size]
    simp [Span.shift, Token.shift, Function.comp_def]
  · simp [Function.comp_def, Token.shift]

open Lexer in
/-- An escape and a slash, the comment between a slash and a name, and another start of a comment in
it. -/
theorem tokenize_insert_comment_slash :
    ∃ before after token, tokenize "\\61/b/" = .ok (before ++ token :: after) ∧
      token.kind ≠ .eof ∧ (∀ last ∈ before.getLast?, last.isDelim "\\" = false) ∧
      ¬['*', '/'] <:+: "/*".toList ∧
      ∃ front back tokens, "\\61/b/" = front ++ back ∧ front.utf8ByteSize = token.pos ∧
        tokenize (front ++ ("/*" ++ "/*" ++ "*/") ++ back) = .ok tokens ∧
        tokens = before ++ (token :: after).map (Token.shift ("/*".utf8ByteSize + 4)) ∧
        tokens.map (fun token => (token.kind, token.value)) =
          (before ++ token :: after).map fun token => (token.kind, token.value) := by
  have lexed : (tokenize "\\61/b/").toOption = some
      ([⟨.ident, "a", 0⟩, ⟨.delim, "/", 3⟩] ++
        ⟨.ident, "b", 4⟩ :: [⟨.delim, "/", 5⟩, ⟨.eof, "", 6⟩]) := by
    decide +kernel
  exact ⟨_, _, _, tokenize_eq_ok lexed, by decide, by decide, by decide,
    tokenize_insert_comment (tokenize_eq_ok lexed) (by decide) (by decide) (by decide)⟩

end SelectorPath
