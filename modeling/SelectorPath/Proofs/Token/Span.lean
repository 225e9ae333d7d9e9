import SelectorPath.Proofs.Selector.Reprint
import SelectorPath.Proofs.Token.Locality

/-!
# Tokens lose nothing but comments

The text of a selector is cut into pieces: the sources of its tokens, in their order, and comments.
Only a comment at the end can be left open. A token starts at the offset of its source, and the
source alone has that token and no other.

## Main definitions

* `Lexer.IsComment` — a comment with its end
* `Lexer.Span` — a token with its source
* `Lexer.Covers` — a text cut into comments and the sources of tokens

## Main results

* `Lexer.tokensFrom_eq_ok_iff` — the tokens of a text are those of the spans that cover it
* `tokenize_spans` — the spans of the tokens of a text
-/

namespace SelectorPath

namespace Lexer

/-! ### Comments -/

/-- A comment: it ends with the first `*/` behind its start. -/
def IsComment (source : List Char) : Prop :=
  ∃ inside, source = '/' :: '*' :: (inside ++ ['*', '/']) ∧ ¬['*', '/'] <:+: inside ++ ['*']

/-- The end of a comment is not at the first of two characters that are not `*` and `/`. -/
theorem not_infix_cons {c : Char} {cs : List Char} (other : ∀ ds, c = '*' → cs = '/' :: ds → False)
    (behind : ¬['*', '/'] <:+: cs) : ¬['*', '/'] <:+: c :: cs := by
  rw [List.infix_cons_iff, not_or]
  refine ⟨?_, behind⟩
  rintro ⟨ds, eq⟩
  obtain ⟨rfl, rfl⟩ := List.cons.inj eq
  exact other ds rfl rfl

/-- Either the comment ends where the rest starts, or it has no end. -/
theorem skipComment_cases (cs : List Char) :
    (∃ inside, cs = inside ++ '*' :: '/' :: skipComment cs ∧ ¬['*', '/'] <:+: inside ++ ['*']) ∨
      (skipComment cs = [] ∧ ¬['*', '/'] <:+: cs) := by
  fun_induction skipComment cs with
  | case1 rest => exact .inl ⟨[], rfl, by decide⟩
  | case2 => exact .inr ⟨rfl, by decide⟩
  | case3 c rest other ih =>
    rcases ih with ⟨inside, split, noEnd⟩ | ⟨empty, noEnd⟩
    · -- `c` is no part of an end: if it is a `*`, then no `/` follows it.
      refine .inl ⟨c :: inside, by rw [List.cons_append, ← split], ?_⟩
      refine not_infix_cons (fun ds star slash => ?_) noEnd
      cases inside with
      | nil => simp at slash
      | cons d more =>
        obtain ⟨rfl, -⟩ := List.cons.inj slash
        exact other _ star split
    · exact .inr ⟨empty, not_infix_cons (fun ds star slash => other ds star slash) noEnd⟩

theorem skipComment_of_end {inside : List Char} (first : ¬['*', '/'] <:+: inside ++ ['*'])
    (rest : List Char) : skipComment (inside ++ '*' :: '/' :: rest) = rest := by
  induction inside with
  | nil => rfl
  | cons c inside ih =>
    rw [List.cons_append, List.infix_cons_iff, not_or] at first
    rw [List.cons_append, skipComment]
    · exact ih first.2
    · rintro ds rfl slash
      refine first.1 ?_
      cases inside with
      | nil => simp at slash
      | cons d more =>
        obtain ⟨rfl, -⟩ := List.cons.inj slash
        exact ⟨more ++ ['*'], rfl⟩

theorem skipComment_of_open {cs : List Char} (noEnd : ¬['*', '/'] <:+: cs) :
    skipComment cs = [] := by
  rcases skipComment_cases cs with ⟨inside, split, -⟩ | ⟨empty, -⟩
  · exact absurd ⟨inside, skipComment cs, by rw [List.append_assoc]; exact split.symm⟩ noEnd
  · exact empty

/-- A comment that is read ends in front of the rest, or it has no end and there is no rest. -/
theorem exists_comment {start : Nat} {c : Char} {cs rest : List Char}
    (read : readLexeme start c cs = .ok (.comment, rest)) :
    (∃ source, c :: cs = source ++ rest ∧ IsComment source) ∨
      rest = [] ∧ ∃ inside, c :: cs = '/' :: '*' :: inside ∧ ¬['*', '/'] <:+: inside := by
  obtain ⟨inside, rfl, rfl, rfl⟩ := readLexeme_comment_iff.mp read
  rcases skipComment_cases inside with ⟨comment, split, first⟩ | ⟨empty, noEnd⟩
  · refine .inl ⟨'/' :: '*' :: (comment ++ ['*', '/']), ?_, comment, rfl, first⟩
    simp [← split]
  · exact .inr ⟨empty, inside, rfl, noEnd⟩

/-! ### Spans -/

/-- A token with its source. -/
structure Span where
  source : List Char
  token : Token

/-- The offset behind the source. -/
def Span.stop (span : Span) : Nat := span.token.pos + byteSize span.source

/-- The source stands in the text at the offset of the token. -/
def Span.IsIn (text : List Char) (span : Span) : Prop :=
  ∃ before behind, text = before ++ (span.source ++ behind) ∧ span.token.pos = byteSize before

/-- From the offset on the text is cut into comments and the sources of tokens, and what is left at
the end is nothing or a comment without an end. -/
inductive Covers : Nat → List Char → List Span → List Char → Prop
  | nothing (pos : Nat) : Covers pos [] [] []
  | unclosed {pos : Nat} {inside : List Char} (noEnd : ¬['*', '/'] <:+: inside) :
      Covers pos ('/' :: '*' :: inside) [] ('/' :: '*' :: inside)
  | comment {pos : Nat} {source rest last : List Char} {spans : List Span}
      (closed : IsComment source) (behind : Covers (pos + byteSize source) rest spans last) :
      Covers pos (source ++ rest) spans last
  | token {pos : Nat} {kind : Token.Kind} {source text rest last : List Char} {spans : List Span}
      (lexes : Lexes source kind text rest)
      (behind : Covers (pos + byteSize source) rest spans last) :
      Covers pos (source ++ rest) (⟨source, kind, String.ofList text, pos⟩ :: spans) last

section Covers

variable {pos : Nat} {cs last : List Char} {spans : List Span} {tokens : List Token}

theorem tokensFrom_of_comment {c : Char} {source rest : List Char}
    (read : readLexeme pos c cs = .ok (.comment, rest)) (split : c :: cs = source ++ rest) :
    tokensFrom pos (c :: cs) = tokensFrom (pos + byteSize source) rest := by
  have size : byteSize (c :: cs) - byteSize rest = byteSize source := by
    rw [split, byteSize_append_sub]
  rw [tokensFrom]
  split
  · rename_i found
    rw [read] at found
    simp at found
  · rename_i found
    rw [read] at found
    obtain ⟨rfl, rfl⟩ := Prod.mk.inj (Except.ok.inj found)
    simp [size]

/-- A comment has no token. -/
theorem IsComment.tokensFrom {source : List Char} (closed : IsComment source) (pos : Nat)
    (rest : List Char) :
    tokensFrom pos (source ++ rest) = tokensFrom (pos + byteSize source) rest := by
  obtain ⟨inside, rfl, first⟩ := closed
  have read : readLexeme pos '/' ('*' :: (inside ++ ['*', '/'] ++ rest)) = .ok (.comment, rest) :=
    readLexeme_comment_iff.mpr
      ⟨_, rfl, rfl, by rw [List.append_assoc]; exact (skipComment_of_end first rest).symm⟩
  exact tokensFrom_of_comment read rfl

/-- The tokens of a text are those of spans that cover it. -/
theorem exists_covers (read : tokensFrom pos cs = .ok tokens) :
    ∃ spans last, Covers pos cs spans last ∧
      tokens = spans.map Span.token ++ [⟨.eof, "", pos + byteSize cs⟩] := by
  fun_induction tokensFrom pos cs generalizing tokens with
  | case1 pos =>
    obtain rfl := Except.ok.inj read
    exact ⟨[], [], .nothing pos, rfl⟩
  | case2 => simp at read
  | case3 pos c tail rest next lexeme =>
    -- A comment has an end, and the text behind it is covered, or it is all that is left.
    rename_i ih
    rcases exists_comment lexeme with ⟨source, cut, closed⟩ | ⟨rfl, inside, cut, noEnd⟩
    · obtain ⟨spans, last, covers, same⟩ := ih read
      simp only [next, cut, byteSize_append_sub] at covers same
      refine ⟨spans, last, ?_, ?_⟩
      · rw [cut]
        exact .comment closed covers
      · rw [same, cut, byteSize_append, Nat.add_assoc]
    · rw [tokensFrom] at read
      obtain rfl := Except.ok.inj read
      refine ⟨[], _, by rw [cut]; exact .unclosed noEnd, ?_⟩
      simp [next, byteSize]
  | case4 pos c tail rest next kind text lexeme others found =>
    -- a token and those behind it
    rename_i ih
    obtain rfl := Except.ok.inj read
    obtain ⟨spans, last, covers, rfl⟩ := ih found
    obtain ⟨source, split, nonempty, again⟩ := exists_lexes lexeme
    simp only [next, split, byteSize_append_sub] at covers ⊢
    refine ⟨_, last, .token (again rest (.refl _ rest) fun _ _ first => first) covers, ?_⟩
    rw [byteSize_append, List.map_cons, List.cons_append, Nat.add_assoc]
  | case5 => simp at read

theorem tokensFrom_of_covers (covers : Covers pos cs spans last) :
    tokensFrom pos cs = .ok (spans.map Span.token ++ [⟨.eof, "", pos + byteSize cs⟩]) := by
  induction covers with
  | nothing pos =>
    rw [tokensFrom]
    rfl
  | @unclosed pos inside noEnd =>
    have read : readLexeme pos '/' ('*' :: inside) = .ok (.comment, []) :=
      readLexeme_comment_iff.mpr ⟨inside, rfl, rfl, (skipComment_of_open noEnd).symm⟩
    rw [tokensFrom_of_comment read (List.append_nil _).symm, tokensFrom]
    rfl
  | @comment pos source rest last spans closed behind ih =>
    rw [closed.tokensFrom, ih, byteSize_append, Nat.add_assoc]
  | @token pos kind source text rest last spans lexes behind ih =>
    rw [tokensFrom_lexes lexes, ih, byteSize_append, Nat.add_assoc]
    rfl

/-- The tokens of a text are those of the spans that cover it. -/
theorem tokensFrom_eq_ok_iff :
    tokensFrom pos cs = .ok tokens ↔ ∃ spans last, Covers pos cs spans last ∧
      tokens = spans.map Span.token ++ [⟨.eof, "", pos + byteSize cs⟩] := by
  constructor
  · exact exists_covers
  · rintro ⟨spans, last, covers, rfl⟩
    exact tokensFrom_of_covers covers

theorem Covers.isIn (covers : Covers pos cs spans last) :
    ∀ span ∈ spans, ∃ before behind, cs = before ++ (span.source ++ behind) ∧
      span.token.pos = pos + byteSize before := by
  induction covers with
  | nothing | unclosed => simp
  | @comment pos source rest last spans closed behind ih =>
    intro span member
    obtain ⟨before, after, rfl, here⟩ := ih span member
    exact ⟨source ++ before, after, by simp, by rw [here, byteSize_append, Nat.add_assoc]⟩
  | @token pos kind source text rest last spans lexes behind ih =>
    intro span member
    rcases List.mem_cons.mp member with rfl | member
    · exact ⟨[], rest, rfl, rfl⟩
    · obtain ⟨before, after, rfl, here⟩ := ih span member
      exact ⟨source ++ before, after, by simp, by rw [here, byteSize_append, Nat.add_assoc]⟩

/-- Every source ends before the next one starts. -/
theorem Covers.pairwise (covers : Covers pos cs spans last) :
    spans.Pairwise fun first second => first.stop ≤ second.token.pos := by
  induction covers with
  | nothing | unclosed => exact .nil
  | comment closed behind ih => exact ih
  | token lexes behind ih =>
    refine .cons (fun span member => ?_) ih
    obtain ⟨before, after, -, here⟩ := behind.isIn span member
    rw [here]
    exact Nat.le_add_right _ _

theorem Covers.lexes (covers : Covers pos cs spans last) :
    ∀ span ∈ spans, ∃ rest,
      Lexes span.source span.token.kind span.token.value.toList rest := by
  induction covers with
  | nothing | unclosed => simp
  | comment closed behind ih => exact ih
  | @token pos kind source text rest last spans lexes behind ih =>
    intro span member
    rcases List.mem_cons.mp member with rfl | member
    · exact ⟨rest, by simpa using lexes⟩
    · exact ih span member

end Covers

section Lexes

variable {source text rest : List Char} {kind : Token.Kind}

theorem Lexes.isReread (lexes : Lexes source kind text rest) : IsReread source kind text rest := by
  obtain ⟨c, cs, rfl, read⟩ := lexes
  obtain ⟨source, split, -, again⟩ := exists_lexes (read 0)
  rw [← List.cons_append] at split
  rw [List.append_cancel_right split]
  exact again

theorem Lexes.kind_ne_eof (lexes : Lexes source kind text rest) : kind ≠ .eof := by
  obtain ⟨c, cs, rfl, read⟩ := lexes
  exact (readsToken (read 0)).kind_ne_eof

theorem Lexes.source_ne_nil (lexes : Lexes source kind text rest) : source ≠ [] := by
  obtain ⟨c, cs, rfl, -⟩ := lexes
  simp

/-- A source alone has its token and no other. -/
theorem Lexes.alone (lexes : Lexes source kind text rest) :
    tokenize (String.ofList source) =
      .ok [⟨kind, String.ofList text, 0⟩, ⟨.eof, "", byteSize source⟩] := by
  -- Where the text ends, nothing goes on that would not have gone on in front of `rest`.
  have alone : Lexes source kind text [] :=
    lexes.isReread [] (endsAlike_nil _ rest) (by simp [KeepsBackslash])
  have read := tokensFrom_lexes alone 0
  rw [List.append_nil] at read
  unfold tokenize
  rw [String.toList_ofList, read, tokensFrom, Nat.zero_add]

end Lexes

end Lexer

open Lexer in
/-- The text of a selector is cut into comments, the last one possibly without an end, and the
sources of its tokens, one behind the other; `eof` stands behind all of them. Each source is not
empty, stands at the offset of its token, and alone it has that token and no other. -/
theorem tokenize_spans {text : String} {tokens : List Token} (lexed : tokenize text = .ok tokens) :
    ∃ spans last, Covers 0 text.toList spans last ∧
      tokens = spans.map Span.token ++ [⟨.eof, "", text.utf8ByteSize⟩] ∧
      spans.Pairwise (fun first second => first.stop ≤ second.token.pos) ∧
      ∀ span ∈ spans, span.source ≠ [] ∧ span.IsIn text.toList ∧ span.token.kind ≠ .eof ∧
        tokenize (String.ofList span.source) =
          .ok [{ span.token with pos := 0 }, ⟨.eof, "", byteSize span.source⟩] := by
  obtain ⟨spans, last, covers, same⟩ := tokensFrom_eq_ok_iff.mp lexed
  refine ⟨spans, last, covers, ?_, covers.pairwise, fun span member => ?_⟩
  · rw [same, Token.utf8ByteSize_eq, Nat.zero_add]
  · obtain ⟨rest, lexes⟩ := covers.lexes span member
    obtain ⟨before, behind, split, here⟩ := covers.isIn span member
    refine ⟨lexes.source_ne_nil, ⟨before, behind, split, by simpa using here⟩,
      lexes.kind_ne_eof, ?_⟩
    -- what ends in front of the rest ends at the end of the text too
    have alone := lexes.alone
    rwa [String.ofList_toList] at alone

open Lexer in
/-- An escape that takes the blank behind it, and comments, the last one without an end. -/
theorem tokenize_spans_escape :
    ∃ tokens, tokenize "\\61 b/*x*/ #c/*" = .ok tokens ∧
      ∃ spans last, Covers 0 "\\61 b/*x*/ #c/*".toList spans last ∧
        tokens = spans.map Span.token ++ [⟨.eof, "", "\\61 b/*x*/ #c/*".utf8ByteSize⟩] ∧
        spans.Pairwise (fun first second => first.stop ≤ second.token.pos) ∧
        ∀ span ∈ spans, span.source ≠ [] ∧ span.IsIn "\\61 b/*x*/ #c/*".toList ∧
          span.token.kind ≠ .eof ∧
          tokenize (String.ofList span.source) =
            .ok [{ span.token with pos := 0 }, ⟨.eof, "", byteSize span.source⟩] := by
  have lexed : (tokenize "\\61 b/*x*/ #c/*").toOption = some
      [⟨.ident, "ab", 0⟩, ⟨.space, " ", 10⟩, ⟨.hash, "c", 11⟩, ⟨.eof, "", 15⟩] := by
    decide +kernel
  exact ⟨_, tokenize_eq_ok lexed, tokenize_spans (tokenize_eq_ok lexed)⟩

end SelectorPath
