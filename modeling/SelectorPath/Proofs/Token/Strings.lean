import SelectorPath.Proofs.Token.Escapes
import SelectorPath.Proofs.Token.Span

/-!
# The strings of a text

Three characters count as line breaks where a backslash stands in front of them: the line feed, the
carriage return and the form feed. Of these only the line feed is refused in a string without a
backslash; the other two are then characters that mean themselves. So a string is rejected for a
line break exactly if its pieces lead to a line feed, and a string that is accepted may hold
carriage returns and form feeds that no backslash precedes.

## Main definitions

* `Lexer.Reaches` — where comments and tokens in front of a place end

## Main results

* `tokenize_strings` — the strings of a text that has tokens, and the texts that are rejected
* `not_escaped_carriageReturn` — a string with a carriage return and no backslash
-/

namespace SelectorPath

namespace Lexer

open Text

/-- Comments and tokens lead from an offset to a later one, where the text has this rest. -/
inductive Reaches : Nat → List Char → Nat → List Char → Prop
  | here (pos : Nat) (cs : List Char) : Reaches pos cs pos cs
  | comment {pos stop : Nat} {source rest left : List Char} (closed : IsComment source)
      (behind : Reaches (pos + byteSize source) rest stop left) :
      Reaches pos (source ++ rest) stop left
  | token {pos stop : Nat} {kind : Token.Kind} {source text rest left : List Char}
      (lexes : Lexes source kind text rest)
      (behind : Reaches (pos + byteSize source) rest stop left) :
      Reaches pos (source ++ rest) stop left

section Reaches

variable {pos : Nat} {c : Char} {cs : List Char} {e : LexicalError}

/-- Only a string can fail to be a token. -/
theorem readLexeme_error_iff :
    readLexeme pos c cs = .error e ↔ IsQuote c ∧ readString c pos cs = .error e := by
  constructor
  · intro failed
    unfold readLexeme at failed
    split at failed
    · simp at failed
    · split at failed
      · rename_i isQuote
        split at failed
        · simp at failed
        · rename_i found
          exact ⟨isQuote, found.trans (congrArg _ (Except.error.inj failed))⟩
      · simp at failed
  · rintro ⟨rfl | rfl, failed⟩ <;> simp [readLexeme, failed]

/-- A text has no tokens exactly if comments and tokens lead to a string that cannot be read. -/
theorem tokensFrom_error_iff :
    tokensFrom pos cs = .error e ↔ ∃ stop quote behind,
      Reaches pos cs stop (quote :: behind) ∧ IsQuote quote ∧
        readString quote stop behind = .error e := by
  constructor
  · intro failed
    -- the failing string is found by following the tokens from the start
    fun_induction tokensFrom pos cs with
    | case1 => simp at failed
    | case2 pos c tail found lexeme =>
      obtain rfl := Except.error.inj failed
      obtain ⟨isQuote, read⟩ := readLexeme_error_iff.mp lexeme
      exact ⟨pos, c, tail, .here _ _, isQuote, read⟩
    | case3 pos c tail rest next lexeme _ _ ih =>
      rcases exists_comment lexeme with ⟨source, cut, closed⟩ | ⟨rfl, -⟩
      · obtain ⟨stop, quote, behind, reaches, failing⟩ := ih failed
        simp only [next, cut, byteSize_append_sub] at reaches
        exact ⟨stop, quote, behind, cut ▸ .comment closed reaches, failing⟩
      · simp [tokensFrom] at failed
    | case4 => simp at failed
    | case5 pos c tail rest next kind text lexeme found lexed _ _ ih =>
      obtain ⟨source, cut, -, again⟩ := exists_lexes lexeme
      obtain ⟨stop, quote, behind, reaches, failing⟩ := ih (lexed.trans failed)
      simp only [next, cut, byteSize_append_sub] at reaches
      exact ⟨stop, quote, behind,
        cut ▸ .token (again rest (.refl _ rest) fun _ _ first => first) reaches, failing⟩
  · rintro ⟨stop, quote, behind, reaches, isQuote, failed⟩
    generalize left : quote :: behind = rest at reaches
    induction reaches with
    | here pos cs =>
      have failing := readLexeme_error_iff.mpr ⟨isQuote, failed⟩
      rw [← left, tokensFrom]
      split <;> simp_all
    | comment closed _ ih => rw [closed.tokensFrom, ih failed left]
    | token lexes _ ih => rw [tokensFrom_lexes lexes, ih failed left]

/-- The source of a string is its pieces between two quotes. -/
theorem Lexes.exists_inside {source text rest : List Char}
    (lexes : Lexes source .string text rest) :
    ∃ quote pieces, IsQuote quote ∧ source = quote :: (sources pieces ++ [quote]) ∧
      IsInside quote pieces [quote] ∧ text = texts pieces := by
  have alone : Lexes source .string text [] :=
    lexes.isReread [] (endsAlike_nil _ rest) (by simp [KeepsBackslash])
  obtain ⟨c, cs, rfl, read⟩ := alone
  have found := read 0
  rw [List.append_nil] at found
  cases readsToken found with
  | string isQuote found =>
    obtain ⟨pieces, rfl, inside, rfl⟩ := (readString_ok_iff isQuote).mp found
    exact ⟨c, pieces, isQuote, rfl, inside, rfl⟩
  | plain _ _ found => exact absurd rfl (readsPlain found).kind_ne_string

end Reaches

/-- Whatever pieces stand between two quotes, they are one string. -/
theorem lexes_sources {quote : Char} (isQuote : IsQuote quote) {pieces : List Piece}
    (inside : IsInside quote pieces [quote]) :
    Lexes (quote :: (sources pieces ++ [quote])) .string (texts pieces) [] := by
  refine ⟨quote, sources pieces ++ [quote], rfl, fun start => ?_⟩
  have read : readString quote start (sources pieces ++ [quote]) = .ok (texts pieces, []) :=
    (readString_ok_iff isQuote).mpr ⟨pieces, rfl, inside, rfl⟩
  rcases isQuote with rfl | rfl <;> simp [readLexeme, read]

end Lexer

open Lexer Text in
/-- The source of every string is a quote, pieces, and the quote again; a line feed stands in no
piece that means itself, so it is escaped, and a carriage return or a form feed may stand in one.
Any such source is a string. A text is rejected for a line break exactly if comments and tokens lead
to a string whose pieces lead to a line feed, and the error names the offset of its opening quote.
-/
theorem tokenize_strings (text : String) :
    (∀ tokens, tokenize text = .ok tokens → ∃ spans last, Covers 0 text.toList spans last ∧
      tokens = spans.map Span.token ++ [⟨.eof, "", text.utf8ByteSize⟩] ∧
      ∀ span ∈ spans, span.token.kind = .string → ∃ quote pieces, IsQuote quote ∧
        span.source = quote :: (sources pieces ++ [quote]) ∧ IsInside quote pieces [quote] ∧
        span.token.value = String.ofList (texts pieces) ∧
        ∀ c, .plain c ∈ pieces → isLineBreak c = true → c = '\r' ∨ c = '\x0c') ∧
    (∀ quote pieces, IsQuote quote → text.toList = quote :: (sources pieces ++ [quote]) →
      IsInside quote pieces [quote] →
        tokenize text = .ok [⟨.string, String.ofList (texts pieces), 0⟩,
          ⟨.eof, "", text.utf8ByteSize⟩]) ∧
    ∀ pos, tokenize text = .error (.invalidString pos) ↔ ∃ quote pieces behind, IsQuote quote ∧
      Reaches 0 text.toList pos (quote :: (sources pieces ++ '\n' :: behind)) ∧
      IsInside quote pieces ('\n' :: behind) := by
  refine ⟨fun tokens lexed => ?_, fun quote pieces isQuote whole inside => ?_, fun pos => ?_⟩
  · -- every token of the kind has been read by the rule for strings
    obtain ⟨spans, last, covers, rfl⟩ := tokensFrom_eq_ok_iff.mp lexed
    refine ⟨spans, last, covers, by rw [Token.utf8ByteSize_eq, Nat.zero_add], ?_⟩
    intro span member isString
    obtain ⟨rest, lexes⟩ := covers.lexes span member
    rw [isString] at lexes
    obtain ⟨quote, pieces, isQuote, source, inside, value⟩ := lexes.exists_inside
    refine ⟨quote, pieces, isQuote, source, inside, ?_, fun c plain line => ?_⟩
    · rw [← value, String.ofList_toList]
    · simp only [isLineBreak, Bool.or_eq_true, beq_iff_eq] at line
      rcases line with (feed | carriageReturn) | formFeed
      · exact absurd feed (inside.ne_feed plain)
      · exact .inl carriageReturn
      · exact .inr formFeed
  · -- a source is read from its first character, and nothing stands behind it
    have alone := (lexes_sources isQuote inside).alone
    rwa [← whole, String.ofList_toList, ← Token.utf8ByteSize_eq] at alone
  · constructor
    · intro failed
      obtain ⟨stop, quote, behind, reaches, isQuote, failing⟩ := tokensFrom_error_iff.mp failed
      obtain ⟨rfl, pieces, rest, rfl, inside⟩ := (readString_invalid_iff isQuote).mp failing
      exact ⟨quote, pieces, rest, isQuote, reaches, inside⟩
    · rintro ⟨quote, pieces, behind, isQuote, reaches, inside⟩
      exact tokensFrom_error_iff.mpr ⟨pos, quote, _, reaches, isQuote,
        (readString_invalid_iff isQuote).mpr ⟨rfl, pieces, behind, rfl, inside⟩⟩

open Lexer Text in
/-- A string with an escape that takes a line break, a line break behind a backslash, and a form
feed that nothing precedes. -/
theorem tokenize_strings_breaks :
    ∃ tokens, tokenize "'\\61\r\n\\\nb\x0c'" = .ok tokens ∧ ∃ spans last,
      Covers 0 "'\\61\r\n\\\nb\x0c'".toList spans last ∧
      tokens = spans.map Span.token ++ [⟨.eof, "", "'\\61\r\n\\\nb\x0c'".utf8ByteSize⟩] ∧
      ∀ span ∈ spans, span.token.kind = .string → ∃ quote pieces, IsQuote quote ∧
        span.source = quote :: (sources pieces ++ [quote]) ∧ IsInside quote pieces [quote] ∧
        span.token.value = String.ofList (texts pieces) ∧
        ∀ c, .plain c ∈ pieces → isLineBreak c = true → c = '\r' ∨ c = '\x0c' := by
  have lexed : (tokenize "'\\61\r\n\\\nb\x0c'").toOption =
      some [⟨.string, "ab\x0c", 0⟩, ⟨.eof, "", 11⟩] := by
    decide +kernel
  exact ⟨_, tokenize_eq_ok lexed, (tokenize_strings _).1 _ (tokenize_eq_ok lexed)⟩

/-- A carriage return in a string that no backslash precedes, in a text without any. -/
theorem not_escaped_carriageReturn :
    let text := "'a\rb'"
    tokenize text = .ok [⟨.string, "a\rb", 0⟩, ⟨.eof, "", 5⟩] ∧ '\r' ∈ text.toList ∧
      '\\' ∉ text.toList :=
  ⟨tokenize_eq_ok (by decide +kernel), by decide, by decide⟩

end SelectorPath
