import SelectorPath.Proofs.Token.Span

/-!
# Texts cut and joined between tokens

Where a token starts a text can be cut: the tokens in front of it are those of the first part alone,
and it and those behind it are those of the second part, from there on. The parts can be joined
again with other text between them if that starts with a character that belongs to no token in front
of it. A comma is such a character, unless it stands in a comment or is escaped by a backslash at
the end. So the tokens of two texts with a comma between them are those of the first, the comma, and
those of the second, moved behind the comma.

## Main definitions

* `HasOpenComment` — a comment in the text has no end
* `IsCut` — a text cut around a token
* `Token.shift` — a token at a later offset

## Main results

* `Covers.exists_cut`, `exists_cut_of_tokenize` — a text is cut around any of its tokens
* `Covers.append_stop` — a text with another one behind it that starts with a stop
* `tokenize_append_comma` — the tokens of two texts with a comma between them
-/

namespace SelectorPath

/-- The token at an offset later by `distance`. -/
def Token.shift (distance : Nat) (token : Token) : Token :=
  { token with pos := token.pos + distance }

namespace Lexer

/-- The span at an offset later by `distance`. -/
def Span.shift (distance : Nat) (span : Span) : Span :=
  { span with token := span.token.shift distance }

/-- The text has a comment without an end. -/
def HasOpenComment (text : String) : Prop :=
  ∃ spans last, Covers 0 text.toList spans last ∧ last ≠ []

section Covers

variable {pos : Nat} {cs last : List Char} {spans : List Span}

/-- What covers a text covers it at a later offset. -/
theorem Covers.shift (covers : Covers pos cs spans last) (distance : Nat) :
    Covers (pos + distance) cs (spans.map (Span.shift distance)) last := by
  induction covers with
  | nothing pos => exact .nothing _
  | unclosed noEnd => exact .unclosed noEnd
  | comment closed behind ih =>
    rw [Nat.add_right_comm] at ih
    exact .comment closed ih
  | token lexes behind ih =>
    rw [Nat.add_right_comm] at ih
    exact .token lexes ih

/-- A token in front of what covers the rest. -/
theorem Covers.cons {span : Span} {rest : List Char} (behind : Covers span.stop rest spans last)
    (lexes : Lexes span.source span.token.kind span.token.value.toList rest) :
    Covers span.token.pos (span.source ++ rest) (span :: spans) last := by
  have covers := Covers.token lexes behind
  rwa [String.ofList_toList] at covers

/-- From the offset on, the text consists of `front`, the source of `span` and `back`, where the
spans before and behind are. -/
structure IsCut (pos : Nat) (front : List Char) (before : List Span) (span : Span)
    (back : List Char) (after : List Span) (last : List Char) : Prop where
  here : span.token.pos = pos + byteSize front
  upTo : Covers pos front before []
  through : Covers pos (front ++ span.source) (before ++ [span]) []
  lexes : Lexes span.source span.token.kind span.token.value.toList back
  behind : Covers span.stop back after last

/-- What covers a text can be cut around any of its tokens. -/
theorem Covers.exists_cut {before after : List Span} {span : Span}
    (covers : Covers pos cs (before ++ span :: after) last) :
    ∃ front back, cs = front ++ (span.source ++ back) ∧
      IsCut pos front before span back after last := by
  generalize all : before ++ span :: after = spans at covers
  induction covers generalizing before with
  | nothing | unclosed => simp at all
  | @comment pos source rest last spans closed _ ih =>
    obtain ⟨front, back, rfl, cut⟩ := ih all
    refine ⟨source ++ front, back, by rw [List.append_assoc], ?_, .comment closed cut.upTo, ?_,
      cut.lexes, cut.behind⟩
    · rw [cut.here, byteSize_append, Nat.add_assoc]
    · rw [List.append_assoc]
      exact .comment closed cut.through
  | @token pos kind source text rest last spans lexes covers ih =>
    cases before with
    | nil =>
      obtain ⟨rfl, rfl⟩ := List.cons.inj all
      have alone := lexes.isReread [] (endsAlike_nil _ rest) (by simp [KeepsBackslash])
      exact ⟨[], rest, rfl, rfl, .nothing pos, by simpa using Covers.token alone (.nothing _),
        by simpa using lexes, covers⟩
    | cons first before =>
      obtain ⟨rfl, others⟩ := List.cons.inj all
      obtain ⟨front, back, rfl, cut⟩ := ih others
      -- what ended in front of the whole rest ends in front of any start of it
      have again (start behind : List Char)
          (split : front ++ (span.source ++ back) = start ++ behind) :
          Lexes source kind text start := by
        rw [split] at lexes
        refine lexes.isReread start (endsAlike_start _ start behind) fun _ d first => ?_
        obtain ⟨ds, rfl⟩ := List.head?_eq_some_iff.mp first
        rfl
      refine ⟨source ++ front, back, by rw [List.append_assoc], ?_, ?_, ?_, cut.lexes, cut.behind⟩
      · rw [cut.here, byteSize_append, Nat.add_assoc]
      · exact .token (again front _ rfl) cut.upTo
      · rw [List.append_assoc]
        exact .token (again (front ++ span.source) back (List.append_assoc ..).symm) cut.through

/-- An open comment has a start. -/
theorem Covers.infix_of_open (covers : Covers pos cs spans last) (opened : last ≠ []) :
    ['/', '*'] <:+: cs := by
  induction covers with
  | nothing => exact absurd rfl opened
  | @unclosed _ inside => exact ⟨[], inside, rfl⟩
  | comment _ _ ih | token _ _ ih => exact (ih opened).trans (List.suffix_append _ _).isInfix

/-- Without the start of a comment no comment is open. -/
theorem not_hasOpenComment {text : String} (noStart : ¬['/', '*'] <:+: text.toList) :
    ¬HasOpenComment text := by
  rintro ⟨spans, last, covers, opened⟩
  exact noStart (covers.infix_of_open opened)

/-- Nothing covers nothing. -/
theorem Covers.eq_nil (covers : Covers pos cs spans last) (empty : cs = []) : spans = [] := by
  cases covers with
  | nothing | unclosed => rfl
  | comment closed =>
    obtain ⟨inside, rfl, -⟩ := closed
    simp at empty
  | token lexes => exact absurd (List.append_eq_nil_iff.mp empty).1 lexes.source_ne_nil

/-- A backslash alone is a token alone. -/
theorem Covers.of_backslash (covers : Covers pos cs spans last) (lone : cs = ['\\']) :
    ∃ span, spans = [span] ∧ span.source = ['\\'] := by
  cases covers with
  | nothing => simp at lone
  | unclosed => simp at lone
  | comment closed =>
    obtain ⟨inside, rfl, -⟩ := closed
    simp at lone
  | token lexes behind =>
    obtain ⟨c, more, rfl⟩ := List.exists_cons_of_ne_nil lexes.source_ne_nil
    obtain ⟨rfl, nothing⟩ := List.cons.inj lone
    obtain ⟨rfl, rest⟩ := List.append_eq_nil_iff.mp nothing
    exact ⟨_, by rw [behind.eq_nil rest], rfl⟩

/-- The first of several spans is followed by the others, and the last of these is the last of
all. -/
theorem mem_getLast?_cons {spans : List Span} {span first : Span} (member : span ∈ spans.getLast?) :
    span ∈ (first :: spans).getLast? := by
  rw [List.getLast?_cons, Option.mem_def.mp member]
  rfl

/-- A token is read alike in front of its rest and a stop: only a backslash reads on, and where
there is no rest a token that goes on with the stop. -/
theorem Lexes.append_stop {source text rest : List Char} {kind : Token.Kind}
    (lexes : Lexes source kind text rest) (noEscape : rest ≠ ['\\'])
    (noBackslash : rest = [] → source ≠ ['\\']) {stop : Char} (loose : stop ∈ looseStops)
    (stops : rest = [] → stop ∈ stopsOf kind) (behind : List Char) :
    Lexes source kind text (rest ++ stop :: behind) := by
  refine lexes.isReread _ (endsAlike_append noEscape loose stops behind) fun same => ?_
  by_cases empty : rest = []
  · exact absurd same (noBackslash empty)
  · obtain ⟨c, more, rfl⟩ := List.exists_cons_of_ne_nil empty
    exact fun d first => first

/-- Behind a token that is not the last one no lone backslash is left. -/
theorem Covers.ne_backslash (covers : Covers pos cs spans last)
    (noBackslash : ∀ span ∈ spans.getLast?, span.source ≠ ['\\']) : cs ≠ ['\\'] := by
  intro lone
  obtain ⟨span, rfl, same⟩ := covers.of_backslash lone
  exact noBackslash span rfl same

/-- A stop behind a text goes on with neither its tokens nor its comments. -/
theorem Covers.append_stop (covers : Covers pos cs spans last) (closed : last = []) {stop : Char}
    (loose : stop ∈ looseStops)
    (stops : ∀ span ∈ spans.getLast?, span.source ≠ ['\\'] ∧ stop ∈ stopsOf span.token.kind)
    {behind lastBehind : List Char} {spansBehind : List Span}
    (next : Covers (pos + byteSize cs) (stop :: behind) spansBehind lastBehind) :
    Covers pos (cs ++ stop :: behind) (spans ++ spansBehind) lastBehind := by
  induction covers with
  | nothing pos => exact next
  | unclosed => simp at closed
  | @comment pos source rest last spans comment _ ih =>
    rw [byteSize_append, ← Nat.add_assoc] at next
    rw [List.append_assoc]
    exact .comment comment (ih closed stops next)
  | @token pos kind source text rest last spans lexes covers ih =>
    rw [byteSize_append, ← Nat.add_assoc] at next
    rw [List.append_assoc]
    have others (span : Span) (member : span ∈ spans.getLast?) :
        span.source ≠ ['\\'] ∧ stop ∈ stopsOf span.token.kind :=
      stops span (mem_getLast?_cons member)
    have here (empty : rest = []) : source ≠ ['\\'] ∧ stop ∈ stopsOf kind :=
      stops _ (by rw [covers.eq_nil empty]; rfl)
    exact .token (lexes.append_stop (covers.ne_backslash fun span member => (others span member).1)
      (fun empty => (here empty).1) loose (fun empty => (here empty).2) behind)
      (ih closed others next)

/-- No token but a lone backslash goes on with a firm stop. -/
theorem mem_stopsOf_of_firm {stop : Char} (firm : stop ∈ firmStops) (kind : Token.Kind) :
    stop ∈ stopsOf kind := by
  cases kind <;> first | exact firm | exact firmStops_subset firm

end Covers

theorem Lexes.eq_backslash {text rest : List Char} {kind : Token.Kind}
    (lexes : Lexes ['\\'] kind text rest) : kind = .delim ∧ text = ['\\'] := by
  have lexed : tokenize (String.ofList ['\\']) = .ok [⟨.delim, "\\", 0⟩, ⟨.eof, "", 1⟩] :=
    tokenize_eq_ok (by decide +kernel)
  have same := lexed.symm.trans lexes.alone
  simp only [Except.ok.injEq, List.cons.injEq, Token.mk.injEq] at same
  exact ⟨same.1.1.symm, by rw [← String.toList_ofList (l := text), ← same.1.2.1]; rfl⟩

/-- Only the token of a lone backslash has it as its source. -/
theorem Covers.source_ne_backslash {pos : Nat} {cs last : List Char} {spans : List Span}
    (covers : Covers pos cs spans last) {span : Span} (member : span ∈ spans)
    (noBackslash : span.token.isDelim "\\" = false) : span.source ≠ ['\\'] := by
  intro same
  obtain ⟨rest, lexes⟩ := covers.lexes span member
  rw [same] at lexes
  obtain ⟨kind, value⟩ := lexes.eq_backslash
  have text : span.token.value = "\\" := by rw [← String.toList_inj, value]; rfl
  exact absurd noBackslash (by simp [Token.isDelim, kind, text])

/-- Where no lone backslash comes last, the last source is none. -/
theorem Covers.getLast?_ne_backslash {pos : Nat} {cs last : List Char} {spans : List Span}
    (covers : Covers pos cs spans last)
    (noBackslash : ∀ token ∈ (spans.map Span.token).getLast?, token.isDelim "\\" = false) :
    ∀ span ∈ spans.getLast?, span.source ≠ ['\\'] := by
  intro span member
  refine covers.source_ne_backslash (List.mem_of_mem_getLast? member) (noBackslash _ ?_)
  rw [List.getLast?_map, Option.mem_def.mp member]
  rfl

/-- A text is cut around any of its tokens. -/
theorem exists_cut_of_tokenize {text : String} {before after : List Token} {token : Token}
    (lexed : tokenize text = .ok (before ++ token :: after)) (notEof : token.kind ≠ .eof) :
    ∃ front back spans span others last, text.toList = front ++ (span.source ++ back) ∧
      IsCut 0 front spans span back others last ∧ token = span.token ∧
      before = spans.map Span.token ∧
      after = others.map Span.token ++ [⟨.eof, "", byteSize text.toList⟩] := by
  obtain ⟨spans, last, covers, same⟩ := tokensFrom_eq_ok_iff.mp lexed
  -- the token at the end is the only one of its kind, so `token` is not that one
  obtain ⟨rest, rfl⟩ : ∃ rest, after = rest ++ [⟨.eof, "", byteSize text.toList⟩] := by
    rcases List.eq_nil_or_concat after with rfl | ⟨rest, final, rfl⟩
    · obtain ⟨-, final⟩ := List.append_inj' same rfl
      rw [(List.cons.inj final).1] at notEof
      exact absurd rfl notEof
    · rw [List.concat_eq_append, ← List.cons_append, ← List.append_assoc] at same
      obtain ⟨-, final⟩ := List.append_inj' same rfl
      rw [(List.cons.inj final).1, Nat.zero_add]
      exact ⟨rest, List.concat_eq_append⟩
  rw [← List.cons_append, ← List.append_assoc] at same
  obtain ⟨split, -⟩ := List.append_inj' same rfl
  obtain ⟨before, behind, rfl, rfl, tail⟩ := List.map_eq_append_iff.mp split.symm
  obtain ⟨span, others, rfl, rfl, rfl⟩ := List.map_eq_cons_iff.mp tail
  obtain ⟨front, back, whole, cut⟩ := covers.exists_cut
  exact ⟨front, back, before, span, others, last, whole, cut, rfl, rfl, rfl⟩

end Lexer

open Lexer in
/-- The tokens of two texts with a comma between them. -/
theorem tokenize_append_comma {first second : String} {before after : List Token} {last : Token}
    (lexedFirst : tokenize first = .ok (before ++ [last]))
    (lexedSecond : tokenize second = .ok after)
    (closed : ¬HasOpenComment first)
    (noBackslash : ∀ token ∈ before, token.isDelim "\\" = false) :
    tokenize (first ++ "," ++ second) =
      .ok (before ++ ⟨.delim, ",", first.utf8ByteSize⟩ ::
        after.map (Token.shift (first.utf8ByteSize + 1))) := by
  obtain ⟨spans, opened, covers, same⟩ := tokensFrom_eq_ok_iff.mp lexedFirst
  obtain ⟨spansBehind, openedBehind, coversBehind, rfl⟩ := tokensFrom_eq_ok_iff.mp lexedSecond
  obtain ⟨rfl, -⟩ := List.append_inj' same rfl
  have complete : opened = [] := Decidable.byContradiction fun some =>
    closed ⟨spans, opened, covers, some⟩
  have shifted := coversBehind.shift (0 + byteSize first.toList + 1)
  rw [Nat.zero_add] at shifted
  have comma : Covers (0 + byteSize first.toList) (',' :: second.toList)
      (⟨[','], .delim, ",", 0 + byteSize first.toList⟩ :: _) openedBehind :=
    .token (lexes_bracket (by decide)) shifted
  have sources (span : Span) (member : span ∈ spans.getLast?) : span.source ≠ ['\\'] := by
    have inside := List.mem_of_mem_getLast? member
    exact covers.source_ne_backslash inside (noBackslash _ (List.mem_map_of_mem inside))
  have both := covers.append_stop complete (by decide)
    (fun span member => ⟨sources span member, mem_stopsOf_of_firm (by decide) _⟩) comma
  have text : (first ++ "," ++ second).toList = first.toList ++ ',' :: second.toList := by simp
  have length : 0 + byteSize (first.toList ++ ',' :: second.toList) =
      byteSize second.toList + (byteSize first.toList + 1) := by
    rw [byteSize_append, byteSize, show (',').utf8Size = 1 from rfl]
    omega
  have lexed := tokensFrom_of_covers both
  rw [length, ← text] at lexed
  unfold tokenize
  rw [lexed]
  simp [Token.utf8ByteSize_eq, Token.shift, Span.shift, Function.comp_def]

end SelectorPath
