import SelectorPath.Proofs.Token.Span

/-!
# Gaps between tokens

What stands between two tokens is made of blanks and comments. Where blanks have been dropped from a
list of tokens, the tokens that are kept show by their offsets alone where something stood between
them: the source of a token without escapes is as long as its value and its marks, so its end is
known, and the next token starts there or later. It starts later exactly if a blank or a comment
lies between. So the text that `Token.join` makes of kept tokens has one space for each gap of the
source, whatever the tokens are rendered as.

## Main definitions

* `Token.kept` — the tokens that are neither blanks nor the end of the input
* `Lexer.IsGap` — blanks and comments
* `Lexer.Alternates` — a text as kept tokens and the gaps in front of them
* `Lexer.spaced` — rendered tokens with one space for each gap

## Main results

* `Lexer.Covers.exists_alternates` — every text with tokens alternates
* `tokenize_join` — kept tokens are joined as the gaps of the source say
-/

namespace SelectorPath

/-- The tokens that are neither blanks nor the end of the input. -/
def Token.kept (tokens : List Token) : List Token :=
  tokens.filter fun token => token.kind != .space && token.kind != .eof

namespace Lexer

open Text

/-! ### Gaps -/

/-- Blanks and comments, in any number and order. -/
inductive IsGap : List Char → Prop
  | nil : IsGap []
  | blank {c : Char} {cs : List Char} (blank : isCssBlank c = true) (behind : IsGap cs) :
      IsGap (c :: cs)
  | comment {source cs : List Char} (closed : IsComment source) (behind : IsGap cs) :
      IsGap (source ++ cs)

/-- The text has a blank or a comment in it. -/
def Separates (cs : List Char) : Prop :=
  (∃ c ∈ cs, isCssBlank c = true) ∨ ∃ source, IsComment source ∧ source <:+: cs

/-- What a text ends with behind its last token: a gap, and possibly a comment without an end. -/
def IsTrail (cs : List Char) : Prop :=
  ∃ gap last, cs = gap ++ last ∧ IsGap gap ∧
    (last = [] ∨ ∃ inside, last = '/' :: '*' :: inside ∧ ¬['*', '/'] <:+: inside)

theorem IsComment.ne_nil {source : List Char} (closed : IsComment source) : source ≠ [] := by
  obtain ⟨inside, rfl, -⟩ := closed
  exact List.cons_ne_nil _ _

section Gap

variable {gap cs : List Char}

theorem isGap_of_blanks (blanks : ∀ c ∈ cs, isCssBlank c = true) : IsGap cs := by
  induction cs with
  | nil => exact .nil
  | cons c cs ih =>
    exact .blank (blanks c List.mem_cons_self) (ih fun d member =>
      blanks d (List.mem_cons_of_mem c member))

theorem IsComment.isGap (closed : IsComment cs) : IsGap cs := by
  have alone := IsGap.comment closed .nil
  rwa [List.append_nil] at alone

theorem IsGap.append (isGap : IsGap gap) (behind : IsGap cs) : IsGap (gap ++ cs) := by
  induction isGap with
  | nil => exact behind
  | blank blank _ ih => exact .blank blank ih
  | comment closed _ ih =>
    rw [List.append_assoc]
    exact .comment closed ih

theorem IsTrail.prepend (isGap : IsGap gap) (trail : IsTrail cs) : IsTrail (gap ++ cs) := by
  obtain ⟨more, last, rfl, behind, opened⟩ := trail
  exact ⟨gap ++ more, last, (List.append_assoc ..).symm, isGap.append behind, opened⟩

/-- A gap that is not empty has a blank or a comment in it, and nothing else could be in it. -/
theorem IsGap.ne_nil_iff (isGap : IsGap gap) : gap ≠ [] ↔ Separates gap := by
  constructor
  · intro nonempty
    cases isGap with
    | nil => exact absurd rfl nonempty
    | @blank c _ blank => exact .inl ⟨c, List.mem_cons_self, blank⟩
    | @comment source cs closed => exact .inr ⟨source, closed, [], cs, rfl⟩
  · rintro (⟨c, member, -⟩ | ⟨source, closed, inside⟩)
    · exact List.ne_nil_of_mem member
    · rintro rfl
      exact closed.ne_nil (List.infix_nil.mp inside)

end Gap

/-! ### What a token is read by -/

section Read

variable {c : Char} {cs source text rest : List Char} {kind : Token.Kind}

/-- The source of a token of blanks holds nothing but blanks. -/
theorem Lexes.isCssBlank (lexes : Lexes source .space text rest) :
    ∀ c ∈ source, isCssBlank c = true := by
  obtain ⟨c, cs, rfl, read⟩ := lexes
  cases readsToken (read 0) with
  | plain _ _ found =>
    cases readsPlain found with
    | blanks found =>
      obtain ⟨-, -, behind⟩ := readBlanks_eq_some_iff.mp found
      have whole := List.takeWhile_append_dropWhile (p := Text.isCssBlank) (l := c :: (cs ++ rest))
      rw [behind, ← List.cons_append] at whole
      rw [← List.append_cancel_right whole]
      exact fun d member => of_mem_takeWhile member

/-- A source without backslashes alone shows its token. -/
theorem Lexes.shows (lexes : Lexes source kind text rest) (plain : '\\' ∉ source) :
    Shows kind text source [] := by
  have alone : Lexes source kind text [] :=
    lexes.isReread [] (endsAlike_nil _ rest) (by simp [KeepsBackslash])
  obtain ⟨c, cs, rfl, read⟩ := alone
  have found := read 0
  rw [List.append_nil] at found
  obtain ⟨source, split, shown⟩ := readLexeme_shows plain found
  rw [List.append_nil] at split
  rwa [split]

/-- A token without escapes ends where its source does. -/
theorem Lexes.endPos_eq {span : Span}
    (lexes : Lexes span.source span.token.kind span.token.value.toList rest)
    (plain : '\\' ∉ span.source) : span.token.endPos = span.stop := by
  rw [Span.stop, (lexes.shows plain).byteSize, Token.endPos, Token.utf8ByteSize_eq, Nat.add_assoc]

end Read

/-! ### Kept tokens and what stands in front of them -/

/-- A token with its source, and the gap in front of it. -/
structure Part where
  gap : List Char
  span : Span

/-- One space for a gap, and none where there is nothing. -/
def Part.separator (part : Part) : String := if part.gap = [] then "" else " "

/-- The rendered tokens, each behind the space for its gap. -/
def spacedBehind (render : Token → String) : List Part → String
  | [] => ""
  | part :: others => part.separator ++ render part.span.token ++ spacedBehind render others

/-- The rendered tokens with one space for each gap between two of them. -/
def spaced (render : Token → String) : List Part → String
  | [] => ""
  | first :: others => render first.span.token ++ spacedBehind render others

/-- From the offset on the text consists of gaps and the sources of tokens that are no blanks, in
turns, and of what is left behind the last token. -/
inductive Alternates : Nat → List Char → List Part → List Char → Prop
  | done {pos : Nat} {last : List Char} (trail : IsTrail last) : Alternates pos last [] last
  | part {pos : Nat} {gap rest last : List Char} {span : Span} {others : List Part}
      (isGap : IsGap gap) (here : span.token.pos = pos + byteSize gap)
      (kept : span.token.kind ≠ .space)
      (lexes : Lexes span.source span.token.kind span.token.value.toList rest)
      (behind : Alternates span.stop rest others last) :
      Alternates pos (gap ++ (span.source ++ rest)) (⟨gap, span⟩ :: others) last

section Alternates

variable {pos : Nat} {gap cs last : List Char} {parts : List Part} {spans : List Span}

/-- A gap in front of a text belongs to its first token, or to what is left at the end. -/
theorem Alternates.prepend (isGap : IsGap gap)
    (alternates : Alternates (pos + byteSize gap) cs parts last) :
    ∃ others behind, Alternates pos (gap ++ cs) others behind ∧
      others.map Part.span = parts.map Part.span := by
  cases alternates with
  | done trail => exact ⟨[], gap ++ cs, .done (trail.prepend isGap), rfl⟩
  | @part _ more rest _ span others isGapBehind here kept lexes behind =>
    -- the two gaps are one
    refine ⟨⟨gap ++ more, span⟩ :: others, last, ?_, rfl⟩
    rw [← List.append_assoc]
    refine .part (isGap.append isGapBehind) ?_ kept lexes behind
    rw [here, byteSize_append, Nat.add_assoc]

/-- A text that is cut into comments and tokens alternates between gaps and kept tokens. -/
theorem Covers.exists_alternates (covers : Covers pos cs spans last) :
    ∃ parts behind, Alternates pos cs parts behind ∧
      parts.map Part.span = spans.filter fun span => span.token.kind != .space := by
  induction covers with
  | nothing pos => exact ⟨[], [], .done ⟨[], [], rfl, .nil, .inl rfl⟩, rfl⟩
  | @unclosed pos inside noEnd =>
    exact ⟨[], _, .done ⟨[], _, rfl, .nil, .inr ⟨inside, rfl, noEnd⟩⟩, rfl⟩
  | comment closed _ ih =>
    obtain ⟨parts, behind, alternates, same⟩ := ih
    obtain ⟨others, trail, longer, kept⟩ := alternates.prepend closed.isGap
    exact ⟨others, trail, longer, kept.trans same⟩
  | @token pos kind source text rest last spans lexes _ ih =>
    obtain ⟨parts, behind, alternates, same⟩ := ih
    by_cases blank : kind = .space
    · -- a token of blanks is not kept, and its source goes with the gap
      subst blank
      obtain ⟨others, trail, longer, kept⟩ := alternates.prepend (isGap_of_blanks lexes.isCssBlank)
      exact ⟨others, trail, longer, by simpa using kept.trans same⟩
    · refine ⟨⟨[], source, kind, String.ofList text, pos⟩ :: parts, behind, ?_, ?_⟩
      · have here : Lexes source kind (String.ofList text).toList rest := by simpa using lexes
        exact @Alternates.part pos [] rest behind ⟨source, kind, String.ofList text, pos⟩ parts
          .nil rfl blank here alternates
      · simp [blank, same]

theorem Alternates.source_subset (alternates : Alternates pos cs parts last) :
    ∀ part ∈ parts, part.span.source ⊆ cs := by
  induction alternates with
  | done => simp
  | @part pos gap rest last span others isGap here kept lexes behind ih =>
    refine List.forall_mem_cons.mpr ⟨?_, fun part member => ?_⟩
    · exact List.subset_append_of_subset_right _ (List.subset_append_left _ _)
    · exact List.subset_append_of_subset_right _
        (List.subset_append_of_subset_right _ (ih part member))

/-- Where no source has an escape, kept tokens behind an offset are joined as their gaps say. -/
theorem Alternates.joinAfter (render : Token → String) (alternates : Alternates pos cs parts last)
    (plain : ∀ part ∈ parts, '\\' ∉ part.span.source) :
    Token.joinAfter render pos (parts.map (·.span.token)) = spacedBehind render parts := by
  induction alternates with
  | done => rfl
  | @part pos gap rest last span others isGap here kept lexes behind ih =>
    obtain ⟨plainHere, plainBehind⟩ := List.forall_mem_cons.mp plain
    -- a gap has at least one byte, so the offset of the token shows whether there is one
    have begins : pos < span.token.pos ↔ gap ≠ [] := by
      rw [here]
      refine ⟨?_, fun nonempty => Nat.lt_add_of_pos_right (byteSize_pos nonempty)⟩
      rintro later rfl
      exact absurd later (Nat.lt_irrefl _)
    rw [List.map_cons, Token.joinAfter, lexes.endPos_eq plainHere, ih plainBehind, spacedBehind,
      Part.separator]
    simp only [begins, ite_not]

/-- In front of the first kept token stands no space, whatever gap is there. -/
theorem Alternates.join (render : Token → String) (alternates : Alternates pos cs parts last)
    (plain : ∀ part ∈ parts, '\\' ∉ part.span.source) :
    Token.join render (parts.map (·.span.token)) = spaced render parts := by
  cases alternates with
  | done => rfl
  | part isGap here kept lexes behind =>
    obtain ⟨plainHere, plainBehind⟩ := List.forall_mem_cons.mp plain
    rw [List.map_cons, Token.join, lexes.endPos_eq plainHere, behind.joinAfter render plainBehind,
      spaced]

theorem Alternates.isGap (alternates : Alternates pos cs parts last) :
    ∀ part ∈ parts, IsGap part.gap := by
  induction alternates with
  | done => simp
  | part isGap _ _ _ _ ih => exact List.forall_mem_cons.mpr ⟨isGap, ih⟩

/-- The kept tokens of a text are those that its gaps stand in front of. -/
theorem Covers.kept_eq (covers : Covers pos cs spans last)
    (same : parts.map Part.span = spans.filter fun span => span.token.kind != .space) (stop : Nat) :
    Token.kept (spans.map Span.token ++ [⟨.eof, "", stop⟩]) = parts.map (·.span.token) := by
  have inside : ∀ span ∈ spans, (span.token.kind != .eof) = true := by
    intro span member
    obtain ⟨rest, lexes⟩ := covers.lexes span member
    exact bne_iff_ne.mpr lexes.kind_ne_eof
  calc Token.kept (spans.map Span.token ++ [⟨.eof, "", stop⟩])
      = (spans.filter fun span => span.token.kind != .space).map Span.token := by
        simp only [Token.kept, List.filter_append, List.filter_map, Function.comp_def]
        rw [List.filter_congr fun span member => by rw [inside span member, Bool.and_true]]
        simp
    _ = parts.map (·.span.token) := by
        rw [← same, List.map_map]
        rfl

end Alternates

end Lexer

open Lexer in
/-- Kept tokens are joined as the source has them. In a text without backslashes the kept tokens
stand between gaps, which consist of blanks and comments, and whatever they are rendered as, the
joined text has one space between two neighbours if a blank or a comment stands between their
sources, and no space anywhere else. -/
theorem tokenize_join {text : String} {tokens : List Token} (plain : '\\' ∉ text.toList)
    (lexed : tokenize text = .ok tokens) :
    ∃ parts last, Alternates 0 text.toList parts last ∧
      Token.kept tokens = parts.map (·.span.token) ∧
      (∀ part ∈ parts, part.gap ≠ [] ↔ Separates part.gap) ∧
      ∀ render, Token.join render (Token.kept tokens) = spaced render parts := by
  obtain ⟨spans, opened, covers, rfl⟩ := tokensFrom_eq_ok_iff.mp lexed
  obtain ⟨parts, last, alternates, same⟩ := covers.exists_alternates
  have kept := covers.kept_eq same (0 + byteSize text.toList)
  refine ⟨parts, last, alternates, kept, fun part member => ?_, fun render => ?_⟩
  · exact (alternates.isGap part member).ne_nil_iff
  · rw [kept]
    exact alternates.join render fun part member escape =>
      plain (alternates.source_subset part member escape)

open Lexer in
/-- A comment behind a name of two bytes, a hash and a string side by side, and two blanks. -/
theorem tokenize_join_comment :
    '\\' ∉ "é/*x*/#b'c'\t\n+".toList ∧
      ∃ tokens, tokenize "é/*x*/#b'c'\t\n+" = .ok tokens ∧
        ∃ parts last, Alternates 0 "é/*x*/#b'c'\t\n+".toList parts last ∧
          Token.kept tokens = parts.map (·.span.token) ∧
          (∀ part ∈ parts, part.gap ≠ [] ↔ Separates part.gap) ∧
          ∀ render, Token.join render (Token.kept tokens) = spaced render parts := by
  have plain : '\\' ∉ "é/*x*/#b'c'\t\n+".toList := by decide +kernel
  have lexed : (tokenize "é/*x*/#b'c'\t\n+").toOption = some
      [⟨.ident, "é", 0⟩, ⟨.hash, "b", 7⟩, ⟨.string, "c", 9⟩, ⟨.space, "\t\n", 12⟩,
        ⟨.delim, "+", 14⟩, ⟨.eof, "", 15⟩] := by
    decide +kernel
  exact ⟨plain, _, tokenize_eq_ok lexed, tokenize_join plain (tokenize_eq_ok lexed)⟩

end SelectorPath
