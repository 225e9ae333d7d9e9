import SelectorPath.Proofs.Token.Escapes
import SelectorPath.Proofs.Token.Gaps
import SelectorPath.Proofs.Token.Seam

/-!
# Blanks put in between tokens

A run of blanks put in between two tokens is a token of its own, with two exceptions: it makes a
token of blanks beside it longer, and an escape at the end of a name in front of it takes its first
blank. The other tokens keep their kinds and values.

## Main definitions

* `Token.HasRoom` — the offsets beside a sign where blanks may be put in
* `Token.Padded`, `Token.Respaced` — tokens that differ in the blanks beside a sign

## Main results

* `Lexer.Lexes.exists_blanks` — a token in front of blanks, of which it may take the first
* `tokenize_insert_blanks` — the tokens of a text with blanks put in beside a sign
-/

namespace SelectorPath

namespace Token

/-- The signs in front of which blanks may be put in. -/
def closingSigns : List String := [",", ">", "~", "]", ")"]

/-- The signs behind which blanks may be put in. -/
def openingSigns : List String := [",", ">", "~", "[", "("]

/-- The token is one of the signs, and the offset is directly in front of it or directly behind it,
where blanks may be put in. -/
inductive HasRoom (token : Token) : Nat → Prop
  | before (delim : token.kind = .delim) (closing : token.value ∈ closingSigns) :
      HasRoom token token.pos
  | behind (delim : token.kind = .delim) (opening : token.value ∈ openingSigns) :
      HasRoom token (token.pos + 1)

/-- All tokens are blanks. -/
def AreBlanks (tokens : List Token) : Prop := ∀ token ∈ tokens, token.kind = .space

/-- The same tokens but for blanks behind the last of them, where some are still some. -/
inductive Padded : List Token → List Token → Prop
  | intro {kept gap wider : List Token} (blankGap : AreBlanks gap) (blankWider : AreBlanks wider)
      (some : gap ≠ [] → wider ≠ []) : Padded (kept ++ gap) (kept ++ wider)

/-- The same tokens but for blanks directly in front of a sign or directly behind one. -/
inductive Respaced : List Token → List Token → Prop
  | before {before padded after : List Token} {sign : Token} (delim : sign.kind = .delim)
      (closing : sign.value ∈ closingSigns) (isPadded : Padded before padded) :
      Respaced (before ++ sign :: after) (padded ++ sign :: after)
  | behind {before gap wider others : List Token} {sign : Token} (delim : sign.kind = .delim)
      (opening : sign.value ∈ openingSigns) (blankGap : AreBlanks gap)
      (blankWider : AreBlanks wider) :
      Respaced (before ++ sign :: (gap ++ others)) (before ++ sign :: (wider ++ others))

@[simp] theorem unplaced_shift (distance : Nat) (token : Token) :
    (token.shift distance).unplaced = token.unplaced := rfl

theorem AreBlanks.unplaced {tokens : List Token} (blank : AreBlanks tokens) :
    AreBlanks (tokens.map Token.unplaced) :=
  List.forall_mem_map.mpr blank

@[simp] theorem unplaced_mk (kind : Kind) (value : String) (pos : Nat) :
    unplaced ⟨kind, value, pos⟩ = ⟨kind, value, 0⟩ := rfl

section Padded

variable {before padded gap after others : List Token} {sign : Token}

theorem areBlanks_nil : AreBlanks [] := List.forall_mem_nil _

theorem Padded.cons (isPadded : Padded before padded) (first : Token) :
    Padded (first :: before) (first :: padded) := by
  obtain ⟨blankGap, blankWider, some⟩ := isPadded
  rw [← List.cons_append, ← List.cons_append]
  exact .intro blankGap blankWider some

theorem Padded.unplaced (isPadded : Padded before padded) :
    Padded (before.map Token.unplaced) (padded.map Token.unplaced) := by
  obtain ⟨blankGap, blankWider, some⟩ := isPadded
  rw [List.map_append, List.map_append]
  exact .intro blankGap.unplaced blankWider.unplaced (by simpa using some)

theorem padded_append (tokens : List Token) (blank : AreBlanks gap) :
    Padded tokens (tokens ++ gap) := by
  have padded := @Padded.intro tokens [] gap areBlanks_nil blank (by simp)
  rwa [List.append_nil] at padded

theorem Respaced.unplaced (respaced : Respaced before others) :
    Respaced (before.map Token.unplaced) (others.map Token.unplaced) := by
  cases respaced with
  | before delim closing isPadded =>
    rw [List.map_append, List.map_append, List.map_cons]
    exact .before delim closing isPadded.unplaced
  | behind delim opening blankGap blankWider =>
    simp only [List.map_append, List.map_cons]
    exact .behind delim opening blankGap.unplaced blankWider.unplaced

/-- No blanks are put in. -/
theorem HasRoom.respaced {offset : Nat} (room : sign.HasRoom offset) (before after : List Token) :
    Respaced (before ++ sign :: after) (before ++ sign :: after) := by
  cases room with
  | before delim closing =>
    have same := padded_append before areBlanks_nil
    rw [List.append_nil] at same
    exact .before delim closing same
  | behind delim opening =>
    exact @Respaced.behind before [] [] after sign delim opening areBlanks_nil areBlanks_nil

end Padded

end Token

namespace Lexer

open Text

/-! ### Names in front of blanks -/

/-- A blank belongs to no name, and tokens but blanks and names do not go on with it. -/
theorem plain_of_isCssBlank {c : Char} (blank : isCssBlank c = true) :
    isNamePart c = false ∧ c ≠ '\\' ∧ c ∈ looseStops := by
  refine ⟨Bool.eq_false_iff.mpr fun part => ?_, ?_, ?_⟩
  · rw [isCssBlank_of_isNamePart part] at blank
    exact absurd blank (by decide)
  · rintro rfl
    exact absurd blank (by decide)
  · simp only [isCssBlank, Bool.or_eq_true, beq_iff_eq] at blank
    rcases blank with (((rfl | rfl) | rfl) | rfl) | rfl <;> decide

/-- Neither a blank nor what goes on with a name comes next. -/
structure EndsGap (rest : List Char) : Prop where
  visible : ∀ c ∈ rest.head?, isCssBlank c = false
  name : EndsName rest

section Names

variable {source blanks behind rest name : List Char} {c : Char}

theorem EndsGap.endsName (ends : EndsGap behind) (blank : ∀ d ∈ blanks, isCssBlank d = true) :
    EndsName (blanks ++ behind) := by
  cases blanks with
  | nil => exact ends.name
  | cons d more =>
    intro e first
    obtain rfl : d = e := by simpa using first
    obtain ⟨noPart, noBackslash, -⟩ := plain_of_isCssBlank (blank d List.mem_cons_self)
    exact ⟨noPart, noBackslash⟩

/-- A blank at the end of an escape takes a line feed behind it if it is a carriage return. -/
theorem exists_isOneBlank (blanks : List Char) (ends : EndsGap behind)
    (single : isCssBlank c = true) :
    ∃ taken left, blanks = taken ++ left ∧ IsOneBlank (c :: taken) (left ++ behind) := by
  by_cases pair : c = '\r' ∧ (blanks ++ behind).head? = some '\n'
  · obtain ⟨rfl, next⟩ := pair
    cases blanks with
    | nil => exact absurd (ends.visible '\n' next) (by decide)
    | cons d more =>
      obtain rfl : d = '\n' := by simpa using next
      exact ⟨['\n'], more, rfl, .pair _⟩
  · refine ⟨[], blanks, rfl, .single single ?_⟩
    rintro rfl d first rfl
    exact pair ⟨rfl, first⟩

/-- What is one blank at the end of a text is still one in front of blanks, and may take the first
of them. -/
theorem IsOneBlank.exists_blanks (isOneBlank : IsOneBlank source []) (ends : EndsGap behind)
    (blank : ∀ d ∈ blanks, isCssBlank d = true) :
    ∃ taken left, blanks = taken ++ left ∧ IsOneBlank (source ++ taken) (left ++ behind) := by
  cases isOneBlank with
  | pair => exact ⟨[], blanks, rfl, .pair _⟩
  | single single => exact exists_isOneBlank blanks ends single
  | none =>
    cases blanks with
    | nil => exact ⟨[], [], rfl, .none ends.visible⟩
    | cons d more =>
      obtain ⟨taken, left, split, one⟩ :=
        exists_isOneBlank more ends (blank d List.mem_cons_self)
      exact ⟨d :: taken, left, congrArg (d :: ·) split, one⟩

theorem IsOneBlank.isCssBlank (isOneBlank : IsOneBlank source rest) :
    ∀ d ∈ source, isCssBlank d = true := by
  cases isOneBlank with
  | pair => simp [Text.isCssBlank]
  | single blank => simpa using blank
  | none => simp

/-- An escape at the end of a text is still read in front of blanks, and may take the first of
them. -/
theorem readEscape_blanks (read : readEscape source = some (c, [])) (ends : EndsGap behind)
    (blank : ∀ d ∈ blanks, isCssBlank d = true) :
    ∃ left, left <:+ blanks ∧
      readEscape (source ++ (blanks ++ behind)) = some (c, left ++ behind) := by
  obtain ⟨source, rfl, isEscape⟩ := readEscape_iff.mp read
  rw [List.append_nil]
  cases isEscape with
  | char noHex inLine =>
    exact ⟨blanks, List.suffix_rfl, readEscape_char noHex inLine _⟩
  | @code digits here _ nonempty areDigits isOneBlank =>
    obtain ⟨taken, left, rfl, longer⟩ := isOneBlank.exists_blanks ends blank
    refine ⟨left, ⟨taken, rfl⟩, readEscape_iff.mpr ⟨'\\' :: (digits ++ (here ++ taken)), ?_, ?_⟩⟩
    · simp
    · refine .code nonempty ⟨areDigits.hex, areDigits.few, fun _ d first => ?_⟩ longer
      -- neither a blank nor what ends the gap is a digit
      have gap : ∀ d ∈ here ++ (taken ++ left), isCssBlank d = true := by
        intro d member
        exact (List.mem_append.mp member).elim (isOneBlank.isCssBlank d) (blank d)
      have noPart := ends.endsName gap d (by simpa using first)
      exact Bool.eq_false_iff.mpr fun hex => by
        rw [isNamePart_of_isHexDigit hex] at noPart
        exact absurd noPart.1 (by decide)

theorem readCharOrEscape_blanks {accepts : Char → Bool}
    (read : readCharOrEscape accepts source = some (c, [])) (ends : EndsGap behind)
    (blank : ∀ d ∈ blanks, isCssBlank d = true) :
    ∃ left, left <:+ blanks ∧
      readCharOrEscape accepts (source ++ (blanks ++ behind)) = some (c, left ++ behind) := by
  obtain ⟨rfl, accepted⟩ | ⟨escape, rejects⟩ := readCharOrEscape_eq_some_iff.mp read
  · exact ⟨blanks, List.suffix_rfl, readCharOrEscape_of_accepts accepted _⟩
  · obtain ⟨left, suffix, again⟩ := readEscape_blanks escape ends blank
    exact ⟨left, suffix, readCharOrEscape_eq_some_iff.mpr (.inr ⟨again, rejects⟩)⟩

/-- The first character of a name is read alike in front of blanks if the others are. -/
theorem readCharOrEscape_blanks_of_others {accepts : Char → Bool}
    (read : readCharOrEscape accepts source = some (c, rest)) (ends : EndsGap behind)
    (blank : ∀ d ∈ blanks, isCssBlank d = true)
    (others : ∃ left, left <:+ blanks ∧
      readNameParts (rest ++ (blanks ++ behind)) = (name, left ++ behind)) :
    ∃ between left, left <:+ blanks ∧
      readCharOrEscape accepts (source ++ (blanks ++ behind)) = some (c, between) ∧
      readNameParts between = (name, left ++ behind) := by
  obtain ⟨left, suffix, others⟩ := others
  have stops {gap : List Char} (inside : gap <:+ blanks) :
      readNameParts (gap ++ behind) = ([], gap ++ behind) :=
    readNameParts_of_none (readCharOrEscape_of_rejects
      (ends.endsName fun d member => blank d (inside.mem member)))
  by_cases last : rest = []
  · -- the character may be an escape that takes a blank
    subst last
    obtain ⟨gap, inside, first⟩ := readCharOrEscape_blanks read ends blank
    rw [List.nil_append, stops List.suffix_rfl] at others
    obtain ⟨rfl, -⟩ := Prod.mk.inj others
    exact ⟨_, gap, inside, first, stops inside⟩
  · obtain ⟨here, rfl, -, again⟩ := readCharOrEscape_local accepts read
    refine ⟨_, left, suffix, ?_, others⟩
    rw [List.append_assoc]
    refine again _ ?_
    have alike := headAlike_append firmStops last [] (blanks ++ behind)
    rwa [List.append_nil] at alike

theorem readNameParts_blanks (read : readNameParts source = (name, [])) (ends : EndsGap behind)
    (blank : ∀ d ∈ blanks, isCssBlank d = true) :
    ∃ left, left <:+ blanks ∧
      readNameParts (source ++ (blanks ++ behind)) = (name, left ++ behind) := by
  fun_induction readNameParts source generalizing name with
  | case1 source nothing =>
    obtain ⟨rfl, rfl⟩ := Prod.mk.inj read
    exact ⟨blanks, List.suffix_rfl,
      readNameParts_of_none (readCharOrEscape_of_rejects (ends.endsName blank))⟩
  | case2 source c rest first shorter more after same ih =>
    obtain ⟨rfl, rfl⟩ := Prod.mk.inj read
    obtain ⟨between, left, suffix, head, others⟩ :=
      readCharOrEscape_blanks_of_others first ends blank (ih same)
    refine ⟨left, suffix, ?_⟩
    rw [readNameParts_of_some head, others]

theorem readIdent_blanks (read : readIdent source = some (name, [])) (ends : EndsGap behind)
    (blank : ∀ d ∈ blanks, isCssBlank d = true) :
    ∃ left, left <:+ blanks ∧
      readIdent (source ++ (blanks ++ behind)) = some (name, left ++ behind) := by
  have hyphen := takeHyphen_append source
  obtain ⟨first, rest, parts, found, more, rfl⟩ := readIdent_eq_some_iff.mp read
  obtain ⟨between, left, suffix, head, others⟩ := readCharOrEscape_blanks_of_others found ends
    blank (readNameParts_blanks more ends blank)
  refine ⟨left, suffix, ?_⟩
  have nonempty : (takeHyphen source).2 ≠ [] := by
    intro empty
    rw [empty] at found
    simp [readCharOrEscape] at found
  have same := takeHyphen_again (List.append_nil _).symm nonempty (blanks ++ behind)
  rw [← List.append_assoc, hyphen] at same
  simp [readIdent, same, head, others]

theorem readHash_blanks (read : readHash source = some (name, [])) (ends : EndsGap behind)
    (blank : ∀ d ∈ blanks, isCssBlank d = true) :
    ∃ left, left <:+ blanks ∧
      readHash (source ++ (blanks ++ behind)) = some (name, left ++ behind) := by
  obtain ⟨parts, rfl, found, nonempty⟩ := readHash_eq_some_iff.mp read
  obtain ⟨left, suffix, again⟩ := readNameParts_blanks found ends blank
  exact ⟨left, suffix, readHash_eq_some_iff.mpr ⟨parts ++ (blanks ++ behind), rfl, again, nonempty⟩⟩

end Names

/-! ### Tokens in front of blanks -/

section Lexes

variable {source text blanks behind rest : List Char} {kind : Token.Kind}

/-- A name or a hash is read from its source in front of blanks, and may take the first of them. -/
theorem Lexes.exists_blanks_of_name (lexes : Lexes source kind text [])
    (named : kind = .ident ∨ kind = .hash) (blank : ∀ c ∈ blanks, Text.isCssBlank c = true)
    (ends : EndsGap behind) :
    ∃ taken left, blanks = taken ++ left ∧ Lexes (source ++ taken) kind text (left ++ behind) := by
  obtain ⟨c, cs, rfl, read⟩ := lexes
  have first := read 0
  rw [List.append_nil] at first
  cases readsToken first with
  | string => simp at named
  | plain noQuote _ found =>
    have noSlash : c ≠ '/' := by
      rintro rfl
      rw [readPlain_slash] at found
      obtain ⟨⟨rfl, -⟩, -⟩ := by simpa only [Prod.mk.injEq] using found
      simp at named
    have again {left taken : List Char} (split : taken ++ left = blanks)
        (plain : readPlain c (cs ++ (blanks ++ behind)) = ((kind, text), left ++ behind)) :
        Lexes (c :: cs ++ taken) kind text (left ++ behind) := by
      refine lexes_of_readPlain noQuote noSlash ?_
      rwa [← split, List.append_assoc, ← List.append_assoc] at plain
    cases readsPlain found with
    | blanks | operator | number | sign => simp at named
    | name noBlank found =>
      obtain ⟨left, ⟨taken, split⟩, name⟩ := readIdent_blanks found ends blank
      refine ⟨taken, left, split.symm, again split ?_⟩
      rw [List.cons_append] at name
      simp [readPlain, readBlanks_none noBlank, name]
    | hash noBlank noName found =>
      obtain ⟨left, ⟨taken, split⟩, hash⟩ := readHash_blanks found ends blank
      refine ⟨taken, left, split.symm, again split ?_⟩
      rw [List.cons_append] at hash
      simp [readPlain, readBlanks_none noBlank, readIdent_of_readHash found, hash]

/-- Any token but blanks is read from its source in front of blanks, of which it may take the
first. -/
theorem Lexes.exists_blanks (lexes : Lexes source kind text []) (other : kind ≠ .space)
    (noBackslash : source ≠ ['\\']) (nonempty : blanks ≠ [])
    (blank : ∀ c ∈ blanks, Text.isCssBlank c = true) (ends : EndsGap behind) :
    ∃ taken left, blanks = taken ++ left ∧ Lexes (source ++ taken) kind text (left ++ behind) := by
  obtain ⟨c, more, rfl⟩ := List.exists_cons_of_ne_nil nonempty
  have loose := (plain_of_isCssBlank (blank c List.mem_cons_self)).2.2
  -- only names take a blank
  have alone (stop : c ∈ stopsOf kind) :
      ∃ taken left, c :: more = taken ++ left ∧
        Lexes (source ++ taken) kind text (left ++ behind) := by
    refine ⟨[], c :: more, rfl, ?_⟩
    rw [List.append_nil]
    exact lexes.append_stop (by simp) (fun _ => noBackslash) loose (fun _ => stop) (more ++ behind)
  cases kind with
  | space => exact absurd rfl other
  | string | delim | number | eof => exact alone loose
  | ident => exact lexes.exists_blanks_of_name (.inl rfl) blank ends
  | hash => exact lexes.exists_blanks_of_name (.inr rfl) blank ends

end Lexes

/-! ### Texts with blanks between them -/

section Covers

variable {pos : Nat} {cs last blanks behind lastBehind : List Char} {spans spansBehind : List Span}

/-- The token of a run of blanks, and none where there are no blanks. -/
def blankSpans (pos : Nat) (blanks : List Char) : List Span :=
  if blanks = [] then [] else [⟨blanks, .space, String.ofList blanks, pos⟩]

theorem areBlanks_blankSpans (pos : Nat) (blanks : List Char) :
    Token.AreBlanks ((blankSpans pos blanks).map Span.token) := by
  unfold blankSpans
  split <;> simp [Token.AreBlanks]

/-- Blanks in front of something else. -/
theorem Covers.behind_blanks (covers : Covers (pos + byteSize blanks) cs spans last)
    (blank : ∀ c ∈ blanks, isCssBlank c = true)
    (visible : ∀ c ∈ cs.head?, isCssBlank c = false) :
    Covers pos (blanks ++ cs) (blankSpans pos blanks ++ spans) last := by
  unfold blankSpans
  split
  · rename_i empty
    subst empty
    exact covers
  · rename_i nonempty
    exact .token (lexes_blanks nonempty blank visible) covers

/-- Between a token and a text that goes on with no gap, blanks are a token or make one longer. -/
theorem Lexes.insert_blanks {source text : List Char} {kind : Token.Kind}
    (lexes : Lexes source kind text []) (noBackslash : source ≠ ['\\']) (nonempty : blanks ≠ [])
    (blank : ∀ c ∈ blanks, Text.isCssBlank c = true) (ends : EndsGap behind)
    (next : Covers (pos + byteSize source + byteSize blanks) behind spansBehind lastBehind) :
    ∃ padded all, Token.Padded [⟨kind, String.ofList text, pos⟩] padded ∧
      all.map Span.token = padded ++ spansBehind.map Span.token ∧
      Covers pos (source ++ (blanks ++ behind)) all lastBehind := by
  by_cases space : kind = .space
  · subst space
    have longer : Lexes (source ++ blanks) .space (source ++ blanks) behind := by
      refine lexes_blanks (by simp [nonempty]) (fun c member => ?_) ends.visible
      exact (List.mem_append.mp member).elim (lexes.isCssBlank c) (blank c)
    rw [Nat.add_assoc, ← byteSize_append] at next
    have covers := Covers.token longer next
    rw [List.append_assoc] at covers
    refine ⟨[⟨.space, String.ofList (source ++ blanks), pos⟩], _, ?_, rfl, covers⟩
    exact @Token.Padded.intro [] [_] [_] (by simp [Token.AreBlanks]) (by simp [Token.AreBlanks])
      (by simp)
  · obtain ⟨taken, left, rfl, longer⟩ := lexes.exists_blanks space noBackslash nonempty blank ends
    have stays (c : Char) (member : c ∈ left) : Text.isCssBlank c = true :=
      blank c (List.mem_append_right taken member)
    rw [Nat.add_assoc, ← byteSize_append, ← List.append_assoc, byteSize_append,
      ← Nat.add_assoc] at next
    have covers := Covers.token longer (next.behind_blanks stays ends.visible)
    rw [List.append_assoc, ← List.append_assoc taken] at covers
    refine ⟨_, _, Token.padded_append [_]
      (areBlanks_blankSpans (pos + byteSize (source ++ taken)) left), ?_, covers⟩
    simp

/-- Between a text and one that goes on with no gap, blanks are a token or make the last one
longer. -/
theorem Covers.insert_blanks (covers : Covers pos cs spans last) (closed : last = [])
    (noBackslash : ∀ span ∈ spans.getLast?, span.source ≠ ['\\']) (nonempty : blanks ≠ [])
    (blank : ∀ c ∈ blanks, isCssBlank c = true) (ends : EndsGap behind)
    (next : Covers (pos + byteSize cs + byteSize blanks) behind spansBehind lastBehind) :
    ∃ padded all, Token.Padded (spans.map Span.token) padded ∧
      all.map Span.token = padded ++ spansBehind.map Span.token ∧
      Covers pos (cs ++ (blanks ++ behind)) all lastBehind := by
  induction covers with
  | nothing pos =>
    have covers : Covers (pos + byteSize blanks) behind spansBehind lastBehind := next
    refine ⟨_, _, Token.padded_append [] (areBlanks_blankSpans pos blanks), ?_,
      covers.behind_blanks blank ends.visible⟩
    simp
  | unclosed => simp at closed
  | @comment pos source rest last spans comment _ ih =>
    rw [byteSize_append, ← Nat.add_assoc] at next
    obtain ⟨padded, all, isPadded, same, covers⟩ := ih closed noBackslash next
    refine ⟨padded, all, isPadded, same, ?_⟩
    rw [List.append_assoc]
    exact .comment comment covers
  | @token pos kind source text rest last spans lexes covers ih =>
    by_cases empty : rest = []
    · subst empty
      obtain rfl := covers.eq_nil rfl
      rw [List.append_nil] at next ⊢
      exact lexes.insert_blanks (noBackslash _ rfl) nonempty blank ends next
    · have others (span : Span) (member : span ∈ spans.getLast?) : span.source ≠ ['\\'] :=
        noBackslash span (mem_getLast?_cons member)
      rw [byteSize_append, ← Nat.add_assoc] at next
      obtain ⟨padded, all, isPadded, same, behind⟩ := ih closed others next
      obtain ⟨c, more, rfl⟩ := List.exists_cons_of_ne_nil nonempty
      have again := lexes.append_stop (covers.ne_backslash others) (fun same => absurd same empty)
        (plain_of_isCssBlank (blank c List.mem_cons_self)).2.2 (fun same => absurd same empty)
      rw [List.append_assoc]
      refine ⟨_, _, isPadded.cons _, ?_, .token (again _) behind⟩
      rw [List.map_cons, same, List.cons_append]

/-- What starts with a blank is a token of all the blanks there. -/
theorem Lexes.of_blank {c : Char} {source text rest : List Char} {kind : Token.Kind}
    (lexes : Lexes source kind text rest) (first : c ∈ source.head?)
    (blank : Text.isCssBlank c = true) :
    kind = .space ∧ ∀ d ∈ rest.head?, Text.isCssBlank d = false := by
  obtain ⟨d, cs, rfl, read⟩ := lexes
  obtain rfl : d = c := by simpa using first
  have read := read 0
  generalize cs ++ rest = behind at read
  have taken : readBlanks (d :: behind) ≠ none := by simp [readBlanks, blank]
  cases readsToken read with
  | string mark => rcases mark with rfl | rfl <;> exact absurd blank (by decide)
  | plain _ _ found =>
    cases readsPlain found with
    | name noBlank | hash noBlank | operator noBlank | number noBlank | sign noBlank =>
      exact absurd noBlank taken
    | blanks found =>
      refine ⟨rfl, fun e next => ?_⟩
      obtain ⟨-, -, rfl⟩ := readBlanks_eq_some_iff.mp found
      exact (mem_of_head?_dropWhile next).1

/-- Blanks in front of a text are a token or make the first one longer. -/
theorem Covers.prepend_blanks (covers : Covers pos cs spans last)
    (blank : ∀ c ∈ blanks, isCssBlank c = true) :
    ∃ gap wider others all, spans.map Span.token = gap ++ others ∧
      all.map Span.token = wider ++ others.map (Token.shift (byteSize blanks)) ∧
      Token.AreBlanks gap ∧ Token.AreBlanks wider ∧ Covers pos (blanks ++ cs) all last := by
  -- either the text starts with blanks of its own, which are joined by the new ones, or it does not
  by_cases visible : ∀ c ∈ cs.head?, isCssBlank c = false
  · refine ⟨[], _, spans.map Span.token, _, rfl, ?_, by simp [Token.AreBlanks],
      areBlanks_blankSpans pos blanks, (covers.shift (byteSize blanks)).behind_blanks blank visible⟩
    simp [Span.shift, Function.comp_def]
  · obtain ⟨c, first, single⟩ : ∃ c ∈ cs.head?, isCssBlank c = true := by simpa using visible
    cases covers with
    | nothing => simp at first
    | unclosed =>
      obtain rfl : '/' = c := by simpa using first
      exact absurd single (by decide)
    | comment closed =>
      obtain ⟨inside, rfl, -⟩ := closed
      obtain rfl : '/' = c := by simpa using first
      exact absurd single (by decide)
    | @token _ kind source text rest _ spans lexes behind =>
      have start : c ∈ source.head? := by
        obtain ⟨d, more, rfl⟩ := List.exists_cons_of_ne_nil lexes.source_ne_nil
        exact first
      obtain ⟨rfl, visible⟩ := lexes.of_blank start single
      have longer : Lexes (blanks ++ source) .space (blanks ++ source) rest := by
        refine lexes_blanks (by simp [lexes.source_ne_nil]) (fun d member => ?_) visible
        exact (List.mem_append.mp member).elim (blank d) (lexes.isCssBlank d)
      have moved := behind.shift (byteSize blanks)
      rw [Nat.add_assoc, Nat.add_comm (byteSize source), ← byteSize_append] at moved
      have covers := Covers.token longer moved
      rw [List.append_assoc] at covers
      refine ⟨[⟨.space, _, pos⟩], [⟨.space, String.ofList (blanks ++ source), pos⟩],
        spans.map Span.token, _, rfl, ?_, ?_, ?_, covers⟩
      · simp [Span.shift, Function.comp_def]
      · simp [Token.AreBlanks]
      · simp [Token.AreBlanks]

end Covers

/-- The source of a delimiter is the delimiter. -/
theorem Lexes.source_eq {source text rest : List Char} (lexes : Lexes source .delim text rest) :
    source = text := by
  obtain ⟨c, cs, rfl, read⟩ := lexes
  have read := read 0
  generalize whole : cs ++ rest = behind at read
  cases readsToken read with
  | plain _ _ found =>
    cases readsPlain found with
    | operator _ _ _ found =>
      obtain ⟨d, _, rfl, split⟩ := readOperator_eq_some_iff.mp found
      rw [← whole, ← List.cons_append] at split
      exact List.append_cancel_right split
    | sign =>
      obtain rfl : cs = [] := by simpa using whole
      rfl

/-- A sign is one character, and goes on with no gap. -/
theorem exists_char_of_sign {value : String}
    (known : value ∈ Token.closingSigns ∨ value ∈ Token.openingSigns) :
    ∃ c, value.toList = [c] ∧ c.utf8Size = 1 ∧ c ≠ '\\' ∧ ∀ rest, EndsGap (c :: rest) := by
  have plain (c : Char) (size : c.utf8Size = 1)
      (other : c ≠ '\\' ∧ isCssBlank c = false ∧ isNamePart c = false) :
      ∃ d, [c] = [d] ∧ d.utf8Size = 1 ∧ d ≠ '\\' ∧ ∀ rest, EndsGap (d :: rest) := by
    refine ⟨c, rfl, size, other.1, fun rest => ⟨?_, ?_⟩⟩
    · simpa using other.2.1
    · simpa [EndsName] using ⟨other.2.2, other.1⟩
  simp only [Token.closingSigns, Token.openingSigns, List.mem_cons, List.not_mem_nil,
    or_false] at known
  rcases known with (rfl | rfl | rfl | rfl | rfl) | rfl | rfl | rfl | rfl | rfl <;>
    exact plain _ rfl (by decide)

section Cut

variable {front back blanks last : List Char} {spans others : List Span} {span : Span}

/-- Blanks in front of a token that starts with a character that goes on with no gap. -/
theorem IsCut.insert_before (cut : IsCut 0 front spans span back others last)
    (noBackslash : ∀ span ∈ spans.getLast?, span.source ≠ ['\\'])
    (ends : EndsGap (span.source ++ back)) (nonempty : blanks ≠ [])
    (blank : ∀ c ∈ blanks, isCssBlank c = true) :
    ∃ padded all, Token.Padded (spans.map Span.token) padded ∧
      all.map Span.token =
        padded ++ (span.token :: others.map Span.token).map (Token.shift (byteSize blanks)) ∧
      Covers 0 (front ++ (blanks ++ (span.source ++ back))) all last := by
  have moved := (cut.behind.cons cut.lexes).shift (byteSize blanks)
  rw [cut.here] at moved
  obtain ⟨padded, all, isPadded, same, covers⟩ :=
    cut.upTo.insert_blanks rfl noBackslash nonempty blank ends moved
  refine ⟨padded, all, isPadded, ?_, covers⟩
  rw [same]
  simp [Span.shift, Function.comp_def]

/-- Blanks behind a delimiter. -/
theorem IsCut.insert_behind (cut : IsCut 0 front spans span back others last)
    (delim : span.token.kind = .delim) (noBackslash : span.source ≠ ['\\']) (nonempty : blanks ≠ [])
    (blank : ∀ c ∈ blanks, isCssBlank c = true) :
    ∃ gap wider rest all, others.map Span.token = gap ++ rest ∧
      all.map Span.token = spans.map Span.token ++
        span.token :: (wider ++ rest.map (Token.shift (byteSize blanks))) ∧
      Token.AreBlanks gap ∧ Token.AreBlanks wider ∧
      Covers 0 (front ++ span.source ++ (blanks ++ back)) all last := by
  obtain ⟨gap, wider, rest, all, split, same, blankGap, blankWider, behind⟩ :=
    cut.behind.prepend_blanks blank
  obtain ⟨c, more, rfl⟩ := List.exists_cons_of_ne_nil nonempty
  have loose := (plain_of_isCssBlank (blank c List.mem_cons_self)).2.2
  rw [Span.stop, cut.here, Nat.add_assoc, ← byteSize_append] at behind
  have covers := cut.through.append_stop rfl loose (fun last member => ?_) behind
  · refine ⟨gap, wider, rest, _, split, ?_, blankGap, blankWider, covers⟩
    simp [same]
  · obtain rfl : span = last := by simpa using member
    exact ⟨noBackslash, by rw [delim]; exact loose⟩

end Cut

open Token in
/-- At an offset beside a sign a text is cut, and any blanks may be put in. -/
theorem exists_insert {text : String} {before after : List Token} {sign : Token} {offset : Nat}
    (lexed : tokenize text = .ok (before ++ sign :: after)) (room : sign.HasRoom offset)
    (noBackslash : ∀ last ∈ before.getLast?, last.isDelim "\\" = false) :
    ∃ left right, text.toList = left ++ right ∧ byteSize left = offset ∧
      ∀ blanks, blanks ≠ [] → (∀ c ∈ blanks, isCssBlank c = true) →
        ∃ spans last again, Covers 0 (left ++ (blanks ++ right)) spans last ∧
          Respaced (before ++ sign :: after) again ∧
          ∀ stop, (spans.map Span.token ++ [(⟨.eof, "", stop⟩ : Token)]).map Token.unplaced =
            again.map Token.unplaced := by
  have delim : sign.kind = .delim := by cases room <;> assumption
  obtain ⟨front, back, spans, span, others, last, whole, cut, rfl, rfl, rfl⟩ :=
    exists_cut_of_tokenize lexed (by simp [delim])
  have lexes := cut.lexes
  rw [delim] at lexes
  have source := lexes.source_eq
  have here := cut.here
  rw [Nat.zero_add] at here
  -- in front of a closing sign the blanks are left to the token before; behind an opening sign they
  -- join those that stand there
  cases room with
  | before _ closing =>
    obtain ⟨c, value, -, -, ends⟩ := exists_char_of_sign (.inl closing)
    have sources := cut.upTo.getLast?_ne_backslash noBackslash
    refine ⟨front, span.source ++ back, whole, here.symm, fun blanks nonempty blank => ?_⟩
    obtain ⟨padded, all, isPadded, same, covers⟩ :=
      cut.insert_before sources (by rw [source, value]; exact ends back) nonempty blank
    refine ⟨all, last, _, covers, .before delim closing isPadded, fun stop => ?_⟩
    rw [same]
    simp [Function.comp_def]
  | behind _ opening =>
    obtain ⟨c, value, size, noBackslash, -⟩ := exists_char_of_sign (.inr opening)
    rw [← source] at value
    refine ⟨front ++ span.source, back, by rw [whole, List.append_assoc], ?_,
      fun blanks nonempty blank => ?_⟩
    · rw [byteSize_append, here, value, byteSize, size, byteSize]
    · obtain ⟨gap, wider, rest, all, split, same, blankGap, blankWider, covers⟩ :=
        cut.insert_behind delim (by simp [value, noBackslash]) nonempty blank
      rw [split, List.append_assoc gap]
      refine ⟨all, last, _, covers, .behind delim opening blankGap blankWider, fun stop => ?_⟩
      rw [same]
      simp [Function.comp_def]

end Lexer

open Lexer Token in
/-- Blanks put in beside a sign change no tokens but the blanks there, apart from the offsets. -/
theorem tokenize_insert_blanks {text blanks : String} {before after : List Token} {sign : Token}
    {offset : Nat} (lexed : tokenize text = .ok (before ++ sign :: after))
    (room : sign.HasRoom offset)
    (noBackslash : ∀ last ∈ before.getLast?, last.isDelim "\\" = false)
    (blank : ∀ c ∈ blanks.toList, Text.isCssBlank c = true) :
    ∃ front back again, text = front ++ back ∧ front.utf8ByteSize = offset ∧
      tokenize (front ++ blanks ++ back) = .ok again ∧
      Respaced ((before ++ sign :: after).map Token.unplaced) (again.map Token.unplaced) := by
  obtain ⟨left, right, whole, size, insert⟩ := exists_insert lexed room noBackslash
  have cut : text = String.ofList left ++ String.ofList right := by
    rw [← String.toList_inj]
    simpa using whole
  by_cases empty : blanks.toList = []
  · obtain rfl := String.toList_eq_nil_iff.mp empty
    refine ⟨String.ofList left, String.ofList right, _, cut, by rw [utf8ByteSize_ofList, size], ?_,
      (room.respaced before after).unplaced⟩
    rw [String.append_empty, ← cut]
    exact lexed
  · obtain ⟨spans, last, again, covers, respaced, same⟩ := insert blanks.toList empty blank
    have lexedAgain := tokensFrom_of_covers covers
    have joined : (String.ofList left ++ blanks ++ String.ofList right).toList =
        left ++ (blanks.toList ++ right) := by simp
    rw [← joined] at lexedAgain
    refine ⟨String.ofList left, String.ofList right, _, cut, by rw [utf8ByteSize_ofList, size],
      lexedAgain, ?_⟩
    rw [same]
    exact respaced.unplaced

end SelectorPath
