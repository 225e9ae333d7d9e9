import SelectorPath.Proofs.Text.Squeeze
import SelectorPath.Proofs.Token.Gaps

/-!
# Texts without quotes and escapes

In a text without quotes and backslashes a comment starts wherever `/*` stands outside another one,
and the only thing that a token does not show is the sign of a hash. So the values of the kept
tokens, with one space for each gap, can be read off the text alone: a space for each comment, no
sign in front of the name of a hash, and one space for each run of blanks. Only at the two ends a
gap leaves no space among tokens, but one in the text.

What stands inside comments does not matter, not even a backslash: a token without escapes ends in
front of the comment, so nothing outside is escaped by what is inside.

## Main definitions

* `Lexer.blankComments` — a text with a space for each comment
* `Lexer.dropMarks` — a text without the signs of its hashes
* `Lexer.IsBare` — a text without quotes and backslashes outside comments
* `Lexer.Stands` — how the source of a kept token stands in such a text

## Main results

* `Lexer.exists_tokens_of_isBare` — a bare text has tokens
* `Lexer.Alternates.plain` — none of them is a string, and none has an escape
* `Lexer.Alternates.trimBlanks_join` — the joined values of kept tokens, read off the text
-/

namespace SelectorPath.Lexer

open Text

/-! ### Comments as spaces -/

/-- The text with a space for each comment. A comment without an end reaches to the end of the
text. -/
def blankComments : List Char → List Char
  | '/' :: '*' :: inside => ' ' :: blankComments (skipComment inside)
  | [] => []
  | c :: cs => c :: blankComments cs
termination_by cs => cs.length
decreasing_by
  · have := skipComment_length inside
    simp only [List.length_cons]
    omega
  · exact Nat.lt_succ_self _

section Comments

variable {c : Char} {cs gap source rest word inside : List Char}

theorem blankComments_comment (inside : List Char) :
    blankComments ('/' :: '*' :: inside) = ' ' :: blankComments (skipComment inside) := by
  rw [blankComments]

/-- Where no comment starts, a character stays as it is. -/
theorem blankComments_cons (noComment : c = '/' → ∀ d ∈ cs.head?, d ≠ '*') :
    blankComments (c :: cs) = c :: blankComments cs := by
  rw [blankComments]
  rintro inside rfl rfl
  exact noComment rfl '*' rfl rfl

theorem blankComments_of_ne (noSlash : c ≠ '/') (cs : List Char) :
    blankComments (c :: cs) = c :: blankComments cs :=
  blankComments_cons fun slash => absurd slash noSlash

theorem blankComments_append_of_word (noSlash : '/' ∉ word) (rest : List Char) :
    blankComments (word ++ rest) = word ++ blankComments rest := by
  induction word with
  | nil => rfl
  | cons c word ih =>
    obtain ⟨here, behind⟩ := List.ne_and_not_mem_of_not_mem_cons noSlash
    rw [List.cons_append, blankComments_of_ne here.symm, ih behind, List.cons_append]

theorem IsComment.blankComments (closed : IsComment source) (rest : List Char) :
    blankComments (source ++ rest) = ' ' :: Lexer.blankComments rest := by
  obtain ⟨inside, rfl, first⟩ := closed
  have split : '/' :: '*' :: (inside ++ ['*', '/']) ++ rest =
      '/' :: '*' :: (inside ++ '*' :: '/' :: rest) := by simp
  rw [split, blankComments_comment, skipComment_of_end first]

/-- Only the start of the text shows at the start: there is its first character, or a space for a
comment. -/
theorem head_blankComments : ∀ d ∈ (blankComments cs).head?, d = ' ' ∨ d ∈ cs.head? := by
  intro d first
  rw [Lexer.blankComments.eq_def] at first
  split at first
  · exact .inl (by simpa using first.symm)
  · exact nomatch first
  · exact .inr (by simpa using first)

/-- A gap becomes a run of blanks of its own. -/
theorem IsGap.blankComments_append (isGap : IsGap gap) (rest : List Char) :
    blankComments (gap ++ rest) = blankComments gap ++ blankComments rest := by
  induction isGap with
  | nil => simp [blankComments]
  | @blank c cs blank _ ih =>
    have noSlash : c ≠ '/' := by
      rintro rfl
      exact absurd blank (by decide)
    rw [List.cons_append, blankComments_of_ne noSlash, blankComments_of_ne noSlash, ih,
      List.cons_append]
  | comment closed _ ih =>
    rw [List.append_assoc, closed.blankComments, closed.blankComments, ih, List.cons_append]

theorem IsGap.isCssBlank (isGap : IsGap gap) : ∀ c ∈ blankComments gap, isCssBlank c = true := by
  induction isGap with
  | nil => simp [blankComments]
  | @blank c cs blank _ ih =>
    have noSlash : c ≠ '/' := by
      rintro rfl
      exact absurd blank (by decide)
    rw [blankComments_of_ne noSlash]
    exact List.forall_mem_cons.mpr ⟨blank, ih⟩
  | comment closed _ ih =>
    rw [closed.blankComments]
    exact List.forall_mem_cons.mpr ⟨rfl, ih⟩

theorem blankComments_eq_nil_iff : blankComments cs = [] ↔ cs = [] := by
  rw [Lexer.blankComments.eq_def]
  split <;> simp

/-- What a text ends with becomes a run of blanks, too. -/
theorem IsTrail.isCssBlank (trail : IsTrail cs) : ∀ c ∈ blankComments cs, isCssBlank c = true := by
  obtain ⟨gap, last, rfl, isGap, rfl | ⟨inside, rfl, noEnd⟩⟩ := trail
  · rw [List.append_nil]
    exact isGap.isCssBlank
  · rw [isGap.blankComments_append, blankComments_comment, skipComment_of_open noEnd]
    refine List.forall_mem_append.mpr ⟨isGap.isCssBlank, ?_⟩
    simp [blankComments, Text.isCssBlank]

end Comments

/-! ### Hashes without their signs -/

/-- The text without the signs of its hashes, each of which stands in front of a name character. -/
def dropMarks : List Char → List Char
  | [] => []
  | c :: cs => if c = '#' ∧ cs.head?.any isNamePart then dropMarks cs else c :: dropMarks cs

section Marks

variable {c : Char} {cs word : List Char}

theorem dropMarks_cons (noMark : c = '#' → ∀ d ∈ cs.head?, isNamePart d = false) :
    dropMarks (c :: cs) = c :: dropMarks cs := by
  rw [dropMarks, if_neg]
  rintro ⟨mark, part⟩
  cases cs with
  | nil => exact nomatch part
  | cons d cs => exact absurd part (by simp [noMark mark d rfl])

theorem dropMarks_mark {d : Char} (part : isNamePart d = true) :
    dropMarks ('#' :: d :: cs) = dropMarks (d :: cs) := by
  rw [dropMarks, if_pos]
  exact ⟨rfl, part⟩

theorem dropMarks_append_of_word (noMark : '#' ∉ word) (rest : List Char) :
    dropMarks (word ++ rest) = word ++ dropMarks rest := by
  induction word with
  | nil => rfl
  | cons c word ih =>
    obtain ⟨here, behind⟩ := List.ne_and_not_mem_of_not_mem_cons noMark
    rw [List.cons_append, dropMarks_cons (fun mark => absurd mark.symm here), ih behind,
      List.cons_append]

theorem dropMarks_of_word (noMark : '#' ∉ word) : dropMarks word = word := by
  simpa [dropMarks] using dropMarks_append_of_word noMark []

end Marks

/-! ### Texts without escapes -/

/-- No quote and no backslash stands outside comments. -/
def IsBare (cs : List Char) : Prop :=
  ∀ c ∈ blankComments cs, c ≠ '\\' ∧ c ≠ '"' ∧ c ≠ '\''

section Bare

variable {c : Char} {cs source text rest name : List Char} {kind : Token.Kind}

/-- No character is in the text with spaces for its comments that is not in the text. -/
theorem of_mem_blankComments (member : c ∈ blankComments cs) : c = ' ' ∨ c ∈ cs := by
  fun_induction blankComments cs with
  | case1 inside ih =>
    rcases List.mem_cons.mp member with rfl | member
    · exact .inl rfl
    · obtain ⟨skipped, split⟩ := skipComment_suffix inside
      refine (ih member).imp_right fun behind => ?_
      rw [split]
      exact List.mem_append_right ('/' :: '*' :: skipped) behind
  | case2 => exact absurd member List.not_mem_nil
  | case3 d cs _ ih =>
    rcases List.mem_cons.mp member with rfl | member
    · exact .inr List.mem_cons_self
    · exact (ih member).imp_right (List.mem_cons_of_mem _)

theorem isBare_of_plain (plain : ∀ c ∈ cs, c ≠ '\\' ∧ c ≠ '"' ∧ c ≠ '\'') : IsBare cs := by
  intro c member
  rcases of_mem_blankComments member with rfl | member
  · decide
  · exact plain c member

/-- What is bare stays bare behind its start. -/
theorem IsBare.behind {front : List Char} (bare : IsBare cs)
    (split : blankComments cs = front ++ blankComments rest) : IsBare rest :=
  fun c member => bare c (split ▸ List.mem_append_right _ member)

/-- A bare text starts with no quote and no backslash. -/
theorem IsBare.head (bare : IsBare (c :: cs)) (noComment : c = '/' → ∀ d ∈ cs.head?, d ≠ '*') :
    c ≠ '\\' ∧ c ≠ '"' ∧ c ≠ '\'' := by
  rw [IsBare, blankComments_cons noComment] at bare
  exact bare c List.mem_cons_self

theorem IsBare.tail (bare : IsBare (c :: cs)) (noSlash : c ≠ '/') : IsBare cs :=
  fun d member => bare d (blankComments_of_ne noSlash cs ▸ List.mem_cons_of_mem c member)

theorem plain_of_isNamePart (part : isNamePart c = true) :
    Text.isCssBlank c = false ∧ c ≠ '/' ∧ c ≠ '#' := by
  refine ⟨isCssBlank_of_isNamePart part, ?_, ?_⟩ <;> rintro rfl <;> exact absurd part (by decide)

/-- In a bare text no escape goes on with a name, also if a comment follows. -/
theorem IsBare.noEscape (bare : IsBare cs) : NoEscape cs := by
  induction cs with
  | nil => simp [NoEscape]
  | cons c cs ih =>
    by_cases part : isNamePart c = true
    · rw [NoEscape, List.dropWhile_cons_of_pos part]
      exact ih (bare.tail (plain_of_isNamePart part).2.1)
    · rw [NoEscape, List.dropWhile_cons_of_neg part]
      rintro d ⟨⟩ rfl
      exact (bare.head fun slash => absurd slash (by decide)).1 rfl

/-- The sign of a hash stands in front of a name character, so alone it stands in front of none. -/
theorem noPart_of_readHash (nothing : readHash ('#' :: cs) = none) :
    ∀ d ∈ cs.head?, isNamePart d = false := by
  intro d first
  obtain ⟨ds, rfl⟩ := List.head?_eq_some_iff.mp first
  refine Bool.eq_false_iff.mpr fun part => ?_
  simp [readHash, readNameParts_of_some (readCharOrEscape_of_accepts part ds)] at nothing

theorem plain_of_isOperatorStart (start : isOperatorStart c = true) :
    ∀ d ∈ [c, '='], Text.isCssBlank d = false ∧ d ≠ '/' ∧ d ≠ '#' := by
  simp only [isOperatorStart, Bool.or_eq_true, beq_iff_eq] at start
  rcases start with ((((rfl | rfl) | rfl) | rfl) | rfl) | rfl <;> simp <;> decide

theorem IsNumber.plain (number : IsNumber cs) :
    ∀ c ∈ cs, Text.isCssBlank c = false ∧ c ≠ '/' ∧ c ≠ '#' := by
  obtain ⟨sign, digits, fraction, rfl, signed, allDigits, written⟩ := number
  have ofDigits {ds : List Char} (all : ∀ c ∈ ds, isDigit c = true) (c : Char) (member : c ∈ ds) :=
    plain_of_isNamePart (isNamePart_of_isDigit (all c member))
  refine List.forall_mem_append.mpr ⟨?_, List.forall_mem_append.mpr ⟨ofDigits allDigits, ?_⟩⟩
  · rcases signed with rfl | rfl | rfl
    · simp
    · simp; decide
    · simp; decide
  · obtain ⟨rfl, -⟩ | ⟨decimals, rfl, -, allDecimals⟩ := written
    · simp
    · exact List.forall_mem_cons.mpr ⟨by decide, ofDigits allDecimals⟩

end Bare

/-! ### How kept tokens stand in a text -/

/-- How the source of a kept token stands in a text without quotes and escapes: it is the value,
without a blank or a mark in it; the value behind the sign of a hash; or a character alone, which
may be a slash or the sign of a hash only where no comment and no hash starts. -/
inductive Stands (rest : List Char) : List Char → List Char → Prop
  | word {text : List Char} (nonempty : text ≠ [])
      (plain : ∀ c ∈ text, isCssBlank c = false ∧ c ≠ '/' ∧ c ≠ '#') : Stands rest text text
  | hash {text : List Char} (nonempty : text ≠ []) (parts : ∀ c ∈ text, isNamePart c = true) :
      Stands rest ('#' :: text) text
  | sign {c : Char} (noBlank : isCssBlank c = false)
      (noComment : c = '/' → ∀ d ∈ rest.head?, d ≠ '*')
      (noHash : c = '#' → ∀ d ∈ rest.head?, isNamePart d = false) : Stands rest [c] [c]

section Stands

variable {c : Char} {cs source text rest : List Char} {kind : Token.Kind}

/-- Where neither a blank nor a string nor a comment starts, the plain rules read a token that
stands there. -/
theorem IsBare.exists_stands (bare : IsBare (c :: cs))
    (read : readPlain c cs = ((kind, text), rest)) (kept : kind ≠ .space)
    (noComment : c = '/' → ∀ d ∈ cs.head?, d ≠ '*') :
    ∃ source, c :: cs = source ++ rest ∧ Stands rest source text := by
  -- without escapes each rule shows its text, and what is left is a sign of one character
  cases readsPlain read with
  | blanks => exact absurd rfl kept
  | name _ found =>
    obtain ⟨split, shown⟩ := readIdent_plain bare.noEscape found
    have nonempty := shown.source_ne_nil
    cases shown with
    | ident name =>
      refine ⟨text, split, .word nonempty fun d member => ?_⟩
      exact plain_of_isNamePart (name.isNamePart d member)
  | hash _ _ found =>
    have noSlash : c ≠ '/' := by
      rintro rfl
      simp [readHash_of_ne] at found
    have inside : NoEscape (c :: cs).tail := (bare.tail noSlash).noEscape
    obtain ⟨split, shown⟩ := readHash_plain inside found
    cases shown with
    | hash nonempty parts => exact ⟨'#' :: text, split, .hash nonempty parts⟩
  | operator _ _ _ found =>
    obtain ⟨d, start, rfl, split⟩ := readOperator_eq_some_iff.mp found
    exact ⟨_, split, .word (by simp) (plain_of_isOperatorStart start)⟩
  | number _ _ _ _ found =>
    obtain ⟨split, shown⟩ := readNumber_shows found
    have nonempty := shown.source_ne_nil
    cases shown with
    | number number => exact ⟨text, split, .word nonempty number.plain⟩
  | sign noBlank _ noHash =>
    refine ⟨[c], rfl, .sign ?_ noComment ?_⟩
    · refine Bool.eq_false_iff.mpr fun blank => ?_
      simp [readBlanks, blank] at noBlank
    · rintro rfl
      exact noPart_of_readHash noHash

theorem Stands.text_ne_nil (stands : Stands rest source text) : text ≠ [] := by
  cases stands with
  | word nonempty | hash nonempty => exact nonempty
  | sign => exact List.cons_ne_nil _ _

/-- There is no blank in the value of a kept token. -/
theorem Stands.noBlank (stands : Stands rest source text) :
    ∀ c ∈ text, Text.isCssBlank c = false := by
  cases stands with
  | word _ plain => exact fun c member => (plain c member).1
  | hash _ parts => exact fun c member => isCssBlank_of_isNamePart (parts c member)
  | sign noBlank => simpa using noBlank

/-- No comment starts in a source, and none between it and what follows. -/
theorem Stands.blankComments_append (stands : Stands rest source text) :
    blankComments (source ++ rest) = source ++ blankComments rest := by
  cases stands with
  | word _ plain =>
    exact blankComments_append_of_word (fun slash => (plain '/' slash).2.1 rfl) rest
  | hash _ parts =>
    have noSlash : '/' ∉ '#' :: text :=
      List.not_mem_cons_of_ne_of_not_mem (by decide) fun slash =>
        (plain_of_isNamePart (parts '/' slash)).2.1 rfl
    exact blankComments_append_of_word noSlash rest
  | sign _ noComment => exact blankComments_cons noComment

/-- Of a source the value is left when the signs of hashes are gone. -/
theorem Stands.dropMarks_append (stands : Stands rest source text) :
    dropMarks (source ++ blankComments rest) = text ++ dropMarks (blankComments rest) := by
  cases stands with
  | word _ plain => exact dropMarks_append_of_word (fun mark => (plain '#' mark).2.2 rfl) _
  | hash nonempty parts =>
    obtain ⟨d, ds, rfl⟩ := List.exists_cons_of_ne_nil nonempty
    rw [List.cons_append, List.cons_append, dropMarks_mark (parts d List.mem_cons_self),
      ← List.cons_append]
    exact dropMarks_append_of_word (fun mark => (plain_of_isNamePart (parts '#' mark)).2.2 rfl) _
  | sign _ _ noHash =>
    refine dropMarks_cons fun mark d first => ?_
    rcases head_blankComments d first with rfl | first
    · rfl
    · exact noHash mark d first

end Stands

/-! ### The tokens of a bare text -/

section Tokens

variable {c : Char} {pos : Nat} {cs source text rest last : List Char} {kind : Token.Kind}
  {parts : List Part}

/-- Where no comment starts, the plain rules read the next token of a bare text. -/
theorem IsBare.readLexeme (bare : IsBare (c :: cs)) (noComment : c = '/' → ∀ d ∈ cs.head?, d ≠ '*')
    (start : Nat) : readLexeme start c cs =
      .ok (.token (readPlain c cs).1.1 (readPlain c cs).1.2, (readPlain c cs).2) := by
  obtain ⟨-, noQuote⟩ := bare.head noComment
  unfold Lexer.readLexeme
  split
  · exact absurd rfl (noComment rfl '*' rfl)
  · rw [if_neg (not_or.mpr noQuote)]

/-- In a bare text a token that is no blank stands there, and is no string. -/
theorem Lexes.stands (bare : IsBare (source ++ rest)) (lexes : Lexes source kind text rest)
    (kept : kind ≠ .space) : Stands rest source text ∧ kind ≠ .string := by
  obtain ⟨c, cs, rfl, read⟩ := lexes
  cases readsToken (read 0) with
  | string mark =>
    -- a quote would stand outside comments
    have noComment : c = '/' → ∀ d ∈ (cs ++ rest).head?, d ≠ '*' := by
      rintro rfl
      exact absurd mark (by decide)
    exact absurd mark (not_or.mpr (bare.head noComment).2)
  | plain _ noComment found =>
    obtain ⟨source, split, stands⟩ := bare.exists_stands found kept noComment
    rw [List.append_eq, ← List.cons_append] at split
    rw [List.append_cancel_right split]
    exact ⟨stands, (readsPlain found).kind_ne_string⟩

theorem Lexes.isBare (bare : IsBare (source ++ rest)) (lexes : Lexes source kind text rest) :
    IsBare rest := by
  by_cases blank : kind = .space
  · subst blank
    exact bare.behind ((isGap_of_blanks lexes.isCssBlank).blankComments_append rest)
  · exact bare.behind (lexes.stands bare blank).1.blankComments_append

/-- A bare text has tokens. -/
theorem exists_tokens_of_isBare (bare : IsBare cs) (pos : Nat) :
    ∃ tokens, tokensFrom pos cs = .ok tokens := by
  fun_induction tokensFrom pos cs with
  | case1 => exact ⟨_, rfl⟩
  | case2 pos c tail error read =>
    have noComment : c = '/' → ∀ d ∈ tail.head?, d ≠ '*' := by
      rintro rfl d first rfl
      obtain ⟨inside, rfl⟩ := List.head?_eq_some_iff.mp first
      simp [readLexeme] at read
    rw [bare.readLexeme noComment pos] at read
    simp at read
  | case3 pos c tail rest next read =>
    rename_i ih
    obtain ⟨inside, rfl, rfl, rfl⟩ := readLexeme_comment_iff.mp read
    have split : blankComments ('/' :: '*' :: inside) =
        [' '] ++ blankComments (skipComment inside) := blankComments_comment inside
    exact ih (bare.behind split)
  | case4 => exact ⟨_, rfl⟩
  | case5 pos c tail rest next kind text read error failed =>
    rename_i ih
    -- whatever the token is, what follows it is bare again
    obtain ⟨source, split, -, again⟩ := exists_lexes read
    rw [split] at bare
    have lexes := again rest (.refl _ rest) fun _ _ first => first
    obtain ⟨tokens, found⟩ := ih (lexes.isBare bare)
    rw [found] at failed
    simp at failed

/-- No kept token of a bare text is a string, and none has an escape. -/
theorem Alternates.plain (alternates : Alternates pos cs parts last) (bare : IsBare cs) :
    ∀ part ∈ parts, part.span.token.kind ≠ .string ∧ '\\' ∉ part.span.source := by
  induction alternates with
  | done => simp
  | @part pos gap rest last span others isGap here kept lexes behind ih =>
    have inside := bare.behind (isGap.blankComments_append _)
    obtain ⟨stands, noString⟩ := lexes.stands inside kept
    have split := stands.blankComments_append
    refine List.forall_mem_cons.mpr ⟨⟨noString, fun escape => ?_⟩, ih (inside.behind split)⟩
    exact (inside '\\' (split ▸ List.mem_append_left _ escape)).1 rfl

/-- The values of the kept tokens behind their gaps, and a space for what is left at the end, are
the squeezed text. -/
theorem Alternates.squeeze_eq (alternates : Alternates pos cs parts last) (bare : IsBare cs) :
    squeeze (dropMarks (blankComments cs)) =
      (spacedBehind Token.value parts).toList ++ squeeze (blankComments last) := by
  induction alternates with
  | @done pos last trail =>
    rw [dropMarks_of_word fun mark => absurd (trail.isCssBlank '#' mark) (by decide)]
    rfl
  | @part pos gap rest last span others isGap here kept lexes behind ih =>
    have inside := bare.behind (isGap.blankComments_append _)
    have stands := (lexes.stands inside kept).1
    -- the gap is one run of blanks, which the value behind it ends
    have space : squeeze (blankComments gap) = (Part.separator ⟨gap, span⟩).toList := by
      rw [squeeze_of_blanks isGap.isCssBlank, Part.separator]
      simp only [blankComments_eq_nil_iff]
      split <;> rfl
    rw [isGap.blankComments_append, stands.blankComments_append,
      dropMarks_append_of_word fun mark => absurd (isGap.isCssBlank '#' mark) (by decide),
      stands.dropMarks_append, squeeze_append_append stands.text_ne_nil stands.noBlank,
      ih (inside.behind stands.blankComments_append), space, spacedBehind]
    simp only [String.toList_append, List.append_assoc]

theorem Alternates.isTrail (alternates : Alternates pos cs parts last) : IsTrail last := by
  induction alternates with
  | done trail => exact trail
  | part _ _ _ _ _ ih => exact ih

/-- The space in front of the first token and blanks behind the last do not matter when the tokens
are trimmed. -/
theorem trimBlanks_spacedBehind (render : Token → String) (parts : List Part) {behind : List Char}
    (blanks : ∀ c ∈ behind, isBlank c = true) :
    trimBlanks ((spacedBehind render parts).toList ++ behind) =
      trimBlanks (spaced render parts).toList := by
  cases parts with
  | nil => exact @trimBlanks_append [] [] behind (by simp) blanks
  | cons first others =>
    have space : ∀ c ∈ first.separator.toList, isBlank c = true := by
      rw [Part.separator]
      split <;> simp
      decide
    rw [spacedBehind, spaced, String.append_assoc, String.toList_append, List.append_assoc]
    exact trimBlanks_append space blanks

/-- Trimmed, the joined values of the kept tokens are the trimmed and squeezed text. -/
theorem Alternates.trimBlanks_join (alternates : Alternates pos cs parts last) (bare : IsBare cs) :
    trimBlanks (Token.join Token.value (parts.map (·.span.token))).toList =
      trimBlanks (squeeze (dropMarks (blankComments cs))) := by
  have blanks : ∀ c ∈ squeeze (blankComments last), isBlank c = true :=
    forall_mem_squeeze rfl fun c member =>
      isBlank_of_isCssBlank (alternates.isTrail.isCssBlank c member)
  rw [alternates.join Token.value fun part member => (alternates.plain bare part member).2,
    alternates.squeeze_eq bare, trimBlanks_spacedBehind Token.value parts blanks]

end Tokens

end SelectorPath.Lexer
