import SelectorPath.Proofs.Series.Grammar
import SelectorPath.Proofs.Token.Bare

/-!
# Series in a source text

A series is read from tokens, so three layers decide which blanks may stand in its text: tokens are
separated by the blanks of the grammar and by comments, the joined text of the tokens is trimmed,
and blanks around the sign of the offset are skipped. In a text without quotes and backslashes they
amount to one grammar of the source: comments count as blanks, the forms of a series have runs of
blanks around the sign of the offset only, and blanks may stand around the whole. Two things are
accepted on top of that. The trimming goes by the Unicode property `White_Space`, although no blank
of the grammar is left at the ends of a token, and the signs of hashes are lost when token values
are joined.

## Main definitions

* `Series.HasForm` — the forms of a series, with blanks around the sign of the offset
* `Series.Spells` — a form in letters of any case, with blanks around it

## Main results

* `Series.parse_source` — which source texts are read as which series
* `Series.parse_written` — every series is read back from every way it is written
-/

namespace SelectorPath.Series

open Text Lexer

/-! ### Forms with blanks -/

/-- A text has the form of a series, where the blanks of the grammar may stand around the sign of
the offset, in any number. -/
inductive HasForm : List Char → Series → Prop
  | odd : HasForm ['o', 'd', 'd'] ⟨2, 1⟩
  | even : HasForm ['e', 'v', 'e', 'n'] ⟨2, 0⟩
  | single {sign digits : List Char} {b : Int32} (numeral : IsNumeral sign digits b) :
    HasForm (sign ++ digits) ⟨0, b⟩
  | multiple {front : List Char} {a : Int32} (coefficient : IsCoefficient front a) :
    HasForm (front ++ ['n']) ⟨a, 0⟩
  | linear {front before sign after digits : List Char} {a b : Int32}
    (coefficient : IsCoefficient front a) (blankBefore : ∀ c ∈ before, isCssBlank c = true)
    (hasSign : sign ≠ []) (blankAfter : ∀ c ∈ after, isCssBlank c = true)
    (numeral : IsNumeral sign digits b) :
    HasForm (front ++ 'n' :: (before ++ (sign ++ (after ++ digits)))) ⟨a, b⟩

/-- A text has the form of a series in letters of any case, with blanks of the given class around
it. -/
def Spells (blank : Char → Bool) (cs : List Char) (series : Series) : Prop :=
  ∃ before core behind, cs = before ++ (core ++ behind) ∧ (∀ c ∈ before, blank c = true) ∧
    (∀ c ∈ behind, blank c = true) ∧ HasForm (core.map Char.toLower) series

/-! ### Characters of a form -/

/-- A digit, a sign or a letter of a form. -/
def isInk (c : Char) : Bool := isDigit c || ['+', '-', 'd', 'e', 'n', 'o', 'v'].contains c

section Ink

variable {c : Char} {sign digits front : List Char} {value : Int32}

theorem isBlank_of_isInk (ink : isInk c = true) : isBlank c = false := by
  rcases Bool.or_eq_true_iff.mp ink with digit | other
  · refine Bool.eq_false_iff.mpr fun blank => ?_
    simp only [isDigit, Bool.and_eq_true, decide_eq_true_eq, le_iff_toNat] at digit
    simp only [Char.reduceToNat] at digit
    simp only [isBlank, blankRanges, List.any_cons, List.any_nil, Bool.or_eq_true,
      Bool.and_eq_true, decide_eq_true_eq, Bool.false_eq_true, or_false] at blank
    omega
  · have noBlanks : ['+', '-', 'd', 'e', 'n', 'o', 'v'].all (!isBlank ·) = true := rfl
    simpa using List.all_eq_true.mp noBlanks c (List.contains_iff_mem.mp other)

theorem isCssBlank_of_isInk (ink : isInk c = true) : isCssBlank c = false :=
  Bool.eq_false_iff.mpr fun blank =>
    absurd (isBlank_of_isCssBlank blank) (by simp [isBlank_of_isInk ink])

theorem noBlank_of_ink {word : List Char} (ink : ∀ c ∈ word, isInk c = true) :
    ∀ c ∈ word, isCssBlank c = false :=
  fun c member => isCssBlank_of_isInk (ink c member)

theorem isInk_of_isDigit (digit : isDigit c = true) : isInk c = true := by
  rw [isInk, digit, Bool.true_or]

theorem IsNumeral.isInk (numeral : IsNumeral sign digits value) :
    ∀ c ∈ sign ++ digits, isInk c = true := by
  refine List.forall_mem_append.mpr ⟨?_, fun c member => isInk_of_isDigit (numeral.all c member)⟩
  rcases numeral.isSign with rfl | rfl | rfl
  all_goals exact List.all_eq_true.mp rfl

theorem IsCoefficient.isInk (coefficient : IsCoefficient front value) :
    ∀ c ∈ front ++ ['n'], isInk c = true := by
  refine List.forall_mem_append.mpr ⟨?_, List.all_eq_true.mp rfl⟩
  cases coefficient with
  | none | plus | minus => exact List.all_eq_true.mp rfl
  | number numeral => exact numeral.isInk

end Ink

section HasForm

variable {cs : List Char} {series : Series}

/-- There are no other characters in a form than blanks and ink. -/
theorem HasForm.chars (hasForm : HasForm cs series) :
    ∀ c ∈ cs, isCssBlank c = true ∨ isInk c = true := by
  cases hasForm with
  | odd | even => exact fun c member => .inr (List.all_eq_true.mp rfl c member)
  | single numeral => exact fun c member => .inr (numeral.isInk c member)
  | multiple coefficient => exact fun c member => .inr (coefficient.isInk c member)
  | linear coefficient blankBefore _ blankAfter numeral =>
    obtain ⟨inSign, inDigits⟩ := List.forall_mem_append.mp numeral.isInk
    rw [List.append_cons]
    simp only [List.forall_mem_append]
    exact ⟨List.forall_mem_append.mp fun c member => .inr (coefficient.isInk c member),
      fun c member => .inl (blankBefore c member), fun c member => .inr (inSign c member),
      fun c member => .inl (blankAfter c member), fun c member => .inr (inDigits c member)⟩

theorem HasForm.ne_nil (hasForm : HasForm cs series) : cs ≠ [] := by
  cases hasForm with
  | odd | even => exact List.cons_ne_nil _ _
  | single numeral => simp [numeral.nonempty]
  | multiple | linear => simp

/-- There is ink at both ends of a form. -/
theorem HasForm.ends (hasForm : HasForm cs series) :
    (∀ c ∈ cs.head?, isInk c = true) ∧ ∀ c ∈ cs.getLast?, isInk c = true := by
  have ofInk {cs : List Char} (ink : ∀ c ∈ cs, isInk c = true) :
      (∀ c ∈ cs.head?, isInk c = true) ∧ ∀ c ∈ cs.getLast?, isInk c = true :=
    ⟨fun c first => ink c (List.mem_of_mem_head? first),
      fun c last => ink c (List.mem_of_mem_getLast? last)⟩
  cases hasForm with
  | odd | even => exact ofInk (List.all_eq_true.mp rfl)
  | single numeral => exact ofInk numeral.isInk
  | multiple coefficient => exact ofInk coefficient.isInk
  | @linear front before sign after digits a b coefficient blankBefore _ blankAfter numeral =>
    constructor
    · rw [List.append_cons, List.head?_append_of_ne_nil _ (by simp)]
      exact (ofInk coefficient.isInk).1
    · have whole : front ++ 'n' :: (before ++ (sign ++ (after ++ digits))) =
          (front ++ 'n' :: (before ++ (sign ++ after))) ++ digits := by simp
      rw [whole, List.getLast?_append_of_ne_nil _ numeral.nonempty]
      exact (ofInk (List.forall_mem_append.mp numeral.isInk).2).2

end HasForm

/-! ### Forms and what they are squeezed to -/

section Squeeze

variable {cs : List Char} {series : Series}

theorem isOffsetBlank_of_mem_squeeze {run : List Char} (blanks : ∀ c ∈ run, isCssBlank c = true) :
    ∀ c ∈ squeeze run, isOffsetBlank c = true := by
  rw [squeeze_of_blanks blanks]
  split
  · simp
  · simp; decide

theorem isCssBlank_of_isOffsetBlank {c : Char} (blank : isOffsetBlank c = true) :
    isCssBlank c = true := by
  simp only [isOffsetBlank, Bool.or_eq_true, beq_iff_eq] at blank
  rcases blank with ((rfl | rfl) | rfl) | rfl <;> rfl

/-- Squeezed, a form has no more than one space on either side of the sign. -/
theorem HasForm.denotes (hasForm : HasForm cs series) : Denotes (squeeze cs) series := by
  cases hasForm with
  | odd => exact .odd
  | even => exact .even
  | single numeral =>
    rw [squeeze_of_word (noBlank_of_ink numeral.isInk)]
    exact .single numeral
  | multiple coefficient =>
    rw [squeeze_of_word (noBlank_of_ink coefficient.isInk)]
    exact .linear coefficient .none
  | @linear front before sign after digits a b coefficient blankBefore hasSign blankAfter numeral =>
    obtain ⟨inSign, inDigits⟩ := List.forall_mem_append.mp (noBlank_of_ink numeral.isInk)
    have last : squeeze (after ++ digits) = squeeze after ++ digits := by
      have apart := squeeze_append_append numeral.nonempty inDigits after []
      rwa [List.append_nil, squeeze, List.append_nil] at apart
    -- the only runs of blanks are those around the sign
    rw [List.append_cons, squeeze_append_of_word (noBlank_of_ink coefficient.isInk),
      squeeze_append_append hasSign inSign, last, ← List.append_cons]
    exact .linear coefficient (.number (isOffsetBlank_of_mem_squeeze blankBefore) hasSign
      (isOffsetBlank_of_mem_squeeze blankAfter) numeral)

/-- The blanks that the reader skips are some of those that a form may have. -/
theorem Denotes.hasForm (denotes : Denotes cs series) : HasForm cs series := by
  cases denotes with
  | odd => exact .odd
  | even => exact .even
  | single numeral => exact .single numeral
  | linear coefficient offset =>
    cases offset with
    | none => exact .multiple coefficient
    | number blankBefore hasSign blankAfter numeral =>
      exact .linear coefficient (fun c member => isCssBlank_of_isOffsetBlank (blankBefore c member))
        hasSign (fun c member => isCssBlank_of_isOffsetBlank (blankAfter c member)) numeral

/-- A text has a form already if it has one when it is squeezed. -/
theorem hasForm_of_denotes (denotes : Denotes (squeeze cs) series) : HasForm cs series := by
  generalize same : squeeze cs = text at denotes
  cases denotes with
  | odd =>
    rw [eq_of_squeeze_eq_word (by simp; decide) same]
    exact .odd
  | even =>
    rw [eq_of_squeeze_eq_word (by simp; decide) same]
    exact .even
  | single numeral =>
    rw [eq_of_squeeze_eq_word (noBlank_of_ink numeral.isInk) same]
    exact .single numeral
  | linear coefficient offset =>
    have inFront := noBlank_of_ink coefficient.isInk
    cases offset with
    | none =>
      rw [eq_of_squeeze_eq_word inFront same]
      exact .multiple coefficient
    | number blankBefore hasSign blankAfter numeral =>
      obtain ⟨inSign, inDigits⟩ := List.forall_mem_append.mp (noBlank_of_ink numeral.isInk)
      have css {run : List Char} (blanks : ∀ c ∈ squeeze run, isOffsetBlank c = true) :=
        forall_mem_of_squeeze (fun c blank => blank) fun c member =>
          isCssBlank_of_isOffsetBlank (blanks c member)
      -- every part of the squeezed text comes from a part of the text
      rw [List.append_cons] at same
      obtain ⟨front, others, rfl, frontSame, offsetSame⟩ := exists_of_squeeze_eq_append same
      obtain ⟨before, numbers, rfl, rfl, numberSame⟩ := exists_of_squeeze_eq_append offsetSame
      obtain ⟨sign, unsigned, rfl, signSame, unsignedSame⟩ := exists_of_squeeze_eq_append numberSame
      obtain ⟨after, digits, rfl, rfl, digitsSame⟩ := exists_of_squeeze_eq_append unsignedSame
      rw [eq_of_squeeze_eq_word inFront frontSame, eq_of_squeeze_eq_word inSign signSame,
        eq_of_squeeze_eq_word inDigits digitsSame, ← List.append_cons]
      exact .linear coefficient (css blankBefore) hasSign (css blankAfter) numeral

/-- A text that is trimmed and squeezed denotes a series if it has a form with blanks around it. -/
theorem denotes_trimBlanks_iff : Denotes (trimBlanks (squeeze cs)) series ↔
    ∃ before core behind, cs = before ++ (core ++ behind) ∧ (∀ c ∈ before, isBlank c = true) ∧
      (∀ c ∈ behind, isBlank c = true) ∧ HasForm core series := by
  constructor
  · intro denotes
    obtain ⟨front, back, whole, blankFront, blankBack⟩ := exists_trimBlanks (squeeze cs)
    obtain ⟨before, others, rfl, rfl, inside⟩ := exists_of_squeeze_eq_append whole
    obtain ⟨core, behind, rfl, same, rfl⟩ := exists_of_squeeze_eq_append inside
    have blanks (c : Char) := isBlank_of_isCssBlank (c := c)
    exact ⟨before, core, behind, rfl, forall_mem_of_squeeze blanks blankFront,
      forall_mem_of_squeeze blanks blankBack, hasForm_of_denotes (same ▸ denotes)⟩
  · rintro ⟨before, core, behind, rfl, blankBefore, blankBehind, hasForm⟩
    -- no run of blanks goes on from the form to what stands around it
    have ends := hasForm.ends
    have edgeBefore : ∀ c ∈ before.getLast?, ∀ d ∈ (core ++ behind).head?,
        isCssBlank c = false ∨ isCssBlank d = false := by
      rw [List.head?_append_of_ne_nil _ hasForm.ne_nil]
      exact fun c _ d first => .inr (isCssBlank_of_isInk (ends.1 d first))
    have edgeBehind : ∀ c ∈ core.getLast?, ∀ d ∈ behind.head?,
        isCssBlank c = false ∨ isCssBlank d = false :=
      fun c last d _ => .inl (isCssBlank_of_isInk (ends.2 c last))
    rw [squeeze_append edgeBefore, squeeze_append edgeBehind,
      trimBlanks_append (forall_mem_squeeze rfl blankBefore) (forall_mem_squeeze rfl blankBehind),
      trimBlanks_eq_self]
    · exact hasForm.denotes
    · exact fun c first => isBlank_of_isInk (hasForm.denotes.hasForm.ends.1 c first)
    · exact fun c last => isBlank_of_isInk (hasForm.denotes.hasForm.ends.2 c last)

/-- The case of letters does not matter for that. -/
theorem denotes_iff_spells :
    Denotes ((trimBlanks (squeeze cs)).map Char.toLower) series ↔ Spells isBlank cs series := by
  rw [← trimBlanks_map_toLower, ← squeeze_map_toLower, denotes_trimBlanks_iff]
  constructor
  · rintro ⟨before, core, behind, whole, blankBefore, blankBehind, hasForm⟩
    obtain ⟨before, others, rfl, rfl, inside⟩ := List.map_eq_append_iff.mp whole
    obtain ⟨core, behind, rfl, rfl, rfl⟩ := List.map_eq_append_iff.mp inside
    rw [List.forall_mem_map] at blankBefore blankBehind
    simp only [isBlank_toLower] at blankBefore blankBehind
    exact ⟨before, core, behind, rfl, blankBefore, blankBehind, hasForm⟩
  · rintro ⟨before, core, behind, rfl, blankBefore, blankBehind, hasForm⟩
    refine ⟨_, _, _, by rw [List.map_append, List.map_append], ?_, ?_, hasForm⟩
    all_goals
      rw [List.forall_mem_map]
      simpa only [isBlank_toLower]

end Squeeze

/-! ### Reading a source text -/

section Source

variable {cs : List Char} {text : String} {series : Series}

/-- Without strings the text of the tokens decides. -/
theorem parse_eq_ok_iff {tokens : List Token} (noString : ∀ token ∈ tokens, token.kind ≠ .string) :
    parse tokens = .ok series ↔ Denotes (argumentText tokens).toList series := by
  have absent : ¬ (tokens.any fun token => token.kind == .string) = true := by simpa using noString
  rw [parse, if_neg absent, ← ofChars?_eq_some_iff]
  split
  · rename_i found
    rw [found, Except.ok.injEq, Option.some.injEq]
  · rename_i nothing
    simp [nothing]

/-- In a text without quotes and escapes a series is read from the text itself. -/
theorem exists_parse_iff_spells (bare : IsBare text.toList) : ∃ tokens, tokenize text = .ok tokens ∧
    ∀ series, parse (Token.kept tokens) = .ok series ↔
      Spells isBlank (dropMarks (blankComments text.toList)) series := by
  obtain ⟨tokens, lexed⟩ := exists_tokens_of_isBare bare 0
  refine ⟨tokens, lexed, fun series => ?_⟩
  obtain ⟨spans, opened, covers, rfl⟩ := tokensFrom_eq_ok_iff.mp lexed
  obtain ⟨parts, last, alternates, same⟩ := covers.exists_alternates
  have noString : ∀ token ∈ parts.map (·.span.token), token.kind ≠ .string :=
    List.forall_mem_map.mpr fun part member => (alternates.plain bare part member).1
  -- the text of the kept tokens is the trimmed and squeezed source
  rw [covers.kept_eq same, parse_eq_ok_iff noString, argumentText, toList_lowerCase,
    String.toList_ofList, alternates.trimBlanks_join bare]
  exact denotes_iff_spells

theorem Spells.mono {blank wider : Char → Bool} (spells : Spells blank cs series)
    (wide : ∀ c ∈ cs, blank c = true → wider c = true) : Spells wider cs series := by
  obtain ⟨before, core, behind, rfl, blankBefore, blankBehind, hasForm⟩ := spells
  refine ⟨before, core, behind, rfl, fun c member => ?_, fun c member => ?_, hasForm⟩
  · exact wide c (List.mem_append_left _ member) (blankBefore c member)
  · exact wide c (List.mem_append_right _ (List.mem_append_right _ member)) (blankBehind c member)

/-- Blanks of the grammar and ink are all that a series is spelled with. -/
theorem Spells.chars (spells : Spells isCssBlank cs series) :
    ∀ c ∈ cs, isCssBlank c = true ∨ isInk c.toLower = true := by
  obtain ⟨before, core, behind, rfl, blankBefore, blankBehind, hasForm⟩ := spells
  simp only [List.forall_mem_append]
  refine ⟨fun c member => .inl (blankBefore c member), fun c member => ?_,
    fun c member => .inl (blankBehind c member)⟩
  rw [← isCssBlank_toLower]
  exact hasForm.chars c.toLower (List.mem_map_of_mem member)

theorem Spells.dropMarks_eq (spells : Spells isCssBlank cs series) : dropMarks cs = cs :=
  dropMarks_of_word fun mark => absurd (spells.chars '#' mark) (by decide)

theorem Spells.widen (spells : Spells isCssBlank cs series) : Spells isBlank cs series :=
  spells.mono fun _ _ => isBlank_of_isCssBlank

/-- What is spelled with the blanks of the grammar is read. -/
theorem exists_parse_of_spells (spells : Spells isCssBlank (blankComments text.toList) series) :
    ∃ tokens, tokenize text = .ok tokens ∧ parse (Token.kept tokens) = .ok series := by
  -- no quote and no backslash is among the characters of a series
  have bare : IsBare text.toList := by
    intro c member
    have chars := spells.chars c member
    refine ⟨?_, ?_, ?_⟩ <;> rintro rfl <;> exact absurd chars (by decide)
  obtain ⟨tokens, lexed, iff⟩ := exists_parse_iff_spells bare
  refine ⟨tokens, lexed, (iff series).mpr ?_⟩
  rw [spells.dropMarks_eq]
  exact spells.widen

/-- In a text without quotes and backslashes exactly those series are read that the text spells, a
space standing for each comment, if blanks at the ends are those of Unicode and signs of hashes are
left out. If no sign of a hash and no blank of Unicode is there but those of the grammar, these are
the series that the text spells with the blanks of the grammar, and only then. -/
theorem parse_source (plain : ∀ c ∈ text.toList, c ≠ '\\' ∧ c ≠ '"' ∧ c ≠ '\'') :
    ∃ tokens, tokenize text = .ok tokens ∧
      (∀ series, parse (Token.kept tokens) = .ok series ↔
        Spells isBlank (dropMarks (blankComments text.toList)) series) ∧
      ∀ series, Spells isCssBlank (blankComments text.toList) series ↔
        parse (Token.kept tokens) = .ok series ∧ ∀ c ∈ blankComments text.toList,
          c ≠ '#' ∧ (isBlank c = true → isCssBlank c = true) := by
  obtain ⟨tokens, lexed, iff⟩ := exists_parse_iff_spells (isBare_of_plain plain)
  refine ⟨tokens, lexed, iff, fun series => ?_⟩
  rw [iff]
  constructor
  · intro spells
    rw [spells.dropMarks_eq]
    refine ⟨spells.widen, fun c member => ?_⟩
    rcases spells.chars c member with blank | ink
    · refine ⟨?_, fun _ => blank⟩
      rintro rfl
      exact absurd blank (by decide)
    · refine ⟨?_, fun blank => ?_⟩
      · rintro rfl
        exact absurd ink (by decide)
      · exact absurd blank (by simp [← isBlank_toLower c, isBlank_of_isInk ink])
  · -- without signs of hashes nothing is left out, and all blanks are of the grammar
    rintro ⟨spells, chars⟩
    rw [dropMarks_of_word fun mark => (chars '#' mark).1 rfl] at spells
    exact spells.mono fun c member => (chars c member).2

end Source

/-- A form feed, a capital, and a comment that is a blank in front of the sign. -/
theorem parse_source_comment :
    (∀ c ∈ "\x0c2N/*x*/+ 3".toList, c ≠ '\\' ∧ c ≠ '"' ∧ c ≠ '\'') ∧
      ∃ tokens, tokenize "\x0c2N/*x*/+ 3" = .ok tokens ∧
        (∀ series, parse (Token.kept tokens) = .ok series ↔
          Spells isBlank (dropMarks (blankComments "\x0c2N/*x*/+ 3".toList)) series) ∧
        ∀ series, Spells isCssBlank (blankComments "\x0c2N/*x*/+ 3".toList) series ↔
          parse (Token.kept tokens) = .ok series ∧
            ∀ c ∈ blankComments "\x0c2N/*x*/+ 3".toList,
              c ≠ '#' ∧ (isBlank c = true → isCssBlank c = true) := by
  have plain : ∀ c ∈ "\x0c2N/*x*/+ 3".toList, c ≠ '\\' ∧ c ≠ '"' ∧ c ≠ '\'' := by simp
  exact ⟨plain, parse_source plain⟩

/-- A no-break space belongs to the token behind it and is trimmed nevertheless, and the sign of a
hash is no part of its value: neither text spells any series, and both are read as one. -/
theorem parse_not_spelled :
    (∃ tokens, tokenize "\u00a0odd" = .ok tokens ∧ parse (Token.kept tokens) = .ok ⟨2, 1⟩ ∧
      ∀ series, ¬ Spells isCssBlank (blankComments "\u00a0odd".toList) series) ∧
    ∃ tokens, tokenize "#odd" = .ok tokens ∧ parse (Token.kept tokens) = .ok ⟨2, 1⟩ ∧
      ∀ series, ¬ Spells isCssBlank (blankComments "#odd".toList) series := by
  have wide : (tokenize "\u00a0odd").toOption = some [⟨.ident, "\u00a0odd", 0⟩, ⟨.eof, "", 5⟩] := by
    decide +kernel
  have marked : (tokenize "#odd").toOption = some [⟨.hash, "odd", 0⟩, ⟨.eof, "", 4⟩] := by
    decide +kernel
  have wideText : argumentText (Token.kept [⟨.ident, "\u00a0odd", 0⟩, ⟨.eof, "", 5⟩]) = "odd" := by
    decide +kernel
  have markedText : argumentText (Token.kept [⟨.hash, "odd", 0⟩, ⟨.eof, "", 4⟩]) = "odd" := by
    decide +kernel
  refine ⟨⟨_, tokenize_eq_ok wide, (parse_eq_ok_iff (by decide)).mpr ?_, fun series spells => ?_⟩,
    _, tokenize_eq_ok marked, (parse_eq_ok_iff (by decide)).mpr ?_, fun series spells => ?_⟩
  · rw [wideText]
    exact .odd
  · exact absurd (spells.chars '\u00a0' (by decide +kernel)) (by decide)
  · rw [markedText]
    exact .odd
  · exact absurd (spells.chars '#' (by decide +kernel)) (by decide)

/-! ### Writing a series -/

section Written

variable {c : Char} {sign digits : List Char} {value : Int32}

theorem toLower_of_isDigit (digit : isDigit c = true) : c.toLower = c := by
  simp only [isDigit, Bool.and_eq_true, decide_eq_true_eq, le_iff_toNat] at digit
  simp only [Char.reduceToNat] at digit
  rw [eq_iff_toNat, toNat_toLower, if_neg (by omega)]

/-- A number has no letters. -/
theorem IsNumeral.map_toLower (numeral : IsNumeral sign digits value) :
    sign.map Char.toLower = sign ∧ digits.map Char.toLower = digits := by
  constructor
  · rcases numeral.isSign with rfl | rfl | rfl <;> rfl
  · calc digits.map Char.toLower
        = digits.map id :=
          List.map_congr_left fun c member => toLower_of_isDigit (numeral.all c member)
      _ = digits := List.map_id digits

theorem isNumeral_repr {n : Nat} (isSign : IsSign sign)
    (same : value.toInt = if sign = ['-'] then -(n : Int) else n) :
    IsNumeral sign n.repr.toList value :=
  ⟨repr_ne_nil n, fun _ => isDigit_of_mem_repr,
    signed_iff.mpr ⟨isSign, by rw [same, signedValue, decimalValue_repr]⟩⟩

/-- A number is written in decimal as a sign, if it is negative, and digits. -/
theorem exists_isNumeral_toString (value : Int32) :
    ∃ sign digits, (toString value).toList = sign ++ digits ∧ IsNumeral sign digits value := by
  have text : toString value = value.toInt.repr := rfl
  rw [text, Int.repr_eq_if]
  split
  · rename_i least
    refine ⟨[], _, rfl, isNumeral_repr (.inl rfl) ?_⟩
    rw [if_neg (by simp), Int.toNat_of_nonneg least]
  · rename_i negative
    refine ⟨['-'], _, String.toList_append, isNumeral_repr (.inr (.inr rfl)) ?_⟩
    rw [if_pos rfl]
    omega

/-- The digits of a number behind a sign of it. Zero has both. -/
theorem isNumeral_natAbs
    (signed : sign = ['+'] ∧ 0 ≤ value.toInt ∨ sign = ['-'] ∧ value.toInt ≤ 0) :
    IsNumeral sign value.toInt.natAbs.repr.toList value := by
  rcases signed with ⟨rfl, least⟩ | ⟨rfl, most⟩
  · refine isNumeral_repr (.inr (.inl rfl)) ?_
    rw [if_neg (by decide)]
    omega
  · refine isNumeral_repr (.inr (.inr rfl)) ?_
    rw [if_pos rfl]
    omega

theorem IsNumeral.noSlash (numeral : IsNumeral sign digits value) : '/' ∉ sign ++ digits :=
  fun slash => absurd (numeral.isInk '/' slash) (by decide)

/-- A coefficient, `n` and an offset spell a series whatever blanks stand between and around them.
-/
theorem spells_linear {front number before afterName afterSign behind : List Char} {name : Char}
    {a b : Int32} (coefficient : IsNumeral front number a) (letter : name.toLower = 'n')
    (hasSign : sign ≠ []) (offset : IsNumeral sign digits b)
    (blankBefore : ∀ c ∈ before, isCssBlank c = true)
    (blankName : ∀ c ∈ afterName, isCssBlank c = true)
    (blankSign : ∀ c ∈ afterSign, isCssBlank c = true)
    (blankBehind : ∀ c ∈ behind, isCssBlank c = true) :
    Spells isCssBlank (before ++ ((front ++ number ++ [name]) ++
      (afterName ++ (sign ++ (afterSign ++ (digits ++ behind)))))) ⟨a, b⟩ := by
  refine ⟨before, (front ++ number ++ [name]) ++ (afterName ++ (sign ++ (afterSign ++ digits))),
    behind, by simp, blankBefore, blankBehind, ?_⟩
  have small {run : List Char} (blanks : ∀ c ∈ run, isCssBlank c = true) :
      ∀ c ∈ run.map Char.toLower, isCssBlank c = true :=
    List.forall_mem_map.mpr fun c member => isCssBlank_toLower c ▸ blanks c member
  have form :=
    HasForm.linear (.number coefficient) (small blankName) hasSign (small blankSign) offset
  rw [List.append_cons] at form
  simpa only [List.map_append, List.map_cons, List.map_nil, letter, coefficient.map_toLower.1,
    coefficient.map_toLower.2, offset.map_toLower.1, offset.map_toLower.2] using form

end Written

/-- Every series is read back from every way to write it: the decimal number `a`, the letter in
either case, a sign of `b` and its digits, with blanks and comments in any number in front of `a`,
behind the letter, behind the sign and at the end. Inside the comments there may be anything. -/
theorem parse_written (a b : Int32) {name sign before behindName behindSign behind : String}
    (letter : name = "n" ∨ name = "N")
    (signed : sign = "+" ∧ 0 ≤ b.toInt ∨ sign = "-" ∧ b.toInt ≤ 0)
    (gapBefore : IsGap before.toList) (gapName : IsGap behindName.toList)
    (gapSign : IsGap behindSign.toList) (gapBehind : IsGap behind.toList) :
    ∃ tokens, tokenize (before ++ toString a ++ name ++ behindName ++ sign ++ behindSign ++
        toString b.toInt.natAbs ++ behind) = .ok tokens ∧
      parse (Token.kept tokens) = .ok ⟨a, b⟩ := by
  obtain ⟨front, number, frontText, coefficient⟩ := exists_isNumeral_toString a
  obtain ⟨mark, nameText, small⟩ : ∃ mark, name.toList = [mark] ∧ mark.toLower = 'n' := by
    rcases letter with rfl | rfl <;> exact ⟨_, rfl, rfl⟩
  obtain ⟨hasSign, offset⟩ :
      sign.toList ≠ [] ∧ IsNumeral sign.toList b.toInt.natAbs.repr.toList b := by
    rcases signed with ⟨rfl, least⟩ | ⟨rfl, most⟩
    · exact ⟨by simp, isNumeral_natAbs (.inl ⟨rfl, least⟩)⟩
    · exact ⟨by simp, isNumeral_natAbs (.inr ⟨rfl, most⟩)⟩
  obtain ⟨signNoSlash, digitsNoSlash⟩ := not_or.mp (List.mem_append.not.mp offset.noSlash)
  have wordNoSlash : '/' ∉ front ++ number ++ [mark] := by
    rw [List.mem_append, not_or, List.mem_singleton]
    refine ⟨coefficient.noSlash, ?_⟩
    rintro rfl
    exact absurd small (by decide)
  have split : (before ++ toString a ++ name ++ behindName ++ sign ++ behindSign ++
        toString b.toInt.natAbs ++ behind).toList =
      before.toList ++ ((front ++ number ++ [mark]) ++ (behindName.toList ++ (sign.toList ++
        (behindSign.toList ++ (b.toInt.natAbs.repr.toList ++ behind.toList))))) := by
    simp only [String.toList_append, frontText, nameText, List.append_assoc]
    rfl
  apply exists_parse_of_spells
  -- the gaps have become runs of blanks, and the words between them are as before
  rw [split, gapBefore.blankComments_append, blankComments_append_of_word wordNoSlash,
    gapName.blankComments_append, blankComments_append_of_word signNoSlash,
    gapSign.blankComments_append, blankComments_append_of_word digitsNoSlash]
  exact spells_linear coefficient small hasSign offset gapBefore.isCssBlank gapName.isCssBlank
    gapSign.isCssBlank gapBehind.isCssBlank

/-- The least numbers of 32 bits, with a backslash in one comment and a quote in another. -/
theorem parse_written_least :
    ∃ tokens, tokenize "\t-2147483648N/*\\*/ -/*'*/2147483648\x0c" = .ok tokens ∧
      parse (Token.kept tokens) = .ok ⟨-2147483648, -2147483648⟩ := by
  have text : "\t" ++ toString (-2147483648 : Int32) ++ "N" ++ "/*\\*/ " ++ "-" ++ "/*'*/" ++
      toString (-2147483648 : Int32).toInt.natAbs ++ "\x0c" =
        "\t-2147483648N/*\\*/ -/*'*/2147483648\x0c" := by
    decide +kernel
  have tab : IsGap "\t".toList := .blank rfl .nil
  have closed : IsComment ['/', '*', '\\', '*', '/'] := ⟨['\\'], rfl, by decide⟩
  have backslash : IsGap "/*\\*/ ".toList := .comment closed (.blank rfl .nil)
  have quote : IsGap "/*'*/".toList := IsComment.isGap ⟨['\''], by decide, by decide⟩
  have feed : IsGap "\x0c".toList := .blank rfl .nil
  have written := parse_written (-2147483648) (-2147483648) (.inr rfl) (.inr ⟨rfl, by decide⟩)
    tab backslash quote feed
  rwa [text] at written

end SelectorPath.Series
