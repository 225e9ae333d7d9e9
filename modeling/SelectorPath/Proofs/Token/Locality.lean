import SelectorPath.Proofs.Token.Unescaped

/-!
# What a token depends on

A token ends where nothing that could belong to it comes next, so of the text behind a token only
the first characters matter: the first one, and whether an escape or a fraction starts there. Each
rule therefore reads the same from its source in front of any text that ends the token alike: in
front of the text it stood before, of nothing, and, but for a backslash at the end, of that text
with a character behind it that the token does not go on with. No token goes on with a comma or a
slash; blanks and names, which may end in an escape, go on with a blank.

## Main definitions

* `Lexer.firmStops`, `Lexer.looseStops` — characters that tokens do not go on with
* `Lexer.HeadAlike`, `Lexer.EndsAlike` — texts in front of which the same tokens end
* `Lexer.IsLocal` — a rule that does not depend on what else follows
* `Lexer.KeepsBackslash`, `Lexer.IsReread` — a token that is read again from its source

## Main results

* `Lexer.exists_lexes` — every token is read again from its source in front of a text that ends it
  alike
-/

namespace SelectorPath.Lexer

open Text

/-! ### Texts that end a token alike -/

/-- The characters that no token goes on with but a lone backslash. -/
def firmStops : List Char := [',', '/']

/-- The characters that no token goes on with but blanks, names and a lone backslash. -/
def looseStops : List Char := [',', '/', ' ', '\t', '\r', '\n', '\x0c']

/-- The characters that tokens of a kind do not go on with. -/
def stopsOf : Token.Kind → List Char
  | .ident | .hash | .space => firmStops
  | .string | .delim | .number | .eof => looseStops

theorem firmStops_subset : firmStops ⊆ looseStops := by
  simp [firmStops, looseStops]

theorem plain_of_mem_looseStops {c : Char} (loose : c ∈ looseStops) :
    isDigit c = false ∧ c ≠ '\\' ∧ c ≠ '.' := by
  have all : looseStops.all (fun c => !isDigit c && c != '\\' && c != '.') = true := rfl
  have plain := List.all_eq_true.mp all c loose
  simpa [and_assoc] using plain

/-- The second text starts as the first one does, or with one of the stops, or is empty. -/
def HeadAlike (stops rest other : List Char) : Prop := ∀ c ∈ other.head?, c ∈ rest.head? ∨ c ∈ stops

/-- What ends in front of the first text ends in front of the second. -/
structure EndsAlike (stops rest other : List Char) : Prop where
  head : HeadAlike stops rest other
  escape : readEscape rest = none → readEscape other = none
  fraction : readFraction rest = none → readFraction other = none

section Alike

variable {stops rest other source : List Char}

theorem HeadAlike.refl (stops rest : List Char) : HeadAlike stops rest rest :=
  fun _ first => .inl first

theorem headAlike_append (stops : List Char) (nonempty : source ≠ []) (rest other : List Char) :
    HeadAlike stops (source ++ rest) (source ++ other) := by
  intro c first
  obtain ⟨d, ds, rfl⟩ := List.exists_cons_of_ne_nil nonempty
  exact .inl first

theorem HeadAlike.append (alike : HeadAlike stops rest other) (source : List Char) :
    HeadAlike stops (source ++ rest) (source ++ other) := by
  by_cases empty : source = []
  · rw [empty]
    exact alike
  · exact headAlike_append stops empty rest other

/-- What does not come next in the first text, and is no stop, does not come next in the second. -/
theorem HeadAlike.rejects (alike : HeadAlike stops rest other) {p : Char → Bool}
    (next : ∀ c ∈ rest.head?, p c = false) (none : stops.any p = false) :
    ∀ c ∈ other.head?, p c = false := by
  intro c first
  rcases alike c first with same | stop
  · exact next c same
  · exact Bool.eq_false_iff.mpr (List.any_eq_false.mp none c stop)

theorem EndsAlike.refl (stops rest : List Char) : EndsAlike stops rest rest :=
  ⟨.refl stops rest, id, id⟩

theorem EndsAlike.mono {more : List Char} (ends : EndsAlike stops rest other)
    (subset : stops ⊆ more) : EndsAlike more rest other :=
  ⟨fun c first => (ends.head c first).imp_right (@subset c), ends.escape, ends.fraction⟩

theorem endsAlike_nil (stops rest : List Char) : EndsAlike stops rest [] :=
  ⟨by simp [HeadAlike], fun _ => rfl, fun _ => rfl⟩

/-- No fraction starts where no point stands in front of a digit. -/
theorem readFraction_eq_none_iff :
    readFraction rest = none ↔ ∀ c cs, rest = '.' :: c :: cs → isDigit c = false := by
  constructor
  · rintro nothing c cs rfl
    refine Bool.eq_false_iff.mpr fun digit => ?_
    simp [readFraction, digit] at nothing
  · intro noDigit
    unfold readFraction
    split
    · rename_i cs
      have stop : ∀ c ∈ cs.head?, isDigit c = false := by
        intro c first
        obtain ⟨ds, rfl⟩ := List.head?_eq_some_iff.mp first
        exact noDigit c ds rfl
      rw [(run_of_head stop).1, if_pos rfl]
    · rfl

/-- What ends in front of a text ends in front of the start of the text. -/
theorem endsAlike_start (stops front behind : List Char) :
    EndsAlike stops (front ++ behind) front := by
  refine ⟨?_, ?_, ?_⟩
  · intro c first
    obtain ⟨cs, rfl⟩ := List.head?_eq_some_iff.mp first
    exact .inl rfl
  · rw [readEscape_eq_none_iff, readEscape_eq_none_iff]
    rintro line c cs rfl
    exact line c (cs ++ behind) rfl
  · rw [readFraction_eq_none_iff, readFraction_eq_none_iff]
    rintro noDigit c cs rfl
    exact noDigit c (cs ++ behind) rfl

/-- A stop behind a text goes on with nothing unless a lone backslash stands in front of it. Behind
a text that is not empty, a stop of any kind will do. -/
theorem endsAlike_append (noEscape : rest ≠ ['\\']) {c : Char} (loose : c ∈ looseStops)
    (stop : rest = [] → c ∈ stops) (behind : List Char) :
    EndsAlike stops rest (rest ++ c :: behind) := by
  obtain ⟨noDigit, noBackslash, noPoint⟩ := plain_of_mem_looseStops loose
  refine ⟨?_, ?_, ?_⟩
  · intro d first
    cases rest with
    | nil =>
      obtain rfl : c = d := by simpa using first
      exact .inr (stop rfl)
    | cons e es => exact .inl first
  · rw [readEscape_eq_none_iff, readEscape_eq_none_iff]
    intro line d ds split
    rcases rest with _ | ⟨first, _ | ⟨second, more⟩⟩ <;> obtain ⟨rfl, behind⟩ := List.cons.inj split
    · exact absurd rfl noBackslash
    · exact absurd rfl noEscape
    · obtain ⟨rfl, -⟩ := List.cons.inj behind
      exact line _ more rfl
  · rw [readFraction_eq_none_iff, readFraction_eq_none_iff]
    intro digit d ds split
    rcases rest with _ | ⟨first, _ | ⟨second, more⟩⟩ <;> obtain ⟨rfl, behind⟩ := List.cons.inj split
    · exact absurd rfl noPoint
    · obtain ⟨rfl, -⟩ := List.cons.inj behind
      exact noDigit
    · obtain ⟨rfl, -⟩ := List.cons.inj behind
      exact digit _ more rfl

end Alike

/-! ### Escapes and strings -/

section Alike

variable {source rest other : List Char}

/-- A stop is no line feed. -/
theorem HeadAlike.noFeed (alike : HeadAlike firmStops rest other)
    (noFeed : ∀ d ∈ rest.head?, d ≠ '\n') : ∀ d ∈ other.head?, d ≠ '\n' := by
  rintro d first rfl
  rcases alike '\n' first with same | stop
  · exact noFeed '\n' same rfl
  · exact absurd stop (by decide)

theorem AreDigits.alike {limit : Nat} {digits : List Char} (areDigits : AreDigits limit digits rest)
    (alike : HeadAlike firmStops rest other) : AreDigits limit digits other :=
  ⟨areDigits.hex, areDigits.few, fun more => alike.rejects (areDigits.all more) rfl⟩

theorem IsOneBlank.alike {blank : List Char} (isOneBlank : IsOneBlank blank rest)
    (alike : HeadAlike firmStops rest other) : IsOneBlank blank other := by
  cases isOneBlank with
  | pair => exact .pair other
  | single blank noPair => exact .single blank fun carriage => alike.noFeed (noPair carriage)
  | none visible => exact .none (alike.rejects visible rfl)

theorem IsEscape.alike {c : Char} (isEscape : IsEscape source c rest)
    (alike : HeadAlike firmStops rest other) : IsEscape source c other := by
  cases isEscape with
  | @code digits blank _ nonempty areDigits isOneBlank =>
    exact .code nonempty (areDigits.alike (alike.append blank)) (isOneBlank.alike alike)
  | char noHex inLine => exact .char noHex inLine other

theorem IsContinuation.alike (isContinuation : IsContinuation source rest)
    (alike : HeadAlike firmStops rest other) : IsContinuation source other := by
  cases isContinuation with
  | pair => exact .pair other
  | single line noPair => exact .single line fun carriage => alike.noFeed (noPair carriage)

theorem IsInside.alike {quote : Char} {pieces : List Piece} (inside : IsInside quote pieces rest)
    (alike : HeadAlike firmStops rest other) : IsInside quote pieces other := by
  induction inside with
  | nil => exact .nil other
  | @cons piece pieces rest stands _ ih =>
    refine .cons ?_ (ih alike)
    have behind := alike.append (sources pieces)
    cases piece with
    | plain => exact stands
    | continuation => exact IsContinuation.alike stands behind
    | escape => exact IsEscape.alike stands behind

/-- A string ends by itself. -/
theorem readString_local {quote : Char} (isQuote : IsQuote quote) {start : Nat}
    {cs text : List Char} (read : readString quote start cs = .ok (text, rest)) :
    ∃ source, cs = source ++ rest ∧
      ∀ start other, readString quote start (source ++ other) = .ok (text, other) := by
  obtain ⟨pieces, rfl, inside, rfl⟩ := (readString_ok_iff isQuote).mp read
  refine ⟨sources pieces ++ [quote], by simp, fun start other => ?_⟩
  have again : IsInside quote pieces (quote :: other) :=
    inside.alike (headAlike_append firmStops (List.cons_ne_nil quote []) rest other)
  exact (readString_ok_iff isQuote).mpr ⟨pieces, by simp, again, rfl⟩

end Alike

/-! ### Rules -/

/-- What the rule reads it reads again from the same source in front of a text with a like first
character. -/
def IsLocal {α : Type} (read : List Char → Option (α × List Char)) : Prop :=
  ∀ ⦃cs rest : List Char⦄ ⦃value : α⦄, read cs = some (value, rest) →
    ∃ source, cs = source ++ rest ∧ source ≠ [] ∧
      ∀ other, HeadAlike firmStops rest other → read (source ++ other) = some (value, other)

theorem readEscape_local : IsLocal readEscape := by
  intro cs rest c read
  obtain ⟨source, rfl, isEscape⟩ := readEscape_iff.mp read
  obtain ⟨d, more, rfl, -⟩ := isEscape.eq_cons
  exact ⟨_, rfl, by simp, fun other alike => readEscape_iff.mpr ⟨_, rfl, isEscape.alike alike⟩⟩

theorem readCharOrEscape_local (accepts : Char → Bool) : IsLocal (readCharOrEscape accepts) := by
  intro cs rest value read
  obtain ⟨rfl, accepted⟩ | ⟨escape, rejects⟩ := readCharOrEscape_eq_some_iff.mp read
  · exact ⟨[value], rfl, by simp, fun other _ => readCharOrEscape_of_accepts accepted other⟩
  · obtain ⟨source, split, nonempty, again⟩ := readEscape_local escape
    refine ⟨source, split, nonempty, fun other alike => ?_⟩
    exact readCharOrEscape_eq_some_iff.mpr (.inr ⟨again other alike, rejects⟩)

/-- Where neither a name character nor an escape follows, none does in front of a text that ends a
name alike. -/
theorem readCharOrEscape_none {accepts : Char → Bool}
    (rejects : looseStops.any accepts = false) {rest other : List Char}
    (ends : EndsAlike looseStops rest other) (nothing : readCharOrEscape accepts rest = none) :
    readCharOrEscape accepts other = none := by
  cases other with
  | nil => rfl
  | cons c cs =>
    rcases ends.head c rfl with first | stop
    · obtain ⟨ds, rfl⟩ := List.head?_eq_some_iff.mp first
      by_cases accepted : accepts c = true
      · simp [readCharOrEscape, accepted] at nothing
      · simp only [readCharOrEscape, accepted] at nothing ⊢
        exact ends.escape nothing
    · have rejected := Bool.eq_false_iff.mpr (List.any_eq_false.mp rejects c stop)
      simp [readCharOrEscape, rejected, readEscape_of_ne (plain_of_mem_looseStops stop).2.1]

theorem readNameParts_local {cs rest name : List Char} (read : readNameParts cs = (name, rest)) :
    ∃ source, cs = source ++ rest ∧
      ∀ other, EndsAlike firmStops rest other → readNameParts (source ++ other) = (name, other) := by
  fun_induction readNameParts cs generalizing name rest with
  | case1 cs nothing =>
    obtain ⟨rfl, rfl⟩ := Prod.mk.inj read
    refine ⟨[], rfl, fun other ends => ?_⟩
    exact readNameParts_of_none
      (readCharOrEscape_none rfl (ends.mono firmStops_subset) nothing)
  | case2 cs c behind first shorter more after same ih =>
    obtain ⟨rfl, rfl⟩ := Prod.mk.inj read
    obtain ⟨here, split, nonempty, again⟩ := readCharOrEscape_local isNamePart first
    obtain ⟨source, others, againOthers⟩ := ih same
    refine ⟨here ++ source, by rw [List.append_assoc, ← others, split], fun other ends => ?_⟩
    -- behind the first character stands the rest of the name, which starts as before
    have head := again (source ++ other) (others ▸ ends.head.append source)
    rw [List.append_assoc, readNameParts_of_some head, againOthers other ends]

theorem takeHyphen_again {cs here behind : List Char} (split : (takeHyphen cs).2 = here ++ behind)
    (nonempty : here ≠ []) (other : List Char) :
    takeHyphen ((takeHyphen cs).1 ++ (here ++ other)) = ((takeHyphen cs).1, here ++ other) := by
  obtain ⟨c, more, rfl⟩ := List.exists_cons_of_ne_nil nonempty
  unfold takeHyphen at split ⊢
  split at split
  · rfl
  · rename_i noHyphen
    subst split
    exact takeHyphen_of_ne (fun hyphen => noHyphen (more ++ behind) (by rw [hyphen]; rfl)) _

theorem readIdent_local {cs rest name : List Char} (read : readIdent cs = some (name, rest)) :
    ∃ source, cs = source ++ rest ∧ source ≠ [] ∧
      ∀ other, EndsAlike firmStops rest other →
        readIdent (source ++ other) = some (name, other) := by
  have hyphen := takeHyphen_append cs
  obtain ⟨first, behind, parts, found, same, rfl⟩ := readIdent_eq_some_iff.mp read
  obtain ⟨here, split, nonempty, again⟩ := readCharOrEscape_local isNameStart found
  obtain ⟨source, others, againOthers⟩ := readNameParts_local same
  refine ⟨(takeHyphen cs).1 ++ (here ++ source), ?_, by simp [nonempty], fun other ends => ?_⟩
  · rw [List.append_assoc, List.append_assoc, ← others, ← split, hyphen]
  · have head := again (source ++ other) (others ▸ ends.head.append source)
    have whole := takeHyphen_again split nonempty (source ++ other)
    rw [List.append_assoc, List.append_assoc]
    simp [readIdent, whole, head, againOthers other ends]

theorem readHash_local {cs rest name : List Char} (read : readHash cs = some (name, rest)) :
    ∃ source, cs = source ++ rest ∧ source ≠ [] ∧
      ∀ other, EndsAlike firmStops rest other → readHash (source ++ other) = some (name, other) := by
  obtain ⟨behind, rfl, parts, nonempty⟩ := readHash_eq_some_iff.mp read
  obtain ⟨source, rfl, again⟩ := readNameParts_local parts
  refine ⟨'#' :: source, rfl, by simp, fun other ends => ?_⟩
  exact readHash_eq_some_iff.mpr ⟨source ++ other, rfl, again other ends, nonempty⟩

theorem readBlanks_local {cs rest blanks : List Char} (read : readBlanks cs = some (blanks, rest)) :
    cs = blanks ++ rest ∧ blanks ≠ [] ∧
      ∀ other, HeadAlike firmStops rest other →
        readBlanks (blanks ++ other) = some (blanks, other) := by
  obtain ⟨nonempty, rfl, rfl⟩ := readBlanks_eq_some_iff.mp read
  refine ⟨List.takeWhile_append_dropWhile.symm, nonempty, fun other alike => ?_⟩
  have inside : ∀ c ∈ cs.takeWhile isCssBlank, isCssBlank c = true :=
    fun c member => of_mem_takeWhile member
  have stop := alike.rejects (fun c first => (mem_of_head?_dropWhile first).1) rfl
  exact readBlanks_eq_some_iff.mpr
    ⟨nonempty, takeWhile_run inside stop, dropWhile_run inside stop⟩

theorem readNumber_local {cs rest number : List Char} (read : readNumber cs = some (number, rest)) :
    cs = number ++ rest ∧
      ∀ other, EndsAlike looseStops rest other →
        readNumber (number ++ other) = some (number, other) := by
  obtain ⟨split, shown⟩ := readNumber_shows read
  refine ⟨split, fun other ends => ?_⟩
  cases shown with
  | number number noDigit noFraction =>
    exact number.readNumber (ends.head.rejects noDigit rfl) (noFraction.imp_right ends.fraction)

/-! ### Rules that do not apply -/

section None

variable {c : Char} {rest other : List Char}

/-- The text behind a lone backslash has to start as before: a backslash goes on with a stop. -/
def KeepsBackslash (source rest other : List Char) : Prop :=
  source = ['\\'] → ∀ d ∈ other.head?, d ∈ rest.head?

theorem readBlanks_none (nothing : readBlanks (c :: rest) = none) (other : List Char) :
    readBlanks (c :: other) = none := by
  refine readBlanks_of_ne (Bool.eq_false_iff.mpr fun blank => ?_) other
  simp [readBlanks, blank] at nothing

theorem readEscape_none (keeps : KeepsBackslash [c] rest other)
    (nothing : readEscape (c :: rest) = none) : readEscape (c :: other) = none := by
  rw [readEscape_eq_none_iff] at nothing ⊢
  rintro d ds split
  obtain ⟨rfl, rfl⟩ := List.cons.inj split
  obtain ⟨es, rfl⟩ := List.head?_eq_some_iff.mp (keeps rfl d rfl)
  exact nothing d es rfl

theorem readIdent_none (ends : EndsAlike looseStops rest other)
    (keeps : KeepsBackslash [c] rest other) (nothing : readIdent (c :: rest) = none) :
    readIdent (c :: other) = none := by
  rw [readIdent_eq_none_iff] at nothing ⊢
  by_cases hyphen : c = '-'
  · subst hyphen
    exact readCharOrEscape_none rfl ends nothing
  · rw [takeHyphen_of_ne hyphen] at nothing ⊢
    by_cases start : isNameStart c = true
    · simp [readCharOrEscape, start] at nothing
    · simp only [readCharOrEscape, start] at nothing ⊢
      exact readEscape_none keeps nothing

theorem readHash_none (ends : EndsAlike looseStops rest other)
    (nothing : readHash (c :: rest) = none) : readHash (c :: other) = none := by
  by_cases hash : c = '#'
  · subst hash
    have stop : readCharOrEscape isNamePart rest = none := by
      cases found : readCharOrEscape isNamePart rest with
      | none => rfl
      | some pair => simp [readHash, readNameParts_of_some found] at nothing
    simp [readHash, readNameParts_of_none (readCharOrEscape_none rfl ends stop)]
  · exact readHash_of_ne hash other

theorem readOperator_none (alike : HeadAlike looseStops rest other)
    (nothing : readOperator (c :: rest) = none) : readOperator (c :: other) = none := by
  by_cases start : isOperatorStart c = true
  · refine readOperator_of_next (fun d first => ?_) c
    rintro rfl
    rcases alike '=' first with same | stop
    · obtain ⟨ds, rfl⟩ := List.head?_eq_some_iff.mp same
      simp [readOperator, start] at nothing
    · exact absurd stop (by decide)
  · exact readOperator_of_start (by simpa using start) other

theorem readNumber_none (ends : EndsAlike looseStops rest other)
    (nothing : readNumber (c :: rest) = none) : readNumber (c :: other) = none := by
  obtain ⟨noDigit, noFraction⟩ := readUnsigned_eq_none (readNumber_eq_none_iff.mp nothing)
  by_cases sign : c = '+' ∨ c = '-'
  · have behind (cs : List Char) : (takeSign (c :: cs)).2 = cs := by
      rcases sign with rfl | rfl <;> rfl
    rw [behind] at noDigit noFraction
    apply readNumber_of_rejects
    · rw [behind]
      exact ends.head.rejects noDigit rfl
    · rw [behind]
      exact ends.fraction noFraction
  · rw [not_or] at sign
    have whole (cs : List Char) := takeSign_of_ne sign.1 sign.2 cs
    rw [whole] at noDigit noFraction
    apply readNumber_of_rejects
    · rw [whole]
      exact noDigit
    · rw [whole]
      by_cases point : c = '.'
      · subst point
        -- behind a lone point stands no digit, and a stop is none
        have noDecimal : ∀ d ∈ rest.head?, isDigit d = false := by
          intro d first
          obtain ⟨ds, rfl⟩ := List.head?_eq_some_iff.mp first
          simpa [readFraction, List.takeWhile_cons] using noFraction
        simp [readFraction, (run_of_head (ends.head.rejects noDecimal rfl)).1]
      · exact readFraction_of_ne (by simp [point])

end None

/-! ### Tokens -/

section Tokens

variable {c : Char} {cs rest text : List Char} {kind : Token.Kind}

/-- In front of any other text that ends it alike, `source` is read as the same token. -/
def IsReread (source : List Char) (kind : Token.Kind) (text rest : List Char) : Prop :=
  ∀ other, EndsAlike (stopsOf kind) rest other → KeepsBackslash source rest other →
    Lexes source kind text other

/-- The sign of a hash starts no name. -/
theorem readIdent_of_readHash {value : List Char × List Char}
    (found : readHash (c :: cs) = some value) (other : List Char) :
    readIdent (c :: other) = none := by
  have sign : c = '#' := by
    refine Decidable.byContradiction fun noHash => ?_
    simp [readHash_of_ne noHash] at found
  exact readIdent_of_rejects (by simp [sign, takeHyphen, isNameStart, isLetter, isNonAscii])

theorem exists_lexes_of_readPlain (noQuote : c ≠ '"' ∧ c ≠ '\'') (noSlash : c ≠ '/')
    (read : readPlain c cs = ((kind, text), rest)) :
    ∃ source, c :: cs = source ++ rest ∧ source ≠ [] ∧ IsReread source kind text rest := by
  -- a source starts with the same character
  have starts {source : List Char} (split : c :: cs = source ++ rest) (nonempty : source ≠ []) :
      ∃ more, source = c :: more := by
    obtain ⟨d, more, rfl⟩ := List.exists_cons_of_ne_nil nonempty
    obtain ⟨rfl, -⟩ := List.cons.inj split
    exact ⟨more, rfl⟩
  cases readsPlain read with
  | blanks found =>
    obtain ⟨split, nonempty, again⟩ := readBlanks_local found
    obtain ⟨more, rfl⟩ := starts split nonempty
    refine ⟨_, split, nonempty, fun other ends _ => lexes_of_readPlain noQuote noSlash ?_⟩
    have run := again other ends.head
    rw [List.cons_append] at run
    simp [readPlain, run]
  | name noBlank found =>
    obtain ⟨source, split, nonempty, again⟩ := readIdent_local found
    obtain ⟨more, rfl⟩ := starts split nonempty
    refine ⟨_, split, nonempty, fun other ends _ => lexes_of_readPlain noQuote noSlash ?_⟩
    have name := again other ends
    rw [List.cons_append] at name
    simp [readPlain, readBlanks_none noBlank, name]
  | hash noBlank noName found =>
    obtain ⟨source, split, nonempty, again⟩ := readHash_local found
    obtain ⟨more, rfl⟩ := starts split nonempty
    refine ⟨_, split, nonempty, fun other ends _ => lexes_of_readPlain noQuote noSlash ?_⟩
    have hash := again other ends
    rw [List.cons_append] at hash
    simp [readPlain, readBlanks_none noBlank, readIdent_of_readHash found, hash]
  | operator _ _ _ found =>
    obtain ⟨d, start, rfl, split⟩ := readOperator_eq_some_iff.mp found
    exact ⟨_, split, by simp, fun other _ _ => lexes_operator start⟩
  | number _ _ _ _ found =>
    obtain ⟨split, again⟩ := readNumber_local found
    have shown := (readNumber_shows found).2
    refine ⟨_, split, shown.source_ne_nil, fun other ends _ => ?_⟩
    cases shown with
    | number number => exact lexes_of_isNumber number (again other ends)
  | sign noBlank noName noHash noOperator noNumber =>
    -- none of the rules applies in front of the other text either
    refine ⟨[c], rfl, by simp, fun other ends keeps => lexes_of_readPlain noQuote noSlash ?_⟩
    simp [readPlain, readBlanks_none noBlank, readIdent_none ends keeps noName,
      readHash_none ends noHash, readOperator_none ends.head noOperator,
      readNumber_none ends noNumber]

theorem readPlain_slash (cs : List Char) : readPlain '/' cs = ((.delim, ['/']), cs) := by
  have noName : readIdent ('/' :: cs) = none :=
    readIdent_of_rejects (by simp [takeHyphen, isNameStart, isLetter, isNonAscii])
  have noNumber : readNumber ('/' :: cs) = none :=
    readNumber_of_ne (by decide) (by decide) (by decide) cs
  simp [readPlain, readBlanks_of_ne, isCssBlank, noName, readHash_of_ne, noNumber,
    readOperator_of_start (rfl : isOperatorStart '/' = false)]

/-- A slash is read alone where no comment starts. -/
theorem lexes_slash (noStar : ∀ d ∈ rest.head?, d ≠ '*') : Lexes ['/'] .delim ['/'] rest := by
  refine ⟨'/', [], rfl, fun start => ?_⟩
  unfold readLexeme
  split
  · rename_i eq
    exact absurd rfl (noStar '*' (by rw [← List.nil_append rest, eq]; rfl))
  · simp [readPlain_slash]

/-- The first token of a text is read again from its source in front of any text that ends it
alike. -/
theorem exists_lexes {start : Nat} (read : readLexeme start c cs = .ok (.token kind text, rest)) :
    ∃ source, c :: cs = source ++ rest ∧ source ≠ [] ∧ IsReread source kind text rest := by
  cases readsToken read with
  | string mark found =>
    obtain ⟨source, rfl, again⟩ := readString_local mark found
    refine ⟨c :: source, rfl, by simp, fun other _ _ => ⟨c, source, rfl, fun start => ?_⟩⟩
    rcases mark with rfl | rfl <;> simp [readLexeme, again start other]
  | plain noQuote noComment found =>
    by_cases slash : c = '/'
    · subst slash
      rw [readPlain_slash] at found
      obtain ⟨⟨rfl, rfl⟩, rfl⟩ := by simpa only [Prod.mk.injEq] using found
      refine ⟨['/'], rfl, by simp, fun other ends _ => lexes_slash fun d first => ?_⟩
      rintro rfl
      rcases ends.head '*' first with same | stop
      · exact noComment rfl '*' same rfl
      · exact absurd stop (by decide)
    · exact exists_lexes_of_readPlain noQuote slash found

end Tokens

end SelectorPath.Lexer
