import Mathlib.Data.List.TakeWhile
import SelectorPath.Proofs.XPath.Grammar
import SelectorPath.Proofs.Text.Run

/-!
# Colons outside of literals

Outside of literals a colon stands in an expression for one of two reasons: two of them follow the
name of an axis, and a single one parts the prefix of a qualified name from its rest. So a text
whose colons all stand in pairs has no qualified names. One scan from left to right tells whether
they do.

## Main definitions

* `Place`, `Place.after` — what the scan knows
* `ColonsPaired` — all colons of a text outside of its literals stand in pairs
* `Grammar.Token.IsUnprefixed` — the tokens without a qualified name

## Main results

* `Grammar.Lexes.isUnprefixed` — a text with paired colons has only such tokens
-/

namespace SelectorPath.XPath

open Text

/-! ### Scanning a text -/

/-- What a scan knows of the place that it has come to. -/
inductive Place
  | outside
  | /-- Behind the first colon of a pair. -/
    colon
  | /-- In a literal that ends at the given quote. -/
    literal (quote : Char)
  | /-- Behind a colon that is not one of a pair. -/
    single
  deriving DecidableEq

/-- The place behind one more character. -/
def Place.next : Place → Char → Place
  | .outside, c =>
    if c = ':' then .colon else if c = '\'' ∨ c = '"' then .literal c else .outside
  | .colon, c => if c = ':' then .outside else .single
  | .literal quote, c => if c = quote then .outside else .literal quote
  | .single, _ => .single

/-- The place behind several characters. -/
def Place.after (place : Place) (cs : List Char) : Place := cs.foldl Place.next place

/-- All colons of the text outside of its literals stand in pairs, and all its literals end. -/
def ColonsPaired (text : String) : Prop := Place.outside.after text.toList = .outside

instance : DecidablePred ColonsPaired := fun text =>
  inferInstanceAs (Decidable (Place.outside.after text.toList = .outside))

/-- The character is neither a colon nor a quote. -/
def IsUnmarked (c : Char) : Prop := c ≠ ':' ∧ c ≠ '\'' ∧ c ≠ '"'

theorem isUnmarked_of_isPlainPart {c : Char} (plain : isPlainPart c = true) : IsUnmarked c := by
  refine ⟨?_, ?_, ?_⟩ <;> rintro rfl <;> exact absurd plain (by decide)

theorem isUnmarked_of_isDigit {c : Char} (digit : isDigit c = true) : IsUnmarked c :=
  isUnmarked_of_isPlainPart (isPlainPart_of_isDigit digit)

namespace Place

@[simp] theorem after_nil (place : Place) : place.after [] = place := rfl

@[simp] theorem after_cons (place : Place) (c : Char) (cs : List Char) :
    place.after (c :: cs) = (place.next c).after cs := rfl

@[simp] theorem after_append (place : Place) (first second : List Char) :
    place.after (first ++ second) = (place.after first).after second :=
  List.foldl_append

/-- A colon that is not one of a pair is never made up for. -/
@[simp] theorem after_single (cs : List Char) : single.after cs = single := by
  induction cs with
  | nil => rfl
  | cons c cs ih => exact ih

theorem after_outside_of_unmarked {cs : List Char} (unmarked : ∀ c ∈ cs, IsUnmarked c) :
    outside.after cs = outside := by
  induction cs with
  | nil => rfl
  | cons c cs ih =>
    obtain ⟨here, rest⟩ := List.forall_mem_cons.mp unmarked
    rw [after_cons]
    simpa [next, here.1, here.2.1, here.2.2] using ih rest

/-- A run of characters that are neither colons nor quotes makes no difference. -/
theorem after_dropWhile {accepts : Char → Bool}
    (unmarked : ∀ c, accepts c = true → IsUnmarked c) (cs : List Char) :
    outside.after (cs.dropWhile accepts) = outside.after cs := by
  have run : outside.after (cs.takeWhile accepts) = outside :=
    after_outside_of_unmarked fun c member => unmarked c (List.mem_takeWhile_imp member)
  have whole : outside.after (cs.takeWhile accepts ++ cs.dropWhile accepts) = outside.after cs := by
    rw [List.takeWhile_append_dropWhile]
  rwa [after_append, run] at whole

theorem after_literal_of_not_mem {quote : Char} {cs : List Char} (absent : quote ∉ cs) :
    (literal quote).after cs = literal quote := by
  induction cs with
  | nil => rfl
  | cons c cs ih =>
    rw [List.mem_cons, not_or] at absent
    simpa [next, Ne.symm absent.1] using ih absent.2

theorem next_quote {quote : Char} (isQuote : quote = '\'' ∨ quote = '"') :
    outside.next quote = literal quote := by
  rcases isQuote with rfl | rfl <;> rfl

/-- A text between two quotes of a kind that it does not hold. -/
theorem after_quoted {quote : Char} (isQuote : quote = '\'' ∨ quote = '"') {cs : List Char}
    (absent : quote ∉ cs) : outside.after (quote :: cs ++ [quote]) = outside := by
  rw [List.cons_append, after_cons, next_quote isQuote, after_append,
    after_literal_of_not_mem absent]
  simp [next]

end Place

/-! ### Tokens -/

namespace Grammar

open Place

/-- No name in the token has a prefix. -/
def Token.IsUnprefixed : Token → Prop
  | .nameTest (.anyIn _) => False
  | .nameTest (.name name) | .functionName name | .variable name => ':' ∉ name.toList
  | _ => True

section Read

variable {cs after : List Char} {token : Token}

theorem not_mem_takeWhile_plain (cs : List Char) :
    ':' ∉ (String.ofList (cs.takeWhile isPlainPart)).toList := by
  rw [String.toList_ofList]
  intro member
  exact absurd (List.mem_takeWhile_imp member) (by decide)

theorem isUnprefixed_classifyName {name : String} (noColon : ':' ∉ name.toList)
    (read : classifyName name cs = some token) : token.IsUnprefixed := by
  unfold classifyName at read
  split at read
  · obtain rfl := Option.some.inj read
    split
    · trivial
    · exact noColon
  · obtain ⟨axis, -, rfl⟩ := Option.map_eq_some_iff.mp read
    trivial
  · obtain rfl := Option.some.inj read
    exact noColon

theorem isUnprefixed_readOperandName (read : readOperandName cs = some (token, after))
    (paired : outside.after cs = outside) : token.IsUnprefixed ∧ outside.after after = outside := by
  -- the name in front holds no colon, so all depends on what follows it
  rw [← after_dropWhile fun _ => isUnmarked_of_isPlainPart] at paired
  have classified {rest : List Char} (known : cs.dropWhile isPlainPart = rest)
      (read : (classifyName (String.ofList (cs.takeWhile isPlainPart)) rest).map (·, rest) =
        some (token, after)) : token.IsUnprefixed ∧ outside.after after = outside := by
    obtain ⟨found, classify, same⟩ := Option.map_eq_some_iff.mp read
    obtain ⟨rfl, rfl⟩ := Prod.mk.inj same
    exact ⟨isUnprefixed_classifyName (not_mem_takeWhile_plain cs) classify, known ▸ paired⟩
  unfold readOperandName at read
  split at read
  -- the colon of `ns:*`, or one in front of a name, would be a single one
  · rename_i known
    simp [known, next] at paired
  · rename_i c rest _ known
    split at read
    · rename_i start
      have noColon : c ≠ ':' := (isUnmarked_of_isPlainPart (isPlainPart_of_isPlainStart start)).1
      simp [known, next, noColon] at paired
    · exact classified known read
  · exact classified rfl read

theorem isUnprefixed_readNumber (paired : outside.after cs = outside) :
    (readNumber cs).1.IsUnprefixed ∧ outside.after (readNumber cs).2 = outside := by
  rw [← after_dropWhile fun _ => isUnmarked_of_isDigit] at paired
  unfold readNumber
  split
  · rename_i rest known
    rw [known] at paired
    refine ⟨trivial, ?_⟩
    rw [after_dropWhile fun _ => isUnmarked_of_isDigit]
    exact paired
  · exact ⟨trivial, paired⟩

theorem isUnprefixed_readLiteral {quote : Char} (read : readLiteral quote cs = some (token, after))
    (paired : (literal quote).after cs = outside) :
    token.IsUnprefixed ∧ outside.after after = outside := by
  have inside : (literal quote).after (cs.takeWhile (· ≠ quote)) = literal quote :=
    after_literal_of_not_mem fun member => by simpa using List.mem_takeWhile_imp member
  have whole : cs.takeWhile (· ≠ quote) ++ cs.dropWhile (· ≠ quote) = cs :=
    List.takeWhile_append_dropWhile
  rw [← whole, after_append, inside] at paired
  unfold readLiteral at read
  split at read
  · rename_i c rest known
    obtain ⟨rfl, rfl⟩ := Prod.mk.inj (Option.some.inj read)
    have closes : c = quote := by
      have stop := List.head?_dropWhile_not (· ≠ quote) cs
      rw [known] at stop
      simpa using stop
    rw [known, closes] at paired
    exact ⟨trivial, by simpa [next] using paired⟩
  · simp at read

theorem isUnprefixed_readVariable (read : readVariable cs = some (token, after))
    (paired : outside.after cs = outside) : token.IsUnprefixed ∧ outside.after after = outside := by
  rw [← after_dropWhile fun _ => isUnmarked_of_isPlainPart] at paired
  unfold readVariable at read
  simp only at read
  split at read
  · split at read
    · rename_i c rest known
      split at read
      · rename_i start
        have noColon : c ≠ ':' := (isUnmarked_of_isPlainPart (isPlainPart_of_isPlainStart start)).1
        simp [known, next, noColon] at paired
      · obtain ⟨rfl, rfl⟩ := Prod.mk.inj (Option.some.inj read)
        exact ⟨not_mem_takeWhile_plain cs, known ▸ paired⟩
    · obtain ⟨rfl, rfl⟩ := Prod.mk.inj (Option.some.inj read)
      exact ⟨not_mem_takeWhile_plain cs, paired⟩
  · simp at read

theorem isUnprefixed_readDot (paired : outside.after cs = outside) :
    (readDot cs).1.IsUnprefixed ∧ outside.after (readDot cs).2 = outside := by
  unfold readDot
  split
  · exact ⟨trivial, paired⟩
  · split
    · exact ⟨trivial, paired⟩
    · refine ⟨trivial, ?_⟩
      rwa [after_dropWhile fun _ => isUnmarked_of_isDigit]

theorem isUnprefixed_readSign (read : readSign cs = some (token, after))
    (paired : outside.after cs = outside) : token.IsUnprefixed ∧ outside.after after = outside := by
  unfold readSign at read
  split at read
  -- behind a point or a slash more may belong to the sign, and two colons make up a pair
  case h_5 rest =>
    have dot : (readDot rest).1.IsUnprefixed ∧ outside.after (readDot rest).2 = outside :=
      isUnprefixed_readDot paired
    rwa [Option.some.inj read] at dot
  case h_9 rest =>
    unfold readSlash at read
    split at read
    all_goals
      obtain ⟨rfl, rfl⟩ := Prod.mk.inj (Option.some.inj read)
      exact ⟨trivial, paired⟩
  case h_19 => simp at read
  all_goals
    obtain ⟨rfl, rfl⟩ := Prod.mk.inj (Option.some.inj read)
    exact ⟨trivial, paired⟩

/-- A token is read from a text with paired colons to a place outside of literals again. -/
theorem isUnprefixed_readToken {operand : Bool} (read : readToken operand cs = some (token, after))
    (paired : outside.after cs = outside) : token.IsUnprefixed ∧ outside.after after = outside := by
  cases cs with
  | nil => simp [readToken] at read
  | cons c cs =>
    simp only [readToken] at read
    split at read
    · split at read
      · exact isUnprefixed_readOperandName read paired
      · obtain ⟨operator, -, same⟩ := Option.map_eq_some_iff.mp read
        obtain ⟨rfl, rfl⟩ := Prod.mk.inj same
        rw [after_dropWhile fun _ => isUnmarked_of_isPlainPart]
        exact ⟨trivial, paired⟩
    split at read
    · have number := isUnprefixed_readNumber paired
      rwa [Option.some.inj read] at number
    split at read
    · rename_i isQuote
      refine isUnprefixed_readLiteral read ?_
      rwa [after_cons, next_quote isQuote] at paired
    split at read
    · rename_i dollar
      exact isUnprefixed_readVariable read (by simpa [dollar, next] using paired)
    split at read
    · rename_i star
      obtain ⟨rfl, rfl⟩ := Prod.mk.inj (Option.some.inj read)
      refine ⟨?_, by simpa [star, next] using paired⟩
      split <;> trivial
    · exact isUnprefixed_readSign read paired

end Read

/-- A text whose colons outside of literals stand in pairs has no names with prefixes. -/
theorem Lexes.isUnprefixed {operand : Bool} {cs : List Char} {tokens : List Token}
    (lexes : Lexes operand cs tokens) (paired : outside.after cs = outside) :
    ∀ token ∈ tokens, token.IsUnprefixed := by
  induction lexes with
  | nil => simp
  | @space operand c cs tokens blank _ ih =>
    refine ih ?_
    simp only [isSpace, Bool.or_eq_true, beq_iff_eq] at blank
    rcases blank with ((rfl | rfl) | rfl) | rfl <;> exact paired
  | token _ read _ ih =>
    obtain ⟨unprefixed, behind⟩ := isUnprefixed_readToken read paired
    exact List.forall_mem_cons.mpr ⟨unprefixed, ih behind⟩

end Grammar

end SelectorPath.XPath
