import SelectorPath.Proofs.Text.Run
import SelectorPath.Proofs.XPath.Primary
import SelectorPath.XPath.LocationPath

/-!
# Written expressions are read as they were meant

An expression that is written and read again comes back with the same grouping, if its operators
stand in each other as their precedence demands and its node tests are names. `Expr.Valid` says just
that, and `Expr.reads` is the result: the text of a valid expression is an expression of XPath 1.0,
and what it says is `Expr.term`.

The text is cut into tokens from left to right, so every lemma about a part of it is about what may
follow: a name must not run on, and must not come to stand in front of a parenthesis or two colons
(`Ends`).

## Main definitions

* `Expr.term` — what an expression says
* `Expr.Valid` — the operators group as they are written, and the node tests are names

## Main results

* `Expr.reads` — a valid expression is read as what it says
-/

namespace SelectorPath.XPath

open Text Grammar

/-! ### What an expression says -/

/-- The operator of the grammar. -/
def Operator.standard : Operator → Grammar.Operator
  | .or => .or
  | .and => .and
  | .equal => .equal
  | .notEqual => .notEqual
  | .atMost => .atMost
  | .atLeast => .atLeast
  | .plus _ => .plus
  | .minus _ => .minus
  | .modulo => .modulo
  | .union => .union

/-- The axis of the grammar. -/
def Axis.standard : Axis → Grammar.Axis
  | .child => .child
  | .parent => .parent
  | .ancestor => .ancestor
  | .ancestorOrSelf => .ancestorOrSelf
  | .descendantOrSelf => .descendantOrSelf
  | .precedingSibling => .precedingSibling
  | .followingSibling => .followingSibling
  | .attribute => .attribute

/-- The node test that a text is. -/
def nodeTest (test : String) : NodeTest :=
  if test = "*" then .any
  else
    match test.toList.dropWhile (· ≠ ':') with
    | [':', '*'] => .anyIn (String.ofList (test.toList.takeWhile (· ≠ ':')))
    | _ => .name test

/-- A literal says its value; one with quotes of both kinds is put together from its runs. -/
def literalTerm (value : String) : Term :=
  if '\'' ∉ value.toList ∨ '"' ∉ value.toList then .literal value
  else .call "concat" ((quoteRuns value.toList).map fun run => .literal (String.ofList run))

/-- A whole number, behind a sign if it is negative. -/
def integerTerm : Int → Term
  | .ofNat n => .number n.repr
  | .negSucc n => .negative (.number (n + 1).repr)

mutual

/-- What an expression says. A given text is known to say nothing but itself. -/
def Expr.term : Expr → Term
  | .verbatim text => .literal text
  | .integer value => integerTerm value
  | .literal value => literalTerm value
  | .call function arguments => .call function.text (Expr.terms arguments)
  | .binary operator left right => .binary operator.standard left.term right.term
  | .group inner => inner.term
  | .self => .step .self .node []
  | .parent => .step .parent .node []
  | .step axis test predicates =>
    .step axis.axis.standard (nodeTest test) (Expr.terms predicates)
  | .slash base axis test predicates =>
    .path base.term axis.axis.standard (nodeTest test) (Expr.terms predicates)

/-- What several expressions say. -/
def Expr.terms : List Expr → List Term
  | [] => []
  | expr :: rest => expr.term :: Expr.terms rest

end

/-- The level of an expression in the grammar. -/
def Expr.level : Expr → Nat
  | .integer (.negSucc _) => signLevel
  | .binary operator _ _ => operator.standard.level
  | _ => pathLevel

/-- The expression is a path, so that steps may follow. -/
def Expr.isPath : Expr → Bool
  | .self | .parent | .step _ _ _ | .slash _ _ _ _ => true
  | _ => false

/-- The expression ends in a parenthesis, so that a sign may follow without a blank. -/
def Expr.isCall : Expr → Bool
  | .call _ _ => true
  | _ => false

/-- A sign without blanks around it would run on a name. -/
def Operator.isSpaced : Operator → Bool
  | .plus .neither | .minus .neither => false
  | _ => true

/-- A text that can stand as a node test. -/
def IsNodeTest (test : String) : Prop :=
  test = "*" ∨ isPlainQName test = true ∨ ∃ ns, isPlainName ns = true ∧ test = ns ++ ":*"

mutual

/-- The operators in an expression group as they are written, and its node tests are names. -/
def Expr.Valid : Expr → Prop
  | .verbatim _ => False
  | .integer _ | .literal _ | .self | .parent => True
  | .call _ arguments => Expr.AllValid arguments
  | .binary operator left right =>
    (operator.isSpaced ∨ left.isCall) ∧ left.Valid ∧ right.Valid ∧
      operator.standard.level ≤ left.level ∧ operator.standard.level < right.level
  | .group inner => inner.Valid
  | .step _ test predicates => IsNodeTest test ∧ Expr.AllValid predicates
  | .slash base _ test predicates =>
    base.isPath ∧ base.Valid ∧ IsNodeTest test ∧ Expr.AllValid predicates

/-- All of several expressions are valid. -/
def Expr.AllValid : List Expr → Prop
  | [] => True
  | expr :: rest => expr.Valid ∧ Expr.AllValid rest

end

/-! ### What may follow an operand -/

/-- No name runs on here, and no name in front of here is a function or an axis. -/
def Ends (rest : List Char) : Prop :=
  (∀ c ∈ rest.head?, isPlainPart c = false) ∧
    ∀ c ∈ (rest.dropWhile isSpace).head?, c ≠ '(' ∧ c ≠ ':'

theorem Ends.nil : Ends [] := by simp [Ends]

theorem Ends.head_ne_colon {rest : List Char} (ends : Ends rest) : rest.head? ≠ some ':' := by
  intro head
  cases rest with
  | nil => simp at head
  | cons c cs =>
    obtain rfl : c = ':' := by simpa using head
    have hspace : isSpace ':' = false := by decide
    have := ends.2 ':' (by simp [hspace])
    exact this.2 rfl

/-- A text that opens no operand behind itself. -/
theorem Ends.of_sign {c : Char} (rest : List Char) (sign : c ∈ [')', ']', ',', '/', '[']) :
    Ends (c :: rest) := by
  simp only [List.mem_cons, List.not_mem_nil, or_false] at sign
  rcases sign with rfl | rfl | rfl | rfl | rfl <;>
    exact ⟨by simp; decide, by simp [isSpace]⟩

/-! ### Operators -/

theorem Operator.ends (operator : Operator) (spaced : operator.isSpaced = true)
    (rest : List Char) : Ends (operator.text.toList ++ rest) := by
  have hspace : isPlainPart ' ' = false := by decide
  cases operator with
  | plus spacing | minus spacing =>
    cases spacing with
    | both | before =>
      refine ⟨?_, ?_⟩ <;> simp [Operator.text, Spacing.around, hspace, isSpace]
    | neither => simp [isSpaced] at spaced
  | _ => refine ⟨?_, ?_⟩ <;> simp [Operator.text, hspace, isSpace]

theorem Operator.lexes (operator : Operator) {rest : List Char} {tokens : List Grammar.Token}
    (after : Lexes true rest tokens) :
    Lexes false (operator.text.toList ++ rest) (.operator operator.standard :: tokens) := by
  have spaced : Lexes true (' ' :: rest) tokens := .space rfl after
  cases operator with
  | plus spacing | minus spacing =>
    cases spacing with
    | both => exact .space rfl (.token rfl rfl spaced)
    | before => exact .space rfl (.token rfl rfl after)
    | neither => exact .token rfl rfl after
  | _ => exact .space rfl (.token rfl rfl spaced)

/-! ### Names -/

theorem isPlainName_iff {name : String} :
    isPlainName name = true ↔
      ∃ c cs, name.toList = c :: cs ∧ isPlainStart c = true ∧ ∀ d ∈ cs, isPlainPart d = true := by
  unfold isPlainName isPlainNameChars
  cases name.toList with
  | nil => simp
  | cons c cs =>
    simp only [Bool.and_eq_true, List.all_eq_true, List.cons.injEq]
    constructor
    · rintro ⟨start, parts⟩
      exact ⟨c, cs, ⟨rfl, rfl⟩, start, parts⟩
    · rintro ⟨_, _, ⟨rfl, rfl⟩, start, parts⟩
      exact ⟨start, parts⟩

theorem isPlainPart_of_mem {name : String} (plain : isPlainName name = true) {c : Char}
    (member : c ∈ name.toList) : isPlainPart c = true := by
  obtain ⟨first, others, split, start, parts⟩ := isPlainName_iff.mp plain
  rw [split, List.mem_cons] at member
  rcases member with rfl | member
  · exact isPlainPart_of_isPlainStart start
  · exact parts c member

/-- A plain name in the place of an operand is read as one. -/
theorem readToken_name {name : String} (plain : isPlainName name = true) (rest : List Char) :
    readToken true (name.toList ++ rest) = readOperandName (name.toList ++ rest) := by
  obtain ⟨first, others, split, start, parts⟩ := isPlainName_iff.mp plain
  simp [split, readToken, start]

theorem not_isSpace_of_isPlainPart {c : Char} (plain : isPlainPart c = true) :
    isSpace c = false := by
  cases blank : isSpace c with
  | false => rfl
  | true =>
    simp only [isSpace, Bool.or_eq_true, beq_iff_eq] at blank
    rcases blank with ((rfl | rfl) | rfl) | rfl <;> exact absurd plain (by decide)

/-- A plain name in the place of an operand is the token that its reader finds. -/
theorem scans_name {name : String} (plain : isPlainName name = true) {rest after : List Char}
    {token : Grammar.Token} (read : readOperandName (name.toList ++ rest) = some (token, after)) :
    Scans true (name.toList ++ rest) [token] token.wantsOperand after := by
  rw [← readToken_name plain] at read
  obtain ⟨first, others, split, start, parts⟩ := isPlainName_iff.mp plain
  rw [split, List.cons_append] at read ⊢
  exact .visible (not_isSpace_of_isPlainPart (isPlainPart_of_isPlainStart start)) read (.done _ _)

theorem lexes_name {name : String} (plain : isPlainName name = true) {rest after : List Char}
    {token : Grammar.Token} {tokens : List Grammar.Token}
    (read : readOperandName (name.toList ++ rest) = some (token, after))
    (behind : Lexes token.wantsOperand after tokens) :
    Lexes true (name.toList ++ rest) (token :: tokens) :=
  (scans_name plain read).lexes behind

/-- A name that nothing belongs to any more is a node test. -/
theorem classifyName_test (name : String) {rest : List Char} (ends : Ends rest) :
    classifyName name rest = some (.nameTest (.name name)) := by
  unfold classifyName
  split
  · rename_i eq
    exact absurd rfl (ends.2 '(' (by simp [eq])).1
  · rename_i eq
    exact absurd rfl (ends.2 ':' (by simp [eq])).2
  · rfl

theorem takeWhile_name {name : String} (plain : isPlainName name = true) (rest : List Char)
    (stop : ∀ c ∈ rest.head?, isPlainPart c = false) :
    (name.toList ++ rest).takeWhile isPlainPart = name.toList ∧
      (name.toList ++ rest).dropWhile isPlainPart = rest :=
  have inside := fun c (member : c ∈ name.toList) => isPlainPart_of_mem plain member
  ⟨takeWhile_run inside stop, dropWhile_run inside stop⟩

section Read

variable {name : String} (plain : isPlainName name = true) {rest : List Char}
include plain

theorem readOperandName_test (ends : Ends rest) :
    readOperandName (name.toList ++ rest) = some (.nameTest (.name name), rest) := by
  obtain ⟨taken, dropped⟩ := takeWhile_name plain rest ends.1
  unfold readOperandName
  rw [taken, dropped]
  split
  · exact absurd rfl ends.head_ne_colon
  · exact absurd rfl ends.head_ne_colon
  · simp [classifyName_test name ends]

/-- A name in front of a parenthesis is a function, unless it is a type of nodes. -/
theorem readOperandName_function (isFunction : name ∉ nodeTypes) :
    readOperandName (name.toList ++ '(' :: rest) =
      some (.functionName name, '(' :: rest) := by
  obtain ⟨taken, dropped⟩ := takeWhile_name plain ('(' :: rest) (by simp; decide)
  have hspace : isSpace '(' = false := by decide
  simp [readOperandName, taken, dropped, classifyName, hspace, isFunction]

/-- A name in front of two colons is an axis. -/
theorem readOperandName_axis {axis : Grammar.Axis} (named : Grammar.Axis.ofName? name = some axis) :
    readOperandName (name.toList ++ ':' :: ':' :: rest) =
      some (.axisName axis, ':' :: ':' :: rest) := by
  obtain ⟨taken, dropped⟩ := takeWhile_name plain (':' :: ':' :: rest) (by simp; decide)
  have hspace : isSpace ':' = false := by decide
  have hstart : isPlainStart ':' = false := by decide
  simp [readOperandName, taken, dropped, classifyName, hspace, hstart, named]

/-- A name in front of a colon and `*` is a test for a namespace. -/
theorem readOperandName_anyIn :
    readOperandName (name.toList ++ ':' :: '*' :: rest) =
      some (.nameTest (.anyIn name), rest) := by
  obtain ⟨taken, dropped⟩ := takeWhile_name plain (':' :: '*' :: rest) (by simp; decide)
  simp [readOperandName, taken, dropped]

/-- Two names with a colon between them are a node test together. -/
theorem readOperandName_qualified {second : String} (also : isPlainName second = true)
    (ends : Ends rest) :
    readOperandName (name.toList ++ ':' :: (second.toList ++ rest)) =
      some (.nameTest (.name (name ++ ":" ++ second)), rest) := by
  obtain ⟨c, cs, split, start, parts⟩ := isPlainName_iff.mp also
  obtain ⟨taken, dropped⟩ :=
    takeWhile_name plain (':' :: (second.toList ++ rest)) (by simp; decide)
  have inside := takeWhile_run parts ends.1
  have behind := dropWhile_run parts ends.1
  have classified := classifyName_test (name ++ ":" ++ second) ends
  have written : String.ofList (name.toList ++ ':' :: c :: cs) = name ++ ":" ++ second := by
    rw [← split, ← String.toList_inj]
    simp
  rw [split, List.cons_append] at taken dropped ⊢
  unfold readOperandName
  rw [taken, dropped]
  split
  · rename_i eq
    obtain ⟨rfl, _⟩ : c = '*' ∧ cs ++ rest = _ := by simpa using eq
    exact absurd start (by decide)
  · rename_i eq
    obtain ⟨rfl, rfl⟩ : c = _ ∧ cs ++ rest = _ := by simpa using eq
    simp [start, inside, behind, written, classified]
  · rename_i no
    exact absurd rfl (no c (cs ++ rest))

end Read

/-! ### Numbers and literals -/

/-- Digits in front of an end are a number. -/
theorem lexes_digits {digits rest : List Char} {tokens : List Grammar.Token}
    (nonempty : digits ≠ []) (inside : ∀ c ∈ digits, isDigit c = true) (ends : Ends rest)
    (behind : Lexes false rest tokens) :
    Lexes true (digits ++ rest) (.number (String.ofList digits) :: tokens) := by
  have stop : ∀ c ∈ rest.head?, isDigit c = false := by
    intro c head
    cases digit : isDigit c with
    | false => rfl
    | true => exact absurd (isPlainPart_of_isDigit digit) (by simp [ends.1 c head])
  have read : readNumber (digits ++ rest) = (.number (String.ofList digits), rest) := by
    unfold readNumber
    rw [takeWhile_run inside stop, dropWhile_run inside stop]
    split
    · exact absurd (ends.1 '.' rfl) (by decide)
    · rfl
  obtain ⟨c, cs, rfl⟩ := List.exists_cons_of_ne_nil nonempty
  have digit := inside c List.mem_cons_self
  have visible : isSpace c = false := not_isSpace_of_isPlainPart (isPlainPart_of_isDigit digit)
  rw [List.cons_append] at read ⊢
  exact .token visible (by simp [readToken, isPlainStart_of_isDigit digit, digit, read]) behind

/-- A text between two quotes that it does not hold is a literal. -/
theorem scans_quoted {quote : Char} (isQuote : quote = '\'' ∨ quote = '"') {cs : List Char}
    (absent : quote ∉ cs) (rest : List Char) :
    Scans true (quote :: cs ++ quote :: rest) [.literal (String.ofList cs)] false rest := by
  have inside : ∀ c ∈ cs, (c ≠ quote : Bool) = true := by
    intro c member
    simpa using fun same : c = quote => absent (same ▸ member)
  have stop : ∀ c ∈ (quote :: rest).head?, (c ≠ quote : Bool) = false := by simp
  have read : readLiteral quote (cs ++ quote :: rest) =
      some (.literal (String.ofList cs), rest) := by
    unfold readLiteral
    rw [takeWhile_run inside stop, dropWhile_run inside stop]
  have start : isPlainStart quote = false ∧ isDigit quote = false ∧ isSpace quote = false := by
    rcases isQuote with rfl | rfl <;> decide
  rw [List.cons_append]
  exact .visible start.2.2 (by simp [readToken, start, isQuote, read]) (.done _ _)

/-- A run holds single quotes only, or none. -/
theorem quoteRuns_uniform {cs run : List Char} (member : run ∈ quoteRuns cs) :
    ∃ isQuote, ∀ c ∈ run, (c == '\'') = isQuote := by
  induction cs generalizing run with
  | nil => simp [quoteRuns] at member
  | cons c cs ih =>
    have alone : ∃ isQuote, ∀ d ∈ [c], (d == '\'') = isQuote := ⟨c == '\'', by simp⟩
    unfold quoteRuns at member
    split at member
    · rename_i d others runs eq
      rw [eq] at ih
      split at member
      · rename_i same
        rcases List.mem_cons.mp member with rfl | member
        · obtain ⟨isQuote, uniform⟩ := ih List.mem_cons_self
          refine ⟨isQuote, fun e inside => ?_⟩
          rcases List.mem_cons.mp inside with rfl | inside
          · rw [same, uniform d List.mem_cons_self]
          · exact uniform e inside
        · exact ih (List.mem_cons_of_mem _ member)
      · rcases List.mem_cons.mp member with rfl | member
        · exact alone
        · exact ih member
    · rcases List.mem_cons.mp member with rfl | member
      · exact alone
      · exact ih member

/-- A run between quotes of the kind it does not hold is a literal. -/
theorem scans_quoteRun {cs run : List Char} (member : run ∈ quoteRuns cs) (rest : List Char) :
    Scans true (quoteRun run ++ rest) [.literal (String.ofList run)] false rest := by
  obtain ⟨isQuote, uniform⟩ := quoteRuns_uniform member
  unfold quoteRun
  split
  · rename_i holds
    have absent : '"' ∉ run := by
      intro also
      have := (uniform _ also).trans (uniform _ holds).symm
      exact absurd this (by decide)
    simpa using scans_quoted (.inr rfl) absent rest
  · rename_i absent
    simpa using scans_quoted (.inl rfl) absent rest

/-- Quoted runs with commas between them are arguments. -/
theorem exists_scan_quoteRuns {cs : List Char} {runs : List (List Char)} (nonempty : runs ≠ [])
    (all : ∀ run ∈ runs, run ∈ quoteRuns cs) :
    ∃ first tokens,
      Arguments (first :: tokens) (runs.map fun run => .literal (String.ofList run)) ∧
      ∀ rest, Scans true (", ".toList.intercalate (runs.map quoteRun) ++ rest) (first :: tokens)
        false rest := by
  induction runs with
  | nil => exact absurd rfl nonempty
  | cons run others ih =>
    have here := all run List.mem_cons_self
    have argument : Expression 0 [.literal (String.ofList run)] (.literal (String.ofList run)) :=
      .ofLevel (.filter (.literal _)) (Nat.zero_le _) (Nat.le_refl _)
    cases others with
    | nil =>
      refine ⟨_, _, .one argument, fun rest => ?_⟩
      simpa [List.intercalate] using scans_quoteRun here rest
    | cons next others =>
      obtain ⟨first, tokens, grouped, scans⟩ :=
        ih (by simp) fun other member => all other (List.mem_cons_of_mem _ member)
      refine ⟨_, _, .more argument grouped, fun rest => ?_⟩
      have comma : Scans false (',' :: ' ' :: (", ".toList.intercalate
          ((next :: others).map quoteRun) ++ rest)) (.comma :: first :: tokens) false rest :=
        .visible rfl rfl (.space rfl (scans rest))
      have both := (scans_quoteRun here _).append comma
      simpa [List.intercalate] using both

/-- A quoted text is a primary expression, whatever follows it. -/
theorem exists_scan_quote (value : String) :
    ∃ tokens, Primary tokens (literalTerm value) ∧
      ∀ rest, Scans true ((quote value).toList ++ rest) tokens false rest := by
  have whole := String.ofList_toList (s := value)
  unfold literalTerm quote quoteChars
  rw [String.toList_ofList]
  by_cases single : '\'' ∉ value.toList
  · refine ⟨_, by rw [if_pos (.inl single)]; exact .literal value, fun rest => ?_⟩
    simpa [single, whole] using scans_quoted (.inl rfl) single rest
  by_cases double : '"' ∉ value.toList
  · refine ⟨_, by rw [if_pos (.inr double)]; exact .literal value, fun rest => ?_⟩
    rw [if_neg single, if_pos double]
    simpa [whole] using scans_quoted (.inr rfl) double rest
  · rw [if_neg (not_or.mpr ⟨single, double⟩), if_neg single, if_neg double]
    have nonempty : quoteRuns value.toList ≠ [] := by
      intro none
      have empty := flatten_quoteRuns value.toList
      rw [none] at empty
      simp [← empty] at single
    obtain ⟨first, tokens, grouped, scans⟩ :=
      exists_scan_quoteRuns nonempty fun run member => member
    refine ⟨_, .call "concat" grouped, fun rest => ?_⟩
    have plain : isPlainName "concat" = true := by decide +kernel
    have close : Scans false (')' :: rest) [.closeParenthesis] false rest :=
      .visible rfl rfl (.done _ _)
    have opened : Scans false ('(' :: (", ".toList.intercalate
        ((quoteRuns value.toList).map quoteRun) ++ ')' :: rest))
        (.openParenthesis :: (first :: tokens ++ [.closeParenthesis])) false rest :=
      .visible rfl rfl ((scans _).append close)
    have named := (scans_name plain (readOperandName_function plain (by decide))).append opened
    simpa using named

/-! ### Steps -/

/-- A plain name in front of a colon is what stands before the first colon. -/
theorem span_colon {name : String} (plain : isPlainName name = true) (rest : List Char) :
    (name.toList ++ ':' :: rest).takeWhile (· ≠ ':') = name.toList ∧
      (name.toList ++ ':' :: rest).dropWhile (· ≠ ':') = ':' :: rest := by
  have absent : ':' ∉ name.toList := not_colon_of_isPlainNameChars plain
  have inside : ∀ c ∈ name.toList, (c ≠ ':' : Bool) = true := by
    intro c member
    simpa using fun same : c = ':' => absent (same ▸ member)
  exact ⟨takeWhile_run inside (by simp), dropWhile_run inside (by simp)⟩

theorem isPlainQName_iff {name : String} :
    isPlainQName name = true ↔
      isPlainName name = true ∨ ∃ first second, isPlainName first = true ∧
        isPlainName second = true ∧ name = first ++ ":" ++ second := by
  constructor
  · intro qualified
    simp only [isPlainQName, isPlainQNameChars, Bool.and_eq_true] at qualified
    obtain ⟨first, second⟩ := qualified
    have whole := List.takeWhile_append_dropWhile (p := (· ≠ ':')) (l := name.toList)
    have head := List.head?_dropWhile_not (· ≠ ':') name.toList
    split at second
    · rename_i none
      rw [none, List.append_nil] at whole
      rw [whole] at first
      exact .inl first
    · rename_i c after eq
      rw [eq] at whole head
      obtain rfl : c = ':' := by simpa using head
      refine .inr ⟨String.ofList (name.toList.takeWhile (· ≠ ':')), String.ofList after,
        ?_, ?_, ?_⟩
      · simpa [isPlainName] using first
      · simpa [isPlainName] using second
      · rw [← String.toList_inj]
        simpa using whole.symm
  · rintro (plain | ⟨first, second, plain, also, rfl⟩)
    · exact isPlainQNameChars_of_isPlainNameChars plain
    · obtain ⟨taken, dropped⟩ := span_colon plain second.toList
      have split : (first ++ ":" ++ second).toList = first.toList ++ ':' :: second.toList := by
        simp
      unfold isPlainQName isPlainQNameChars
      rw [split, taken, dropped]
      simpa [isPlainName] using ⟨plain, also⟩

theorem nodeTest_star : nodeTest "*" = .any := by simp [nodeTest]

/-- A plain name, qualified or not, tests for itself. -/
theorem nodeTest_qualified {name : String} (plain : isPlainQName name = true) :
    nodeTest name = .name name := by
  have star : name ≠ "*" := by
    rintro rfl
    exact absurd plain (by decide +kernel)
  rw [nodeTest, if_neg star]
  rcases isPlainQName_iff.mp plain with simple | ⟨first, second, simple, also, rfl⟩
  · have none : name.toList.dropWhile (· ≠ ':') = [] := by
      have absent := not_colon_of_isPlainNameChars simple
      have inside : ∀ c ∈ name.toList, (c ≠ ':' : Bool) = true := by
        intro c member
        simpa using fun same : c = ':' => absent (same ▸ member)
      have dropped : (name.toList ++ []).dropWhile (· ≠ ':') = [] := dropWhile_run inside (by simp)
      rwa [List.append_nil] at dropped
    rw [none]
  · have split : (first ++ ":" ++ second).toList = first.toList ++ ':' :: second.toList := by simp
    rw [split, (span_colon simple second.toList).2]
    split
    · rename_i eq
      obtain ⟨c, cs, second_eq, start, _⟩ := isPlainName_iff.mp also
      rw [second_eq] at eq
      obtain ⟨rfl, _⟩ : c = '*' ∧ cs = [] := by simpa using eq
      exact absurd start (by decide)
    · rfl

theorem nodeTest_anyIn {ns : String} (plain : isPlainName ns = true) :
    nodeTest (ns ++ ":*") = .anyIn ns := by
  have star : ns ++ ":*" ≠ "*" := by
    intro same
    have := congrArg (fun text => text.toList.length) same
    simp at this
  have split : (ns ++ ":*").toList = ns.toList ++ ':' :: ['*'] := by simp
  rw [nodeTest, if_neg star, split, (span_colon plain ['*']).1, (span_colon plain ['*']).2]
  simp

/-- A node test is read as it is meant. -/
theorem lexes_nodeTest {test : String} (valid : IsNodeTest test) {rest : List Char}
    {tokens : List Grammar.Token} (ends : Ends rest) (behind : Lexes false rest tokens) :
    Lexes true (test.toList ++ rest) (.nameTest (nodeTest test) :: tokens) := by
  rcases valid with rfl | qualified | ⟨ns, plain, rfl⟩
  · rw [nodeTest_star]
    exact .token rfl rfl behind
  · rw [nodeTest_qualified qualified]
    rcases isPlainQName_iff.mp qualified with plain | ⟨first, second, plain, also, rfl⟩
    · exact lexes_name plain (readOperandName_test plain ends) behind
    · have read := readOperandName_qualified plain also ends
      simpa using lexes_name plain read behind
  · rw [nodeTest_anyIn plain]
    simpa using lexes_name plain (readOperandName_anyIn plain) behind

theorem Axis.ofName?_text (axis : Axis) : Grammar.Axis.ofName? axis.text = some axis.standard := by
  cases axis <;> decide +kernel

theorem Axis.isPlainName_text (axis : Axis) : isPlainName axis.text = true := by
  cases axis <;> decide +kernel

/-- The axis of a step is read as it is meant. -/
theorem AxisSpecifier.exists_read (specifier : AxisSpecifier) :
    ∃ tokens, Grammar.AxisSpecifier tokens specifier.axis.standard ∧
      ∀ {rest : List Char} {more : List Grammar.Token}, Lexes true rest more →
        Lexes true (specifier.text.toList ++ rest) (tokens ++ more) := by
  match specifier with
  | .child => exact ⟨[], .child, fun behind => behind⟩
  | .attribute => exact ⟨[.at], .attribute, fun behind => .token rfl rfl behind⟩
  | .named axis =>
    refine ⟨_, .named axis.standard, fun {rest more} behind => ?_⟩
    have colons : Lexes false (':' :: ':' :: rest) (.twoColons :: more) := .token rfl rfl behind
    have plain := axis.isPlainName_text
    simpa [text] using lexes_name plain (readOperandName_axis plain axis.ofName?_text) colons

/-! ### Expressions -/

/-- The tokens are those of the expression, whatever ends it, and group as it says. -/
structure Expr.Read (expr : Expr) (tokens : List Grammar.Token) : Prop where
  lexes : ∀ {rest : List Char} {more : List Grammar.Token}, expr.isCall = true ∨ Ends rest →
    Lexes false rest more → Lexes true (expr.text.toList ++ rest) (tokens ++ more)
  grouped : Expression expr.level tokens expr.term
  path : expr.isPath = true → RelativePath none tokens expr.term

theorem Expr.level_le (expr : Expr) : expr.level ≤ pathLevel := by
  unfold Expr.level
  split
  · decide
  · rename_i operator _ _
    cases operator <;> simp [Operator.standard, Grammar.Operator.level, pathLevel]
  · exact Nat.le_refl _

/-- A path binds as tightly as anything. -/
theorem Expr.level_of_isPath {expr : Expr} (isPath : expr.isPath = true) :
    expr.level = pathLevel := by
  cases expr <;> simp_all [Expr.isPath, Expr.level]

/-- An expression may stand where nothing outside of it binds. -/
theorem Expr.Read.whole {expr : Expr} {tokens : List Grammar.Token} (read : expr.Read tokens) :
    Expression 0 tokens expr.term :=
  read.grouped.ofLevel (Nat.zero_le _) expr.level_le

theorem Expr.read_integer (value : Int) : ∃ tokens, (Expr.integer value).Read tokens := by
  have number (n : Nat) : Expression pathLevel [.number n.repr] (.number n.repr) :=
    .filter (.number _)
  have digits {rest : List Char} {more : List Grammar.Token} (n : Nat) (ends : Ends rest)
      (behind : Lexes false rest more) :
      Lexes true (n.repr.toList ++ rest) (.number n.repr :: more) := by
    have := lexes_digits (repr_ne_nil n) (fun _ => isDigit_of_mem_repr) ends behind
    rwa [String.ofList_toList] at this
  cases value with
  | ofNat n =>
    refine ⟨_, fun {rest more} ends behind => ?_, number n, by simp [isPath]⟩
    have split : (Expr.integer (.ofNat n)).text = n.repr := rfl
    rw [split]
    exact digits n (by simpa [isCall] using ends) behind
  | negSucc n =>
    refine ⟨_, fun {rest more} ends behind => ?_,
      .negative ((number (n + 1)).ofLevel (by decide) (Nat.le_refl _)), by simp [isPath]⟩
    have split : (Expr.integer (.negSucc n)).text = "-" ++ (n + 1).repr := rfl
    rw [split, String.toList_append]
    exact .token rfl rfl (digits (n + 1) (by simpa [isCall] using ends) behind)

theorem Expr.read_literal (value : String) : ∃ tokens, (Expr.literal value).Read tokens := by
  obtain ⟨tokens, primary, scans⟩ := exists_scan_quote value
  exact ⟨tokens, fun _ behind => (scans _).lexes behind, .filter primary.filter, by simp [isPath]⟩

/-- The tokens are those of several arguments. -/
structure Expr.ReadList (exprs : List Expr) (tokens : List Grammar.Token) : Prop where
  lexes : ∀ {rest : List Char} {more : List Grammar.Token}, Ends rest → Lexes false rest more →
    Lexes true ((Expr.listText exprs).toList ++ rest) (tokens ++ more)
  grouped : Arguments tokens (Expr.terms exprs)

/-- The tokens are those of several predicates. -/
structure Expr.ReadPredicates (exprs : List Expr) (tokens : List Grammar.Token) : Prop where
  lexes : ∀ {rest : List Char} {more : List Grammar.Token}, Lexes false rest more →
    Lexes false ((Expr.predicatesText exprs).toList ++ rest) (tokens ++ more)
  grouped : Predicates tokens (Expr.terms exprs)

theorem Expr.ReadList.one {expr : Expr} {tokens : List Grammar.Token} (read : expr.Read tokens) :
    ReadList [expr] tokens where
  lexes ends behind := by simpa [listText] using read.lexes (.inr ends) behind
  grouped := .one read.whole

theorem Expr.ReadList.cons {expr next : Expr} {others : List Expr}
    {tokens more : List Grammar.Token} (read : expr.Read tokens)
    (rest : ReadList (next :: others) more) :
    ReadList (expr :: next :: others) (tokens ++ .comma :: more) where
  lexes ends behind := by
    have comma : Lexes false (',' :: ' ' :: ((listText (next :: others)).toList ++ _))
        (.comma :: (more ++ _)) := .token rfl rfl (.space rfl (rest.lexes ends behind))
    simpa [listText] using read.lexes (.inr (.of_sign _ (by simp))) comma
  grouped := .more read.whole rest.grouped

theorem Expr.ReadPredicates.nil : ReadPredicates [] [] where
  lexes behind := by simpa [predicatesText] using behind
  grouped := .nil

theorem Expr.ReadPredicates.cons {expr : Expr} {others : List Expr}
    {tokens more : List Grammar.Token} (read : expr.Read tokens)
    (rest : ReadPredicates others more) :
    ReadPredicates (expr :: others) (.openBracket :: tokens ++ .closeBracket :: more) where
  lexes behind := by
    have close : Lexes false (']' :: ((predicatesText others).toList ++ _))
        (.closeBracket :: (more ++ _)) := .token rfl rfl (rest.lexes behind)
    have inner := read.lexes (.inr (.of_sign _ (by simp))) close
    have opened : Lexes false ('[' :: _) (.openBracket :: _) := .token rfl rfl inner
    simpa [predicatesText] using opened
  grouped := .cons read.whole rest.grouped

theorem Expr.ends_predicates (exprs : List Expr) {rest : List Char} (ends : Ends rest) :
    Ends ((predicatesText exprs).toList ++ rest) := by
  cases exprs with
  | nil => simpa [predicatesText] using ends
  | cons expr others => simpa [predicatesText] using Ends.of_sign _ (by simp)

/-- A step is read as it is meant. -/
theorem exists_read_step (axis : AxisSpecifier) {test : String} (valid : IsNodeTest test)
    {predicates : List Expr} {brackets : List Grammar.Token}
    (read : Expr.ReadPredicates predicates brackets) :
    ∃ tokens, Grammar.Step tokens axis.axis.standard (nodeTest test) (Expr.terms predicates) ∧
      ∀ {rest : List Char} {more : List Grammar.Token}, Ends rest → Lexes false rest more →
        Lexes true ((axis.text ++ test ++ Expr.predicatesText predicates).toList ++ rest)
          (tokens ++ more) := by
  obtain ⟨specifier, specified, lexes⟩ := axis.exists_read
  refine ⟨_, .full specified (.name (nodeTest test)) read.grouped, fun ends behind => ?_⟩
  have tested := lexes_nodeTest valid (Expr.ends_predicates predicates ends) (read.lexes behind)
  simpa using lexes tested

theorem Expr.read_group {inner : Expr} {tokens : List Grammar.Token} (read : inner.Read tokens) :
    (Expr.group inner).Read (.openParenthesis :: tokens ++ [.closeParenthesis]) where
  lexes _ behind := by
    have close : Lexes false (')' :: _) (.closeParenthesis :: _) := .token rfl rfl behind
    have whole := read.lexes (.inr (.of_sign _ (by simp))) close
    have opened : Lexes true ('(' :: _) (.openParenthesis :: _) := .token rfl rfl whole
    simpa [text] using opened
  grouped := .filter (.parentheses read.whole)
  path := by simp [isPath]

theorem Function.isPlainName_text (function : Function) :
    isPlainName function.text = true ∧ function.text ∉ nodeTypes := by
  cases function <;> decide +kernel

theorem Expr.read_callNothing (function : Function) :
    (Expr.call function []).Read
      [.functionName function.text, .openParenthesis, .closeParenthesis] where
  lexes _ behind := by
    obtain ⟨plain, isFunction⟩ := function.isPlainName_text
    have close : Lexes true (')' :: _) (.closeParenthesis :: _) := .token rfl rfl behind
    have opened : Lexes false ('(' :: ')' :: _) (.openParenthesis :: .closeParenthesis :: _) :=
      .token rfl rfl close
    simpa [text, listText] using
      lexes_name plain (readOperandName_function plain isFunction) opened
  grouped := .filter (.callNothing _)
  path := by simp [isPath]

theorem Expr.read_call (function : Function) {arguments : List Expr}
    {tokens : List Grammar.Token} (read : ReadList arguments tokens) :
    (Expr.call function arguments).Read
      (.functionName function.text :: .openParenthesis :: tokens ++ [.closeParenthesis]) where
  lexes _ behind := by
    obtain ⟨plain, isFunction⟩ := function.isPlainName_text
    have close : Lexes false (')' :: _) (.closeParenthesis :: _) := .token rfl rfl behind
    have inner := read.lexes (.of_sign _ (by simp)) close
    have opened : Lexes false ('(' :: _) (.openParenthesis :: _) := .token rfl rfl inner
    simpa [text] using lexes_name plain (readOperandName_function plain isFunction) opened
  grouped := .filter (.call _ read.grouped)
  path := by simp [isPath]

theorem Expr.read_binary {operator : Operator} {left right : Expr}
    {first second : List Grammar.Token} (spaced : operator.isSpaced ∨ left.isCall)
    (le : operator.standard.level ≤ left.level) (lt : operator.standard.level < right.level)
    (readLeft : left.Read first) (readRight : right.Read second) :
    (Expr.binary operator left right).Read
      (first ++ .operator operator.standard :: second) where
  lexes ends behind := by
    have after := readRight.lexes (.inr (by simpa [isCall] using ends)) behind
    have before (rest : List Char) :
        left.isCall = true ∨ Ends (operator.text.toList ++ rest) :=
      spaced.symm.imp id fun spaced => operator.ends spaced rest
    simpa [text] using readLeft.lexes (before _) (operator.lexes after)
  grouped :=
    .binary (readLeft.grouped.ofLevel le left.level_le)
      (readRight.grouped.ofLevel lt right.level_le)
  path := by simp [isPath]

theorem Expr.read_path {expr : Expr} {tokens : List Grammar.Token} (isPath : expr.isPath = true)
    (path : RelativePath none tokens expr.term)
    (lexes : ∀ {rest : List Char} {more : List Grammar.Token}, Ends rest →
      Lexes false rest more → Lexes true (expr.text.toList ++ rest) (tokens ++ more)) :
    expr.Read tokens where
  lexes ends behind := by
    have noCall : expr.isCall = false := by
      cases expr <;> simp_all [Expr.isPath, isCall]
    exact lexes (by simpa [noCall] using ends) behind
  grouped := by
    rw [level_of_isPath isPath]
    exact .relative path
  path _ := path

/-- A point in front of an end is a step of its own. -/
theorem readDot_ends {rest : List Char} (ends : Ends rest) : readDot rest = (.dot, rest) := by
  have digits : rest.takeWhile isDigit = [] := by
    cases rest with
    | nil => rfl
    | cons c cs =>
      cases digit : isDigit c with
      | false => simp [digit]
      | true => exact absurd (isPlainPart_of_isDigit digit) (by simp [ends.1 c rfl])
  unfold readDot
  split
  · exact absurd (ends.1 '.' rfl) (by decide)
  · simp [digits]

theorem Expr.read_self : Expr.self.Read [.dot] :=
  read_path rfl (.step .self) fun {rest _} ends behind =>
    have read : readToken true ('.' :: rest) = some (.dot, rest) :=
      congrArg some (readDot_ends ends)
    .token rfl read behind

theorem Expr.read_parent : Expr.parent.Read [.twoDots] :=
  read_path rfl (.step .parent) fun _ behind => .token rfl rfl behind

theorem Expr.read_step (axis : AxisSpecifier) {test : String} (valid : IsNodeTest test)
    {predicates : List Expr} {brackets : List Grammar.Token}
    (read : ReadPredicates predicates brackets) :
    ∃ tokens, (Expr.step axis test predicates).Read tokens := by
  obtain ⟨tokens, step, lexes⟩ := exists_read_step axis valid read
  exact ⟨tokens, read_path rfl (.step step) lexes⟩

/-- A plain name starts with no slash. -/
theorem head_name_ne {name : String} (plain : isPlainName name = true) (rest : List Char) :
    ∀ c ∈ (name.toList ++ rest).head?, c ≠ '/' := by
  obtain ⟨first, others, split, start, _⟩ := isPlainName_iff.mp plain
  intro c head
  obtain rfl : first = c := by simpa [split] using head
  rintro rfl
  exact absurd start (by decide)

/-- No step starts with a slash. -/
theorem readSlash_step (axis : AxisSpecifier) {test : String} (valid : IsNodeTest test)
    (rest : List Char) :
    readSlash (axis.text.toList ++ (test.toList ++ rest)) =
      (.slash, axis.text.toList ++ (test.toList ++ rest)) := by
  have headTest : ∀ c ∈ (test.toList ++ rest).head?, c ≠ '/' := by
    rcases valid with rfl | qualified | ⟨ns, plain, rfl⟩
    · simp
    · rcases isPlainQName_iff.mp qualified with plain | ⟨first, second, plain, _, rfl⟩
      · exact head_name_ne plain rest
      · simpa using head_name_ne plain (':' :: (second.toList ++ rest))
    · simpa using head_name_ne plain (':' :: '*' :: rest)
  have head : ∀ c ∈ (axis.text.toList ++ (test.toList ++ rest)).head?, c ≠ '/' := by
    match axis with
    | .child => simpa [AxisSpecifier.text] using headTest
    | .attribute => simp [AxisSpecifier.text]
    | .named axis =>
      simpa [AxisSpecifier.text] using
        head_name_ne axis.isPlainName_text (':' :: ':' :: (test.toList ++ rest))
  unfold readSlash
  split
  · rename_i eq
    exact absurd rfl (head '/' (by rw [eq]; rfl))
  · rfl

theorem Expr.read_slash {base : Expr} {before : List Grammar.Token} (isPath : base.isPath = true)
    (readBase : base.Read before) (axis : AxisSpecifier) {test : String}
    (valid : IsNodeTest test) {predicates : List Expr} {brackets : List Grammar.Token}
    (read : ReadPredicates predicates brackets) :
    ∃ tokens, (Expr.slash base axis test predicates).Read tokens := by
  obtain ⟨tokens, step, lexes⟩ := exists_read_step axis valid read
  refine ⟨_, read_path rfl (.slash (readBase.path isPath) step) fun {rest more} ends behind => ?_⟩
  have next := lexes ends behind
  simp only [String.toList_append, List.append_assoc] at next
  have slash := congrArg some
    (readSlash_step axis valid ((predicatesText predicates).toList ++ rest))
  have slashed : Lexes false ('/' :: _) (.slash :: _) := .token rfl slash next
  simpa [text] using readBase.lexes (.inr (.of_sign _ (by simp))) slashed

mutual

theorem Expr.exists_read : (expr : Expr) → expr.Valid → ∃ tokens, expr.Read tokens
  | .verbatim _, valid => valid.elim
  | .integer value, _ => read_integer value
  | .literal value, _ => read_literal value
  | .call function [], _ => ⟨_, read_callNothing function⟩
  | .call function (first :: rest), valid => by
    obtain ⟨tokens, read⟩ := exists_readList (first :: rest) (by simp) valid
    exact ⟨_, read_call function read⟩
  | .binary _ left right, ⟨spaced, validLeft, validRight, le, lt⟩ => by
    obtain ⟨first, readLeft⟩ := exists_read left validLeft
    obtain ⟨second, readRight⟩ := exists_read right validRight
    exact ⟨_, read_binary spaced le lt readLeft readRight⟩
  | .group inner, valid => by
    obtain ⟨tokens, read⟩ := exists_read inner valid
    exact ⟨_, read_group read⟩
  | .self, _ => ⟨_, read_self⟩
  | .parent, _ => ⟨_, read_parent⟩
  | .step axis _ predicates, ⟨tests, valid⟩ => by
    obtain ⟨tokens, read⟩ := exists_readPredicates predicates valid
    exact read_step axis tests read
  | .slash base axis _ predicates, ⟨isPath, validBase, tests, valid⟩ => by
    obtain ⟨before, readBase⟩ := exists_read base validBase
    obtain ⟨tokens, read⟩ := exists_readPredicates predicates valid
    exact read_slash isPath readBase axis tests read

theorem Expr.exists_readList : (exprs : List Expr) → exprs ≠ [] → Expr.AllValid exprs →
    ∃ tokens, ReadList exprs tokens
  | [], nonempty, _ => absurd rfl nonempty
  | [expr], _, ⟨valid, _⟩ => by
    obtain ⟨tokens, read⟩ := exists_read expr valid
    exact ⟨_, .one read⟩
  | expr :: next :: others, _, ⟨valid, validRest⟩ => by
    obtain ⟨tokens, read⟩ := exists_read expr valid
    obtain ⟨more, readRest⟩ := exists_readList (next :: others) (by simp) validRest
    exact ⟨_, .cons read readRest⟩

theorem Expr.exists_readPredicates : (exprs : List Expr) → Expr.AllValid exprs →
    ∃ tokens, ReadPredicates exprs tokens
  | [], _ => ⟨_, .nil⟩
  | expr :: others, ⟨valid, validRest⟩ => by
    obtain ⟨tokens, read⟩ := exists_read expr valid
    obtain ⟨more, readRest⟩ := exists_readPredicates others validRest
    exact ⟨_, .cons read readRest⟩

end

/-- The text of a valid expression is an expression of XPath 1.0 that says what was meant. -/
theorem Expr.reads {expr : Expr} (valid : expr.Valid) : Reads expr.text expr.term := by
  obtain ⟨tokens, read⟩ := exists_read expr valid
  have lexes := read.lexes (.inr Ends.nil) (.nil false)
  rw [List.append_nil, List.append_nil] at lexes
  exact ⟨tokens, lexes, read.whole⟩

end SelectorPath.XPath
