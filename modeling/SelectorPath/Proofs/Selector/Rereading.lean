import SelectorPath.Proofs.Selector.Reprint
import SelectorPath.Proofs.Selector.Shape

/-!
# Reading printed simple selectors

The text of a selector is read token by token as it has been printed part by part. Each part takes
the reader from the state in front of it to the state behind it, whatever text follows that can
follow a compound: the next simple selector, a parenthesis, a comma, a space, or nothing.

## Main definitions

* `Selector.Reader.read` — the state behind the tokens of a text
* `Selector.Reader.Passes` — a text takes the reader from one state to another
* `Selector.Reader.Follows` — the text that can stand behind a compound
* `Selector.Reader.Opens` — a state in which a compound can start

## Main results

* `Selector.Reader.passes_typeCss`, `Selector.Reader.passes_simple` — type selectors and simple
  selectors are read from their texts
* `Selector.Reader.passes_arguments` — so are the arguments of a function, at the offsets of their
  text
-/

namespace SelectorPath.Selector

namespace Reader

open Text Lexer

/-! ### Reading a text -/

/-- The state behind the tokens of a text that starts at the offset `pos`. -/
def read (state : State) (pos : Nat) (cs : List Char) : Outcome :=
  match tokensFrom pos cs with
  | .ok tokens => run state tokens
  | .error e => .error (.lexical e)

/-- In front of `rest`, the text at `pos` takes the reader from one state to another. -/
def Passes (state : State) (pos : Nat) (text rest : List Char) (next : State) : Prop :=
  read state pos (text ++ rest) = read next (pos + byteSize text) rest

/-- The text can stand behind a compound. -/
def Follows (rest : List Char) : Prop := ∀ c ∈ rest.head?, c ∈ ".#[:), ".toList

section Passes

variable {state middle next other : State} {pos : Nat} {text more rest : List Char}

theorem Passes.refl (state : State) (pos : Nat) (rest : List Char) :
    Passes state pos [] rest state := rfl

theorem Passes.trans (first : Passes state pos text (more ++ rest) middle)
    (second : Passes middle (pos + byteSize text) more rest next) :
    Passes state pos (text ++ more) rest next := by
  unfold Passes at *
  rw [List.append_assoc, first, second, byteSize_append, Nat.add_assoc]

/-- A token takes the reader one step. -/
theorem Passes.token {kind : Token.Kind} {value : List Char} (lexes : Lexes text kind value rest)
    (stepped : step state ⟨kind, String.ofList value, pos⟩ = .ok next) :
    Passes state pos text rest next := by
  unfold Passes read
  rw [tokensFrom_lexes lexes]
  cases tokensFrom (pos + byteSize text) rest with
  | ok tokens => simp [run, stepped]
  | error e => rfl

/-- Behind a compound neither a bar nor an opening parenthesis stands first. -/
theorem head_of_follows (follows : Follows rest) {tokens : List Token}
    (lexed : tokensFrom pos rest = .ok tokens) :
    ∃ token others, tokens = token :: others ∧ token.isDelim "|" = false ∧
      token.isDelim "(" = false := by
  cases rest with
  | nil =>
    rw [tokensFrom] at lexed
    obtain rfl := Except.ok.inj lexed
    exact ⟨_, [], rfl, rfl, rfl⟩
  | cons c cs =>
    have sign : ∀ d ∈ ".#[:), ".toList, d ≠ '/' ∧ d ≠ '|' ∧ d ≠ '(' :=
      List.all_iff_forall_prop.mp (by decide)
    obtain ⟨noSlash, noBar, noParenthesis⟩ := sign c (follows c rfl)
    obtain ⟨kind, value, rest, others, lexeme, rfl⟩ := head_tokensFrom noSlash lexed
    refine ⟨_, others, rfl, ?_⟩
    have other (d : Char) (differs : c ≠ d) :
        Token.isDelim ⟨kind, String.ofList value, pos⟩ (String.singleton d) = false := by
      by_cases delim : kind = .delim
      · subst delim
        obtain ⟨more, rfl⟩ := readLexeme_delim lexeme
        simp only [Token.isDelim, beq_self_eq_true, Bool.true_and, beq_eq_false_iff_ne, ne_eq]
        intro same
        have chars := congrArg String.toList same
        simp [differs] at chars
      · simp [Token.isDelim, delim]
    exact ⟨other '|' noBar, other '(' noParenthesis⟩

/-- In front of what can follow a compound, states that differ at a bar or an opening parenthesis
only are alike. -/
theorem Passes.alike (passes : Passes state pos text rest next) (follows : Follows rest)
    (same : ∀ token, token.isDelim "|" = false → token.isDelim "(" = false →
      step next token = step other token) : Passes state pos text rest other := by
  unfold Passes at *
  rw [passes]
  unfold read
  cases lexed : tokensFrom (pos + byteSize text) rest with
  | ok tokens =>
    obtain ⟨token, others, rfl, noBar, noParenthesis⟩ := head_of_follows follows lexed
    simp [run, same token noBar noParenthesis]
  | error e => rfl

end Passes

theorem Follows.endsName {rest : List Char} (follows : Follows rest) : EndsName rest := by
  have signs : ∀ d ∈ ".#[:), ".toList, isNamePart d = false ∧ d ≠ '\\' :=
    List.all_iff_forall_prop.mp (by decide)
  exact fun c first => signs c (follows c first)

theorem Follows.ne_equal {rest : List Char} (follows : Follows rest) : ∀ c ∈ rest.head?, c ≠ '=' := by
  have signs : ∀ d ∈ ".#[:), ".toList, d ≠ '=' :=
    List.all_iff_forall_prop.mp (by decide)
  exact fun c first => signs c (follows c first)

/-! ### Type selectors -/

/-- On a name or a star, the state does what the inner one does at the start of a compound. -/
def Opens (state inner : State) : Prop :=
  ∀ token : Token, token.kind = .ident ∨ token.isDelim "*" = true →
    step state token = enter inner token

section Compound

variable {state inner : State} {pos : Nat} {rest : List Char}

theorem enter_ident (state : State) (name : String) (pos : Nat) :
    enter state ⟨.ident, name, pos⟩ = .ok (state.setMode (.typeName (some name))) := rfl

theorem enter_star (state : State) (pos : Nat) :
    enter state ⟨.delim, "*", pos⟩ = .ok (state.setMode (.typeName none)) := rfl

/-- A type name that nothing but the rest of a compound follows is a type selector. -/
theorem Passes.typeName {text : List Char} {first : Option String} (follows : Follows rest)
    (passes : Passes state pos text rest (inner.setMode (.typeName first))) :
    Passes state pos text rest (inner.setMode (.compound (.element none first) none)) := by
  refine passes.alike follows fun token noBar _ => ?_
  have left : step (inner.setMode (.typeName first)) token =
      readCompound (inner.setMode (.typeName first)) (.element none first) none token := by
    simp [step, State.setMode, noBar]
  rw [left]
  rfl

theorem Passes.identifier {name : String} (writable : IsWritable name.toList)
    (ends : EndsName rest) {next : State}
    (stepped : step state ⟨.ident, name, pos⟩ = .ok next) :
    Passes state pos (identifier name).toList rest next := by
  rw [toList_identifier]
  exact .token (lexes_identifier writable ends) (by rwa [String.ofList_toList])

/-- A sign is one step. -/
theorem Passes.sign {c : Char} {next : State} (lexes : Lexes [c] .delim [c] rest)
    (stepped : step state ⟨.delim, String.singleton c, pos⟩ = .ok next) :
    Passes state pos [c] rest next :=
  .token lexes (by rwa [← String.singleton_eq_ofList])

/-- A bar in front of an identifier is a delimiter of its own. -/
theorem head_identifier_ne_equal {name : String} (writable : IsWritable name.toList)
    (rest : List Char) : ∀ c ∈ ((identifier name).toList ++ rest).head?, c ≠ '=' := by
  obtain ⟨first, more, eq, start⟩ := identifierChars_eq_cons writable.nonempty
  rw [toList_identifier, eq]
  rintro c here rfl
  obtain rfl : first = '=' := by simpa using here
  exact absurd start (by decide)

/-- A type selector is read from its text. -/
theorem passes_typeCss {ns name : Option String} (opens : Opens state inner)
    (qualifier : ∀ text ∈ ns, IsWritable text.toList)
    (named : ∀ text ∈ name, IsWritable text.toList) (follows : Follows rest) :
    Passes state pos (typeCss ns name).toList rest
      (inner.setMode (.compound (.element ns name) none)) := by
  have ident (text : String) (pos : Nat) :
      step state ⟨.ident, text, pos⟩ = .ok (inner.setMode (.typeName (some text))) := by
    rw [opens _ (.inl rfl), enter_ident]
  have star (pos : Nat) : step state ⟨.delim, "*", pos⟩ = .ok (inner.setMode (.typeName none)) := by
    rw [opens _ (.inr rfl), enter_star]
  cases ns with
  | none =>
    cases name with
    | none => exact (Passes.sign (lexes_star (by decide) follows.ne_equal) (star pos)).typeName follows
    | some name =>
      have read := Passes.identifier (named name rfl) follows.endsName (ident name pos)
      simpa [typeCss, qualifierCss] using read.typeName follows
  | some ns =>
    -- the namespace and its bar are read alike, whatever name stands behind them
    have bar (rest : List Char) (ends : ∀ c ∈ rest.head?, c ≠ '=') :
        Passes state pos ((identifier ns).toList ++ ['|']) rest
          (inner.setMode (.qualifiedName (some ns))) := by
      refine .trans (Passes.identifier (qualifier ns rfl) ?_ (ident ns pos))
        (.sign (lexes_star (by decide) ends) rfl)
      simp [EndsName, isNamePart, isNameStart, isLetter, isNonAscii, isDigit]
    cases name with
    | none =>
      have last (pos : Nat) : Passes (inner.setMode (.qualifiedName (some ns))) pos ['*'] rest
          (inner.setMode (.compound (.element (some ns) none) none)) :=
        .sign (lexes_star (by decide) follows.ne_equal) rfl
      simpa [typeCss, qualifierCss] using (bar (['*'] ++ rest) (by simp)).trans (last _)
    | some name =>
      have noEqual := head_identifier_ne_equal (named name rfl) rest
      have last (pos : Nat) : Passes (inner.setMode (.qualifiedName (some ns))) pos
          (identifier name).toList rest
          (inner.setMode (.compound (.element (some ns) (some name)) none)) :=
        .identifier (named name rfl) follows.endsName rfl
      simpa [typeCss, qualifierCss] using (bar _ noEqual).trans (last _)

/-! ### Attribute selectors -/

/-- The sign of a comparison is one token. -/
theorem lexes_symbol {comparison : AttributeOperator} (compares : comparison ≠ .present) :
    Lexes comparison.symbol.toList .delim comparison.symbol.toList rest := by
  cases comparison with
  | present => exact absurd rfl compares
  | equal => exact lexes_bracket (by decide)
  | _ => exact lexes_operator rfl

/-- The value of an attribute is read back where a bracket follows. -/
theorem lexes_attributeValue {token : Token} (value : token.IsAttributeValue) :
    Lexes token.attributeValueCss.toList token.kind token.value.toList (']' :: rest) := by
  have ends : EndsName (']' :: rest) := by
    simp [EndsName, isNamePart, isNameStart, isLetter, isNonAscii, isDigit]
  rcases value with ⟨ident, writable⟩ | ⟨string, noBreak⟩
  · rw [Token.attributeValueCss, if_pos ident, toList_identifier, ident]
    exact lexes_identifier writable ends
  · have other : token.kind ≠ .ident := by simp [string]
    rw [Token.attributeValueCss, if_neg other, Token.css, string]
    simpa [Token.quoted] using lexes_quoted noBreak

/-- What stands behind the name in an attribute selector. -/
def comparisonCss (selector : AttributeSelector) : String :=
  match selector.value with
  | none => ""
  | some value => selector.operator.symbol ++ value.attributeValueCss

/-- Behind the name of an attribute, the comparison and the bracket are read back. -/
theorem passes_comparison {selector : AttributeSelector} (grammatical : selector.Grammatical)
    {state : State} {mode : Mode} {tree : Tree}
    (reads : ∀ token, token.isDelim "|" = false →
      step (state.setMode mode) token =
        readOperator state tree selector.ns selector.name token)
    (pos : Nat) (rest : List Char) :
    ∃ again : AttributeSelector, again.unplaced = selector.unplaced ∧ again.css = selector.css ∧
      Passes (state.setMode mode) pos
        ((comparisonCss selector).toList ++ [']']) rest
        (state.setMode (.compound (.restricted tree (.attribute again)) none)) := by
  obtain ⟨ns, name, operator, value⟩ := selector
  cases value with
  | none =>
    obtain rfl : operator = .present := grammatical.compared.mpr rfl
    refine ⟨_, rfl, rfl, .sign (lexes_bracket (by decide)) ?_⟩
    rw [reads _ rfl]
    rfl
  | some value =>
    have compares : operator ≠ .present := by
      intro present
      simpa using grammatical.compared.mp present
    have known : AttributeOperator.ofSymbol? operator.symbol = some operator := by
      rw [AttributeOperator.ofSymbol?_symbol, if_neg compares]
    have fits := grammatical.value value rfl
    have literal : value.kind ≠ .space ∧ value.isLiteral = true := by
      rcases fits with ⟨kind, -⟩ | ⟨kind, -⟩ <;> simp [Token.isLiteral, kind]
    have compared (pos : Nat) (rest : List Char) : Passes (state.setMode mode) pos
        operator.symbol.toList rest
        (state.setMode (.attribute tree (.value ns name operator))) := by
      refine .token (lexes_symbol compares) ?_
      rw [String.ofList_toList, reads _ (by cases operator <;> simp_all [Token.isDelim,
        AttributeOperator.symbol])]
      have noBracket : Token.isDelim ⟨.delim, operator.symbol, pos⟩ "]" = false := by
        cases operator <;> rfl
      simp [readOperator, noBracket, known]
    -- the value is read at its offset in the text
    obtain ⟨placed, here⟩ : ∃ placed : Token, placed =
        { value with pos := pos + byteSize operator.symbol.toList } := ⟨_, rfl⟩
    refine ⟨⟨ns, name, operator, some placed⟩, by rw [here]; rfl, by rw [here]; rfl, ?_⟩
    have read : Passes (state.setMode (.attribute tree (.value ns name operator)))
        (pos + byteSize operator.symbol.toList) value.attributeValueCss.toList ([']'] ++ rest)
        (state.setMode (.attribute tree (.closing ⟨ns, name, operator, some placed⟩))) := by
      refine .token (lexes_attributeValue fits) ?_
      rw [String.ofList_toList, here]
      have same : Token.isLiteral { value with pos := pos + byteSize operator.symbol.toList } =
          value.isLiteral := rfl
      simp [step, State.setMode, readAttribute, literal.1, same, literal.2]
    have closed (pos : Nat) : Passes
        (state.setMode (.attribute tree (.closing ⟨ns, name, operator, some placed⟩))) pos [']'] rest
        (state.setMode (.compound (.restricted tree
          (.attribute ⟨ns, name, operator, some placed⟩)) none)) :=
      .sign (lexes_bracket (by decide)) rfl
    simpa [comparisonCss, String.toList_append] using (compared pos _).trans (read.trans (closed _))

/-! ### Simple selectors -/

/-- A token that ends no compound starts a simple selector. -/
theorem step_compound {token : Token} (inside : ∀ nested, endsCompound nested token = false)
    (state : State) (tree : Tree) :
    step (state.setMode (.compound tree none)) token = readSimple state tree false token := by
  have here : step (state.setMode (.compound tree none)) token =
      readCompound state tree none token := rfl
  rw [here, readCompound, inside]
  rfl

theorem endsName_of_not {c : Char} (noPart : isNamePart c = false) (noEscape : c ≠ '\\') :
    EndsName (c :: rest) := by
  simp [EndsName, noPart, noEscape]

theorem endsName_comparison {selector : AttributeSelector} (grammatical : selector.Grammatical)
    (rest : List Char) : EndsName ((comparisonCss selector).toList ++ [']'] ++ rest) := by
  have signs : ∀ d ∈ "]=~|^$*!".toList, isNamePart d = false ∧ d ≠ '\\' :=
    List.all_iff_forall_prop.mp (by decide)
  intro c first
  apply signs
  obtain ⟨ns, name, operator, value⟩ := selector
  cases value with
  | none =>
    obtain rfl : ']' = c := by simpa [comparisonCss] using first
    decide
  | some value =>
    have compares : operator ≠ .present := by
      intro present
      simpa using grammatical.compared.mp present
    cases operator <;> simp_all [comparisonCss, AttributeOperator.symbol] <;> simp [← first]

/-- The name of an attribute is read back, with its namespace if there is one. -/
theorem passes_attributeName {selector : AttributeSelector} (grammatical : selector.Grammatical)
    (state : State) (tree : Tree) (ends : EndsName rest) :
    ∃ mode, (∀ token, token.isDelim "|" = false → step (state.setMode mode) token =
        readOperator state tree selector.ns selector.name token) ∧
      Passes (state.setMode (.attribute tree .opened)) pos
        ((qualifierCss selector.ns).toList ++ (identifier selector.name).toList) rest
        (state.setMode mode) := by
  obtain ⟨ns, name, operator, value⟩ := selector
  cases ns with
  | none =>
    refine ⟨.attribute tree (.named name), fun token noBar => ?_, ?_⟩
    · simp only [step, State.setMode, readAttribute, noBar]
      rfl
    · have named : Passes (state.setMode (.attribute tree .opened)) pos (identifier name).toList rest
          (state.setMode (.attribute tree (.named name))) :=
        .identifier grammatical.name ends rfl
      simpa [qualifierCss, -toList_identifier] using named
  | some ns =>
    have noEqual := head_identifier_ne_equal grammatical.name rest
    have qualifier : Passes (state.setMode (.attribute tree .opened)) pos (identifier ns).toList
        (['|'] ++ (identifier name).toList ++ rest)
        (state.setMode (.attribute tree (.named ns))) :=
      .identifier (grammatical.qualifier ns rfl) (endsName_of_not rfl (by decide)) rfl
    have bar (pos : Nat) : Passes (state.setMode (.attribute tree (.named ns))) pos ['|']
        ((identifier name).toList ++ rest) (state.setMode (.attribute tree (.barred (some ns)))) :=
      .sign (lexes_star (by decide) noEqual) rfl
    have named (pos : Nat) : Passes (state.setMode (.attribute tree (.barred (some ns)))) pos
        (identifier name).toList rest
        (state.setMode (.attribute tree (.operator (some ns) name))) :=
      .identifier grammatical.name ends rfl
    refine ⟨.attribute tree (.operator (some ns) name), fun token _ => rfl, ?_⟩
    simpa [qualifierCss, -toList_identifier] using qualifier.trans ((bar _).trans (named _))

/-- An attribute selector is read from its text. -/
theorem passes_attribute {selector : AttributeSelector} (grammatical : selector.Grammatical)
    (state : State) (tree : Tree) :
    ∃ again : AttributeSelector, again.unplaced = selector.unplaced ∧ again.css = selector.css ∧
      Passes (state.setMode (.compound tree none)) pos selector.css.toList rest
        (state.setMode (.compound (.restricted tree (.attribute again)) none)) := by
  have opened (rest : List Char) : Passes (state.setMode (.compound tree none)) pos ['['] rest
      (state.setMode (.attribute tree .opened)) := by
    refine .sign (lexes_bracket (by decide)) ?_
    rw [step_compound (fun nested => by cases nested <;> rfl)]
    rfl
  have ends := endsName_comparison grammatical rest
  obtain ⟨mode, reads, named⟩ := passes_attributeName grammatical state tree ends
  obtain ⟨again, same, css, compared⟩ := passes_comparison grammatical reads _ rest
  refine ⟨again, same, css, ?_⟩
  have text : selector.css.toList = ['['] ++ (((qualifierCss selector.ns).toList ++
      (identifier selector.name).toList) ++ ((comparisonCss selector).toList ++ [']'])) := by
    show ("[" ++ qualifierCss selector.ns ++ identifier selector.name ++ comparisonCss selector
      ++ "]").toList = _
    simp
  rw [text]
  exact (opened _).trans (named.trans compared)

/-! ### Arguments -/

theorem lexes_argument {token : Token} (plain : token.IsPlain) (argument : isArgument token = true)
    (ends : ∀ c ∈ rest.head?, token.EndsBefore c) :
    Lexes token.css.toList token.kind token.value.toList rest := by
  obtain ⟨kind, value, pos⟩ := token
  cases kind with
  | ident =>
    have name : IsName value.toList := plain
    have lexes := lexes_identifier name.isWritable ends
    rwa [name.identifierChars_eq] at lexes
  | string =>
    have inside : ∀ c ∈ value.toList, c ≠ '\n' := fun c member => (plain c member).1
    simpa [Token.css, Token.quoted] using lexes_quoted inside
  | number => exact lexes_number plain ends
  | delim =>
    have sign : value = "+" ∨ value = "-" := by
      simpa [isArgument, Token.isDelim] using argument
    rcases sign with rfl | rfl
    · simpa [Token.css] using lexes_plus fun c first => (ends c first).1
    · simpa [Token.css] using
        lexes_hyphen (fun c first => (ends c first).1) fun c first => (ends c first).2 rfl
  | _ => simp [isArgument, Token.isDelim] at argument

/-- An argument is written with a first character, and that is no blank. -/
theorem css_argument {token : Token} (plain : token.IsPlain) (argument : isArgument token = true) :
    ∃ c cs, token.css.toList = c :: cs ∧ isCssBlank c = false := by
  obtain ⟨kind, value, pos⟩ := token
  cases kind with
  | ident =>
    have name : IsName value.toList := plain
    obtain ⟨c, cs, eq⟩ := List.exists_cons_of_ne_nil name.isWritable.nonempty
    have first : c ∈ value.toList := by simp [eq]
    exact ⟨c, cs, eq, isCssBlank_of_isNamePart (name.isNamePart c first)⟩
  | string => exact ⟨'"', _, by simp [Token.css, Token.quoted]; rfl, rfl⟩
  | number =>
    obtain ⟨sign, digits, fraction, eq, signed, allDigits, written⟩ := plain
    obtain ⟨c, cs, unsigned, first⟩ := head_of_unsigned allDigits written
    rw [unsigned] at eq
    rcases signed with rfl | rfl | rfl
    · refine ⟨c, cs, eq, ?_⟩
      rcases first with digit | rfl
      · exact isCssBlank_of_isNamePart (isNamePart_of_isDigit digit)
      · rfl
    · exact ⟨'+', c :: cs, eq, rfl⟩
    · exact ⟨'-', c :: cs, eq, rfl⟩
  | delim =>
    have sign : value = "+" ∨ value = "-" := by
      simpa [isArgument, Token.isDelim] using argument
    rcases sign with rfl | rfl
    · exact ⟨'+', [], by simp [Token.css], rfl⟩
    · exact ⟨'-', [], by simp [Token.css], rfl⟩
  | _ => simp [isArgument, Token.isDelim] at argument

/-- Every argument ends before a space and before a closing parenthesis. -/
theorem endsBefore_gap (token : Token) : token.EndsBefore ' ' ∧ token.EndsBefore ')' := by
  unfold Token.EndsBefore
  cases token.kind <;> simp [isNamePart, isNameStart, isLetter, isNonAscii, isDigit]

/-- In the mode, arguments are collected until a parenthesis closes them. -/
def Collects (more close : List Token → Mode) : Prop :=
  ∀ (state : State) (read : List Token) (token : Token), step (state.setMode (more read)) token =
    readArgument (state.setMode (more read)) (more (token :: read)) (close read) token

section Arguments

variable {more close : List Token → Mode} {read : List Token}

/-- The space in a gap is left out. -/
theorem passes_gap (collects : Collects more close) (gap : Prop) [Decidable gap]
    (noBlank : ∀ c ∈ rest.head?, isCssBlank c = false) :
    Passes (state.setMode (more read)) pos (if gap then " " else "").toList rest
      (state.setMode (more read)) := by
  by_cases space : gap
  · have stays : step (state.setMode (more read)) ⟨.space, String.ofList [' '], pos⟩ =
        .ok (state.setMode (more read)) := by
      rw [collects]
      rfl
    simpa [space] using Passes.token (lexes_space noBlank) stays
  · simpa [space] using Passes.refl (state.setMode (more read)) pos rest

/-- An argument is collected, at its offset in the text. -/
theorem passes_argument (collects : Collects more close) {token : Token} (plain : token.IsPlain)
    (argument : isArgument token = true) (ends : ∀ c ∈ rest.head?, token.EndsBefore c) :
    Passes (state.setMode (more read)) pos token.css.toList rest
      (state.setMode (more ({ token with pos := pos } :: read))) := by
  refine .token (lexes_argument plain argument ends) ?_
  have noSpace : token.kind ≠ .space := by
    intro space
    simp [isArgument, Token.isDelim, space] at argument
  have same : isArgument { token with pos := pos } = isArgument token := rfl
  rw [String.ofList_toList, collects, readArgument, if_neg noSpace, same, if_pos argument]
  rfl

/-- Behind an argument its neighbour stands, or a parenthesis. -/
theorem endsBefore_joinAfter {token : Token} {others : List Token}
    (plain : ∀ other ∈ others, other.IsPlain ∧ isArgument other = true)
    (chained : (token :: others).Pairwise Token.Chained) (argument : isArgument token = true)
    (rest : List Char) :
    ∀ c ∈ ((Token.joinAfter Token.css token.endPos others).toList ++ ([')'] ++ rest)).head?,
      token.EndsBefore c := by
  intro c first
  cases others with
  | nil =>
    obtain rfl : ')' = c := by simpa [Token.joinAfter] using first
    exact (endsBefore_gap token).2
  | cons next others =>
    rw [Token.joinAfter] at first
    split at first
    · obtain rfl : ' ' = c := by simpa using first
      exact (endsBefore_gap token).1
    · rename_i noGap
      obtain ⟨nextPlain, nextArgument⟩ := plain next List.mem_cons_self
      obtain ⟨d, ds, text, -⟩ := css_argument nextPlain nextArgument
      obtain rfl : d = c := by simpa [text] using first
      have neighbours := (List.pairwise_cons.mp chained).1 next List.mem_cons_self
      exact (neighbours argument nextArgument).resolve_left noGap d (by simp [text])

/-- Arguments behind another one are read back, at the offsets of their text. -/
theorem passes_joinAfter (collects : Collects more close) {previous : Token} {tokens : List Token}
    (plain : ∀ token ∈ tokens, token.IsPlain ∧ isArgument token = true)
    (chained : tokens.Pairwise Token.Chained) (rest : List Char) :
    Passes (state.setMode (more read)) pos
      (Token.joinAfter Token.css previous.endPos tokens).toList ([')'] ++ rest)
      (state.setMode (more ((Token.placeAfter pos previous.endPos tokens).reverse ++ read))) := by
  induction tokens generalizing previous pos read with
  | nil => exact .refl _ _ _
  | cons token others ih =>
    obtain ⟨here, argument⟩ := plain token List.mem_cons_self
    have behind := fun other member => plain other (List.mem_cons_of_mem token member)
    obtain ⟨c, cs, first, noBlank⟩ := css_argument here argument
    have text : (Token.joinAfter Token.css previous.endPos (token :: others)).toList =
        (if previous.endPos < token.pos then " " else "").toList ++
          (token.css.toList ++ (Token.joinAfter Token.css token.endPos others).toList) := by
      simp [Token.joinAfter]
    have offset : pos + byteSize (if previous.endPos < token.pos then " " else "").toList =
        token.printPos pos previous.endPos := by
      unfold Token.printPos
      split
      · simp [byteSize, Char.utf8Size]
      · rfl
    have gap : Passes (state.setMode (more read)) pos
        (if previous.endPos < token.pos then " " else "").toList
        (token.css.toList ++ (Token.joinAfter Token.css token.endPos others).toList ++
          ([')'] ++ rest)) (state.setMode (more read)) :=
      passes_gap collects _ (by simpa [first] using noBlank)
    rw [text]
    refine gap.trans ?_
    rw [offset]
    refine (passes_argument collects here argument
      (endsBefore_joinAfter behind chained argument rest)).trans ?_
    rw [← Token.utf8ByteSize_eq, Token.placeAfter, List.reverse_cons, List.append_assoc]
    exact ih behind (List.pairwise_cons.mp chained).2

/-- The arguments of a function and the parenthesis behind them are read back. -/
theorem passes_arguments (collects : Collects more close) {tokens : List Token}
    (arguments : Token.AreArguments tokens) (rest : List Char) :
    Passes (state.setMode (more [])) pos ((Token.join Token.css tokens).toList ++ [')']) rest
      (state.setMode (close (Token.place pos tokens).reverse)) := by
  have closed (read : List Token) (pos : Nat) : Passes (state.setMode (more read)) pos [')'] rest
      (state.setMode (close read)) := by
    refine .sign (lexes_bracket (by decide)) ?_
    rw [collects]
    rfl
  cases tokens with
  | nil => exact closed [] pos
  | cons token others =>
    obtain ⟨here, argument⟩ := arguments.plain token List.mem_cons_self
    have behind := fun other member => arguments.plain other (List.mem_cons_of_mem token member)
    have text : (Token.join Token.css (token :: others)).toList =
        token.css.toList ++ (Token.joinAfter Token.css token.endPos others).toList := by
      simp [Token.join]
    have collected : Passes (state.setMode (more [])) pos
        (Token.join Token.css (token :: others)).toList ([')'] ++ rest)
        (state.setMode (more (Token.place pos (token :: others)).reverse)) := by
      rw [text]
      refine (passes_argument collects here argument
        (endsBefore_joinAfter behind arguments.chained argument rest)).trans ?_
      rw [← Token.utf8ByteSize_eq, Token.place, List.reverse_cons]
      exact passes_joinAfter collects behind (List.pairwise_cons.mp arguments.chained).2 rest
    exact collected.trans (closed _ _)

end Arguments

/-! ### Simple selectors -/

/-- A name that needs no escape is one identifier. -/
theorem Passes.name {name : String} (plain : IsName name.toList) (ends : EndsName rest)
    {next : State} (stepped : step state ⟨.ident, name, pos⟩ = .ok next) :
    Passes state pos name.toList rest next := by
  have read := Passes.identifier plain.isWritable ends stepped
  rwa [toList_identifier, plain.identifierChars_eq] at read

/-- A colon and the name of a pseudo-class. -/
theorem passes_pseudoClassName {name : String} (keyword : IsKeyword name)
    (other : name ∉ singleColonPseudoElements) (ends : EndsName rest) (tree : Tree) :
    Passes (state.setMode (.compound tree none)) pos ([':'] ++ name.toList) rest
      (state.setMode (.pseudoClassName tree false name)) := by
  have colon : Passes (state.setMode (.compound tree none)) pos [':'] (name.toList ++ rest)
      (state.setMode (.colon tree false)) := by
    refine .sign (lexes_bracket (by decide)) ?_
    rw [step_compound fun nested => by cases nested <;> rfl]
    rfl
  refine colon.trans (.name keyword.plain ends ?_)
  simp [step, State.setMode, Token.isDelim, readPseudoName, keyword.small, other]

/-- A colon, the name of a functional pseudo-class and the parenthesis behind it. -/
theorem passes_opening {name : String} {tree : Tree} {next : State} (keyword : IsKeyword name)
    (other : name ∉ singleColonPseudoElements) (opened : openFunction state tree name = .ok next) :
    Passes (state.setMode (.compound tree none)) pos ([':'] ++ name.toList ++ ['(']) rest next := by
  refine (passes_pseudoClassName keyword other (endsName_of_not rfl (by decide)) tree).trans ?_
  refine .sign (lexes_bracket (by decide)) ?_
  rw [← opened]
  rfl

/-- The name of a pseudo-class that no parenthesis follows is a simple selector. -/
theorem Passes.pseudoClass {inner : State} {text : List Char} {tree : Tree} {name : String}
    {fresh : Bool} (noScope : name ≠ "scope") (follows : Follows rest)
    (passes : Passes state pos text rest (inner.setMode (.pseudoClassName tree fresh name))) :
    Passes state pos text rest
      (inner.setMode (.compound (.restricted tree (.pseudoClass name)) none)) := by
  refine passes.alike follows fun token _ noParenthesis => ?_
  have behind : step (inner.setMode (.pseudoClassName tree fresh name)) token =
      readCompound (inner.setMode (.pseudoClassName tree fresh name))
        (.restricted tree (.pseudoClass name)) none token := by
    simp [step, State.setMode, readPseudoClass, noParenthesis, noScope]
  rw [behind]
  rfl

/-- A functional pseudo-class is read from its text, its arguments at the offsets of their text. -/
theorem passes_function {call : FunctionCall} (grammatical : (Simple.function call).Grammatical)
    (tree : Tree) :
    ∃ start, Passes (state.setMode (.compound tree none)) pos (Simple.function call).css.toList rest
      (state.setMode (.compound (.restricted tree (.function (call.place start))) none)) := by
  obtain ⟨⟨keyword, arguments⟩, other, noSelector⟩ := grammatical
  have text : (Simple.function call).css.toList = [':'] ++ call.name.toList ++ ['('] ++
      ((Token.join Token.css call.arguments).toList ++ [')']) := by
    simp [Simple.css, FunctionCall.css, FunctionCall.argumentsCss]
  have opened : openFunction state tree call.name =
      .ok (state.setMode (.arguments tree call.name [])) := by
    simp only [selectorFunctions, List.mem_cons, List.not_mem_nil, or_false, not_or] at noSelector
    simp [openFunction, noSelector]
  have collects : Collects (.arguments tree call.name)
      (fun read => .compound (.restricted tree (.function (.make call.name read.reverse))) none) :=
    fun _ _ _ => rfl
  have same (start : Nat) : FunctionCall.make call.name (Token.place start call.arguments) =
      call.place start := by
    simp [FunctionCall.make, FunctionCall.place, keyword.small]
  refine ⟨pos + byteSize ([':'] ++ call.name.toList ++ ['(']), ?_⟩
  rw [text, ← same, ← (Token.place _ call.arguments).reverse_reverse]
  exact (passes_opening keyword other opened).trans (passes_arguments collects arguments rest)

/-- A class is read from its text. -/
theorem passes_className {name : String} (writable : IsWritable name.toList)
    (ends : EndsName rest) (tree : Tree) :
    Passes (state.setMode (.compound tree none)) pos (Simple.className name).css.toList rest
      (state.setMode (.compound (.restricted tree (.className name)) none)) := by
  have noDigit : ∀ c ∈ ((identifier name).toList ++ rest).head?, isDigit c = false := by
    obtain ⟨first, more, eq, start⟩ := identifierChars_eq_cons writable.nonempty
    rw [toList_identifier, eq]
    intro c here
    obtain rfl : first = c := by simpa using here
    rcases start with rfl | ⟨-, noDigit⟩
    · rfl
    · exact noDigit
  have point : Passes (state.setMode (.compound tree none)) pos ['.']
      ((identifier name).toList ++ rest) (state.setMode (.className tree)) := by
    refine .sign (lexes_point noDigit) ?_
    rw [step_compound fun nested => by cases nested <;> rfl]
    rfl
  have text : (Simple.className name).css.toList = ['.'] ++ (identifier name).toList := by
    simp [Simple.css]
  rw [text]
  exact point.trans (.identifier writable ends rfl)

/-- An id is read from its text. -/
theorem passes_id {value : String} (nonempty : value.toList ≠ [])
    (inLine : ∀ c ∈ value.toList, isLineBreak c = false) (ends : EndsName rest) (tree : Tree) :
    Passes (state.setMode (.compound tree none)) pos (Simple.id value).css.toList rest
      (state.setMode (.compound (.restricted tree (.id value)) none)) := by
  have text : (Simple.id value).css.toList = '#' :: identifierChars value.toList := by
    simp [Simple.css]
  rw [text]
  refine .token (lexes_hash nonempty inLine ends) ?_
  rw [String.ofList_toList, step_compound fun nested => by cases nested <;> rfl]
  rfl

/-- A simple selector is read from its text where it can be followed by more of a compound. -/
theorem passes_simple {simple : Simple} (grammatical : simple.Grammatical)
    (noScope : simple ≠ .pseudoClass "scope") (follows : Follows rest) (tree : Tree) :
    ∃ again, simple.Again again ∧
      Passes (state.setMode (.compound tree none)) pos simple.css.toList rest
        (state.setMode (.compound (.restricted tree again) none)) := by
  match simple, grammatical with
  | .className name, writable =>
    exact ⟨_, ⟨rfl, .refl _⟩, passes_className writable follows.endsName tree⟩
  | .id value, ⟨nonempty, inLine⟩ =>
    exact ⟨_, ⟨rfl, .refl _⟩, passes_id nonempty inLine follows.endsName tree⟩
  | .attribute selector, grammatical =>
    obtain ⟨again, same, css, passes⟩ := passes_attribute grammatical state tree
    refine ⟨.attribute again, ⟨?_, ?_⟩, passes⟩
    · simp [Simple.unplaced, same]
    · have text : (Simple.attribute again).css = (Simple.attribute selector).css := css
      rw [text]
      exact .refl _
  | .pseudoClass name, ⟨keyword, other⟩ =>
    have noScope : name ≠ "scope" := by
      rintro rfl
      exact noScope rfl
    have text : (Simple.pseudoClass name).css.toList = [':'] ++ name.toList := by
      simp [Simple.css]
    refine ⟨_, ⟨rfl, .refl _⟩, ?_⟩
    rw [text]
    exact (passes_pseudoClassName keyword other follows.endsName tree).pseudoClass noScope follows
  | .function call, grammatical =>
    obtain ⟨start, passes⟩ := passes_function grammatical tree
    have inside := grammatical.1.arguments.kind_ne_eof
    refine ⟨_, ⟨?_, ?_⟩, passes⟩
    · simp [Simple.unplaced, FunctionCall.place_unplaced]
    · have text := (Widens.refl ":").append (FunctionCall.widens_place inside start)
      simpa [Simple.crowded, Simple.css] using text

end Compound

end Reader

end SelectorPath.Selector
