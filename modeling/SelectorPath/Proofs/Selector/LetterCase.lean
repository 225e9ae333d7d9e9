import SelectorPath.Proofs.Selector.Acceptance

/-!
# Where the case of letters does not matter

In HTML the names of elements and attributes are in small letters, and so are the names of functions
everywhere. A series is read without regard to case. So a tree may be written in small letters in
all these places without a change to what it is compiled to. Namespaces, classes, ids and the texts
that are compared with keep their case.

An error shows the call that it is about as it was written, so of trees that are not compiled only
that is the same.

## Main definitions

* `Selector.Tree.folded` — the tree in small letters where their case does not matter
* `Selector.Tree.CaseAlike` — two trees differ in nothing else

## Main results

* `Series.parse_folded` — the series that tokens in small letters denote
* `Selector.Tree.toOption_path_html` — trees that are alike have the same path, or both have none
-/

namespace SelectorPath

open Text XPath

/-! ### Texts in small letters -/

namespace Text

/-- A text takes as many bytes in small letters. -/
theorem utf8ByteSize_lowerCase (text : String) :
    (lowerCase text).utf8ByteSize = text.utf8ByteSize := by
  rw [Token.utf8ByteSize_eq, Token.utf8ByteSize_eq, toList_lowerCase]
  induction text.toList with
  | nil => rfl
  | cons c cs ih => simp only [List.map_cons, Lexer.byteSize, utf8Size_toLower, ih]

end Text

/-! ### Tokens and calls -/

/-- The token with its text in small letters. -/
def Token.folded (token : Token) : Token := { token with value := lowerCase token.value }

theorem Token.endPos_folded (token : Token) : token.folded.endPos = token.endPos := by
  simp only [endPos, folded, utf8ByteSize_lowerCase]

theorem Token.joinAfter_folded (previous : Nat) (tokens : List Token) :
    joinAfter value previous (tokens.map folded) = lowerCase (joinAfter value previous tokens) := by
  induction tokens generalizing previous with
  | nil => simp [joinAfter]
  | cons token rest ih =>
    -- offsets are not folded, so the gaps are where they were
    have gap : lowerCase (if previous < token.pos then " " else "") =
        if previous < token.pos then " " else "" := by
      split
      · rw [← String.toList_inj]
        simp
      · exact lowerCase_empty
    simp only [List.map_cons, joinAfter, endPos_folded, ih, lowerCase_append, gap]
    rfl

/-- The texts of tokens have the same gaps between them in small letters. -/
theorem Token.join_folded (tokens : List Token) :
    join value (tokens.map folded) = lowerCase (join value tokens) := by
  cases tokens with
  | nil => simp
  | cons token rest =>
    simp only [List.map_cons, join, endPos_folded, joinAfter_folded, lowerCase_append]
    rfl

/-- A series is read without regard to case. -/
theorem Series.parse_folded (tokens : List Token) :
    parse (tokens.map Token.folded) = parse tokens := by
  have text : argumentText (tokens.map Token.folded) = argumentText tokens := by
    simp only [argumentText, Token.join_folded, toList_lowerCase, trimBlanks_map_toLower]
    rw [← lowerCase_lowerCase (String.ofList (trimBlanks (Token.join Token.value tokens).toList))]
    congr 1
    rw [← String.toList_inj]
    simp
  have kinds : (tokens.map Token.folded).any (fun token => token.kind == .string) =
      tokens.any fun token => token.kind == .string := by
    rw [List.any_map]
    rfl
  unfold parse
  rw [text, kinds]

/-- The name is that of a function that takes a series, known or not. -/
def FunctionCall.isNth (call : FunctionCall) : Bool :=
  "nth-".toList.isPrefixOf (lowerCase call.name).toList

/-- The call with its name in small letters, and its arguments if they are to be a series. -/
def FunctionCall.folded (call : FunctionCall) : FunctionCall :=
  ⟨lowerCase call.name,
    if call.isNth then call.arguments.map Token.folded else call.arguments⟩

/-! ### Paths of calls -/

namespace FunctionalClass

variable {options : Options} {path : LocationPath} {call other : FunctionCall}

/-- Positions are restricted by the series that a call denotes. -/
theorem toOption_restrictPosition (direction : Direction) (counting : Counting)
    (same : Series.parse call.arguments = Series.parse other.arguments) :
    (restrictPosition path call direction counting).toOption =
      (restrictPosition path other direction counting).toOption := by
  unfold restrictPosition
  rw [same]
  repeat' split
  all_goals rfl

/-- A literal argument does not depend on the name of the function. -/
theorem toOption_restrictLiteral (condition : String → Expr)
    (same : call.arguments = other.arguments) :
    (restrictLiteral path call condition).toOption =
      (restrictLiteral path other condition).toOption := by
  unfold restrictLiteral literalArgument
  rw [same]
  cases other.arguments with
  | nil => rfl
  | cons first rest => cases literal : (first :: rest).all Token.isLiteral <;> rfl

theorem toOption_restrict_folded {function : FunctionalClass}
    (known : ofName? call.name = some function) :
    (function.restrict options path call.folded).toOption =
      (function.restrict options path call).toOption := by
  have name := Selector.ofName?_eq_some_iff.mp known
  have series : Series.parse call.folded.arguments = Series.parse call.arguments := by
    unfold FunctionCall.folded
    dsimp only
    split
    · exact Series.parse_folded call.arguments
    · rfl
  -- the names of the other functions do not start like those that take a series
  have literal (other : call.isNth = false) : call.folded.arguments = call.arguments := by
    rw [FunctionCall.folded, if_neg (by simp [other])]
  unfold restrict
  cases function with
  | nthChild | nthLastChild | nthOfType | nthLastOfType =>
    exact toOption_restrictPosition _ _ series
  | contains | lang =>
    refine toOption_restrictLiteral _ (literal ?_)
    rw [FunctionCall.isNth, name]
    decide

end FunctionalClass

/-! ### Trees in small letters -/

namespace Selector

/-- The simple selector in small letters where their case does not matter. -/
def Simple.folded : Simple → Simple
  | .attribute selector => .attribute { selector with name := lowerCase selector.name }
  | .function call => .function call.folded
  | simple => simple

mutual

/-- The tree in small letters where their case does not matter. -/
def Tree.folded : Tree → Tree
  | .element ns name => .element ns (name.map lowerCase)
  | .restricted base simple => .restricted base.folded simple.folded
  | .negation base argument => .negation base.folded argument.folded
  | .anyOf kind base arguments => .anyOf kind base.folded (Tree.allFolded arguments)
  | .relation base combinator argument => .relation base.folded combinator argument.folded
  | .combined left combinator right => .combined left.folded combinator right.folded

/-- Several trees in small letters. -/
def Tree.allFolded : List Tree → List Tree
  | [] => []
  | tree :: rest => tree.folded :: Tree.allFolded rest

end

/-- The trees differ at most in the case of ASCII letters, and only in names of elements, attributes
and functions and in arguments that are to be a series. -/
def Tree.CaseAlike (first second : Tree) : Prop := first.folded = second.folded

variable {options : Options}

/-- The path of a type selector folds the name, whatever its case. -/
theorem typePath_folded (elements : options.lowerCaseElementNames = true)
    (ns name : Option String) :
    typePath options ns (name.map lowerCase) = typePath options ns name := by
  have names : (name.map lowerCase).map (Options.foldCase true) =
      name.map (Options.foldCase true) := by
    cases name <;> simp [Options.foldCase]
  simp only [typePath, elements, names]

/-- A simple selector in small letters restricts a path in the same way. -/
theorem Simple.toOption_restrict_folded (attributes : options.lowerCaseAttributeNames = true)
    (path : LocationPath) (simple : Simple) :
    (simple.folded.restrict options path).toOption = (simple.restrict options path).toOption := by
  match simple with
  | .className _ | .id _ | .pseudoClass _ => rfl
  | .attribute selector =>
    have condition : Condition.ofAttribute options { selector with name := lowerCase selector.name } =
        Condition.ofAttribute options selector := by
      simp only [Condition.ofAttribute, attributes, Options.foldCase, if_true, lowerCase_lowerCase]
    simp only [folded, restrict, condition]
  | .function call =>
    have named : FunctionalClass.ofName? call.folded.name = FunctionalClass.ofName? call.name :=
      FunctionalClass.ofName?_lowerCase call.name
    simp only [folded, restrict, named]
    cases known : FunctionalClass.ofName? call.name with
    | none => rfl
    | some function => exact FunctionalClass.toOption_restrict_folded known

/-- The result of two steps is the result of the first one, if there is any, taken to the second. -/
theorem toOption_bind {ε α β : Type} (x : Except ε α) (f : α → Except ε β) :
    (x >>= f).toOption = x.toOption.bind fun a => (f a).toOption := by
  cases x <;> rfl

mutual

/-- A tree in small letters is compiled to the same path, or neither is compiled. -/
theorem Tree.toOption_pathFrom_folded (elements : options.lowerCaseElementNames = true)
    (attributes : options.lowerCaseAttributeNames = true) (origin : Origin) : (tree : Tree) →
    (tree.folded.pathFrom options origin).toOption = (tree.pathFrom options origin).toOption
  | .element ns name => by
    simp only [Tree.folded, Tree.pathFrom, typePath_folded elements]
  -- the parts are compiled one after the other, so it is enough that each of them gives the same
  | .restricted base simple => by
    have before := toOption_pathFrom_folded elements attributes none base
    simp only [Tree.folded, Tree.pathFrom, toOption_bind, before,
      Simple.toOption_restrict_folded attributes]
  | .negation base argument => by
    have before := toOption_pathFrom_folded elements attributes none base
    have inside := toOption_pathFrom_folded elements attributes none argument
    simp only [Tree.folded, Tree.pathFrom, toOption_bind, before, inside]
  | .anyOf _ base arguments => by
    have before := toOption_pathFrom_folded elements attributes none base
    have inside := toOption_conditions_folded elements attributes arguments
    simp only [Tree.folded, Tree.pathFrom, toOption_bind, before, inside]
  | .relation base combinator argument => by
    have before := toOption_pathFrom_folded elements attributes none base
    have inside := toOption_pathFrom_folded elements attributes (some (.here, combinator)) argument
    simp only [Tree.folded, Tree.pathFrom, toOption_bind, before, inside]
  | .combined left _ right => by
    have before := toOption_pathFrom_folded elements attributes origin left
    have behind := toOption_pathFrom_folded elements attributes none right
    simp only [Tree.folded, Tree.pathFrom, toOption_bind, before, behind]

/-- Arguments in small letters become the same conditions. -/
theorem Tree.toOption_conditions_folded (elements : options.lowerCaseElementNames = true)
    (attributes : options.lowerCaseAttributeNames = true) : (trees : List Tree) →
    (Tree.conditions options (Tree.allFolded trees)).toOption =
      (Tree.conditions options trees).toOption
  | [] => rfl
  | tree :: rest => by
    have here := toOption_pathFrom_folded elements attributes none tree
    have others := toOption_conditions_folded elements attributes rest
    simp only [Tree.allFolded, Tree.conditions, toOption_bind, here, others]

end

/-- In HTML, trees that differ only in the case of element names, attribute names, function names
and series are compiled to the same path, or both are not compiled. -/
theorem Tree.toOption_path_html {first second : Tree} (alike : first.CaseAlike second) :
    (first.path .html).toOption = (second.path .html).toOption := by
  have folded (tree : Tree) := @toOption_pathFrom_folded .html rfl rfl none tree
  calc (first.path .html).toOption
      = (first.folded.path .html).toOption := (folded first).symm
    _ = (second.folded.path .html).toOption := by rw [alike]
    _ = (second.path .html).toOption := folded second

/-- `LI:NTH-OF-TYPE(2N)[HREF]` and `li:nth-of-type(2n)[href]`. -/
theorem Tree.toOption_path_html_capitals :
    let capital : Tree := .restricted
      (.restricted (.element none (some "LI"))
        (.function ⟨"NTH-OF-TYPE", [⟨.number, "2", 15⟩, ⟨.ident, "N", 16⟩]⟩))
      (.attribute ⟨none, "HREF", .present, none⟩)
    let small : Tree := .restricted
      (.restricted (.element none (some "li"))
        (.function ⟨"nth-of-type", [⟨.number, "2", 15⟩, ⟨.ident, "n", 16⟩]⟩))
      (.attribute ⟨none, "href", .present, none⟩)
    capital.CaseAlike small ∧ (small.path .html).toOption.isSome = true ∧
      (capital.path .html).toOption = (small.path .html).toOption := by
  intro capital small
  have alike : capital.CaseAlike small := by
    unfold Tree.CaseAlike
    cbv
  exact ⟨alike, by cbv, toOption_path_html alike⟩

end Selector

end SelectorPath
