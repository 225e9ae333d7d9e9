import Mathlib.Order.Filter.AtTopBot.Basic
import SelectorPath.Proofs.XPath.Primary

/-!
# Every text has one reading

The lexical rules leave no choice, and neither do the productions: what an expression says is found
by a parser that looks at the next tokens only. `parse` reads an operand and then as many operators
of one level as follow. With enough fuel it finds the term of every expression, whatever may stand
behind it, so no tokens are an expression in two ways.

## Main definitions

* `Grammar.parse` — the parser, with `Grammar.parseChain`, `Grammar.parseStep`, …
* `Grammar.Finds` — the parser gives a result whenever it has enough fuel
* `Grammar.Stops` — no operator of a level goes on behind an expression

## Main results

* `Grammar.Lexes.unique`, `Grammar.Reads.unique` — a text has one reading at most
* `Grammar.ReadsPrimary.unique` — a text starts with one primary expression at most
-/

namespace SelectorPath.XPath.Grammar

/-! ### Tokens -/

/-- Characters are cut into tokens in one way. -/
theorem Lexes.unique {operand : Bool} {cs : List Char} {first second : List Token}
    (lexes : Lexes operand cs first) (also : Lexes operand cs second) : first = second := by
  induction lexes generalizing second with
  | nil =>
    cases also
    rfl
  | space blank _ ih =>
    cases also with
    | space _ rest => exact ih rest
    | token visible => simp [blank] at visible
  | token visible read _ ih =>
    cases also with
    | space blank => simp [visible] at blank
    | token _ readAlso rest =>
      obtain ⟨rfl, rfl⟩ := Prod.mk.inj (Option.some.inj (read.symm.trans readAlso))
      rw [ih rest]

/-! ### A parser -/

/-- The token starts a step. -/
def Token.startsStep : Token → Bool
  | .dot | .twoDots | .at | .axisName _ | .nameTest _ | .nodeType _ => true
  | _ => false

/-- The token starts a primary expression. -/
def Token.startsPrimary : Token → Bool
  | .variable _ | .literal _ | .number _ | .openParenthesis | .functionName _ => true
  | _ => false

/-- The axis in front of a node test, and the tokens behind it. -/
def parseAxis : List Token → Axis × List Token
  | .at :: rest => (.attribute, rest)
  | .axisName axis :: .twoColons :: rest => (axis, rest)
  | rest => (.child, rest)

/-- A node test, and the tokens behind it. -/
def parseTest : List Token → Option (NodeTest × List Token)
  | .nameTest test :: rest => some (test, rest)
  | .nodeType "processing-instruction" :: .openParenthesis :: .literal value
      :: .closeParenthesis :: rest => some (.instruction (some value), rest)
  | .nodeType name :: .openParenthesis :: .closeParenthesis :: rest =>
    match name with
    | "node" => some (.node, rest)
    | "text" => some (.text, rest)
    | "comment" => some (.comment, rest)
    | _ => some (.instruction none, rest)
  | _ => none

mutual

/-- An expression of a level, and the tokens behind it. -/
def parse (fuel level : Nat) (tokens : List Token) : Option (Term × List Token) :=
  match fuel with
  | 0 => none
  | fuel + 1 =>
    if level = signLevel then
      match tokens with
      | .operator .minus :: operand => do
        let (t, rest) ← parse fuel signLevel operand
        return (.negative t, rest)
      | _ => parse fuel (signLevel + 1) tokens
    else if level < pathLevel then do
      let (t, rest) ← parse fuel (level + 1) tokens
      parseChain fuel level t rest
    else parsePath fuel tokens

/-- As many operators of a level with their operands as follow the first operand `left`. -/
def parseChain (fuel level : Nat) (left : Term) (tokens : List Token) :
    Option (Term × List Token) :=
  match fuel with
  | 0 => none
  | fuel + 1 =>
    match tokens with
    | .operator operator :: others =>
      if operator.level = level then do
        let (right, rest) ← parse fuel (level + 1) others
        parseChain fuel level (.binary operator left right) rest
      else some (left, tokens)
    | _ => some (left, tokens)

/-- A path, or an expression that is no path and stands where one could. -/
def parsePath (fuel : Nat) (tokens : List Token) : Option (Term × List Token) :=
  match fuel with
  | 0 => none
  | fuel + 1 =>
    match tokens with
    | .slash :: others =>
      match others with
      | token :: _ =>
        if token.startsStep then parseSteps fuel (some .root) others else some (.root, others)
      | [] => some (.root, [])
    | .twoSlashes :: others => parseSteps fuel (some Term.root.descendants) others
    | token :: others =>
      if token.startsPrimary then do
        let (base, rest) ← parsePrimary fuel (token :: others)
        let (base, rest) ← parseFilters fuel base rest
        parseMore fuel base rest
      else parseSteps fuel none tokens
    | [] => none

/-- A primary expression. -/
def parsePrimary (fuel : Nat) (tokens : List Token) : Option (Term × List Token) :=
  match fuel with
  | 0 => none
  | fuel + 1 =>
    match tokens with
    | .variable name :: rest => some (.variable name, rest)
    | .literal value :: rest => some (.literal value, rest)
    | .number spelling :: rest => some (.number spelling, rest)
    | .functionName function :: .openParenthesis :: .closeParenthesis :: rest =>
      some (.call function [], rest)
    | .functionName function :: .openParenthesis :: others => do
      let (arguments, rest) ← parseArguments fuel others
      return (.call function arguments, rest.tail)
    | .openParenthesis :: others => do
      let (t, rest) ← parse fuel 0 others
      return (t, rest.tail)
    | _ => none

/-- One or more arguments. -/
def parseArguments (fuel : Nat) (tokens : List Token) : Option (List Term × List Token) :=
  match fuel with
  | 0 => none
  | fuel + 1 => do
    let (t, rest) ← parse fuel 0 tokens
    match rest with
    | .comma :: others =>
      let (terms, rest) ← parseArguments fuel others
      return (t :: terms, rest)
    | _ => return ([t], rest)

/-- The predicates behind a primary expression. -/
def parseFilters (fuel : Nat) (base : Term) (tokens : List Token) : Option (Term × List Token) :=
  match fuel with
  | 0 => none
  | fuel + 1 =>
    match tokens with
    | .openBracket :: others => do
      let (t, rest) ← parse fuel 0 others
      parseFilters fuel (.filter base t) rest.tail
    | _ => some (base, tokens)

/-- The predicates of a step. -/
def parsePredicates (fuel : Nat) (tokens : List Token) : Option (List Term × List Token) :=
  match fuel with
  | 0 => none
  | fuel + 1 =>
    match tokens with
    | .openBracket :: others => do
      let (t, rest) ← parse fuel 0 others
      let (terms, rest) ← parsePredicates fuel rest.tail
      return (t :: terms, rest)
    | _ => some ([], tokens)

/-- A step behind `base`, or from the context node. -/
def parseStep (fuel : Nat) (base : Option Term) (tokens : List Token) :
    Option (Term × List Token) :=
  match fuel with
  | 0 => none
  | fuel + 1 =>
    match tokens with
    | .dot :: rest => some (.stepFrom base .self .node [], rest)
    | .twoDots :: rest => some (.stepFrom base .parent .node [], rest)
    | _ => do
      let (test, rest) ← parseTest (parseAxis tokens).2
      let (predicates, rest) ← parsePredicates fuel rest
      return (.stepFrom base (parseAxis tokens).1 test predicates, rest)

/-- A step and the steps behind it. -/
def parseSteps (fuel : Nat) (base : Option Term) (tokens : List Token) :
    Option (Term × List Token) :=
  match fuel with
  | 0 => none
  | fuel + 1 => do
    let (t, rest) ← parseStep fuel base tokens
    parseMore fuel t rest

/-- The steps behind a path or an operand. -/
def parseMore (fuel : Nat) (base : Term) (tokens : List Token) : Option (Term × List Token) :=
  match fuel with
  | 0 => none
  | fuel + 1 =>
    match tokens with
    | .slash :: others => parseSteps fuel (some base) others
    | .twoSlashes :: others => parseSteps fuel (some base.descendants) others
    | _ => some (base, tokens)

end

/-- With enough fuel the parser gives the result. -/
abbrev Finds {α : Type} (parser : Nat → Option α) (result : α) : Prop :=
  ∀ᶠ fuel in Filter.atTop, parser fuel = some result

theorem Finds.unique {α : Type} {parser : Nat → Option α} {first second : α}
    (found : Finds parser first) (also : Finds parser second) : first = second := by
  obtain ⟨fuel, found, also⟩ := (found.and also).exists
  exact Option.some.inj (found.symm.trans also)

/-- The parser may use up some fuel for its first step. -/
theorem Finds.of_succ {α : Type} {parser : Nat → Option α} {result : α}
    (found : ∀ᶠ fuel in Filter.atTop, parser (fuel + 1) = some result) : Finds parser result := by
  rw [Finds, ← Filter.map_add_atTop_eq_nat 1]
  exact found

theorem Finds.of_forall_succ {α : Type} {parser : Nat → Option α} {result : α}
    (found : ∀ fuel, parser (fuel + 1) = some result) : Finds parser result :=
  .of_succ (.of_forall found)

/-! ### First tokens -/

theorem AxisSpecifier.starts {tokens tests : List Token} {axis : Axis} {test : NodeTest}
    (specified : AxisSpecifier tokens axis) (tested : Tests tests test) (rest : List Token) :
    ∃ first others, tokens ++ tests ++ rest = first :: others ∧ first.startsStep = true := by
  cases specified with
  | child => cases tested <;> exact ⟨_, _, rfl, rfl⟩
  | _ => exact ⟨_, _, rfl, rfl⟩

theorem Step.starts {tokens : List Token} {axis : Axis} {test : NodeTest}
    {predicates : List Term} (step : Step tokens axis test predicates) :
    ∃ first others, tokens = first :: others ∧ first.startsStep = true := by
  cases step with
  | self => exact ⟨_, _, rfl, rfl⟩
  | parent => exact ⟨_, _, rfl, rfl⟩
  | full specified tested restricted => exact specified.starts tested _

theorem RelativePath.starts {base : Option Term} {tokens : List Token} {t : Term} :
    RelativePath base tokens t →
      ∃ first others, tokens = first :: others ∧ first.startsStep = true
  | .step single => single.starts
  | .slash path _ | .twoSlashes path _ => by
    obtain ⟨first, others, rfl, starts⟩ := path.starts
    exact ⟨first, _, rfl, starts⟩

theorem Filter.starts {tokens : List Token} {t : Term} :
    Filter tokens t → ∃ first others, tokens = first :: others ∧ first.startsPrimary = true
  | .variable _ | .literal _ | .number _ | .parentheses _ | .callNothing _ | .call _ _ =>
    ⟨_, _, rfl, rfl⟩
  | .predicate filter _ => by
    obtain ⟨first, others, rfl, starts⟩ := filter.starts
    exact ⟨first, _, rfl, starts⟩

/-- An expression starts with a token that an operand may start with, and with a sign only where
signs are. -/
theorem Expression.starts {level : Nat} {tokens : List Token} {t : Term} :
    Expression level tokens t → ∃ first others, tokens = first :: others ∧
      first ≠ .closeParenthesis ∧ (signLevel < level → first ≠ .operator .minus)
  | .binary first _ => by
    obtain ⟨head, others, rfl, ends, sign⟩ := first.starts
    exact ⟨head, _, rfl, ends, sign⟩
  | .negative _ => ⟨_, _, rfl, by simp, fun tight => absurd tight (Nat.lt_irrefl _)⟩
  | .tighter _ inner => by
    obtain ⟨head, others, rfl, ends, sign⟩ := inner.starts
    exact ⟨head, others, rfl, ends, fun tight => sign (Nat.lt_succ_of_lt tight)⟩
  | .relative path => by
    obtain ⟨first, others, rfl, starts⟩ := path.starts
    refine ⟨first, others, rfl, ?_, fun _ => ?_⟩ <;> rintro rfl <;>
      simp [Token.startsStep] at starts
  | .root | .absolute _ | .absoluteDescendants _ => ⟨_, _, rfl, by simp, by simp⟩
  | .filter primary => by
    obtain ⟨first, others, rfl, starts⟩ := primary.starts
    refine ⟨first, others, rfl, ?_, fun _ => ?_⟩ <;> rintro rfl <;>
      simp [Token.startsPrimary] at starts
  | .filterPath primary _ | .filterDescendants primary _ => by
    obtain ⟨first, others, rfl, starts⟩ := primary.starts
    refine ⟨first, _, rfl, ?_, fun _ => ?_⟩ <;> rintro rfl <;>
      simp [Token.startsPrimary] at starts

theorem Arguments.starts {tokens : List Token} {terms : List Term}
    (arguments : Arguments tokens terms) :
    ∃ first others, tokens = first :: others ∧ first ≠ .closeParenthesis := by
  cases arguments with
  | one argument =>
    obtain ⟨first, others, rfl, ends, -⟩ := argument.starts
    exact ⟨first, others, rfl, ends⟩
  | more argument _ =>
    obtain ⟨first, others, rfl, ends, -⟩ := argument.starts
    exact ⟨first, _, rfl, ends⟩

/-! ### What the parser finds -/

/-- No expression of the level goes on here: the input or a bracket ends, or an operator follows
that binds less tightly. -/
def Stops (level : Nat) : List Token → Prop
  | [] | .closeParenthesis :: _ | .closeBracket :: _ | .comma :: _ => True
  | .operator operator :: _ => operator.level < level
  | _ => False

theorem Stops.mono {low high : Nat} {rest : List Token} (stops : Stops low rest)
    (le : low ≤ high) : Stops high rest := by
  unfold Stops at *
  split <;> simp_all
  omega

/-- No operator of the level follows. -/
theorem Stops.parseChain {level : Nat} {rest : List Token} (stops : Stops level rest) (t : Term) :
    Finds (parseChain · level t rest) (t, rest) := by
  refine .of_forall_succ fun fuel => ?_
  rw [Grammar.parseChain.eq_def]
  dsimp only
  split
  · rename_i operator others
    have below : operator.level < level := stops
    rw [if_neg (Nat.ne_of_lt below)]
  · rfl

theorem Stops.parseMore {level : Nat} {rest : List Token} (stops : Stops level rest) (t : Term) :
    Finds (parseMore · t rest) (t, rest) := by
  refine .of_forall_succ fun fuel => ?_
  rw [Grammar.parseMore.eq_def]
  dsimp only
  split
  · exact stops.elim
  · exact stops.elim
  · rfl

/-- Signs and paths are no operands of operators of their own level. -/
theorem parseChain_of_forall_ne {level : Nat} (none : ∀ operator : Operator, operator.level ≠ level)
    (t : Term) (rest : List Token) : Finds (parseChain · level t rest) (t, rest) := by
  refine .of_forall_succ fun fuel => ?_
  rw [Grammar.parseChain.eq_def]
  dsimp only
  split
  · rw [if_neg (none _)]
  · rfl

theorem level_ne_signLevel (operator : Operator) : operator.level ≠ signLevel := by
  cases operator <;> decide

theorem level_ne_pathLevel (operator : Operator) : operator.level ≠ pathLevel := by
  cases operator <;> decide

/-- A path is read as it is, and no operator goes on with it. -/
theorem parse_of_pathLevel {tokens rest : List Token} {t : Term} {result : Term × List Token}
    (chain : Finds (parseChain · pathLevel t rest) result)
    (found : Finds (parsePath · tokens) (t, rest)) : Finds (parse · pathLevel tokens) result := by
  obtain rfl := chain.unique (parseChain_of_forall_ne level_ne_pathLevel _ _)
  refine .of_succ ?_
  filter_upwards [found] with fuel found
  rw [parse.eq_def]
  dsimp only
  rw [if_neg (by decide), if_neg (by decide), found]

/-- An operand is read, and the operators of the level behind it. -/
theorem parse_of_operator {level : Nat} (noSign : level ≠ signLevel) (below : level < pathLevel)
    {tokens rest : List Token} {t : Term} {result : Term × List Token}
    (operand : Finds (parse · (level + 1) tokens) (t, rest))
    (chain : Finds (parseChain · level t rest) result) : Finds (parse · level tokens) result := by
  refine .of_succ ?_
  filter_upwards [operand, chain] with fuel operand chain
  rw [parse.eq_def]
  dsimp only
  rw [if_neg noSign, if_pos below, operand]
  exact chain

/-- No predicate follows. -/
def NoBracket (rest : List Token) : Prop := ∀ others, rest ≠ .openBracket :: others

theorem NoBracket.parseFilters {rest : List Token} (ends : NoBracket rest) (t : Term) :
    Finds (parseFilters · t rest) (t, rest) := by
  refine .of_forall_succ fun fuel => ?_
  rw [Grammar.parseFilters.eq_def]
  dsimp only
  split
  · exact absurd rfl (ends _)
  · rfl

theorem Stops.noBracket {level : Nat} {rest : List Token} (stops : Stops level rest) :
    NoBracket rest := by
  rintro others rfl
  exact stops

theorem AxisSpecifier.parseAxis {specifier tests : List Token} {axis : Axis} {test : NodeTest}
    (specified : AxisSpecifier specifier axis) (tested : Tests tests test) (rest : List Token) :
    parseAxis (specifier ++ (tests ++ rest)) = (axis, tests ++ rest) := by
  cases specified with
  | child => cases tested <;> rfl
  | _ => rfl

theorem Tests.parseTest {tokens : List Token} {test : NodeTest} (tested : Tests tokens test)
    (rest : List Token) : parseTest (tokens ++ rest) = some (test, rest) := by
  cases tested <;> rfl

/-- Whatever starts a step starts no primary expression. -/
theorem Token.startsPrimary_of_startsStep {token : Token} (step : token.startsStep = true) :
    token.startsPrimary = false := by
  cases token <;> simp_all [Token.startsStep, Token.startsPrimary]

theorem parsePath_of_startsStep {first : Token} (starts : first.startsStep = true)
    {others : List Token} {result : Term × List Token}
    (found : Finds (parseSteps · none (first :: others)) result) :
    Finds (parsePath · (first :: others)) result := by
  refine .of_succ ?_
  filter_upwards [found] with fuel found
  rw [parsePath.eq_def]
  dsimp only
  split
  · rename_i eq
    obtain ⟨rfl, rfl⟩ := List.cons.inj eq
    simp [Token.startsStep] at starts
  · rename_i eq
    obtain ⟨rfl, rfl⟩ := List.cons.inj eq
    simp [Token.startsStep] at starts
  · rename_i eq
    obtain ⟨rfl, rfl⟩ := List.cons.inj eq
    simp [Token.startsPrimary_of_startsStep starts, found]
  · rename_i eq
    exact nomatch eq

/-- A primary expression with its predicates. -/
def parseFilter (fuel : Nat) (tokens : List Token) : Option (Term × List Token) := do
  let (base, rest) ← parsePrimary fuel tokens
  parseFilters fuel base rest

theorem parseFilter_of_parsePrimary {tokens rest : List Token} {base : Term}
    {result : Term × List Token} (primary : Finds (parsePrimary · tokens) (base, rest))
    (filters : Finds (parseFilters · base rest) result) : Finds (parseFilter · tokens) result := by
  filter_upwards [primary, filters] with fuel primary filters
  rw [parseFilter, primary]
  exact filters

theorem parsePath_of_startsPrimary {first : Token} (starts : first.startsPrimary = true)
    {others rest : List Token} {base : Term} {result : Term × List Token}
    (found : Finds (parseFilter · (first :: others)) (base, rest))
    (more : Finds (parseMore · base rest) result) :
    Finds (parsePath · (first :: others)) result := by
  refine .of_succ ?_
  filter_upwards [found, more] with fuel found more
  have whole : parsePath (fuel + 1) (first :: others) =
      (parseFilter fuel (first :: others)).bind fun (base, rest) => parseMore fuel base rest := by
    rw [parsePath.eq_def]
    dsimp only
    split
    · rename_i eq
      obtain ⟨rfl, rfl⟩ := List.cons.inj eq
      simp [Token.startsPrimary] at starts
    · rename_i eq
      obtain ⟨rfl, rfl⟩ := List.cons.inj eq
      simp [Token.startsPrimary] at starts
    · rename_i eq
      obtain ⟨rfl, rfl⟩ := List.cons.inj eq
      simp only [starts, if_true, parseFilter]
      cases parsePrimary fuel (first :: others) <;> rfl
    · rename_i eq
      exact nomatch eq
  rw [whole, found]
  exact more

/-- A token behind the parenthesis of a function starts its arguments if it does not end them. -/
theorem parsePrimary_call (function : String) {first : Token} (noEnd : first ≠ .closeParenthesis)
    {others rest : List Token} {terms : List Term}
    (found : Finds (parseArguments · (first :: others)) (terms, rest)) :
    Finds (parsePrimary · (.functionName function :: .openParenthesis :: first :: others))
      (.call function terms, rest.tail) := by
  refine .of_succ ?_
  filter_upwards [found] with fuel found
  rw [parsePrimary]
  · rw [found]
    rfl
  · rintro _ same
    exact noEnd (List.cons.inj same).1

theorem parseStep_of_specified {specifier tests : List Token} {axis : Axis} {test : NodeTest}
    (specified : AxisSpecifier specifier axis) (tested : Tests tests test) (base : Option Term)
    {rest behind : List Token} {predicates : List Term}
    (found : Finds (parsePredicates · rest) (predicates, behind)) :
    Finds (parseStep · base (specifier ++ (tests ++ rest)))
      (.stepFrom base axis test predicates, behind) := by
  refine .of_succ ?_
  filter_upwards [found] with fuel found
  have step : parseStep (fuel + 1) base (specifier ++ (tests ++ rest)) =
      (Grammar.parseTest (Grammar.parseAxis (specifier ++ (tests ++ rest))).2).bind
        fun (test, after) => (parsePredicates fuel after).bind fun (predicates, behind) =>
          some (.stepFrom base (Grammar.parseAxis (specifier ++ (tests ++ rest))).1 test predicates,
            behind) := by
    cases specified with
    | child => cases tested <;> rfl
    | _ => rfl
  rw [step, specified.parseAxis tested, tested.parseTest, Option.bind_some]
  dsimp only
  rw [found]
  rfl

theorem parseSteps_of_parseStep {base : Option Term} {tokens rest : List Token} {t : Term}
    {result : Term × List Token} (step : Finds (parseStep · base tokens) (t, rest))
    (more : Finds (parseMore · t rest) result) : Finds (parseSteps · base tokens) result := by
  refine .of_succ ?_
  filter_upwards [step, more] with fuel step more
  rw [parseSteps, step]
  exact more

theorem parseMore_slash {base : Term} {others : List Token} {result : Term × List Token}
    (found : Finds (parseSteps · (some base) others) result) :
    Finds (parseMore · base (.slash :: others)) result :=
  .of_succ found

theorem parseMore_twoSlashes {base : Term} {others : List Token} {result : Term × List Token}
    (found : Finds (parseSteps · (some base.descendants) others) result) :
    Finds (parseMore · base (.twoSlashes :: others)) result :=
  .of_succ found

mutual

/-- The parser finds an expression in front of anything that does not go on with it, and goes on
with operators of its level. -/
theorem Expression.parse {level : Nat} {tokens : List Token} {t : Term} :
    Expression level tokens t → ∀ {rest : List Token} {result : Term × List Token},
      Stops (level + 1) rest → Finds (parseChain · level t rest) result →
        Finds (Grammar.parse · level (tokens ++ rest)) result
  | @Expression.binary operator _ right l r first second, rest, result, stops, chain => by
    -- The left operand ends in front of the operator, and its chain goes on with it.
    have goesOn : Stops (operator.level + 1) (.operator operator :: (right ++ rest)) :=
      Nat.lt_succ_self _
    have next : Finds (Grammar.parse · (operator.level + 1) (right ++ rest)) (r, rest) :=
      second.parse (stops.mono (Nat.le_succ _)) (stops.parseChain r)
    rw [List.append_assoc, List.cons_append]
    refine first.parse goesOn (.of_succ ?_)
    filter_upwards [next, chain] with fuel next chain
    simp [Grammar.parseChain, next, chain]
  | @Expression.negative _ t inner, rest, result, stops, chain => by
    obtain rfl := chain.unique (parseChain_of_forall_ne level_ne_signLevel _ _)
    have operand := inner.parse stops (parseChain_of_forall_ne level_ne_signLevel t rest)
    refine .of_succ ?_
    filter_upwards [operand] with fuel operand
    simp [Grammar.parse, operand]
  | @Expression.tighter level tokens t below inner, rest, result, stops, chain => by
    have operand : Finds (Grammar.parse · (level + 1) (tokens ++ rest)) (t, rest) :=
      inner.parse (stops.mono (Nat.le_succ _)) (stops.parseChain t)
    by_cases sign : level = signLevel
    · -- Here a sign would be read first, but what binds more tightly does not start with one.
      subst sign
      obtain rfl := chain.unique (parseChain_of_forall_ne level_ne_signLevel _ _)
      obtain ⟨first, others, rfl, -, noSign⟩ := inner.starts
      refine .of_succ ?_
      filter_upwards [operand] with fuel operand
      rw [Grammar.parse.eq_def]
      dsimp only
      rw [if_pos rfl]
      split
      · rename_i eq
        exact absurd (List.cons.inj eq).1 (noSign (Nat.lt_succ_self _))
      · exact operand
    · exact parse_of_operator sign below operand chain
  | @Expression.relative _ t path, rest, result, stops, chain => by
    have steps := path.parseSteps stops.noBracket (stops.parseMore t)
    obtain ⟨first, others, rfl, starts⟩ := path.starts
    exact parse_of_pathLevel chain (parsePath_of_startsStep starts steps)
  | .root, rest, result, stops, chain => by
    -- Nothing that may stand behind an expression starts a step.
    refine parse_of_pathLevel chain (.of_forall_succ fun fuel => ?_)
    match rest, stops with
    | [], _ => rfl
    | .closeParenthesis :: _, _ | .closeBracket :: _, _ | .comma :: _, _ => rfl
    | .operator _ :: _, _ => rfl
  | @Expression.absolute _ t path, rest, result, stops, chain => by
    have steps := path.parseSteps stops.noBracket (stops.parseMore t)
    obtain ⟨first, others, rfl, starts⟩ := path.starts
    refine parse_of_pathLevel chain (.of_succ ?_)
    filter_upwards [steps] with fuel steps
    simpa [parsePath, starts] using steps
  | @Expression.absoluteDescendants _ t path, rest, result, stops, chain => by
    exact parse_of_pathLevel chain
      (.of_succ (path.parseSteps stops.noBracket (stops.parseMore t)))
  | @Expression.filter _ t primary, rest, result, stops, chain => by
    have found := primary.parseFilter (stops.noBracket.parseFilters t)
    obtain ⟨first, others, rfl, starts⟩ := primary.starts
    exact parse_of_pathLevel chain (parsePath_of_startsPrimary starts found (stops.parseMore t))
  | @Expression.filterPath _ more base t primary path, rest, result, stops, chain => by
    have slash : NoBracket (.slash :: (more ++ rest)) := by simp [NoBracket]
    have found := primary.parseFilter (slash.parseFilters base)
    have steps := path.parseSteps stops.noBracket (stops.parseMore t)
    obtain ⟨first, others, rfl, starts⟩ := primary.starts
    rw [List.append_assoc]
    exact parse_of_pathLevel chain (parsePath_of_startsPrimary starts found (parseMore_slash steps))
  | @Expression.filterDescendants _ more base t primary path, rest, result, stops, chain => by
    have slashes : NoBracket (.twoSlashes :: (more ++ rest)) := by simp [NoBracket]
    have found := primary.parseFilter (slashes.parseFilters base)
    have steps := path.parseSteps stops.noBracket (stops.parseMore t)
    obtain ⟨first, others, rfl, starts⟩ := primary.starts
    rw [List.append_assoc]
    exact parse_of_pathLevel chain
      (parsePath_of_startsPrimary starts found (parseMore_twoSlashes steps))

/-- The parser finds a primary expression and goes on with predicates. -/
theorem Filter.parseFilter {tokens : List Token} {t : Term} :
    Filter tokens t → ∀ {rest : List Token} {result : Term × List Token},
      Finds (parseFilters · t rest) result →
        Finds (Grammar.parseFilter · (tokens ++ rest)) result
  | .variable _, rest, _, filters | .literal _, rest, _, filters | .number _, rest, _, filters
  | .callNothing _, rest, _, filters =>
    parseFilter_of_parsePrimary (.of_forall_succ fun _ => rfl) filters
  | @Filter.parentheses tokens t inner, rest, result, filters => by
    have stops : Stops 0 (.closeParenthesis :: rest) := trivial
    have found := inner.parse (stops.mono (Nat.zero_le 1)) (stops.parseChain t)
    refine parseFilter_of_parsePrimary (.of_succ ?_) filters
    filter_upwards [found] with fuel found
    simp [parsePrimary, found]
  | @Filter.call function tokens terms arguments, rest, result, filters => by
    have found := arguments.parseArguments rest
    obtain ⟨first, others, rfl, noEnd⟩ := arguments.starts
    simp only [List.cons_append, List.append_assoc, List.nil_append] at found ⊢
    exact parseFilter_of_parsePrimary (parsePrimary_call function noEnd found) filters
  | @Filter.predicate tokens more _ p primary inner, rest, result, filters => by
    have stops : Stops 0 (.closeBracket :: rest) := trivial
    have found := inner.parse (stops.mono (Nat.zero_le 1)) (stops.parseChain p)
    have whole : tokens ++ .openBracket :: more ++ [.closeBracket] ++ rest =
        tokens ++ .openBracket :: (more ++ .closeBracket :: rest) := by simp
    rw [whole]
    refine primary.parseFilter (.of_succ ?_)
    filter_upwards [found, filters] with fuel found filters
    simp [parseFilters, found, filters]

/-- The parser finds all arguments. -/
theorem Arguments.parseArguments {tokens : List Token} {terms : List Term} :
    Arguments tokens terms → ∀ (rest : List Token),
      Finds (Grammar.parseArguments · (tokens ++ .closeParenthesis :: rest))
        (terms, .closeParenthesis :: rest)
  | @Arguments.one _ t argument, rest => by
    have stops : Stops 0 (.closeParenthesis :: rest) := trivial
    have found := argument.parse (stops.mono (Nat.zero_le 1)) (stops.parseChain t)
    refine .of_succ ?_
    filter_upwards [found] with fuel found
    simp [Grammar.parseArguments, found]
  | @Arguments.more _ others t _ argument more, rest => by
    have stops : Stops 0 (.comma :: (others ++ .closeParenthesis :: rest)) := trivial
    have found := argument.parse (stops.mono (Nat.zero_le 1)) (stops.parseChain t)
    rw [List.append_assoc, List.cons_append]
    refine .of_succ ?_
    filter_upwards [found, more.parseArguments rest] with fuel found others
    simp [Grammar.parseArguments, found, others]

/-- The parser finds the steps of a path and goes on with more of them. -/
theorem RelativePath.parseSteps {base : Option Term} {tokens : List Token} {t : Term} :
    RelativePath base tokens t → ∀ {rest : List Token} {result : Term × List Token},
      NoBracket rest → Finds (parseMore · t rest) result →
        Finds (Grammar.parseSteps · base (tokens ++ rest)) result
  | .step single, rest, result, ends, next =>
    parseSteps_of_parseStep (single.parseStep base ends) next
  | @RelativePath.slash _ _ more t _ _ _ path step, rest, result, ends, next => by
    have slash : NoBracket (.slash :: (more ++ rest)) := by simp [NoBracket]
    have found := step.parseStep (some t) ends
    rw [List.append_assoc, List.cons_append]
    exact path.parseSteps slash (parseMore_slash (parseSteps_of_parseStep found next))
  | @RelativePath.twoSlashes _ _ more t _ _ _ path step, rest, result, ends, next => by
    have slashes : NoBracket (.twoSlashes :: (more ++ rest)) := by simp [NoBracket]
    have found := step.parseStep (some t.descendants) ends
    rw [List.append_assoc, List.cons_append]
    exact path.parseSteps slashes (parseMore_twoSlashes (parseSteps_of_parseStep found next))

/-- The parser finds a step. -/
theorem Step.parseStep {tokens : List Token} {axis : Axis} {test : NodeTest}
    {predicates : List Term} :
    Step tokens axis test predicates → ∀ (base : Option Term) {rest : List Token}, NoBracket rest →
      Finds (Grammar.parseStep · base (tokens ++ rest))
        (.stepFrom base axis test predicates, rest)
  | .self, base, rest, _ | .parent, base, rest, _ => .of_forall_succ fun _ => rfl
  | .full specified tested restricted, base, rest, ends => by
    rw [List.append_assoc, List.append_assoc]
    exact parseStep_of_specified specified tested base (restricted.parsePredicates ends)

/-- The parser finds the predicates of a step. -/
theorem Predicates.parsePredicates {tokens : List Token} {terms : List Term} :
    Predicates tokens terms → ∀ {rest : List Token}, NoBracket rest →
      Finds (Grammar.parsePredicates · (tokens ++ rest)) (terms, rest)
  | .nil, rest, ends => by
    refine .of_forall_succ fun fuel => ?_
    rw [List.nil_append, Grammar.parsePredicates.eq_def]
    dsimp only
    split
    · exact absurd rfl (ends _)
    · rfl
  | @Predicates.cons _ more t _ inner others, rest, ends => by
    have stops : Stops 0 (.closeBracket :: (more ++ rest)) := trivial
    have found := inner.parse (stops.mono (Nat.zero_le 1)) (stops.parseChain t)
    refine .of_succ ?_
    filter_upwards [found, others.parsePredicates ends] with fuel found others
    simp [Grammar.parsePredicates, found, others]

end

/-! ### One reading -/

/-- Tokens are an expression in one way. -/
theorem Expression.unique {tokens : List Token} {first second : Term}
    (expression : Expression 0 tokens first) (also : Expression 0 tokens second) :
    first = second := by
  have stops : Stops 0 [] := trivial
  have firstFound := expression.parse (stops.mono (Nat.zero_le 1)) (stops.parseChain first)
  have secondFound := also.parse (stops.mono (Nat.zero_le 1)) (stops.parseChain second)
  exact (Prod.mk.inj (firstFound.unique secondFound)).1

/-- A text has one reading at most. -/
theorem Reads.unique {text : String} {first second : Term} (reads : Reads text first)
    (also : Reads text second) : first = second := by
  obtain ⟨tokens, lexes, expression⟩ := reads
  obtain ⟨others, lexesAlso, expressionAlso⟩ := also
  obtain rfl := lexes.unique lexesAlso
  exact expression.unique expressionAlso

/-- The parser finds a primary expression in front of any tokens. -/
theorem Primary.parsePrimary {tokens : List Token} {t : Term} (rest : List Token) :
    Primary tokens t → Finds (Grammar.parsePrimary · (tokens ++ rest)) (t, rest)
  | .variable _ | .literal _ | .number _ | .callNothing _ => .of_forall_succ fun _ => rfl
  | @Primary.parentheses tokens t inner => by
    have stops : Stops 0 (.closeParenthesis :: rest) := trivial
    have found := inner.parse (stops.mono (Nat.zero_le 1)) (stops.parseChain t)
    refine .of_succ ?_
    filter_upwards [found] with fuel found
    simp [Grammar.parsePrimary, found]
  | @Primary.call function tokens terms arguments => by
    have found := arguments.parseArguments rest
    obtain ⟨first, others, rfl, noEnd⟩ := arguments.starts
    simp only [List.cons_append, List.append_assoc, List.nil_append] at found ⊢
    exact parsePrimary_call function noEnd found

/-- No primary expression goes on behind another one. -/
theorem Primary.eq_of_append {tokens more : List Token} {first second : Term}
    (primary : Primary tokens first) (also : Primary (tokens ++ more) second) :
    first = second ∧ more = [] := by
  have longer := also.parsePrimary []
  rw [List.append_nil] at longer
  exact Prod.mk.inj ((primary.parsePrimary more).unique longer)

/-- Of two scans of primary expressions the longer one is no longer. -/
theorem Primary.eq_of_scans {cs rest left : List Char} {tokens others : List Token}
    {first second : Term} (primary : Primary tokens first) (also : Primary others second)
    (scans : Scans true cs tokens false rest) (scansAlso : Scans true cs others false left)
    (shorter : tokens.length ≤ others.length) : first = second ∧ rest = left := by
  obtain ⟨more, rfl, goesOn⟩ := scans.split scansAlso shorter
  obtain ⟨rfl, rfl⟩ := primary.eq_of_append also
  exact ⟨rfl, goesOn.rest_eq.symm⟩

/-- A text starts with one primary expression at most. -/
theorem ReadsPrimary.unique {text rest left : String} {first second : Term}
    (reads : ReadsPrimary text first rest) (also : ReadsPrimary text second left) :
    first = second ∧ rest = left := by
  obtain ⟨tokens, scans, primary⟩ := reads
  obtain ⟨others, scansAlso, primaryAlso⟩ := also
  rcases Nat.le_total tokens.length others.length with shorter | longer
  · exact (primary.eq_of_scans primaryAlso scans scansAlso shorter).imp_right String.toList_inj.mp
  · exact (primaryAlso.eq_of_scans primary scansAlso scans longer).imp Eq.symm
      (String.toList_inj.mp ·.symm)

end SelectorPath.XPath.Grammar
