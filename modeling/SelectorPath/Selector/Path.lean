import SelectorPath.Condition.FunctionalClass
import SelectorPath.Condition.PseudoClass
import SelectorPath.Selector.Parser

/-!
# Selectors as location paths

A tree is compiled from its leaves: a type selector is a path of one step, everything behind it
restricts the step, and a combinator joins two paths. The argument of `:has()` is a path from the
element that is restricted; the arguments of `:not()`, `:is()` and `:where()` become conditions.

## Main definitions

* `typePath`, `Selector.Simple.restrict`, `connect` — the parts of the compilation
* `Selector.Tree.path` — the path of a tree
* `Selector.xpath`, `xpathOfGroup` — the text of a selector and of a selector group
* `cssToXPath`, `htmlToXPath` — a selector group under the presets

## Main results

* `Selector.Tree.pathFrom_restricted_eq_ok_iff`, … — what the path of a tree is put together from
* `Selector.xpath_eq_ok_iff`, `xpathOfGroup_eq_ok_iff` — the same for selectors and groups
-/

namespace SelectorPath

open XPath

/-- The path of a type selector. A name that cannot be written as a node test is compared in a
condition. -/
def typePath (options : Options) (ns name : Option String) : LocationPath :=
  let folded := name.map (Options.foldCase options.lowerCaseElementNames)
  let isPlain := folded.all isPlainName && ns.all isPlainName
  let test := folded.getD "*"
  let path :=
    match ns with
    | none => LocationPath.ofTest test
    | some ns => LocationPath.ofTest (ns ++ ":" ++ test)
  if isPlain then path else path.addNameTest

/-- The path whose last step is restricted by a simple selector. -/
def Selector.Simple.restrict (options : Options) (path : LocationPath) :
    Selector.Simple → Except CompileError LocationPath
  | .className name => .ok (path.addCondition (Condition.ofClass options name))
  | .id value => .ok (path.addCondition (Condition.ofId options value))
  | .attribute selector => .ok (path.addCondition (Condition.ofAttribute options selector))
  | .pseudoClass name =>
    match Condition.ofPseudoClass options path name with
    | .ok condition => .ok (path.addCondition condition)
    | .error e => .error e
  | .function call =>
    match FunctionalClass.ofName? call.name with
    | some known => known.restrict options path call
    | none => .error (.unknownFunction call.name)

namespace Selector.Simple

variable {options : Options} {path restricted : LocationPath}

theorem restrict_pseudoClass_eq_ok_iff {name : String} :
    (pseudoClass name).restrict options path = .ok restricted ↔
      ∃ condition, Condition.ofPseudoClass options path name = .ok condition ∧
        restricted = path.addCondition condition := by
  rw [restrict]
  cases Condition.ofPseudoClass options path name <;> simp [eq_comm]

theorem restrict_function_eq_ok_iff {call : FunctionCall} :
    (function call).restrict options path = .ok restricted ↔
      ∃ known, FunctionalClass.ofName? call.name = some known ∧
        known.restrict options path call = .ok restricted := by
  rw [restrict]
  cases FunctionalClass.ofName? call.name <;> simp

end Selector.Simple

/-- Two paths joined by a combinator. -/
def connect (left : LocationPath) (combinator : Combinator) (right : LocationPath) :
    LocationPath :=
  match combinator with
  | .descendant => left.join .descendant right
  | .child => left.join .child right
  | .nextSibling => left.joinSibling right true
  | .subsequentSibling => left.joinSibling right false

/-- Where a path starts: at a given path and combinator, or anywhere. -/
abbrev Origin := Option (LocationPath × Combinator)

/-- The path behind its origin. -/
def Origin.attach (origin : Origin) (path : LocationPath) : LocationPath :=
  match origin with
  | none => path
  | some (start, combinator) => connect start combinator path

/-- The condition that an element is one of those that the last step of `path` selects among the
children of their parent; none if it selects all of them. -/
def argumentCondition? (path : LocationPath) : Option Expr :=
  if path.starred then some path.membership else path.addNameTest.condition?

/-- The condition that an element is not selected. -/
def negationCondition (path : LocationPath) : Expr :=
  match argumentCondition? path with
  | some condition => .call .not [condition]
  | none => Condition.never

namespace Selector

mutual

/-- The path of a tree, its first compound behind `origin`. -/
def Tree.pathFrom (options : Options) (origin : Origin) :
    Tree → Except CompileError LocationPath
  | .element ns name => .ok (origin.attach (typePath options ns name))
  | .restricted base simple => do
    let path ← Tree.pathFrom options none base
    return origin.attach (← simple.restrict options path)
  | .negation base argument => do
    let path ← Tree.pathFrom options none base
    let other ← Tree.pathFrom options none argument
    return origin.attach (path.addCondition (negationCondition other))
  | .anyOf _ base arguments => do
    let path ← Tree.pathFrom options none base
    return origin.attach (path.addAlternatives (← Tree.conditions options arguments))
  | .relation base combinator argument => do
    let path ← Tree.pathFrom options none base
    let related ← Tree.pathFrom options (some (.here, combinator)) argument
    return origin.attach (path.addCondition related.toExpr)
  | .combined left combinator right => do
    let before ← Tree.pathFrom options origin left
    return connect before combinator (← Tree.pathFrom options none right)

/-- The conditions of several arguments, which hold everywhere for one that selects all. -/
def Tree.conditions (options : Options) : List Tree → Except CompileError (List Expr)
  | [] => .ok []
  | tree :: rest => do
    let path ← Tree.pathFrom options none tree
    let others ← Tree.conditions options rest
    return (argumentCondition? path).getD Condition.always :: others

end

/-! ### Compiled trees -/

section Compiled

variable {options : Options} {origin : Origin} {base left right argument : Tree} {simple : Simple}
  {combinator : Combinator} {path : LocationPath}

theorem bind_eq_ok_iff {ε α β : Type} {first : Except ε α} {next : α → Except ε β} {result : β} :
    first >>= next = .ok result ↔ ∃ a, first = .ok a ∧ next a = .ok result := by
  cases first <;> simp [bind, Except.bind]

/-- A result that is put together from two is there if both of them are. -/
theorem bind_bind_eq_ok_iff {ε α β γ : Type} {first : Except ε α} {second : α → Except ε β}
    {both : α → β → γ} {result : γ} :
    (do let a ← first; let b ← second a; return both a b) = .ok result ↔
      ∃ a b, first = .ok a ∧ second a = .ok b ∧ result = both a b := by
  constructor
  · intro compiled
    obtain ⟨a, here, rest⟩ := bind_eq_ok_iff.mp compiled
    obtain ⟨b, also, rest⟩ := bind_eq_ok_iff.mp rest
    exact ⟨a, b, here, also, (Except.ok.inj rest).symm⟩
  · rintro ⟨a, b, here, also, rfl⟩
    exact bind_eq_ok_iff.mpr ⟨a, here, bind_eq_ok_iff.mpr ⟨b, also, rfl⟩⟩

theorem Tree.pathFrom_restricted_eq_ok_iff :
    (Tree.restricted base simple).pathFrom options origin = .ok path ↔
      ∃ before restricted, base.pathFrom options none = .ok before ∧
        simple.restrict options before = .ok restricted ∧ path = origin.attach restricted :=
  bind_bind_eq_ok_iff

theorem Tree.pathFrom_negation_eq_ok_iff :
    (Tree.negation base argument).pathFrom options origin = .ok path ↔
      ∃ before other, base.pathFrom options none = .ok before ∧
        argument.pathFrom options none = .ok other ∧
          path = origin.attach (before.addCondition (negationCondition other)) :=
  bind_bind_eq_ok_iff

theorem Tree.pathFrom_anyOf_eq_ok_iff {kind : Alternation} {arguments : List Tree} :
    (Tree.anyOf kind base arguments).pathFrom options origin = .ok path ↔
      ∃ before alternatives, base.pathFrom options none = .ok before ∧
        Tree.conditions options arguments = .ok alternatives ∧
          path = origin.attach (before.addAlternatives alternatives) :=
  bind_bind_eq_ok_iff

theorem Tree.pathFrom_relation_eq_ok_iff :
    (Tree.relation base combinator argument).pathFrom options origin = .ok path ↔
      ∃ before related, base.pathFrom options none = .ok before ∧
        argument.pathFrom options (some (.here, combinator)) = .ok related ∧
          path = origin.attach (before.addCondition related.toExpr) :=
  bind_bind_eq_ok_iff

theorem Tree.pathFrom_combined_eq_ok_iff :
    (Tree.combined left combinator right).pathFrom options origin = .ok path ↔
      ∃ before behind, left.pathFrom options origin = .ok before ∧
        right.pathFrom options none = .ok behind ∧ path = connect before combinator behind :=
  bind_bind_eq_ok_iff

theorem Tree.conditions_cons_eq_ok_iff {tree : Tree} {trees : List Tree}
    {conditions : List Expr} :
    Tree.conditions options (tree :: trees) = .ok conditions ↔
      ∃ path others, tree.pathFrom options none = .ok path ∧
        Tree.conditions options trees = .ok others ∧
          conditions = (argumentCondition? path).getD Condition.always :: others :=
  bind_bind_eq_ok_iff

end Compiled

/-- The path of a tree. -/
def Tree.path (options : Options) (tree : Tree) : Except CompileError LocationPath :=
  tree.pathFrom options none

end Selector

/-- The expression of a selector behind the text `leading`. Pseudo-elements are no nodes. -/
def Selector.xpath (options : Options) (leading : String) (selector : Selector) :
    Except CompileError String :=
  match selector.pseudoElement with
  | some pseudo => .error (.pseudoElement pseudo)
  | none =>
    match selector.tree.path options with
    | .ok path => .ok (leading ++ path.text)
    | .error e => .error e

/-- The expressions of several selectors, or the first error. -/
def xpaths (options : Options) (leading : String) :
    List Selector → Except CompileError (List String)
  | [] => .ok []
  | selector :: rest =>
    match selector.xpath options leading with
    | .error e => .error e
    | .ok xpath =>
      match xpaths options leading rest with
      | .error e => .error e
      | .ok others => .ok (xpath :: others)

/-- The expression of a selector group: the union of those of its selectors, each behind the text
`leading`. The whole group is read before any selector is compiled. -/
def xpathOfGroup (options : Options) (leading css : String) : Except CompileError String :=
  match Selector.parse css with
  | .error e => .error (.malformed e)
  | .ok selectors =>
    match xpaths options leading selectors with
    | .error e => .error e
    | .ok alternatives => .ok (" | ".intercalate alternatives)

/-! ### Expressions of selectors -/

section Expressions

variable {options : Options} {leading css text : String} {selector : Selector}

theorem Selector.xpath_eq_ok_iff :
    selector.xpath options leading = .ok text ↔
      selector.pseudoElement = none ∧
        ∃ path, selector.tree.path options = .ok path ∧ text = leading ++ path.text := by
  rw [Selector.xpath]
  cases selector.pseudoElement with
  | some pseudo => simp
  | none => cases selector.tree.path options <;> simp [eq_comm]

theorem xpaths_cons_eq_ok_iff {rest : List Selector} {texts : List String} :
    xpaths options leading (selector :: rest) = .ok texts ↔
      ∃ text others, selector.xpath options leading = .ok text ∧
        xpaths options leading rest = .ok others ∧ texts = text :: others := by
  rw [xpaths]
  cases selector.xpath options leading with
  | error e => simp
  | ok text => cases xpaths options leading rest <;> simp [eq_comm]

/-- A group has an expression if its text is accepted and each of its selectors has one. -/
theorem xpathOfGroup_eq_ok_iff :
    xpathOfGroup options leading css = .ok text ↔
      ∃ selectors texts, Selector.parse css = .ok selectors ∧
        xpaths options leading selectors = .ok texts ∧ text = " | ".intercalate texts := by
  unfold xpathOfGroup
  constructor
  · intro compiled
    split at compiled
    · exact nomatch compiled
    rename_i selectors parsed
    split at compiled
    · exact nomatch compiled
    · obtain rfl := Except.ok.inj compiled
      exact ⟨selectors, _, parsed, ‹_›, rfl⟩
  · rintro ⟨selectors, texts, parsed, compiled, rfl⟩
    simp only [parsed, compiled]

end Expressions

/-- The expression of a selector group behind the text that the options ask for. -/
def Options.xpath (options : Options) (css : String) : Except CompileError String :=
  xpathOfGroup options options.leading css

/-- The expression of a selector group for XML documents. -/
def cssToXPath (css : String) : Except CompileError String := Options.generic.xpath css

/-- The expression of a selector group for HTML documents. -/
def htmlToXPath (css : String) : Except CompileError String := Options.html.xpath css

end SelectorPath
