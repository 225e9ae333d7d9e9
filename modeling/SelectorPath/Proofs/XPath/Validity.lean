import SelectorPath.Proofs.XPath.Reading

/-!
# Paths under construction are valid

The steps of a path are joined as texts, so nothing but the way paths are built keeps a condition
inside of its brackets and a name where a node test may stand. `LocationPath.ValidBehind` is what
every operation on paths keeps: behind some leading segments all node tests can be written as such,
and all conditions are valid expressions. A path that keeps it is a valid expression, and stays one
with the axis `descendant-or-self` written in front of it.

## Main definitions

* `Segment.Valid`, `LocationPath.ValidBehind`, `LocationPath.Valid` — paths that can be written
* `LocationPath.fromAnywhere` — the path whose first step goes along `descendant-or-self`

## Main results

* `LocationPath.valid_toExpr_behind_here`, `LocationPath.Valid.valid_fromAnywhere` — such paths are
  valid expressions
* `LocationPath.Valid.join_behind`, `LocationPath.Valid.joinSibling_behind`,
  `LocationPath.ValidBehind.addPosition`, … — the operations on paths keep them so
-/

namespace SelectorPath.XPath

open Grammar (pathLevel)

/-! ### Several conditions as one -/

/-- Expressions that bind more tightly than an operator are joined by it from the left. -/
theorem Expr.valid_foldl {operator : Operator} (spaced : operator.isSpaced = true)
    {first : Expr} {rest : List Expr} (valid : first.Valid)
    (le : operator.standard.level ≤ first.level)
    (others : ∀ expr ∈ rest, expr.Valid ∧ operator.standard.level < expr.level) :
    (rest.foldl (.binary operator) first).Valid ∧
      operator.standard.level ≤ (rest.foldl (.binary operator) first).level := by
  induction rest generalizing first with
  | nil => exact ⟨valid, le⟩
  | cons next rest ih =>
    obtain ⟨validNext, lt⟩ := others next List.mem_cons_self
    have joined : (Expr.binary operator first next).Valid :=
      ⟨.inl spaced, valid, validNext, le, lt⟩
    exact ih joined (Nat.le_refl _) fun expr member => others expr (List.mem_cons_of_mem _ member)

/-- The text of several expressions joined by an operator. -/
theorem Expr.text_foldl (operator : Operator) (first : Expr) (rest : List Expr) :
    (rest.foldl (.binary operator) first).text =
      operator.text.intercalate ((first :: rest).map Expr.text) := by
  induction rest generalizing first with
  | nil => simp
  | cons next rest ih =>
    rw [List.foldl_cons, ih]
    simp [Expr.text, String.append_assoc]

/-- In parentheses, expressions are joined by any operator that binds less tightly than those. -/
theorem Expr.Joined.valid {operator : Operator} {exprs : List Expr} {condition : Expr}
    (joined : Joined operator exprs condition) (spaced : operator.isSpaced = true)
    (loose : operator.standard.level < pathLevel) (all : ∀ expr ∈ exprs, expr.Valid) :
    condition.Valid := by
  cases joined with
  | single => exact all _ List.mem_cons_self
  | @groups first _ _ =>
    have head : (Expr.group first).Valid := all first List.mem_cons_self
    refine (valid_foldl spaced head (Nat.le_of_lt loose) fun expr inside => ?_).1
    obtain ⟨inner, other, rfl⟩ := List.mem_map.mp inside
    exact ⟨all inner (List.mem_cons_of_mem _ other), loose⟩

theorem Expr.valid_conjunction {exprs : List Expr} (all : ∀ expr ∈ exprs, expr.Valid) :
    ∀ condition ∈ conjunction? exprs, condition.Valid :=
  fun _ member => (joined_of_joinGroups? member).valid rfl (by decide) all

theorem Expr.valid_disjunction {exprs : List Expr} (all : ∀ expr ∈ exprs, expr.Valid) :
    ∀ condition ∈ disjunction? exprs, condition.Valid :=
  fun _ member => (joined_of_joinGroups? member).valid rfl (by decide) all

/-! ### Node tests -/

theorem IsNodeTest.star : IsNodeTest "*" := .inl rfl

theorem IsNodeTest.of_qualified {name : String} (plain : isPlainQName name = true) :
    IsNodeTest name :=
  .inr (.inl plain)

theorem IsNodeTest.of_plain {name : String} (plain : isPlainName name = true) :
    IsNodeTest name :=
  .of_qualified (isPlainQNameChars_of_isPlainNameChars plain)

/-- Two plain names with a colon between them. -/
theorem IsNodeTest.of_pair {first second : String} (plain : isPlainName first = true)
    (also : isPlainName second = true) : IsNodeTest (first ++ ":" ++ second) :=
  .of_qualified (isPlainQName_iff.mpr (.inr ⟨first, second, plain, also, rfl⟩))

/-! ### Paths -/

theorem allValid_predicates {condition : Option Expr}
    (valid : ∀ expr ∈ condition, expr.Valid) : Expr.AllValid (predicates condition) := by
  cases condition with
  | none => trivial
  | some expr => exact ⟨valid expr rfl, trivial⟩

/-- A segment that can be written between two steps. -/
structure Segment.Valid (segment : Segment) : Prop where
  test : IsNodeTest segment.test
  condition : ∀ condition ∈ segment.condition, condition.Valid
  link : ∀ text, segment.link ≠ .verbatim text

namespace LocationPath

/-- The path starts with the segments `lead`, and what follows them can be written. -/
structure ValidBehind (lead : List Segment) (path : LocationPath) : Prop where
  segments : ∃ rest, path.segments = lead ++ rest ∧ ∀ segment ∈ rest, segment.Valid
  test : IsNodeTest path.test
  conditions : ∀ condition ∈ path.conditions, condition.Valid

/-- The path can be written. -/
abbrev Valid (path : LocationPath) : Prop := path.ValidBehind []

section Build

variable {lead : List Segment} {path : LocationPath}

theorem ValidBehind.condition (valid : path.ValidBehind lead) :
    ∀ condition ∈ path.condition?, condition.Valid :=
  Expr.valid_conjunction valid.conditions

theorem valid_ofTest {test : String} (valid : IsNodeTest test) : (ofTest test).Valid where
  segments := ⟨[], rfl, by simp⟩
  test := valid
  conditions := by simp [ofTest]

/-- The name that the last step was made with is a node test if it is used at all. -/
theorem isNodeTest_of_namedType? {type : String} (named : path.namedType? = some type) :
    IsNodeTest type := by
  rw [namedType?, Option.filter_eq_some_iff] at named
  exact .of_qualified named.2

theorem ValidBehind.addCondition (valid : path.ValidBehind lead) {condition : Expr}
    (also : condition.Valid) : (path.addCondition condition).ValidBehind lead where
  segments := valid.segments
  test := valid.test
  conditions := by
    intro other member
    rcases List.mem_append.mp member with before | last
    · exact valid.conditions other before
    · rwa [List.mem_singleton.mp last]

theorem ValidBehind.addAlternatives (valid : path.ValidBehind lead) {alternatives : List Expr}
    (all : ∀ expr ∈ alternatives, expr.Valid) :
    (path.addAlternatives alternatives).ValidBehind lead := by
  unfold LocationPath.addAlternatives
  split
  · exact valid
  · rename_i condition some
    exact valid.addCondition (Expr.valid_disjunction all condition some)

theorem ValidBehind.predicates (valid : path.ValidBehind lead) :
    Expr.AllValid (predicates path.condition?) :=
  allValid_predicates valid.condition

theorem ValidBehind.siblings (valid : path.ValidBehind lead) : path.siblings.Valid :=
  ⟨rfl, trivial, valid.test, valid.predicates⟩

theorem ValidBehind.membership (valid : path.ValidBehind lead) : path.membership.Valid := by
  have siblings := valid.siblings
  have union : (Expr.binary .union .self path.siblings).Valid :=
    ⟨.inl rfl, trivial, siblings, by decide, (by decide : (7 : Nat) < 8)⟩
  exact ⟨.inl rfl, ⟨union, trivial⟩, ⟨siblings, trivial⟩,
    (by decide : (2 : Nat) ≤ 8), (by decide : (2 : Nat) < 8)⟩

theorem valid_nameIs (name : String) : (Expr.nameIs name).Valid :=
  ⟨.inl rfl, trivial, trivial, (by decide : (2 : Nat) ≤ 8), (by decide : (2 : Nat) < 8)⟩

theorem ValidBehind.addNameTest (valid : path.ValidBehind lead) :
    path.addNameTest.ValidBehind lead := by
  unfold LocationPath.addNameTest
  split
  · exact valid
  split
  · exact ⟨valid.segments, .star, by simpa using valid.membership⟩
  · refine ⟨valid.segments, .star, (valid.addCondition (valid_nameIs path.test)).conditions⟩

theorem valid_star : Segment.star.Valid where
  test := .star
  condition := by simp [Segment.star]
  link := by simp [Segment.star]

theorem ValidBehind.addStar (valid : path.ValidBehind lead) : path.addStar.ValidBehind lead := by
  unfold LocationPath.addStar
  split
  · exact valid
  · obtain ⟨rest, split, all⟩ := valid.segments
    refine ⟨⟨rest ++ [.star], by simp [split], ?_⟩, valid.test, valid.conditions⟩
    intro segment member
    rcases List.mem_append.mp member with before | last
    · exact all segment before
    · rw [List.mem_singleton.mp last]
      exact valid_star

theorem ValidBehind.addPosition (valid : path.ValidBehind lead) {condition : Option Expr}
    (also : ∀ expr ∈ condition, expr.Valid) : (path.addPosition condition).ValidBehind lead := by
  cases condition with
  | none => exact valid.addStar
  | some condition => exact valid.addStar.addCondition (also condition rfl)

theorem ValidBehind.addPositionAmong (valid : path.ValidBehind lead) {type : String}
    (test : IsNodeTest type) {condition : Option Expr} (also : ∀ expr ∈ condition, expr.Valid) :
    (path.addPositionAmong type condition).ValidBehind lead := by
  cases condition with
  | none => exact valid.addStar
  | some condition =>
    have here := also condition rfl
    unfold LocationPath.addPositionAmong
    simp only
    split
    · exact valid.addStar.addCondition ((valid_ofTest test).addCondition here).membership
    · exact valid.addStar.addCondition here

/-! ### Joined paths -/

theorem Valid.joinedSegments {other : LocationPath} (valid : other.Valid) :
    ∀ segment ∈ other.joinedSegments, segment.Valid := by
  obtain ⟨rest, split, all⟩ := valid.segments
  rw [List.nil_append] at split
  unfold LocationPath.joinedSegments
  rw [split]
  intro segment member
  split at member
  · simp at member
  · exact all segment member

/-- Behind any path, a valid one that is linked to it can be written. -/
theorem Valid.join_behind {other : LocationPath} (valid : other.Valid) (path : LocationPath)
    (link : Link) :
    (path.join link other).ValidBehind (path.segments ++ [⟨path.test, path.condition?, link⟩]) where
  segments := ⟨other.joinedSegments, by simp [join], valid.joinedSegments⟩
  test := valid.test
  conditions := valid.conditions

/-- Behind any path, later siblings that a valid one selects can be written. -/
theorem Valid.joinSibling_behind {other : LocationPath} (valid : other.Valid)
    (path : LocationPath) (adjacent : Bool) :
    (path.joinSibling other adjacent).ValidBehind
      (path.segments ++ [⟨path.test, path.condition?, .followingSibling⟩]) := by
  have first : isFirst.Valid :=
    ⟨.inl rfl, trivial, trivial, (by decide : (2 : Nat) ≤ 8), (by decide : (2 : Nat) < 8)⟩
  unfold LocationPath.joinSibling
  split
  · have joined := (valid_ofTest .star).join_behind path .followingSibling
    cases adjacent with
    | false => exact joined.addCondition valid.membership
    | true => exact (joined.addCondition first).addCondition valid.membership
  · have joined := valid.join_behind path .followingSibling
    cases adjacent with
    | false => exact joined
    | true => exact joined.addNameTest.addCondition first

/-- Leading segments that are valid themselves need not be set apart, nor the last step of a path
that was linked to what follows. -/
theorem ValidBehind.extend (valid : path.ValidBehind lead) {joined : LocationPath} {link : Link}
    (plain : ∀ text, link ≠ .verbatim text)
    (behind : joined.ValidBehind (path.segments ++ [⟨path.test, path.condition?, link⟩])) :
    joined.ValidBehind lead := by
  obtain ⟨before, split, all⟩ := valid.segments
  obtain ⟨rest, splitJoined, allRest⟩ := behind.segments
  refine ⟨⟨before ++ ⟨path.test, path.condition?, link⟩ :: rest, by simp [splitJoined, split], ?_⟩,
    behind.test, behind.conditions⟩
  intro segment member
  rcases List.mem_append.mp member with early | late
  · exact all segment early
  rcases List.mem_cons.mp late with rfl | late
  · exact ⟨valid.test, valid.condition, plain⟩
  · exact allRest segment late

end Build

/-! ### Paths as expressions -/

/-- What a step is linked to is a path itself. -/
def ValidBase (base : Option (Expr × Link)) : Prop :=
  ∀ expr link, base = some (expr, link) →
    expr.Valid ∧ expr.isPath = true ∧ ∀ text, link ≠ .verbatim text

theorem valid_stepExpr {base : Option (Expr × Link)} (valid : ValidBase base) {test : String}
    (tests : IsNodeTest test) {condition : Option Expr}
    (all : Expr.AllValid (predicates condition)) :
    (stepExpr base test condition).Valid ∧ (stepExpr base test condition).isPath = true := by
  unfold stepExpr
  split
  · split
    · exact ⟨trivial, rfl⟩
    · exact ⟨⟨tests, all⟩, rfl⟩
  all_goals rename_i expr _
  · obtain ⟨validExpr, isPath, _⟩ := valid _ _ rfl
    exact ⟨⟨isPath, validExpr, tests, all⟩, rfl⟩
  · obtain ⟨validExpr, isPath, _⟩ := valid _ _ rfl
    exact ⟨⟨rfl, ⟨isPath, validExpr, .star, trivial⟩, tests, all⟩, rfl⟩
  · obtain ⟨validExpr, isPath, _⟩ := valid _ _ rfl
    exact ⟨⟨isPath, validExpr, tests, all⟩, rfl⟩
  · exact absurd rfl ((valid _ _ rfl).2.2 _)

theorem valid_exprFrom {base : Option (Expr × Link)} (valid : ValidBase base)
    {segments : List Segment} (steps : ∀ segment ∈ segments, segment.Valid) {test : String}
    (tests : IsNodeTest test) {condition : Option Expr}
    (last : ∀ expr ∈ condition, expr.Valid) :
    (exprFrom base segments test condition).Valid ∧
      (exprFrom base segments test condition).isPath = true := by
  induction segments generalizing base with
  | nil => exact valid_stepExpr valid tests (allValid_predicates last)
  | cons segment rest ih =>
    have here := steps segment List.mem_cons_self
    obtain ⟨validStep, isPath⟩ :=
      valid_stepExpr valid here.test (allValid_predicates here.condition)
    refine ih ?_ fun other member => steps other (List.mem_cons_of_mem _ member)
    rintro expr link ⟨⟩
    exact ⟨validStep, isPath, here.link⟩

/-- A path behind the context node, to which a first link leads, is a valid expression. -/
theorem valid_toExpr_behind_here {path : LocationPath} {link : Link}
    (plain : ∀ text, link ≠ .verbatim text) (valid : path.ValidBehind [⟨".", none, link⟩]) :
    path.toExpr.Valid := by
  obtain ⟨rest, split, all⟩ := valid.segments
  have base : ValidBase (some (.self, link)) := by
    rintro expr other ⟨⟩
    exact ⟨trivial, rfl, plain⟩
  have expr : path.toExpr = exprFrom (some (.self, link)) rest path.test path.condition? := by
    rw [toExpr, split]
    rfl
  rw [expr]
  exact (valid_exprFrom base all valid.test valid.condition).1

/-- The first step of a path along the axis `descendant-or-self`. -/
def anywhere (test : String) (condition : Option Expr) : Expr :=
  .step (.named .descendantOrSelf) test (predicates condition)

/-- The path with its first step along the axis `descendant-or-self`. -/
def fromAnywhere (path : LocationPath) : Expr :=
  match path.segments with
  | [] => anywhere path.test path.condition?
  | first :: rest =>
    exprFrom (some (anywhere first.test first.condition, first.link)) rest path.test
      path.condition?

theorem text_anywhere (test : String) (condition : Option Expr) :
    (anywhere test condition).text = "descendant-or-self::" ++ stepText test condition := by
  have axis : (AxisSpecifier.named .descendantOrSelf).text = "descendant-or-self::" := by
    decide +kernel
  simp [anywhere, Expr.text, axis, stepText, String.append_assoc]

/-- The text in front of a path is the axis of its first step. -/
theorem text_fromAnywhere (path : LocationPath) :
    path.fromAnywhere.text = "descendant-or-self::" ++ path.text := by
  unfold fromAnywhere
  split
  · rename_i none
    simp [text_anywhere, text, none, segmentsText]
  · rename_i first rest split
    simp [text_exprFrom, baseText, text_anywhere, text, split, segmentsText, Segment.text,
      String.append_assoc]

/-- A path that can be written is valid with that axis too, and ends in a step. -/
theorem Valid.valid_fromAnywhere {path : LocationPath} (valid : path.Valid) :
    path.fromAnywhere.Valid ∧ path.fromAnywhere.isPath = true := by
  obtain ⟨segments, split, all⟩ := valid.segments
  rw [List.nil_append] at split
  unfold fromAnywhere
  split
  · exact ⟨⟨valid.test, valid.predicates⟩, rfl⟩
  · rename_i first rest cons
    rw [← split, cons] at all
    have here := all first List.mem_cons_self
    refine valid_exprFrom ?_ (fun other member => all other (List.mem_cons_of_mem _ member))
      valid.test valid.condition
    rintro expr link ⟨⟩
    exact ⟨⟨here.test, allValid_predicates here.condition⟩, rfl, here.link⟩

end LocationPath

end SelectorPath.XPath
