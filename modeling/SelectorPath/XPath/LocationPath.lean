import SelectorPath.XPath.Expr
import SelectorPath.XPath.Name

/-!
# Location paths under construction

A path is built from left to right: the steps before, then the last step with its node test and the
conditions on it. All conditions go into one predicate. In a predicate of its own, `position()`
would count the nodes that the predicates before it leave; in one predicate it counts the nodes of
the axis that pass the node test, whatever the other conditions are.

A condition about positions counts children of one parent, so the step it stands on is reached over
the child axis: `*` goes in front of it, and the path is `starred`. Where such a step cannot be
written behind another axis, its conditions become a `membership` test, which asks whether the node
is among the children of its parent that the step selects.

## Main definitions

* `Link`, `Segment`, `LocationPath`
* `LocationPath.ofTest` and the operations `addCondition`, `addAlternatives`, `addNameTest`,
  `addStar`, `addPosition`, `addPositionAmong`, `join`, `joinSibling`
* `LocationPath.condition?`, `LocationPath.membership`, `LocationPath.namedType?`
* `LocationPath.text`, `LocationPath.toExpr`

## Main results

* `LocationPath.text_toExpr` — a path and the expression made from it have one text
* `LocationPath.text_join` — a join puts the link between the two texts
-/

namespace SelectorPath.XPath

/-- What stands between two steps. -/
inductive Link
  | /-- The next step selects children. -/
    child
  | /-- The next step selects descendants. -/
    descendant
  | /-- The next step selects later siblings. -/
    followingSibling
  | /-- A given text. -/
    verbatim (text : String)
  deriving DecidableEq, Repr

/-- The text of a link. -/
def Link.text : Link → String
  | .child => "/"
  | .descendant => "/descendant-or-self::*/"
  | .followingSibling => "/following-sibling::"
  | .verbatim text => text

/-- A step that another one follows. -/
structure Segment where
  test : String
  condition : Option Expr
  link : Link

/-- The predicate that holds a condition. -/
def predicates : Option Expr → List Expr
  | none => []
  | some condition => [condition]

/-- The text of a node test with its condition. -/
def stepText (test : String) (condition : Option Expr) : String :=
  test ++ Expr.predicatesText (predicates condition)

/-- The text of a step and of the link behind it. -/
def Segment.text (segment : Segment) : String :=
  stepText segment.test segment.condition ++ segment.link.text

/-- A step `*` that a child step follows. -/
def Segment.star : Segment := ⟨"*", none, .child⟩

/-- The text of several segments. -/
def segmentsText : List Segment → String
  | [] => ""
  | segment :: rest => segment.text ++ segmentsText rest

theorem segmentsText_append (before after : List Segment) :
    segmentsText (before ++ after) = segmentsText before ++ segmentsText after := by
  induction before with
  | nil => simp [segmentsText]
  | cons segment rest ih => simp [segmentsText, ih, String.append_assoc]

@[simp] theorem segmentsText_star : segmentsText [.star] = "*/" := by decide +kernel

/-- A location path: the steps before the last, and the last step. -/
structure LocationPath where
  segments : List Segment
  /-- The node test of the last step. -/
  test : String
  /-- The conditions on the last step, which hold together. -/
  conditions : List Expr
  /-- The last step is reached over the child axis from a step `*` made for that. -/
  starred : Bool
  /-- The name that the last step was made with, kept when a condition takes its place. -/
  typeName : Option String

namespace LocationPath

/-- The path of one step without conditions. -/
def ofTest (test : String) : LocationPath :=
  ⟨[], test, [], false, if test = "*" then none else some test⟩

/-- The path to the context node. -/
def here : LocationPath := ofTest "."

/-- The last step admits every element. -/
def isWildcard (path : LocationPath) : Bool := path.test == "*"

/-- The name that the last step was made with, if it can be written as a node test. -/
def namedType? (path : LocationPath) : Option String := path.typeName.filter isPlainQName

/-- The condition in the predicate of the last step; none if there are no conditions. -/
def condition? (path : LocationPath) : Option Expr := Expr.conjunction? path.conditions

/-- The text of the path. -/
def text (path : LocationPath) : String :=
  segmentsText path.segments ++ stepText path.test path.condition?

/-! ### Conditions -/

/-- The path with one more condition on the last step. -/
def addCondition (path : LocationPath) (condition : Expr) : LocationPath :=
  { path with conditions := path.conditions ++ [condition] }

/-- The path with the condition that one of several holds; no alternatives add none. -/
def addAlternatives (path : LocationPath) (alternatives : List Expr) : LocationPath :=
  match Expr.disjunction? alternatives with
  | none => path
  | some condition => path.addCondition condition

/-- The children of the parent that the last step selects. -/
def siblings (path : LocationPath) : Expr :=
  .slash .parent .child path.test (predicates path.condition?)

/-- The test that the node is one of `siblings`: adding it to them does not make them more. -/
def membership (path : LocationPath) : Expr :=
  .binary .equal (.call .count [.binary .union .self path.siblings])
    (.call .count [path.siblings])

/-- The path whose last step admits every element and asks for the name in a condition. Positions
count elements of that name only, so behind a star all conditions become one `membership` test
instead. -/
def addNameTest (path : LocationPath) : LocationPath :=
  if path.isWildcard then path
  else if path.starred && !path.conditions.isEmpty then
    { path with test := "*", conditions := [path.membership] }
  else { path with test := "*", conditions := path.conditions ++ [.nameIs path.test] }

/-- The path whose last step is a child step behind `*`. -/
def addStar (path : LocationPath) : LocationPath :=
  if path.starred then path
  else { path with segments := path.segments ++ [.star], starred := true }

theorem starred_addStar (path : LocationPath) : path.addStar.starred = true := by
  unfold addStar
  split
  · assumption
  · rfl

/-- The path restricted by a condition on positions among all children of the parent, if there is
one. -/
def addPosition (path : LocationPath) (condition : Option Expr) : LocationPath :=
  match condition with
  | none => path.addStar
  | some condition => path.addStar.addCondition condition

theorem starred_addPosition (path : LocationPath) (condition : Option Expr) :
    (path.addPosition condition).starred = true := by
  cases condition <;> exact path.starred_addStar

/-- The path restricted by a condition on positions among the children of one type, if there is
one. Once the last step admits every element, positions count all of them, and those of the type are
counted through the parent. -/
def addPositionAmong (path : LocationPath) (type : String) (condition : Option Expr) :
    LocationPath :=
  match condition with
  | none => path.addStar
  | some condition =>
    if path.isWildcard then
      path.addStar.addCondition ((ofTest type).addCondition condition).membership
    else path.addStar.addCondition condition

theorem starred_addPositionAmong (path : LocationPath) (type : String) (condition : Option Expr) :
    (path.addPositionAmong type condition).starred = true := by
  cases condition with
  | none => exact path.starred_addStar
  | some condition =>
    rw [addPositionAmong]
    split <;> exact path.starred_addStar

/-! ### Joining paths -/

/-- The steps of `other` that stand behind a link. A single `*` that a child step follows is left
out, because a link leads to a child step itself. -/
def joinedSegments (other : LocationPath) : List Segment :=
  if segmentsText other.segments = "*/" then [] else other.segments

/-- The path that goes on with `other` behind a link. -/
def join (path : LocationPath) (link : Link) (other : LocationPath) : LocationPath :=
  { other with
    segments := path.segments ++ ⟨path.test, path.condition?, link⟩ :: other.joinedSegments }

/-- The condition that a node is the first one of its step. -/
def isFirst : Expr := .binary .equal (.call .position []) (.integer 1)

/-- The path that goes on with later siblings that `other` selects, or with the very next one.
Positions in `other` count children and not later siblings, so behind a star `other` becomes a
`membership` test. The next sibling is the first of any name, so the name must be a condition. -/
def joinSibling (path other : LocationPath) (adjacent : Bool) : LocationPath :=
  if other.starred then
    -- the sibling axis admits every element, and the test picks those that `other` selects
    let joined := path.join .followingSibling (ofTest "*")
    (if adjacent then joined.addCondition isFirst else joined).addCondition other.membership
  else
    let joined := path.join .followingSibling other
    if adjacent then joined.addNameTest.addCondition isFirst else joined

/-! ### Paths as expressions -/

/-- A step that the nodes of `base` are linked to, or the first step of a path. -/
def stepExpr (base : Option (Expr × Link)) (test : String) (condition : Option Expr) : Expr :=
  match base with
  | none =>
    if test = "." ∧ condition.isNone then .self else .step .child test (predicates condition)
  | some (base, .child) => .slash base .child test (predicates condition)
  | some (base, .descendant) =>
    .slash (.slash base (.named .descendantOrSelf) "*" []) .child test (predicates condition)
  | some (base, .followingSibling) =>
    .slash base (.named .followingSibling) test (predicates condition)
  | some (base, .verbatim link) => .verbatim (base.text ++ link ++ stepText test condition)

/-- The expression of the steps behind `base`, the last of them with the given test and
condition. -/
def exprFrom (base : Option (Expr × Link)) (segments : List Segment) (test : String)
    (condition : Option Expr) : Expr :=
  match segments with
  | [] => stepExpr base test condition
  | segment :: rest =>
    exprFrom (some (stepExpr base segment.test segment.condition, segment.link)) rest test
      condition

/-- The path as an expression inside a predicate. -/
def toExpr (path : LocationPath) : Expr :=
  exprFrom none path.segments path.test path.condition?

/-- The text in front of a step. -/
def baseText : Option (Expr × Link) → String
  | none => ""
  | some (base, link) => base.text ++ link.text

theorem text_stepExpr (base : Option (Expr × Link)) (test : String) (condition : Option Expr) :
    (stepExpr base test condition).text = baseText base ++ stepText test condition := by
  unfold stepExpr
  split
  · split
    · rename_i h
      obtain ⟨rfl, hnone⟩ := h
      cases condition with
      | none => simp [Expr.text, baseText, stepText, predicates, Expr.predicatesText]
      | some condition => simp at hnone
    · simp [Expr.text, baseText, stepText, AxisSpecifier.text]
  · simp [Expr.text, baseText, stepText, AxisSpecifier.text, Link.text, String.append_assoc]
  · have h : "/" ++ ("descendant-or-self::" ++ ("*" ++ "/")) = "/descendant-or-self::*/" := by
      decide +kernel
    simp [Expr.text, Expr.predicatesText, baseText, stepText, AxisSpecifier.text, Axis.text,
      Link.text, ← h, String.append_assoc]
  · have h : "/" ++ "following-sibling::" = "/following-sibling::" := by decide +kernel
    simp [Expr.text, baseText, stepText, AxisSpecifier.text, Axis.text, Link.text, ← h,
      String.append_assoc]
  · simp [Expr.text, baseText, Link.text, String.append_assoc]

theorem text_exprFrom (base : Option (Expr × Link)) (segments : List Segment) (test : String)
    (condition : Option Expr) :
    (exprFrom base segments test condition).text =
      baseText base ++ segmentsText segments ++ stepText test condition := by
  induction segments generalizing base with
  | nil => simp [exprFrom, text_stepExpr, segmentsText]
  | cons segment rest ih =>
    simp [exprFrom, ih, baseText, text_stepExpr, segmentsText, Segment.text, String.append_assoc]

/-- A path and the expression made from it have one text. -/
@[simp] theorem text_toExpr (path : LocationPath) : path.toExpr.text = path.text := by
  simp [toExpr, text_exprFrom, baseText, text]

/-- A join puts the link between the two texts, but for a star that the link makes up for. -/
theorem text_join (path : LocationPath) (link : Link) (other : LocationPath) :
    (path.join link other).text =
      path.text ++ link.text ++
        (if segmentsText other.segments = "*/" then stepText other.test other.condition?
          else other.text) := by
  simp only [join, text, joinedSegments, segmentsText_append, segmentsText, Segment.text,
    condition?]
  split <;> simp [segmentsText, String.append_assoc]

@[simp] theorem text_ofTest (test : String) : (ofTest test).text = test := by
  simp [ofTest, text, condition?, stepText, predicates, segmentsText,
    Expr.predicatesText]

end LocationPath

end SelectorPath.XPath
