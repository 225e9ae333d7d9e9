import SelectorPath.Series.Basic
import SelectorPath.XPath.Expr

/-!
# Conditions on positions

A series of positions becomes at most two conditions on `position()`: a remainder, unless the step
of the series is one, and a bound on the side where the series starts, unless every position is
beyond it. Counted from the end, the position `q` is `last() + 1 - position()`, so the members of
`an+b` are the positions `last() + 1 - b - an`: the same series with its step turned round and
starting from `last() + 1 - b`.

## Main definitions

* `Direction` — which end positions are counted from
* `Series.conditions` — the conditions that together say that the position is a member of a series
* `Series.condition?` — the same as one condition, if there is any
-/

namespace SelectorPath

open XPath

/-- The end that positions are counted from. -/
inductive Direction
  | fromStart
  | fromEnd
  deriving DecidableEq, Repr

namespace Condition

/-- The position of the context node. -/
def position : Expr := .call .position []

/-- The position of the last node. -/
def lastPosition : Expr := .call .last []

/-- The position `last() + 1 - b` in its shortest form. -/
def fromLast (b : Int) : Expr :=
  if b = 1 then lastPosition
  else if b < 1 then .binary (.plus .both) lastPosition (.integer (1 - b))
  else .binary (.minus .both) lastPosition (.integer (b - 1))

/-- The difference `expr - n`, written as a sign and a number behind a blank. -/
def minusNumber (expr : Expr) (n : Int) : Expr :=
  if 0 < n then .binary (.minus .before) expr (.integer n)
  else .binary (.plus .before) expr (.integer (-n))

end Condition

open Condition

namespace Direction

/-- Where a series starts, as a position from the start. -/
def anchor (direction : Direction) (b : Int) : Expr :=
  match direction with
  | .fromStart => .integer b
  | .fromEnd => fromLast b

/-- How far the position is from the start of the series. -/
def distance (direction : Direction) (b : Int) : Expr :=
  match direction with
  | .fromStart => minusNumber position b
  -- `position() - (last() + 1 - b)`, with the two numbers put together
  | .fromEnd => minusNumber (.binary (.minus .both) position lastPosition) (1 - b)

/-- The step of a series in positions from the start. -/
def step (direction : Direction) (a : Int) : Int :=
  match direction with
  | .fromStart => a
  | .fromEnd => -a

/-- The position is the start of the series. -/
def isAnchor (direction : Direction) (b : Int) : Expr :=
  .binary .equal position (direction.anchor b)

/-- The distance from the start of the series is a multiple of the step. -/
def remainder (direction : Direction) (step b : Int) : Expr :=
  .binary .equal
    (.binary .modulo (.group (direction.distance b)) (.integer step.natAbs)) (.integer 0)

/-- The position is not before the start of the series, seen in the direction of its step. -/
def bound (direction : Direction) (step b : Int) : Expr :=
  .binary (if 0 < step then .atLeast else .atMost) position (direction.anchor b)

/-- Every position is on the right side of the start: the series starts at the end that positions
are counted from, or beyond it, and leads away from that end. -/
def isBoundRedundant (direction : Direction) (step b : Int) : Bool :=
  b ≤ 1 && (direction == .fromEnd) == decide (step < 0)

end Direction

namespace Series

/-- The conditions that together say that the position is a member of the series. -/
def conditions (series : Series) (direction : Direction) : List Expr :=
  let b := series.b.toInt
  if series.a = 0 then [direction.isAnchor b]
  else
    let step := direction.step series.a.toInt
    (if step.natAbs = 1 then [] else [direction.remainder step b]) ++
      (if direction.isBoundRedundant step b then [] else [direction.bound step b])

/-- The conditions of a series as one; none if every position is a member. -/
def condition? (series : Series) (direction : Direction) : Option Expr :=
  Expr.join? .and (series.conditions direction)

end Series

end SelectorPath
