/-!
# Arithmetic series of positions

The argument of `:nth-child()` and its relatives denotes the positions `a * k + b` for `k ≥ 0`,
counted from one. `Series.Reaches` says so directly; `Series.contains` decides it with one division.

## Main definitions

* `Series` — the coefficients `a` and `b`
* `Series.Reaches` — some `k ≥ 0` reaches the position
* `Series.contains` — membership, decided in 64-bit arithmetic
-/

namespace SelectorPath

/-- The coefficients of `an+b`. -/
structure Series where
  a : Int32
  b : Int32
  deriving DecidableEq, Repr

namespace Series

/-- The odd positions, `2n+1`. -/
def odd : Series := ⟨2, 1⟩

/-- The even positions, `2n`. -/
def even : Series := ⟨2, 0⟩

/-- The single position `b`. -/
def index (b : Int32) : Series := ⟨0, b⟩

/-- Some step of the series reaches `position`. -/
def Reaches (series : Series) (position : Int) : Prop :=
  ∃ k : Nat, series.a.toInt * k + series.b.toInt = position

/-- Whether `position` is a position, that is at least one, and a member of the series. The
difference of two 32-bit numbers needs more than 32 bits, so the arithmetic has 64. -/
def contains (series : Series) (position : Int32) : Bool :=
  if position < 1 then false
  else
    let difference := position.toInt64 - series.b.toInt64
    if series.a = 0 then difference == 0
    else difference % series.a.toInt64 == 0 && 0 ≤ difference / series.a.toInt64

/-- Nothing before the first position is a member. -/
theorem contains_eq_false_of_lt_one (series : Series) {position : Int32} (h : position < 1) :
    series.contains position = false := by
  simp [contains, h]

end Series

end SelectorPath
