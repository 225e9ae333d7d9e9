import SelectorPath.Selector.Basic

/-!
# Specificity

The specificity of a selector counts its ids, its classes with all that weighs like a class, and its
type selectors, and is ordered with the ids first. The arguments of `:not()` and `:has()` count as
if they stood outside, of those of `:is()` the greatest does, and those of `:where()` count nothing.

## Main definitions

* `Specificity`, with `+` and the lexicographic `Specificity.max`
* `Selector.Tree.specificity`, `Selector.specificity`
-/

namespace SelectorPath

/-- Counts of ids, of classes and of type selectors. -/
structure Specificity where
  ids : UInt32
  classes : UInt32
  elements : UInt32
  deriving DecidableEq, Repr

namespace Specificity

/-- The specificity of nothing. -/
def zero : Specificity := ⟨0, 0, 0⟩

/-- The counts of two selectors taken together. -/
def add (s t : Specificity) : Specificity :=
  ⟨s.ids + t.ids, s.classes + t.classes, s.elements + t.elements⟩

instance : Add Specificity := ⟨add⟩

theorem add_def (s t : Specificity) :
    s + t = ⟨s.ids + t.ids, s.classes + t.classes, s.elements + t.elements⟩ := rfl

/-- Fewer ids; or as many ids and fewer classes; or as many of both and fewer type selectors. -/
def Less (s t : Specificity) : Prop :=
  s.ids < t.ids ∨ s.ids = t.ids ∧
    (s.classes < t.classes ∨ s.classes = t.classes ∧ s.elements < t.elements)

instance (s t : Specificity) : Decidable (Less s t) :=
  inferInstanceAs (Decidable (_ ∨ _ ∧ (_ ∨ _ ∧ _)))

/-- The greater of two. -/
def max (s t : Specificity) : Specificity := if Less s t then t else s

end Specificity

namespace Selector

/-- An id counts as such, every other simple selector as a class. -/
def Simple.specificity : Simple → Specificity
  | .id _ => ⟨1, 0, 0⟩
  | _ => ⟨0, 1, 0⟩

mutual

/-- The specificity of a tree. -/
def Tree.specificity : Tree → Specificity
  | .element _ name => ⟨0, 0, if name.isSome then 1 else 0⟩
  | .restricted base simple => base.specificity + simple.specificity
  | .negation base argument => base.specificity + argument.specificity
  | .anyOf .matchesAny base arguments => base.specificity + Tree.greatest arguments
  | .anyOf .specificityAdjustment base _ => base.specificity
  | .relation base _ argument => base.specificity + argument.specificity
  | .combined left _ right => left.specificity + right.specificity

/-- The greatest specificity among some trees, zero if there are none. -/
def Tree.greatest : List Tree → Specificity
  | [] => .zero
  | tree :: rest => tree.specificity.max (Tree.greatest rest)

end

end Selector

/-- The specificity of a selector; a pseudo-element counts as a type selector. -/
def Selector.specificity (selector : Selector) : Specificity :=
  if selector.pseudoElement.isSome then selector.tree.specificity + ⟨0, 0, 1⟩
  else selector.tree.specificity

end SelectorPath
