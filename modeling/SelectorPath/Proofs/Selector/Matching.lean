import SelectorPath.Condition.FunctionalClass
import SelectorPath.Proofs.Condition.Operators
import SelectorPath.Proofs.Condition.Positions

/-!
# What selectors match

The elements of a document that a selector matches, said directly on its tree. A compound is matched
by an element alone, a combinator relates two elements, and the argument of `:has()` is matched from
the element that is restricted. Positions are counted among the child elements of an element, so the
root element has none. Names and values are compared as they stand, and nothing has a namespace.

No meaning is given to pseudo-classes without arguments and to functions that do not count; those
match nothing here.

A compound alone can be matched under any options, and with the children of any node counted, so
that the root element is the first child. What its path asks for differs from that at words: one
that holds a blank of Unicode, and none of the grammar, is given up, and then the compound fits
nothing.

## Main definitions

* `Combinator.Relates` — how two elements lie to each other
* `Document.IsNth`, `Document.IsNthBelow` — an element is a member of a series
* `Selector.Tree.Matches` — an element is matched
* `Selector.Tree.IsPlain` — types with a plain name or none, classes, ids, attributes without
  namespace and calls that count, joined by combinators
* `Selector.Tree.MatchesBelow`, `Selector.Tree.IsDescribable` — the same for a compound under any
  options
* `Selector.Tree.HoldsForeignWord` — some compound looks for a word that is given up
* `Selector.Tree.Fits` — what the path of a compound asks for

## Main results

* `Selector.Tree.fits_iff_matchesBelow` — a compound fits what it matches unless it holds such a
  word
* `Selector.Tree.matchesBelow_iff_matches` — below elements, and as texts stand, nothing else is
  matched
-/

namespace SelectorPath

open Text XPath

/-! ### Relations between elements -/

/-- How an element `y` lies to an element `x` on the left of a combinator. -/
def Combinator.Relates (document : Document) (combinator : Combinator) (x y : Address) : Prop :=
  match combinator with
  | .descendant => x <:+ y ∧ x ≠ y
  | .child => ∃ index, y = index :: x
  | .nextSibling => ∃ parent index later, x = index :: parent ∧ y = later :: parent ∧
      index < later ∧ ∀ between, index < between → between < later →
        ¬ document.IsElement (between :: parent)
  | .subsequentSibling => ∃ parent index later, x = index :: parent ∧ y = later :: parent ∧
      index < later

/-- The element is at a place that the series reaches, counted from an end among the child elements
of its parent that have the given name, or among all of them. The parent is an element itself. -/
def Document.IsNth (document : Document) (named : Option String) (series : Series)
    (direction : Direction) (x : Address) : Prop :=
  ∃ parent place, document.IsElement parent ∧ (document.elements named parent)[place]? = some x ∧
    series.Reaches (direction.count (place + 1) (document.elements named parent).length)

/-- The element is at a place that the series reaches below one of some nodes, counted from an end
among the child elements that have the given name, or among all of them. -/
def Document.IsNthBelow (document : Document) (above : Address → Prop) (named : Option String)
    (series : Series) (direction : Direction) (x : Address) : Prop :=
  ∃ parent place, above parent ∧ (document.elements named parent)[place]? = some x ∧
    series.Reaches (direction.count (place + 1) (document.elements named parent).length)

/-- Every node, the document itself among them. -/
abbrev AnyNode : Address → Prop := fun _ => True

/-- The name that the elements have among which an element is counted, if they must have one. -/
def Counting.type (document : Document) (counting : Counting) (x : Address) : Option String :=
  match counting with
  | .children => none
  | .sameType => document.name? x

/-- The end that a functional pseudo-class counts from, and what it counts, if it counts. -/
def FunctionalClass.counting? : FunctionalClass → Option (Direction × Counting)
  | .nthChild => some (.fromStart, .children)
  | .nthLastChild => some (.fromEnd, .children)
  | .nthOfType => some (.fromStart, .sameType)
  | .nthLastOfType => some (.fromEnd, .sameType)
  | .contains | .lang => none

/-- The call counts the elements that `counting` says from one end, as far as the series says. -/
def FunctionCall.Counts (call : FunctionCall) (direction : Direction) (counting : Counting)
    (series : Series) : Prop :=
  (∃ function, FunctionalClass.ofName? call.name = some function ∧
    function.counting? = some (direction, counting)) ∧ Series.parse call.arguments = .ok series

namespace Selector

/-- The simple selector matches an element. -/
def Simple.Matches (document : Document) (simple : Simple) (x : Address) : Prop :=
  match simple with
  | .className name => AttributeOperator.includes.Accepts name (document.value? x "class")
  | .id value => document.value? x "id" = some value
  | .attribute selector => selector.ns = none ∧
      selector.operator.Accepts (selector.operand .generic) (document.value? x selector.name)
  | .pseudoClass _ => False
  | .function call => ∃ direction counting series, call.Counts direction counting series ∧
      document.IsNth (counting.type document x) series direction x

mutual

/-- The tree matches an element. Its first compound matches an element that lies to `start` as the
combinator says, or any element if there is no start. -/
def Tree.MatchesFrom (document : Document) (start : Option (Address × Combinator)) :
    Tree → Address → Prop
  | .element ns name, x => ns = none ∧ document.hasType name x = true ∧
      ∀ y combinator, start = some (y, combinator) → combinator.Relates document y x
  | .restricted base simple, x => base.MatchesFrom document start x ∧ simple.Matches document x
  | .negation base argument, x =>
    base.MatchesFrom document start x ∧ ¬ argument.MatchesFrom document none x
  | .anyOf _ base arguments, x =>
    base.MatchesFrom document start x ∧ Tree.AnyMatches document arguments x
  | .relation base combinator argument, x =>
    base.MatchesFrom document start x ∧ ∃ y, argument.MatchesFrom document (some (x, combinator)) y
  | .combined left combinator right, x =>
    (∃ y, left.MatchesFrom document start y ∧ combinator.Relates document y x) ∧
      right.MatchesFrom document none x

/-- One of several trees matches an element. -/
def Tree.AnyMatches (document : Document) : List Tree → Address → Prop
  | [], _ => False
  | tree :: rest, x => tree.MatchesFrom document none x ∨ Tree.AnyMatches document rest x

end

/-- The tree matches an element. -/
def Tree.Matches (document : Document) (tree : Tree) (x : Address) : Prop :=
  tree.MatchesFrom document none x

/-! ### Plain selectors -/

/-- The name in the type selector of a compound. -/
def Tree.type? : Tree → Option String
  | .element _ name => name
  | .restricted base _ | .negation base _ | .anyOf _ base _ | .relation base _ _ => base.type?
  | .combined _ _ right => right.type?

/-- A class, an id, an attribute without namespace or a call that counts, of the same type only if
there is a type. Texts are spaced. -/
def Simple.IsPlain (type : Option String) : Simple → Prop
  | .className name => IsSpaced name
  | .id value => IsSpaced value
  | .attribute selector => selector.ns = none ∧ ∀ token ∈ selector.value, IsSpaced token.value
  | .pseudoClass _ => False
  | .function call => ∃ direction counting series, call.Counts direction counting series ∧
      (counting = .sameType → type.isSome)

/-- A type selector with a plain name or none, and plain simple selectors behind it. -/
def Tree.IsPlainCompound : Tree → Prop
  | .element ns name => ns = none ∧ ∀ text ∈ name, isPlainName text = true
  | .restricted base simple => base.IsPlainCompound ∧ simple.IsPlain base.type?
  | _ => False

/-- Plain compounds joined by combinators. -/
def Tree.IsPlain : Tree → Prop
  | .combined left _ right => left.IsPlain ∧ right.IsPlainCompound
  | tree => tree.IsPlainCompound

/-! ### Compounds under any options -/

/-- The simple selector matches an element. Attributes have the names that the options say, and
positions are counted below the nodes `above`. -/
def Simple.MatchesBelow (options : Options) (document : Document) (above : Address → Prop)
    (simple : Simple) (x : Address) : Prop :=
  match simple with
  | .className name =>
    AttributeOperator.includes.Accepts name (document.value? x options.classAttribute)
  | .id value => document.value? x options.idAttribute = some value
  | .attribute selector => selector.operator.Accepts (selector.operand options)
      (document.value? x (selector.attribute options))
  | .pseudoClass _ => False
  | .function call => ∃ direction counting series, call.Counts direction counting series ∧
      document.IsNthBelow above (counting.type document x) series direction x

/-- The compound matches an element. No other tree does. -/
def Tree.MatchesBelow (options : Options) (document : Document) (above : Address → Prop) :
    Tree → Address → Prop
  | .element ns name, x => ns = none ∧
      document.hasType (name.map (Options.foldCase options.lowerCaseElementNames)) x = true
  | .restricted base simple, x =>
    base.MatchesBelow options document above x ∧ simple.MatchesBelow options document above x
  | _, _ => False

/-- The simple selector looks for a word of an attribute, and the word holds a foreign blank. -/
def Simple.HoldsForeignWord (options : Options) : Simple → Prop
  | .className name => HoldsForeignBlank name
  | .attribute selector =>
    selector.operator = .includes ∧ HoldsForeignBlank (selector.operand options)
  | .id _ | .pseudoClass _ | .function _ => False

/-- A compound, or one of several joined by combinators, looks for a word that holds a foreign
blank. -/
def Tree.HoldsForeignWord (options : Options) : Tree → Prop
  | .element _ _ => False
  | .restricted base simple =>
    base.HoldsForeignWord options ∨ simple.HoldsForeignWord options
  | .negation base _ | .anyOf _ base _ | .relation base _ _ => base.HoldsForeignWord options
  | .combined left _ right => left.HoldsForeignWord options ∨ right.HoldsForeignWord options

/-- The simple selector fits an element: it matches, with the words of XPath in the place of those
of the grammar. -/
def Simple.Fits (options : Options) (document : Document) (above : Address → Prop) (simple : Simple)
    (x : Address) : Prop :=
  match simple with
  | .className name =>
    AttributeOperator.includes.Admits name (document.value? x options.classAttribute)
  | .attribute selector => selector.operator.Admits (selector.operand options)
      (document.value? x (selector.attribute options))
  | other => other.MatchesBelow options document above x

/-- The compound fits an element. No other tree does. -/
def Tree.Fits (options : Options) (document : Document) (above : Address → Prop) :
    Tree → Address → Prop
  | .element ns name, x => ns = none ∧
      document.hasType (name.map (Options.foldCase options.lowerCaseElementNames)) x = true
  | .restricted base simple, x =>
    base.Fits options document above x ∧ simple.Fits options document above x
  | _, _ => False

/-- A class, an id, an attribute or a call that counts, of the same type only if there is a type. -/
def Simple.IsDescribable (type : Option String) : Simple → Prop
  | .className _ | .id _ | .attribute _ => True
  | .pseudoClass _ => False
  | .function call => ∃ direction counting series, call.Counts direction counting series ∧
      (counting = .sameType → type.isSome)

/-- A type selector with a plain name or none, and describable simple selectors behind it. -/
def Tree.IsDescribable : Tree → Prop
  | .element ns name => ns = none ∧ ∀ text ∈ name, isPlainName text = true
  | .restricted base simple => base.IsDescribable ∧ simple.IsDescribable base.type?
  | _ => False

/-! ### Plain compounds -/

variable {document : Document} {type : Option String}

theorem Simple.IsPlain.isDescribable {simple : Simple} (plain : simple.IsPlain type) :
    simple.IsDescribable type := by
  match simple, plain with
  | .className _, _ | .id _, _ | .attribute _, _ => trivial
  | .function _, counts => exact counts

theorem Tree.IsPlainCompound.isDescribable :
    {tree : Tree} → tree.IsPlainCompound → tree.IsDescribable
  | .element _ _, plain => plain
  | .restricted _ _, plain => ⟨isDescribable plain.1, plain.2.isDescribable⟩

variable {options : Options} {above : Address → Prop}

/-- Without form feeds a simple selector fits what it matches unless its word holds a foreign
blank. -/
theorem Simple.fits_iff_matchesBelow (noFeed : document.NoFormFeed) (simple : Simple)
    (x : Address) :
    simple.Fits options document above x ↔
      ¬ simple.HoldsForeignWord options ∧ simple.MatchesBelow options document above x := by
  rw [and_comm]
  match simple with
  | .className name =>
    have word := @AttributeOperator.admits_iff .includes name _ (noFeed x options.classAttribute)
    rwa [and_iff_right rfl] at word
  | .attribute selector => exact AttributeOperator.admits_iff (noFeed x _)
  | .id _ | .pseudoClass _ | .function _ => exact (and_iff_left not_false).symm

/-- Without form feeds a compound fits what it matches, and nothing if a word holds a foreign
blank. -/
theorem Tree.fits_iff_matchesBelow (noFeed : document.NoFormFeed) (x : Address) :
    (tree : Tree) → (tree.Fits options document above x ↔
      ¬ tree.HoldsForeignWord options ∧ tree.MatchesBelow options document above x)
  | .element _ _ => by simp [Fits, MatchesBelow, HoldsForeignWord]
  | .restricted base simple => by
    rw [Fits, MatchesBelow, HoldsForeignWord, fits_iff_matchesBelow noFeed x base,
      simple.fits_iff_matchesBelow noFeed x, not_or, and_and_and_comm]
  | .negation _ _ | .anyOf _ _ _ | .relation _ _ _ | .combined _ _ _ => by
    simp [Fits, MatchesBelow]

theorem Simple.IsPlain.not_holdsForeignWord {simple : Simple} (plain : simple.IsPlain type) :
    ¬ simple.HoldsForeignWord .generic := by
  match simple, plain with
  | .className _, spaced => exact spaced.not_holdsForeignBlank
  | .attribute ⟨_, _, operator, value⟩, ⟨_, spaced⟩ =>
    rintro ⟨-, foreign⟩
    cases value with
    | none => simp [AttributeSelector.operand, HoldsForeignBlank] at foreign
    | some token => exact (spaced token rfl).not_holdsForeignBlank foreign
  | .id _, _ | .function _, _ => exact not_false

/-- Plain compounds have no word that is given up. -/
theorem Tree.IsPlainCompound.not_holdsForeignWord :
    {tree : Tree} → tree.IsPlainCompound → ¬ tree.HoldsForeignWord .generic
  | .element _ _, _ => id
  | .restricted _ _, ⟨plain, spaced⟩ =>
    not_or.mpr ⟨not_holdsForeignWord plain, spaced.not_holdsForeignWord⟩

/-- Below elements a plain simple selector matches nothing else. -/
theorem Simple.matchesBelow_iff_matches {simple : Simple} (plain : simple.IsPlain type)
    (x : Address) :
    simple.MatchesBelow .generic document document.IsElement x ↔ simple.Matches document x := by
  match simple, plain with
  | .className _, _ | .id _, _ | .function _, _ => rfl
  | .attribute ⟨ns, name, operator, value⟩, ⟨noNamespace, _⟩ =>
    obtain rfl : ns = none := noNamespace
    exact (and_iff_right rfl).symm

theorem Tree.matchesBelow_iff_matches (x : Address) : (tree : Tree) → tree.IsPlainCompound →
    (tree.MatchesBelow .generic document document.IsElement x ↔ tree.Matches document x)
  | .element ns name, _ => by
    have folded : name.map (Options.foldCase false) = name := by cases name <;> rfl
    simp [Tree.MatchesBelow, Tree.Matches, Tree.MatchesFrom, Options.generic, folded]
  | .restricted base simple, plain =>
    and_congr (matchesBelow_iff_matches x base plain.1) (simple.matchesBelow_iff_matches plain.2 x)

/-- Where all blanks are those of XPath, a plain compound fits what it matches. -/
theorem Tree.fits_iff_matches (spaced : document.IsSpaced) (x : Address) {tree : Tree}
    (plain : tree.IsPlainCompound) :
    tree.Fits .generic document document.IsElement x ↔ tree.Matches document x := by
  rw [fits_iff_matchesBelow spaced.noFormFeed, and_iff_right plain.not_holdsForeignWord,
    matchesBelow_iff_matches x tree plain]

end Selector

end SelectorPath
