import Mathlib
import SelectorPath.Proofs.Selector.Compounds
import SelectorPath.Proofs.Selector.Reprint

/-!
# Specificity as a maximum over expansions

The specificity of a tree takes the greatest argument at every `:is()` it comes to, before it goes
on to add. Equally one may first decide for one argument at each of them, anywhere in the tree,
leave out the arguments of every `:where()`, and then count the nodes that remain. Of all these
counts the specificity is the greatest, the ids compared first. The two agree because the
lexicographic order is kept by addition: what is greatest in two parts is greatest in their sum.

The counts are machine words. A tree has at least as many nodes as any of its expansions has nodes
that count, so a tree of fewer than `2 ^ 32` nodes leaves room for every sum on the way.

## Main definitions

* `Specificity.weight` — the three counts as exact numbers, in the lexicographic order
* `Selector.Tree.Expands` — a tree, and what is left of it when every choice has been made
* `Selector.Tree.count` — the nodes of a tree that count, by sort
* `Selector.Tree.specificity?` — the specificity with sums that may fail to fit
* `Selector.Tops` — being computed without overflow, and greatest among some counts

## Main results

* `Selector.Tree.weights_negation` and its companions — the counts of the expansions of a tree are
  the sums of those of its parts
* `Selector.Tops.add` — the greatest in two parts make the greatest in the sums
* `Selector.Tree.eq_of_specificity?` — where the sums fit they make the specificity
* `Selector.Tree.specificity?_eq` — in a tree that is not too large every sum fits
* `Selector.Tree.isGreatest_specificity` — the specificity is the greatest count of an expansion
-/

namespace SelectorPath

open scoped Pointwise

/-! ### Counts as exact numbers -/

/-- Counts of ids, of what weighs like a class, and of type selectors, the ids compared first. -/
abbrev Weight : Type := ℕ ×ₗ ℕ ×ₗ ℕ

namespace Weight

/-- The weight with the given counts. -/
def of (ids classes elements : ℕ) : Weight := toLex (ids, toLex (classes, elements))

theorem of_add_of (a b c a' b' c' : ℕ) :
    of a b c + of a' b' c' = of (a + a') (b + b') (c + c') := rfl

theorem of_lt_of_iff {a b c a' b' c' : ℕ} :
    of a b c < of a' b' c' ↔ a < a' ∨ a = a' ∧ (b < b' ∨ b = b' ∧ c < c') := by
  unfold of
  rw [Prod.Lex.toLex_lt_toLex, Prod.Lex.toLex_lt_toLex]

theorem zero_le (w : Weight) : of 0 0 0 ≤ w := by
  apply not_lt.mp
  obtain ⟨a, b, c⟩ := w
  intro less
  have := of_lt_of_iff.mp less
  omega

end Weight

namespace Specificity

variable {s t : Specificity}

/-- The counts as exact numbers. -/
def weight (s : Specificity) : Weight := .of s.ids.toNat s.classes.toNat s.elements.toNat

/-- How many nodes have been counted. -/
def total (s : Specificity) : ℕ := s.ids.toNat + s.classes.toNat + s.elements.toNat

/-- The sum, if none of the three counts overflows. -/
def add? (s t : Specificity) : Option Specificity :=
  if s.ids.toNat + t.ids.toNat < 2 ^ 32 ∧ s.classes.toNat + t.classes.toNat < 2 ^ 32 ∧
      s.elements.toNat + t.elements.toNat < 2 ^ 32 then
    some (s + t)
  else none

/-- The sum of two specificities that may be missing. -/
def sum? (s t : Option Specificity) : Option Specificity := s.bind fun s => t.bind s.add?

theorem less_iff : Less s t ↔ s.weight < t.weight := by
  unfold Less weight
  simp only [Weight.of_lt_of_iff, UInt32.lt_iff_toNat_lt, UInt32.toNat_inj]

/-- The greater of two specificities is the one with the greater weight. -/
theorem weight_max (s t : Specificity) : (s.max t).weight = Max.max s.weight t.weight := by
  unfold max
  split
  · rename_i less
    exact (max_eq_right (less_iff.mp less).le).symm
  · rename_i noLess
    exact (max_eq_left (not_lt.mp (mt less_iff.mpr noLess))).symm

theorem total_max_le (s t : Specificity) : (s.max t).total ≤ s.total + t.total := by
  unfold max
  split <;> omega

theorem toNat_add_of_small {a b : UInt32} (small : a.toNat + b.toNat < 2 ^ 32) :
    (a + b).toNat = a.toNat + b.toNat := by
  rw [UInt32.toNat_add, Nat.mod_eq_of_lt small]

theorem add?_eq (small : s.total + t.total < 2 ^ 32) : s.add? t = some (s + t) := by
  unfold total at small
  unfold add?
  rw [if_pos (by omega)]

theorem weight_add (small : s.total + t.total < 2 ^ 32) :
    (s + t).weight = s.weight + t.weight := by
  unfold total at small
  simp only [weight, add_def, Weight.of_add_of]
  rw [toNat_add_of_small (by omega), toNat_add_of_small (by omega),
    toNat_add_of_small (by omega)]

theorem total_add (small : s.total + t.total < 2 ^ 32) : (s + t).total = s.total + t.total := by
  unfold total at *
  simp only [add_def]
  rw [toNat_add_of_small (by omega), toNat_add_of_small (by omega),
    toNat_add_of_small (by omega)]
  omega

end Specificity

namespace Selector

/-! ### Nodes -/

mutual

/-- The number of nodes of a tree, those in arguments too. -/
def Tree.nodeCount : Tree → ℕ
  | .element _ _ => 1
  | .restricted base _ => base.nodeCount + 1
  | .negation base argument => base.nodeCount + argument.nodeCount + 1
  | .anyOf _ base arguments => base.nodeCount + Tree.allNodeCount arguments + 1
  | .relation base _ argument => base.nodeCount + argument.nodeCount + 1
  | .combined left _ right => left.nodeCount + right.nodeCount + 1

def Tree.allNodeCount : List Tree → ℕ
  | [] => 0
  | tree :: rest => tree.nodeCount + Tree.allNodeCount rest

end

mutual

/-- The names of the type selectors of a tree, those in arguments too. -/
def Tree.typeNames : Tree → List (Option String)
  | .element _ name => [name]
  | .restricted base _ => base.typeNames
  | .negation base argument => base.typeNames ++ argument.typeNames
  | .anyOf _ base arguments => base.typeNames ++ Tree.allTypeNames arguments
  | .relation base _ argument => base.typeNames ++ argument.typeNames
  | .combined left _ right => left.typeNames ++ right.typeNames

def Tree.allTypeNames : List Tree → List (Option String)
  | [] => []
  | tree :: rest => tree.typeNames ++ Tree.allTypeNames rest

end

def Simple.isId : Simple → Bool
  | .id _ => true
  | _ => false

/-- The nodes of a tree that count: its ids, its other simple selectors, and its type selectors with
a name, those in arguments too. -/
def Tree.count (tree : Tree) : Weight :=
  .of (tree.simples.countP Simple.isId) (tree.simples.countP fun simple => !simple.isId)
    (tree.typeNames.countP Option.isSome)

/-! ### Expansions -/

/-- What is left of a tree when one argument has been chosen for each `:is()` and the arguments of
each `:where()` have been deleted, in the argument that has been chosen too. -/
inductive Tree.Expands : Tree → Tree → Prop
  | element (ns name : Option String) : Expands (.element ns name) (.element ns name)
  | restricted {base baseLeft : Tree} (first : Expands base baseLeft) (simple : Simple) :
      Expands (.restricted base simple) (.restricted baseLeft simple)
  | negation {base baseLeft argument argumentLeft : Tree} (first : Expands base baseLeft)
      (inner : Expands argument argumentLeft) :
      Expands (.negation base argument) (.negation baseLeft argumentLeft)
  | choose {base baseLeft argument argumentLeft : Tree} {arguments : List Tree}
      (first : Expands base baseLeft) (member : argument ∈ arguments)
      (inner : Expands argument argumentLeft) :
      Expands (.anyOf .matchesAny base arguments) (.anyOf .matchesAny baseLeft [argumentLeft])
  | delete {base baseLeft : Tree} (first : Expands base baseLeft) (arguments : List Tree) :
      Expands (.anyOf .specificityAdjustment base arguments)
        (.anyOf .specificityAdjustment baseLeft [])
  | relation {base baseLeft argument argumentLeft : Tree} (first : Expands base baseLeft)
      (combinator : Combinator) (inner : Expands argument argumentLeft) :
      Expands (.relation base combinator argument) (.relation baseLeft combinator argumentLeft)
  | combined {left leftLeft right rightLeft : Tree} (first : Expands left leftLeft)
      (combinator : Combinator) (second : Expands right rightLeft) :
      Expands (.combined left combinator right) (.combined leftLeft combinator rightLeft)

mutual

/-- Wherever a choice has to be made, there is an argument. -/
def Tree.HasChoices : Tree → Prop
  | .element _ _ => True
  | .restricted base _ => base.HasChoices
  | .negation base argument => base.HasChoices ∧ argument.HasChoices
  | .anyOf .matchesAny base arguments =>
    base.HasChoices ∧ arguments ≠ [] ∧ Tree.AllHaveChoices arguments
  | .anyOf .specificityAdjustment base _ => base.HasChoices
  | .relation base _ argument => base.HasChoices ∧ argument.HasChoices
  | .combined left _ right => left.HasChoices ∧ right.HasChoices

def Tree.AllHaveChoices : List Tree → Prop
  | [] => True
  | tree :: rest => tree.HasChoices ∧ Tree.AllHaveChoices rest

end

mutual

/-- The trees that can be read have an argument wherever a choice has to be made. -/
theorem Tree.IsFormed.hasChoices : {tree : Tree} → {site : Site} → tree.IsFormed site →
    tree.HasChoices
  | .element _ _, _, _ => trivial
  | .restricted _ _, _, formed => formed.1.hasChoices
  | .negation _ _, _, formed => ⟨formed.2.1.hasChoices, formed.2.2.hasChoices⟩
  | .anyOf .matchesAny _ _, _, formed =>
    ⟨formed.1.hasChoices, formed.2.1, formed.2.2.allHaveChoices⟩
  | .anyOf .specificityAdjustment _ _, _, formed => formed.1.hasChoices
  | .relation _ _ _, _, formed => ⟨formed.1.hasChoices, formed.2.hasChoices⟩
  | .combined _ _ _, _, formed => ⟨formed.2.1.hasChoices, formed.2.2.hasChoices⟩

theorem Tree.AllFormed.allHaveChoices : {trees : List Tree} → Tree.AllFormed trees →
    Tree.AllHaveChoices trees
  | [], _ => trivial
  | _ :: _, formed => ⟨formed.1.hasChoices, formed.2.allHaveChoices⟩

end

/-! ### The counts of expansions -/

namespace Tree

/-- The counts of the expansions of a tree. -/
def weights (tree : Tree) : Set Weight := count '' {expansion | tree.Expands expansion}

/-- The counts of the expansions of several trees. -/
def allWeights (trees : List Tree) : Set Weight :=
  count '' {expansion | ∃ tree ∈ trees, tree.Expands expansion}

theorem allWeights_singleton (tree : Tree) : allWeights [tree] = tree.weights := by
  simp [allWeights, weights]

theorem allWeights_cons (tree : Tree) (rest : List Tree) :
    allWeights (tree :: rest) = tree.weights ∪ allWeights rest := by
  unfold allWeights weights
  rw [← Set.image_union]
  congr 1
  ext expansion
  simp

/-- Where a tree is expanded by expanding two parts, each on its own, and counts are added, the
counts of its expansions are the sums of those of the parts. -/
theorem weights_eq_add {tree base : Tree} {inner : Tree → Prop} (join : Tree → Tree → Tree)
    (expands : ∀ expansion, tree.Expands expansion ↔
      ∃ x y, base.Expands x ∧ inner y ∧ join x y = expansion)
    (counted : ∀ x y, (join x y).count = x.count + y.count) :
    tree.weights = base.weights + count '' {y | inner y} := by
  -- The two choices are independent, so the expansions are an image of all pairs.
  have split : {expansion | tree.Expands expansion} =
      Set.image2 join {x | base.Expands x} {y | inner y} := by
    ext expansion
    simp only [Set.mem_ofPred_eq, expands, Set.mem_image2, exists_and_left]
  unfold weights
  rw [split, ← Set.image2_add, Set.image_image2, Set.image2_image_left, Set.image2_image_right]
  simp only [counted]

theorem weights_element (ns name : Option String) :
    (element ns name).weights = {(element ns name).count} := by
  have only : {expansion | (element ns name).Expands expansion} = {element ns name} := by
    ext expansion
    constructor
    · rintro ⟨⟩
      rfl
    · rintro rfl
      exact .element ns name
  rw [weights, only, Set.image_singleton]

theorem count_restricted (base : Tree) (simple : Simple) :
    (restricted base simple).count = base.count + simple.specificity.weight := by
  have single (p : Simple → Bool) : [simple].countP p = if p simple then 1 else 0 :=
    List.countP_singleton
  simp only [count, simples, typeNames, List.countP_append, single]
  cases simple <;> rfl

theorem weights_restricted (base : Tree) (simple : Simple) :
    (restricted base simple).weights = base.weights + {simple.specificity.weight} := by
  have split : {expansion | (restricted base simple).Expands expansion} =
      (restricted · simple) '' {x | base.Expands x} := by
    ext expansion
    constructor
    · rintro ⟨⟩
      exact ⟨_, ‹_›, rfl⟩
    · rintro ⟨_, first, rfl⟩
      exact .restricted first simple
  rw [weights, split, Set.image_image, Set.add_singleton, weights, Set.image_image]
  simp only [count_restricted]

theorem weights_negation (base argument : Tree) :
    (negation base argument).weights = base.weights + argument.weights := by
  apply weights_eq_add negation
  · intro expansion
    constructor
    · rintro ⟨⟩
      exact ⟨_, _, ‹_›, ‹_›, rfl⟩
    · rintro ⟨_, _, first, inner, rfl⟩
      exact .negation first inner
  · intro x y
    simp [count, simples, typeNames, Weight.of_add_of]

theorem weights_relation (base : Tree) (combinator : Combinator) (argument : Tree) :
    (relation base combinator argument).weights = base.weights + argument.weights := by
  apply weights_eq_add (relation · combinator ·)
  · intro expansion
    constructor
    · rintro ⟨⟩
      exact ⟨_, _, ‹_›, ‹_›, rfl⟩
    · rintro ⟨_, _, first, inner, rfl⟩
      exact .relation first combinator inner
  · intro x y
    simp [count, simples, typeNames, Weight.of_add_of]

theorem weights_combined (left : Tree) (combinator : Combinator) (right : Tree) :
    (combined left combinator right).weights = left.weights + right.weights := by
  apply weights_eq_add (combined · combinator ·)
  · intro expansion
    constructor
    · rintro ⟨⟩
      exact ⟨_, _, ‹_›, ‹_›, rfl⟩
    · rintro ⟨_, _, first, second, rfl⟩
      exact .combined first combinator second
  · intro x y
    simp [count, simples, typeNames, Weight.of_add_of]

/-- One of the arguments of `:is()` is counted with what it restricts. -/
theorem weights_matchesAny (base : Tree) (arguments : List Tree) :
    (anyOf .matchesAny base arguments).weights = base.weights + allWeights arguments := by
  apply weights_eq_add (fun x y => anyOf .matchesAny x [y])
  · intro expansion
    constructor
    · rintro ⟨⟩
      exact ⟨_, _, ‹_›, ⟨_, ‹_›, ‹_›⟩, rfl⟩
    · rintro ⟨_, _, first, ⟨argument, member, inner⟩, rfl⟩
      exact .choose first member inner
  · intro x y
    simp [count, simples, allSimples, typeNames, allTypeNames, Weight.of_add_of]

/-- No argument of `:where()` is counted. -/
theorem weights_specificityAdjustment (base : Tree) (arguments : List Tree) :
    (anyOf .specificityAdjustment base arguments).weights = base.weights := by
  have split : {expansion | (anyOf .specificityAdjustment base arguments).Expands expansion} =
      (anyOf .specificityAdjustment · []) '' {x | base.Expands x} := by
    ext expansion
    constructor
    · rintro ⟨⟩
      exact ⟨_, ‹_›, rfl⟩
    · rintro ⟨_, first, rfl⟩
      exact .delete first arguments
  have counted (x : Tree) : (anyOf .specificityAdjustment x []).count = x.count := by
    simp [count, simples, allSimples, typeNames, allTypeNames]
  rw [weights, split, Set.image_image, weights]
  simp only [counted]

end Tree

/-! ### Sums that fit -/

mutual

/-- The specificity of a tree, if every sum on the way to it fits. -/
def Tree.specificity? : Tree → Option Specificity
  | .element _ name => some ⟨0, 0, if name.isSome then 1 else 0⟩
  | .restricted base simple => Specificity.sum? base.specificity? (some simple.specificity)
  | .negation base argument => Specificity.sum? base.specificity? argument.specificity?
  | .anyOf .matchesAny base arguments =>
    Specificity.sum? base.specificity? (Tree.greatest? arguments)
  | .anyOf .specificityAdjustment base _ => base.specificity?
  | .relation base _ argument => Specificity.sum? base.specificity? argument.specificity?
  | .combined left _ right => Specificity.sum? left.specificity? right.specificity?

/-- The greatest specificity among some trees, if every sum on the way to it fits. -/
def Tree.greatest? : List Tree → Option Specificity
  | [] => some .zero
  | tree :: rest =>
    tree.specificity?.bind fun first => (Tree.greatest? rest).map first.max

end

theorem exists_of_sum? {s? t? : Option Specificity} {sum : Specificity}
    (fits : Specificity.sum? s? t? = some sum) : ∃ s t, s? = some s ∧ t? = some t ∧ sum = s + t := by
  unfold Specificity.sum? at fits
  obtain ⟨s, first, rest⟩ := Option.bind_eq_some_iff.mp fits
  obtain ⟨t, second, added⟩ := Option.bind_eq_some_iff.mp rest
  unfold Specificity.add? at added
  split at added
  · exact ⟨s, t, first, second, (Option.some.inj added).symm⟩
  · simp at added

mutual

/-- If every sum fits, the specificity is what they add up to. -/
theorem Tree.eq_of_specificity? : (tree : Tree) → {s : Specificity} →
    tree.specificity? = some s → s = tree.specificity
  | .element _ _, _, fits => (Option.some.inj fits).symm
  | .restricted base simple, _, fits => by
    obtain ⟨first, own, fitsFirst, fitsOwn, rfl⟩ := exists_of_sum? fits
    rw [base.eq_of_specificity? fitsFirst, ← Option.some.inj fitsOwn, specificity]
  | .negation base argument, _, fits => by
    obtain ⟨first, inner, fitsFirst, fitsInner, rfl⟩ := exists_of_sum? fits
    rw [base.eq_of_specificity? fitsFirst, argument.eq_of_specificity? fitsInner, specificity]
  | .anyOf .matchesAny base arguments, _, fits => by
    obtain ⟨first, inner, fitsFirst, fitsInner, rfl⟩ := exists_of_sum? fits
    rw [base.eq_of_specificity? fitsFirst, Tree.eq_of_greatest? arguments fitsInner, specificity]
  | .anyOf .specificityAdjustment base _, _, fits => base.eq_of_specificity? fits
  | .relation base _ argument, _, fits => by
    obtain ⟨first, inner, fitsFirst, fitsInner, rfl⟩ := exists_of_sum? fits
    rw [base.eq_of_specificity? fitsFirst, argument.eq_of_specificity? fitsInner, specificity]
  | .combined left _ right, _, fits => by
    obtain ⟨first, second, fitsFirst, fitsSecond, rfl⟩ := exists_of_sum? fits
    rw [left.eq_of_specificity? fitsFirst, right.eq_of_specificity? fitsSecond, specificity]

theorem Tree.eq_of_greatest? : (trees : List Tree) → {s : Specificity} →
    Tree.greatest? trees = some s → s = Tree.greatest trees
  | [], _, fits => (Option.some.inj fits).symm
  | tree :: rest, _, fits => by
    obtain ⟨first, fitsFirst, fits⟩ := Option.bind_eq_some_iff.mp fits
    obtain ⟨others, fitsOthers, rfl⟩ := Option.map_eq_some_iff.mp fits
    rw [tree.eq_of_specificity? fitsFirst, Tree.eq_of_greatest? rest fitsOthers, greatest]

end

/-! ### The greatest count -/

/-- What has been computed without overflow, counts no more than some nodes, and is the greatest of
some counts. -/
structure Tops (specificity : Specificity) (checked : Option Specificity) (counts : Set Weight)
    (nodes : ℕ) : Prop where
  fits : checked = some specificity
  total_le : specificity.total ≤ nodes
  greatest : IsGreatest counts specificity.weight

namespace Tops

variable {s t : Specificity} {checked checked' : Option Specificity} {counts counts' : Set Weight}
  {m n nodes : ℕ}

/-- Addition keeps the order, so what is greatest in both parts is greatest in the sums. -/
theorem add (first : Tops s checked counts m) (second : Tops t checked' counts' n)
    (room : m + n ≤ nodes) (small : nodes < 2 ^ 32) :
    Tops (s + t) (Specificity.sum? checked checked') (counts + counts') nodes := by
  have fits : s.total + t.total ≤ nodes :=
    (Nat.add_le_add first.total_le second.total_le).trans room
  have summed := Specificity.weight_add (fits.trans_lt small)
  constructor
  · rw [first.fits, second.fits]
    exact Specificity.add?_eq (fits.trans_lt small)
  · rw [Specificity.total_add (fits.trans_lt small)]
    exact fits
  · -- Of both parts the greatest are chosen, and no pair of others sums up to more.
    rw [summed]
    exact ⟨Set.add_mem_add first.greatest.1 second.greatest.1,
      add_mem_upperBounds_add first.greatest.2 second.greatest.2⟩

theorem max (first : Tops s checked counts m) (second : Tops t checked' counts' n) :
    Tops (s.max t) (checked.bind fun s => checked'.map s.max) (counts ∪ counts') (m + n) := by
  constructor
  · rw [first.fits, second.fits]
    rfl
  · apply (Specificity.total_max_le s t).trans
    exact Nat.add_le_add first.total_le second.total_le
  · rw [Specificity.weight_max]
    exact first.greatest.union second.greatest

/-- The specificity of nothing changes no maximum. -/
theorem max_zero (only : Tops s checked counts m) :
    Tops (s.max .zero) (checked.bind fun s => (some .zero).map s.max) counts m := by
  have unchanged : (s.max .zero).weight = s.weight := by
    rw [Specificity.weight_max]
    exact max_eq_left (Weight.zero_le s.weight)
  constructor
  · rw [only.fits]
    rfl
  · exact (Specificity.total_max_le s .zero).trans only.total_le
  · rw [unchanged]
    exact only.greatest

theorem mono (tops : Tops s checked counts m) (room : m ≤ nodes) : Tops s checked counts nodes :=
  ⟨tops.fits, tops.total_le.trans room, tops.greatest⟩

end Tops

theorem Simple.tops (simple : Simple) :
    Tops simple.specificity (some simple.specificity) {simple.specificity.weight} 1 := by
  refine ⟨rfl, ?_, isGreatest_singleton⟩
  cases simple <;> exact Nat.le_refl 1

mutual

-- The induction carries a bound on the counts: it is what leaves room for the next sum.
theorem Tree.tops : (tree : Tree) → tree.HasChoices → tree.nodeCount < 2 ^ 32 →
    Tops tree.specificity tree.specificity? tree.weights tree.nodeCount
  | .element ns name, _, _ => by
    rw [weights_element]
    cases name with
    | none => exact ⟨rfl, Nat.zero_le 1, isGreatest_singleton⟩
    | some name => exact ⟨rfl, Nat.le_refl 1, isGreatest_singleton⟩
  | .restricted base simple, choices, small => by
    rw [weights_restricted]
    rw [nodeCount] at *
    have first := base.tops choices (by omega)
    exact first.add simple.tops (by omega) small
  | .negation base argument, choices, small => by
    rw [weights_negation]
    rw [nodeCount] at *
    have first := base.tops choices.1 (by omega)
    have inner := argument.tops choices.2 (by omega)
    exact first.add inner (by omega) small
  | .anyOf .matchesAny base arguments, choices, small => by
    rw [weights_matchesAny]
    rw [nodeCount] at *
    have first := base.tops choices.1 (by omega)
    have inner := Tree.tops_greatest arguments choices.2.1 choices.2.2 (by omega)
    exact first.add inner (by omega) small
  | .anyOf .specificityAdjustment base arguments, choices, small => by
    rw [weights_specificityAdjustment]
    rw [nodeCount] at *
    have first := base.tops choices (by omega)
    exact first.mono (by omega)
  | .relation base combinator argument, choices, small => by
    rw [weights_relation]
    rw [nodeCount] at *
    have first := base.tops choices.1 (by omega)
    have inner := argument.tops choices.2 (by omega)
    exact first.add inner (by omega) small
  | .combined left combinator right, choices, small => by
    rw [weights_combined]
    rw [nodeCount] at *
    have first := left.tops choices.1 (by omega)
    have second := right.tops choices.2 (by omega)
    exact first.add second (by omega) small

theorem Tree.tops_greatest : (trees : List Tree) → trees ≠ [] → Tree.AllHaveChoices trees →
    Tree.allNodeCount trees < 2 ^ 32 →
    Tops (Tree.greatest trees) (Tree.greatest? trees) (Tree.allWeights trees)
      (Tree.allNodeCount trees)
  | [], nonempty, _, _ => absurd rfl nonempty
  | [tree], _, choices, small => by
    rw [Tree.allWeights_singleton]
    exact (tree.tops choices.1 small).max_zero
  | tree :: next :: rest, _, choices, small => by
    rw [Tree.allWeights_cons]
    rw [Tree.allNodeCount] at *
    have first := tree.tops choices.1 (by omega)
    have others := Tree.tops_greatest (next :: rest) (List.cons_ne_nil _ _) choices.2 (by omega)
    exact first.max others

end

/-- In a tree that is not too large every sum fits, and no count exceeds the number of nodes. -/
theorem Tree.specificity?_eq {tree : Tree} (choices : tree.HasChoices)
    (small : tree.nodeCount < 2 ^ 32) :
    tree.specificity? = some tree.specificity ∧ tree.specificity.total ≤ tree.nodeCount :=
  have tops := tree.tops choices small
  ⟨tops.fits, tops.total_le⟩

/-- The trees of an accepted text have an argument wherever a choice has to be made. -/
theorem hasChoices_of_parse {text : String} {selectors : List Selector}
    (accepted : parse text = .ok selectors) : ∀ selector ∈ selectors, selector.tree.HasChoices :=
  fun _ member => (isFormed_of_parse accepted member).hasChoices

/-- The specificity of a tree is the greatest count of an expansion of it, and no sum on the way to
it overflows. -/
theorem Tree.isGreatest_specificity {tree : Tree} (choices : tree.HasChoices)
    (small : tree.nodeCount < 2 ^ 32) :
    tree.specificity? = some tree.specificity ∧
      IsGreatest (Tree.count '' {expansion | tree.Expands expansion}) tree.specificity.weight :=
  ⟨(Tree.specificity?_eq choices small).1, (tree.tops choices small).greatest⟩

/-- The tree of `:is(a:is(.b,.c#d),e:where(#f)):not(#g)`: of the inner arguments the second is the
one to choose, and what `:where()` holds does not count. -/
theorem Tree.isGreatest_specificity_nested :
    let inner : Tree := .anyOf .matchesAny (.element none (some "a"))
      [.restricted .universal (.className "b"),
        .restricted (.restricted .universal (.className "c")) (.id "d")]
    let adjusted : Tree := .anyOf .specificityAdjustment (.element none (some "e"))
      [.restricted .universal (.id "f")]
    let tree : Tree := .negation (.anyOf .matchesAny .universal [inner, adjusted])
      (.restricted .universal (.id "g"))
    tree.HasChoices ∧ tree.nodeCount < 2 ^ 32 ∧ tree.specificity? = some ⟨2, 1, 1⟩ ∧
      IsGreatest (Tree.count '' {expansion | tree.Expands expansion}) (.of 2 1 1) := by
  intro inner adjusted tree
  have choices : tree.HasChoices := by
    simp [tree, inner, adjusted, Tree.HasChoices, Tree.AllHaveChoices, Tree.universal]
  have small : tree.nodeCount < 2 ^ 32 := by decide
  exact ⟨choices, small, Tree.isGreatest_specificity choices small⟩

end Selector

end SelectorPath
