import SelectorPath.Proofs.Selector.Arguments

/-!
# Relative selectors

The argument of `:has()` is a path from the element that is restricted. Its first compound stands
behind a combinator that leads away from that element, and each further compound behind the one
before it. So the condition holds of an element where a chain of elements starts there, one for each
compound: each is matched by its compound and lies to the one before as the combinator says. It says
so at every position that the element has on the step. A word with a foreign blank in one of the
compounds breaks every chain.

## Main definitions

* `Selector.Tree.IsRelative` — compounds joined by combinators, from the left
* `Selector.Tree.links` — the compounds of a relative selector, each with its combinator
* `Selector.Chain` — the elements of a chain

## Main results

* `Selector.Tree.exists_path_relative` — the path of a relative selector finds the ends of chains
* `Selector.Tree.chain_fits_iff` — the words that break a chain
* `Selector.Tree.restrictsTo_relation` — the condition that `:has()` adds
-/

namespace SelectorPath

open Text XPath Grammar LocationPath

namespace Selector

/-! ### Chains -/

/-- Compounds joined by combinators, from the left. -/
def Tree.IsRelative : Tree → Prop
  | .combined left _ right => left.IsRelative ∧ right.IsDescribable
  | compound => compound.IsDescribable

/-- The compounds of a relative selector in order, each with the combinator in front of it. -/
def Tree.links (combinator : Combinator) : Tree → List (Combinator × Tree)
  | .combined left next right => left.links combinator ++ [(next, right)]
  | compound => [(combinator, compound)]

/-- Elements one behind the other, one for each link. An element is admitted by the compound of its
link and lies to the element before, the first one to `start`, as the combinator says. -/
inductive Chain (document : Document) (Admits : Tree → Address → Prop) :
    Address → List (Combinator × Tree) → List Address → Prop
  | nil (start : Address) : Chain document Admits start [] []
  | cons {start next : Address} {combinator : Combinator} {compound : Tree}
      {links : List (Combinator × Tree)} {others : List Address}
      (relates : combinator.Relates document start next) (admits : Admits compound next)
      (rest : Chain document Admits next links others) :
      Chain document Admits start ((combinator, compound) :: links) (next :: others)

variable {document : Document} {Admits : Tree → Address → Prop} {combinator : Combinator}
  {start : Address} {compound : Tree} {links : List (Combinator × Tree)} {chain : List Address}

theorem chain_nil_iff : Chain document Admits start [] chain ↔ chain = [] := by
  constructor
  · rintro ⟨⟩
    rfl
  · rintro rfl
    exact .nil start

theorem chain_cons_iff :
    Chain document Admits start ((combinator, compound) :: links) chain ↔
      ∃ next others, chain = next :: others ∧ combinator.Relates document start next ∧
        Admits compound next ∧ Chain document Admits next links others := by
  constructor
  · rintro (_ | ⟨relates, admits, rest⟩)
    exact ⟨_, _, rfl, relates, admits, rest⟩
  · rintro ⟨next, others, rfl, relates, admits, rest⟩
    exact .cons relates admits rest

/-- A chain goes on from where the links before the last lead. -/
theorem chain_concat_iff :
    Chain document Admits start (links ++ [(combinator, compound)]) chain ↔
      ∃ before last, chain = before ++ [last] ∧ Chain document Admits start links before ∧
        combinator.Relates document (before.getLastD start) last ∧ Admits compound last := by
  -- a chain is made from its front, while a tree holds its last compound outermost
  induction links generalizing start chain with
  | nil =>
    simp only [List.nil_append, chain_cons_iff, chain_nil_iff]
    constructor
    · rintro ⟨next, _, rfl, relates, admits, rfl⟩
      exact ⟨[], next, rfl, rfl, relates, admits⟩
    · rintro ⟨_, last, rfl, rfl, relates, admits⟩
      exact ⟨last, [], rfl, relates, admits, rfl⟩
  | cons link links ih =>
    obtain ⟨first, head⟩ := link
    simp only [List.cons_append, chain_cons_iff, ih]
    constructor
    · rintro ⟨next, _, rfl, leads, fits, before, last, rfl, rest, relates, admits⟩
      exact ⟨next :: before, last, rfl, ⟨next, before, rfl, leads, fits, rest⟩,
        by rwa [List.getLastD_cons], admits⟩
    · rintro ⟨_, last, rfl, ⟨next, before, rfl, leads, fits, rest⟩, relates, admits⟩
      rw [List.getLastD_cons] at relates
      exact ⟨next, before ++ [last], rfl, leads, fits, before, last, rfl, rest, relates, admits⟩

/-- Where two readings of the compounds agree, the chains are the same. -/
theorem chain_congr {Others : Tree → Address → Prop}
    (same : ∀ link ∈ links, ∀ x, Admits link.2 x ↔ Others link.2 x) :
    Chain document Admits start links chain ↔ Chain document Others start links chain := by
  induction links generalizing start chain with
  | nil => rw [chain_nil_iff, chain_nil_iff]
  | cons link links ih =>
    rw [List.forall_mem_cons] at same
    rw [chain_cons_iff, chain_cons_iff]
    simp only [same.1, ih same.2]

/-- Where nothing is admitted unless its compound has a property, all compounds of a chain have
it. -/
theorem chain_and_iff (P : Tree → Prop) :
    Chain document (fun compound x => P compound ∧ Admits compound x) start links chain ↔
      (∀ link ∈ links, P link.2) ∧ Chain document Admits start links chain := by
  induction links generalizing start chain with
  | nil => simp [chain_nil_iff]
  | cons link links ih =>
    rw [chain_cons_iff, chain_cons_iff, List.forall_mem_cons]
    simp only [ih]
    constructor
    · rintro ⟨next, others, rfl, relates, ⟨has, admits⟩, all, rest⟩
      exact ⟨⟨has, all⟩, next, others, rfl, relates, admits, rest⟩
    · rintro ⟨⟨has, all⟩, next, others, rfl, relates, admits, rest⟩
      exact ⟨next, others, rfl, relates, ⟨has, admits⟩, all, rest⟩

/-- A chain along the links ends at `last`. -/
def LeadsTo (document : Document) (Admits : Tree → Address → Prop) (start : Address)
    (links : List (Combinator × Tree)) (last : Address) : Prop :=
  ∃ chain, Chain document Admits start links chain ∧ chain.getLastD start = last

theorem leadsTo_singleton_iff {last : Address} :
    LeadsTo document Admits start [(combinator, compound)] last ↔
      combinator.Relates document start last ∧ Admits compound last := by
  simp only [LeadsTo, chain_cons_iff, chain_nil_iff]
  constructor
  · rintro ⟨_, ⟨next, _, rfl, relates, admits, rfl⟩, rfl⟩
    exact ⟨relates, admits⟩
  · rintro ⟨relates, admits⟩
    exact ⟨[last], ⟨last, [], rfl, relates, admits, rfl⟩, rfl⟩

theorem leadsTo_concat_iff {last : Address} :
    LeadsTo document Admits start (links ++ [(combinator, compound)]) last ↔
      (∃ before, LeadsTo document Admits start links before ∧
        combinator.Relates document before last) ∧ Admits compound last := by
  simp only [LeadsTo, chain_concat_iff]
  constructor
  · rintro ⟨_, ⟨chain, last, rfl, before, relates, admits⟩, rfl⟩
    rw [List.getLastD_concat]
    exact ⟨⟨_, ⟨chain, before, rfl⟩, relates⟩, admits⟩
  · rintro ⟨⟨_, ⟨chain, before, rfl⟩, relates⟩, admits⟩
    exact ⟨chain ++ [last], ⟨chain, last, rfl, before, relates, admits⟩, List.getLastD_concat ..⟩

theorem exists_leadsTo_iff :
    (∃ last, LeadsTo document Admits start links last) ↔
      ∃ chain, Chain document Admits start links chain := by
  constructor
  · rintro ⟨_, chain, leads, -⟩
    exact ⟨chain, leads⟩
  · rintro ⟨chain, leads⟩
    exact ⟨_, chain, leads, rfl⟩

/-! ### The path of a relative selector -/

/-- A path behind the context node starts there. -/
theorem finds_here {position size : Nat} (inside : document.IsElement start) :
    here.toExpr.FindsIn document ⟨.tree start, position, size⟩ fun x => x = start where
  eval := ⟨_, Expr.eval_self, fun node => by simp⟩
  isElement x same := same ▸ inside

variable {options : Options}

/-- A compound behind an origin is its path, attached to the origin. -/
theorem Tree.pathFrom_of_isDescribable {tree : Tree} (describable : tree.IsDescribable)
    {path : LocationPath} (compiled : tree.path options = .ok path) (origin : Origin) :
    tree.pathFrom options origin = .ok (origin.attach path) := by
  match tree, describable, compiled with
  | .element _ _, _, rfl => rfl
  | .restricted base simple, _, compiled =>
    obtain ⟨before, _, compiledBase, compiledSimple, rfl⟩ :=
      pathFrom_restricted_eq_ok_iff.mp compiled
    exact pathFrom_restricted_eq_ok_iff.mpr ⟨before, _, compiledBase, compiledSimple, rfl⟩

/-- Behind the context node, the first compound finds the ends of chains along one link. -/
theorem Tree.exists_path_first (options : Options) (combinator : Combinator) {tree : Tree}
    (describable : tree.IsDescribable) :
    ∃ path, tree.pathFrom options (some (here, combinator)) = .ok path ∧
      ∀ document start position size, document.IsElement start →
        path.toExpr.FindsIn document ⟨.tree start, position, size⟩
          (LeadsTo document (Tree.Fits options document document.IsElement) start
            [(combinator, tree)]) := by
  obtain ⟨path, compiled, describes⟩ := Tree.exists_path_describesBelow options describable
  refine ⟨_, Tree.pathFrom_of_isDescribable describable compiled _,
    fun document start position size inside => ?_⟩
  have describes := describes document document.IsElement
  rw [Origin.attach, toExpr_linked (segments_connect describes here combinator)]
  refine (finds_connect (finds_here inside) describes here combinator).congr fun last => ?_
  rw [leadsTo_singleton_iff]
  simp

/-- The path of a relative selector, evaluated at an element, finds the ends of the chains that
start there. -/
theorem Tree.exists_path_relative (options : Options) (combinator : Combinator) :
    (argument : Tree) → argument.IsRelative →
      ∃ path, argument.pathFrom options (some (here, combinator)) = .ok path ∧
        ∀ document start position size, document.IsElement start →
          path.toExpr.FindsIn document ⟨.tree start, position, size⟩
            (LeadsTo document (Tree.Fits options document document.IsElement) start
              (argument.links combinator))
  | .combined left next right, ⟨relative, describable⟩ => by
    -- what the left side finds is what the last compound starts from
    obtain ⟨before, compiledLeft, finds⟩ :=
      Tree.exists_path_relative options combinator left relative
    obtain ⟨after, compiledRight, describes⟩ :=
      Tree.exists_path_describesBelow options describable
    have compiled : (Tree.combined left next right).pathFrom options (some (here, combinator)) =
        .ok (connect before next after) :=
      pathFrom_combined_eq_ok_iff.mpr ⟨before, after, compiledLeft, compiledRight, rfl⟩
    refine ⟨connect before next after, compiled, fun document start position size inside => ?_⟩
    have describes := describes document document.IsElement
    rw [toExpr_linked (segments_connect describes before next)]
    refine (finds_connect (finds document start position size inside) describes before next).congr
      fun last => ?_
    exact leadsTo_concat_iff.symm
  | .element _ _, describable => Tree.exists_path_first options combinator describable
  | .restricted _ _, describable => Tree.exists_path_first options combinator describable

/-! ### The condition of a relative selector -/

theorem Tree.IsPlain.isRelative : {tree : Tree} → tree.IsPlain → tree.IsRelative
  | .combined _ _ _, ⟨left, right⟩ => ⟨isRelative left, right.isDescribable⟩
  | .element _ _, plain => plain.isDescribable
  | .restricted _ _, plain => plain.isDescribable

/-- The compounds of a plain selector are plain. -/
theorem Tree.IsPlain.isPlainCompound_of_mem :
    {tree : Tree} → tree.IsPlain → ∀ link ∈ tree.links combinator, link.2.IsPlainCompound
  | .combined _ _ _, ⟨left, right⟩ =>
    List.forall_mem_append.mpr ⟨isPlainCompound_of_mem left, List.forall_mem_singleton.mpr right⟩
  | .element _ _, plain => List.forall_mem_singleton.mpr plain
  | .restricted _ _, plain => List.forall_mem_singleton.mpr plain

/-- Behind a start, a plain compound matches the related elements that it matches anywhere. -/
theorem Tree.IsPlainCompound.matchesFrom_iff {x : Address} :
    {tree : Tree} → tree.IsPlainCompound →
      (tree.MatchesFrom document (some (start, combinator)) x ↔
        combinator.Relates document start x ∧ tree.Matches document x)
  | .element _ _, _ => by
    simp only [Tree.Matches, Tree.MatchesFrom, Option.some.injEq, Prod.mk.injEq, reduceCtorEq,
      false_imp_iff, implies_true, and_true, and_imp]
    constructor
    · rintro ⟨ns, typed, relates⟩
      exact ⟨relates start combinator rfl rfl, ns, typed⟩
    · rintro ⟨relates, ns, typed⟩
      exact ⟨ns, typed, fun _ _ sameStart same => sameStart ▸ same ▸ relates⟩
  | .restricted base simple, plain => by
    have before := @matchesFrom_iff x base plain.1
    simp only [Tree.Matches, Tree.MatchesFrom] at before ⊢
    rw [before, and_assoc]

/-- What a plain selector matches from an element are the ends of the chains that start there. -/
theorem Tree.IsPlain.matchesFrom_iff_leadsTo {last : Address} :
    {tree : Tree} → tree.IsPlain →
      (tree.MatchesFrom document (some (start, combinator)) last ↔
        LeadsTo document (Tree.Matches document) start (tree.links combinator) last)
  | .combined left next right, ⟨plain, _⟩ => by
    simp only [Tree.links, leadsTo_concat_iff, Tree.MatchesFrom, matchesFrom_iff_leadsTo plain]
    rfl
  | .element _ _, plain => plain.matchesFrom_iff.trans leadsTo_singleton_iff.symm
  | .restricted _ _, plain => plain.matchesFrom_iff.trans leadsTo_singleton_iff.symm

/-- A selector restricted by `:has()` matches where a chain of matched elements starts. -/
theorem Tree.matches_relation_iff {argument : Tree} (plain : argument.IsPlain) (base : Tree) :
    (Tree.relation base combinator argument).Matches document start ↔
      base.Matches document start ∧
        ∃ chain,
          Chain document (Tree.Matches document) start (argument.links combinator) chain := by
  rw [← exists_leadsTo_iff]
  exact and_congr_right fun _ => exists_congr fun _ => plain.matchesFrom_iff_leadsTo

/-- The compounds of a relative selector hold the words that it holds. -/
theorem Tree.holdsForeignWord_iff (options : Options) (combinator : Combinator) :
    (argument : Tree) → (argument.HoldsForeignWord options ↔
      ∃ link ∈ argument.links combinator, link.2.HoldsForeignWord options)
  | .combined left next right => by
    rw [Tree.links, HoldsForeignWord, holdsForeignWord_iff options combinator left]
    simp [or_and_right, exists_or]
  | .element _ _ | .restricted _ _ | .negation _ _ | .anyOf _ _ _ | .relation _ _ _ => by
    simp [Tree.links]

/-- Without form feeds a chain of what the compounds fit is one of what they match, and there is
none if a word holds a foreign blank. -/
theorem Tree.chain_fits_iff {argument : Tree} {above : Address → Prop}
    (noFeed : document.NoFormFeed) :
    Chain document (Tree.Fits options document above) start (argument.links combinator) chain ↔
      ¬ argument.HoldsForeignWord options ∧
        Chain document (Tree.MatchesBelow options document above) start
          (argument.links combinator) chain := by
  have known : ¬ argument.HoldsForeignWord options ↔
      ∀ link ∈ argument.links combinator, ¬ link.2.HoldsForeignWord options := by
    rw [holdsForeignWord_iff options combinator]
    simp only [not_exists, not_and]
  rw [known, ← chain_and_iff fun compound => ¬ compound.HoldsForeignWord options]
  exact chain_congr fun link _ x => link.2.fits_iff_matchesBelow noFeed x

/-- The restriction `:has()` adds one condition behind any compound: that a chain of what the
compounds fit starts at the element. -/
theorem Tree.addsCondition_relation (options : Options) (combinator : Combinator)
    {argument : Tree} (relative : argument.IsRelative) (base : Tree) :
    Tree.AddsCondition options base (.relation base combinator argument) fun document start =>
      ∃ chain, Chain document (Tree.Fits options document document.IsElement) start
        (argument.links combinator) chain := by
  intro path compiledBase
  -- a path holds as a condition if it finds anything, and it finds the ends of the chains
  obtain ⟨related, compiled, finds⟩ :=
    Tree.exists_path_relative options combinator argument relative
  have valid : related.toExpr.Valid :=
    valid_toExpr_behind_here combinator.link_ne_verbatim (Tree.valid_pathFrom argument compiled)
  have restricted : (Tree.relation base combinator argument).path options =
      .ok (path.addCondition related.toExpr) :=
    pathFrom_relation_eq_ok_iff.mpr ⟨path, related, compiledBase, compiled, rfl⟩
  refine ⟨related.toExpr, restricted, fun document =>
    Expr.isConditionFor valid fun start inside position size _ => ?_⟩
  exact (finds document start position size inside).asserts.congr exists_leadsTo_iff

/-- The restriction `:has()` adds one condition behind any compound: that a chain of what the
compounds match starts at the element, and that no word in them holds a foreign blank. Plain
compounds hold no such word, and there the chain is all that `:has()` adds to what is matched. -/
theorem Tree.restrictsTo_relation (options : Options) (combinator : Combinator)
    {argument : Tree} (relative : argument.IsRelative) (base : Tree) :
    Tree.RestrictsTo options base (.relation base combinator argument) (fun document start =>
      ¬ argument.HoldsForeignWord options ∧
        ∃ chain, Chain document (Tree.MatchesBelow options document document.IsElement) start
          (argument.links combinator) chain) ∧
    (argument.IsPlain →
      Tree.RestrictsTo .generic base (.relation base combinator argument) (fun document start =>
        ∃ chain, Chain document (Tree.Matches document) start (argument.links combinator) chain) ∧
      ∀ document start, (Tree.relation base combinator argument).Matches document start ↔
        base.Matches document start ∧ ∃ chain,
          Chain document (Tree.Matches document) start (argument.links combinator) chain) := by
  constructor
  · refine (Tree.addsCondition_relation options combinator relative base).restrictsTo
      fun document noFeed start => ?_
    rw [← exists_and_left]
    exact exists_congr fun chain => Tree.chain_fits_iff noFeed
  · intro plain
    refine ⟨?_, fun _ _ => Tree.matches_relation_iff plain base⟩
    refine (Tree.addsCondition_relation .generic combinator relative base).restrictsTo
      fun document noFeed start => exists_congr fun chain => chain_congr fun link member x => ?_
    have compound := plain.isPlainCompound_of_mem link member
    rw [link.2.fits_iff_matchesBelow noFeed, and_iff_right compound.not_holdsForeignWord,
      Tree.matchesBelow_iff_matches x link.2 compound]

/-- The selector `a:has(> b.x + :nth-child(2))` asks for a child `b` in class `x` and the second
child element right behind it. -/
theorem Tree.restrictsTo_relation_second :
    let base : Tree := .element none (some "a")
    let argument : Tree := .combined
      (.restricted (.element none (some "b")) (.className "x")) .nextSibling
      (.restricted .universal (.function ⟨"nth-child", [⟨.number, "2", 0⟩]⟩))
    argument.IsRelative ∧ argument.IsPlain ∧
      Tree.RestrictsTo .generic base (.relation base .child argument) (fun document start =>
        ¬ argument.HoldsForeignWord .generic ∧
          ∃ chain, Chain document (Tree.MatchesBelow .generic document document.IsElement) start
            (argument.links .child) chain) ∧
      Tree.RestrictsTo .generic base (.relation base .child argument) (fun document start =>
        ∃ chain, Chain document (Tree.Matches document) start (argument.links .child) chain) ∧
      (Selector.mk (.relation base .child argument) none).xpath .generic "" = .ok
        ("a[./b[@class and contains(concat(' ', normalize-space(@class), ' '), ' x ')]" ++
          "/following-sibling::*[(position() = 1) and " ++
          "(count(. | ../*[position() = 2]) = count(../*[position() = 2]))]]") := by
  intro base argument
  have counts : FunctionCall.Counts ⟨"nth-child", [⟨.number, "2", 0⟩]⟩ .fromStart .children
      (.index 2) := ⟨⟨.nthChild, by decide +kernel, rfl⟩, by cbv⟩
  have plain : argument.IsPlain := by
    refine ⟨⟨⟨rfl, by decide +kernel⟩, (by decide +kernel : IsSpaced "x")⟩, ⟨rfl, by simp⟩, ?_⟩
    exact ⟨.fromStart, .children, .index 2, counts, by simp⟩
  obtain ⟨restricts, plainly⟩ :=
    Tree.restrictsTo_relation .generic .child plain.isRelative base
  exact ⟨plain.isRelative, plain, restricts, (plainly plain).1, by cbv⟩

/-- An element whose child has a class with a no-break space is not found by asking for such a
child. -/
theorem Tree.not_restrictsTo_relation_nbsp :
    let argument : Tree := .restricted .universal (.className "a\u00a0b")
    let document : Document :=
      ⟨"p", .none, [.element "q" ⟨[("class", "a\u00a0b")], List.nodup_singleton _⟩ []]⟩
    argument.IsRelative ∧ document.NoFormFeed ∧
      (Tree.relation .universal .child argument).Matches document [0] ∧
      (Selector.mk (.relation .universal .child argument) none).xpath .generic "" =
        .ok "*[./*[0]]" ∧
      ¬ Tree.RestrictsTo .generic .universal (.relation .universal .child argument)
        fun document start => ∃ chain, Chain document
          (Tree.MatchesBelow .generic document document.IsElement) start
          (argument.links .child) chain := by
  intro argument document
  have relative : argument.IsRelative := ⟨⟨rfl, by simp⟩, trivial⟩
  have noFeed : document.NoFormFeed := Document.forall_value_of_addresses (by decide +kernel)
  have accepts : AttributeOperator.includes.Accepts "a\u00a0b" (document.value? [0, 0] "class") :=
    ⟨_, rfl, holdsForeignBlank_nbsp.isCssWord.mem_words⟩
  have relates : Combinator.child.Relates document [0] [0, 0] := ⟨0, rfl⟩
  have matched : argument.MatchesBelow .generic document document.IsElement [0, 0] :=
    ⟨Tree.matchesBelow_universal rfl, accepts⟩
  refine ⟨relative, noFeed, ?_, by cbv, fun restricts => ?_⟩
  · exact ⟨⟨rfl, rfl, by simp⟩, [0, 0], ⟨rfl, rfl, by simp [relates]⟩, accepts⟩
  · have adds := Tree.addsCondition_relation .generic .child relative .universal
    have found := (adds.unique restricts rfl noFeed (rfl : document.IsElement [0])).mpr
      ⟨_, .cons relates matched (.nil _)⟩
    obtain ⟨chain, fits⟩ := found
    exact ((Tree.chain_fits_iff noFeed).mp fits).1 (.inr holdsForeignBlank_nbsp)

end Selector

end SelectorPath
