import SelectorPath.Proofs.Selector.Rereading
import SelectorPath.Proofs.Selector.Runs

/-!
# Printed selectors are read again

The text of a selector denotes that selector alone. Only the offsets of tokens differ, and through
them the text that is printed the second time: it has one space more for each argument that directly
follows a string with an escaped character.

## Main definitions

* `Selector.Reader.ReadsFrom`, `Selector.Reader.JoinsFrom` — a tree is read from a text at one
  place, as a compound or as several
* `Selector.Reader.Reads` — a tree is read from its text wherever it can stand

## Main results

* `Selector.Reader.reads_tree` — every grammatical tree is
* `Selector.parse_css` — the selectors of a text without backslashes are read again from their texts
-/

namespace SelectorPath.Selector

namespace Reader

open Text Lexer

/-! ### Places where trees are read -/

/-- The state in a compound, with something else to the left of it. -/
def State.behind (state : State) (left : Option (Tree × Combinator)) (tree : Tree) : State :=
  { state with left, mode := .compound tree none }

/-- Wherever a compound can start, the reader comes from the text of the tree to a compound that is
the same but for offsets. -/
def ReadsCompound (negated : Bool) (tree : Tree) : Prop :=
  ∀ ⦃state inner : State⦄ ⦃rest : List Char⦄ (pos : Nat), Opens state inner →
    (negated = false → negates inner.frames = false) → Follows rest →
    ∃ again, tree.Again again ∧
      Passes state pos tree.css.toList rest (inner.setMode (.compound again none))

/-- Wherever compounds can be joined, the reader comes from the text of the tree to its last
compound, with the others to the left. -/
def ReadsComplex (tree : Tree) : Prop :=
  ∀ ⦃state inner : State⦄ ⦃rest : List Char⦄ (pos : Nat), Opens state inner → inner.left = none →
    Joins inner.frames → Follows rest →
    ∃ left last, tree.Again ((inner.behind left last).complete last) ∧
      Passes state pos tree.css.toList rest (inner.behind left last)

/-- From a text at `pos`, whatever follows, the reader comes to a compound in `inner` that is the
tree but for offsets. -/
def ReadsFrom (state inner : State) (pos : Nat) (text : List Char) (tree : Tree) : Prop :=
  ∀ ⦃rest : List Char⦄, Follows rest →
    ∃ again, tree.Again again ∧ Passes state pos text rest (inner.setMode (.compound again none))

/-- From a text at `pos`, whatever follows, the reader comes to a compound in `inner` that completes
the tree but for offsets. -/
def JoinsFrom (state inner : State) (pos : Nat) (text : List Char) (tree : Tree) : Prop :=
  ∀ ⦃rest : List Char⦄, Follows rest →
    ∃ left last, tree.Again ((inner.behind left last).complete last) ∧
      Passes state pos text rest (inner.behind left last)

/-- The tree is read from its text where it stands in the place. -/
def Reads : Place → Tree → Prop
  | .compound negated, tree => ReadsCompound negated tree
  | .complex, tree => ReadsComplex tree

section Places

variable {state inner : State} {pos : Nat} {text rest : List Char} {base : Tree}

theorem follows_cons {c : Char} (sign : c ∈ ".#[:), ".toList) (rest : List Char) :
    Follows (c :: rest) := by
  intro d first
  obtain rfl : c = d := by simpa using first
  exact sign

/-- At the start a blank changes nothing. -/
theorem passes_space (state : State) (noBlank : ∀ c ∈ rest.head?, isCssBlank c = false) :
    Passes (state.setMode .start) pos [' '] rest (state.setMode .start) :=
  .token (lexes_space noBlank) rfl

theorem opens_start (state : State) : Opens (state.setMode .start) state := fun _ _ => rfl

/-- The text of a tree that can stand anywhere starts with a name or a star. -/
theorem css_tree {place : Place} {tree : Tree} (grammatical : tree.Grammatical place) :
    ∃ c cs, tree.css.toList = c :: cs ∧ isCssBlank c = false := by
  have written {name : String} (writable : IsWritable name.toList) :
      ∃ c cs, identifierChars name.toList = c :: cs ∧ isCssBlank c = false := by
    obtain ⟨c, cs, eq, start⟩ := identifierChars_eq_cons writable.nonempty
    refine ⟨c, cs, eq, ?_⟩
    rcases start with rfl | ⟨part, -⟩
    · rfl
    · exact isCssBlank_of_isNamePart part
  induction grammatical with
  | @element negated ns name qualifier named =>
    cases ns with
    | some ns =>
      obtain ⟨c, cs, eq, noBlank⟩ := written (qualifier ns rfl)
      exact ⟨c, _, by simp [Tree.css, typeCss, qualifierCss, eq]; rfl, noBlank⟩
    | none =>
      cases name with
      | some name =>
        obtain ⟨c, cs, eq, noBlank⟩ := written (named name rfl)
        exact ⟨c, cs, by simp [Tree.css, typeCss, qualifierCss, eq], noBlank⟩
      | none => exact ⟨'*', [], by simp [Tree.css, typeCss, qualifierCss], rfl⟩
  | single _ ih => exact ih
  | restricted _ _ ih | negation _ _ ih | anyOf _ _ _ ih | relation _ _ ih | combined _ _ ih =>
    obtain ⟨c, cs, eq, noBlank⟩ := ih
    exact ⟨c, _, by simp [Tree.css, eq]; rfl, noBlank⟩

theorem isKeyword_word {name : String} (known : name ∈ ["not", "has", "is", "where", "scope"]) :
    IsKeyword name ∧ name ∉ singleColonPseudoElements := by
  have plain : ∀ first more, (isNameStart first && more.all isNamePart) = true →
      IsName (first :: more) := by
    intro first more inside
    rw [Bool.and_eq_true, List.all_eq_true] at inside
    exact ⟨[], first, more, rfl, .inl rfl, inside.1, inside.2⟩
  simp only [List.mem_cons, List.not_mem_nil, or_false] at known
  rcases known with rfl | rfl | rfl | rfl | rfl
  all_goals
    refine ⟨⟨by simpa using plain _ _ (by rfl), ?_⟩, by decide⟩
    rw [← String.toList_inj]
    simp

/-! ### Compounds -/

theorem ReadsCompound.readsFrom {negated : Bool} {tree : Tree} (reads : ReadsCompound negated tree)
    (pos : Nat) (opens : Opens state inner)
    (admits : negated = false → negates inner.frames = false) :
    ReadsFrom state inner pos tree.css.toList tree :=
  fun _ follows => reads pos opens admits follows

theorem ReadsCompound.element {ns name : Option String} {negated : Bool}
    (qualifier : ∀ text ∈ ns, IsWritable text.toList)
    (named : ∀ text ∈ name, IsWritable text.toList) :
    ReadsCompound negated (.element ns name) := by
  intro state inner rest pos opens _ follows
  exact ⟨_, .element ns name, passes_typeCss opens qualifier named follows⟩

/-- A simple selector can follow a compound. -/
theorem follows_simple (simple : Simple) (rest : List Char) : Follows (simple.css.toList ++ rest) := by
  obtain ⟨c, cs, text, sign⟩ : ∃ c cs, simple.css.toList = c :: cs ∧ c ∈ ".#[:), ".toList := by
    match simple with
    | .className _ | .id _ | .pseudoClass _ | .function _ =>
      exact ⟨_, _, by simp [Simple.css]; exact ⟨rfl, rfl⟩, by decide⟩
    | .attribute _ =>
      exact ⟨_, _, by simp [Simple.css, AttributeSelector.css]; exact ⟨rfl, rfl⟩, by decide⟩
  rw [text]
  exact follows_cons sign _

theorem ReadsFrom.restricted {simple : Simple} (host : ReadsFrom state inner pos text base)
    (grammatical : simple.Grammatical) (noScope : simple ≠ .pseudoClass "scope") :
    ReadsFrom state inner pos (text ++ simple.css.toList) (.restricted base simple) := by
  intro rest follows
  obtain ⟨baseAgain, same, first⟩ := host (follows_simple simple rest)
  obtain ⟨simpleAgain, sameSimple, second⟩ := passes_simple grammatical noScope follows baseAgain
  exact ⟨_, same.restricted sameSimple, first.trans second⟩

theorem toList_css_restricted (base : Tree) (simple : Simple) :
    (Tree.restricted base simple).css.toList = base.css.toList ++ simple.css.toList := by
  rw [Tree.css, String.toList_append]

theorem ReadsCompound.restricted {negated : Bool} {simple : Simple}
    (host : ReadsCompound negated base) (grammatical : simple.Grammatical)
    (noScope : simple ≠ .pseudoClass "scope") :
    ReadsCompound negated (.restricted base simple) := by
  intro state inner rest pos opens admits follows
  rw [toList_css_restricted]
  exact ReadsFrom.restricted (host.readsFrom pos opens admits) grammatical noScope follows

theorem opens_openFrame (state : State) (frame : Frame) :
    Opens (state.openFrame frame) (state.openFrame frame) := fun _ _ => rfl

/-- The text of a functional pseudo-class. -/
def functionCss (name : String) (inside : List Char) : List Char :=
  [':'] ++ name.toList ++ ['('] ++ (inside ++ [')'])

theorem follows_functionCss (name : String) (inside rest : List Char) :
    Follows (functionCss name inside ++ rest) :=
  follows_cons (by decide) _

/-- A functional pseudo-class is read if its argument is: the name opens a state, from there the
argument is read, and the parenthesis closes it. -/
theorem passes_parenthesized {name : String} {text : List Char} {next middle after : State}
    (known : name ∈ ["not", "has", "is", "where"]) (opened : openFunction inner base name = .ok next)
    (inside : Passes next (pos + byteSize ([':'] ++ name.toList ++ ['('])) text ([')'] ++ rest) middle)
    (closed : ∀ pos, step middle ⟨.delim, ")", pos⟩ = .ok after) :
    Passes (inner.setMode (.compound base none)) pos (functionCss name text) rest after := by
  obtain ⟨keyword, other⟩ := isKeyword_word (List.mem_append_left ["scope"] known)
  exact (passes_opening keyword other opened).trans
    (inside.trans (.sign (lexes_bracket (by decide)) (closed _)))

theorem follows_parenthesis (rest : List Char) : Follows ([')'] ++ rest) :=
  follows_cons (by decide) rest

theorem toList_css_negation (base argument : Tree) :
    (Tree.negation base argument).css.toList =
      base.css.toList ++ functionCss "not" argument.css.toList := by
  simp [Tree.css, functionCss]

theorem ReadsFrom.negation {argument : Tree} (host : ReadsFrom state inner pos text base)
    (inside : ReadsCompound true argument) (admits : negates inner.frames = false) :
    ReadsFrom state inner pos (text ++ functionCss "not" argument.css.toList)
      (.negation base argument) := by
  intro rest follows
  obtain ⟨baseAgain, same, first⟩ := host (follows_functionCss "not" _ rest)
  have opened : openFunction inner baseAgain "not" =
      .ok (inner.openFrame (.negation (inner.host baseAgain))) := by
    simp [openFunction, State.isNegated_eq, admits]
  obtain ⟨argumentAgain, sameArgument, second⟩ :=
    inside _ (opens_openFrame inner (.negation (inner.host baseAgain))) (by simp)
      (follows_parenthesis rest)
  refine ⟨_, same.negation sameArgument, ?_⟩
  exact first.trans (passes_parenthesized (by simp) opened second fun _ => rfl)

theorem ReadsCompound.negation {argument : Tree} (host : ReadsCompound false base)
    (inside : ReadsCompound true argument) : ReadsCompound false (.negation base argument) := by
  intro state inner rest pos opens admits follows
  rw [toList_css_negation]
  exact ReadsFrom.negation (host.readsFrom pos opens admits) inside (admits rfl) follows

/-! ### Combinators -/

/-- The sign of a combinator and the space behind it lead to the start of a compound. -/
theorem passes_combinator {combinator : Combinator} (signed : combinator ≠ .descendant)
    (stepped : ∀ pos, step state ⟨.delim, combinator.symbol, pos⟩ = .ok (inner.setMode .start))
    (noBlank : ∀ c ∈ rest.head?, isCssBlank c = false) :
    Passes state pos (combinator.symbol.toList ++ [' ']) rest (inner.setMode .start) := by
  have sign : Lexes combinator.symbol.toList .delim combinator.symbol.toList ([' '] ++ rest) := by
    cases combinator with
    | descendant => exact absurd rfl signed
    | child => simpa [Combinator.symbol] using lexes_bracket (by decide)
    | nextSibling => simpa [Combinator.symbol] using lexes_plus (by simp [isDigit])
    | subsequentSibling => simpa [Combinator.symbol] using lexes_star (by decide) (by simp)
  refine (Passes.token sign ?_).trans (passes_space inner noBlank)
  rw [String.ofList_toList]
  exact stepped pos

theorem ofToken?_symbol {combinator : Combinator} (signed : combinator ≠ .descendant) (pos : Nat) :
    Combinator.ofToken? ⟨.delim, combinator.symbol, pos⟩ = some combinator := by
  cases combinator with
  | descendant => exact absurd rfl signed
  | _ => rfl

theorem ofToken?_of_opens {token : Token} (first : token.kind = .ident ∨ token.isDelim "*" = true) :
    token.kind ≠ .space ∧ Combinator.ofToken? token = none ∧
      ∀ nested, endsSelector nested token = false := by
  obtain ⟨kind, value, pos⟩ := token
  simp only [Token.isDelim, Bool.and_eq_true, beq_iff_eq] at first
  rcases first with rfl | ⟨rfl, rfl⟩
  · refine ⟨by simp, rfl, fun nested => by cases nested <;> rfl⟩
  · refine ⟨by simp, rfl, fun nested => by cases nested <;> rfl⟩

theorem toList_css_relation (base argument : Tree) (combinator : Combinator) :
    (Tree.relation base combinator argument).css.toList =
      base.css.toList ++ functionCss "has" (combinator.before.toList ++ argument.css.toList) := by
  simp [Tree.css, functionCss]

/-- Behind the parenthesis of `:has()` a combinator and the argument are read. -/
theorem passes_relative {argument : Tree} {combinator : Combinator} (inside : ReadsComplex argument)
    (grammatical : argument.Grammatical .complex) (inner : State) (host : Host) (pos : Nat)
    (follows : Follows rest) :
    ∃ left last, argument.Again (((inner.openFrame (.relation host combinator)).behind
        left last).complete last) ∧
      Passes (inner.setMode (.relative host)) pos
        (combinator.before.toList ++ argument.css.toList) rest
        ((inner.openFrame (.relation host combinator)).behind left last) := by
  by_cases unsigned : combinator = .descendant
  · subst unsigned
    refine inside _ (fun token first => ?_) rfl trivial follows
    obtain ⟨noSpace, noSign, -⟩ := ofToken?_of_opens first
    simp only [step, State.setMode, readRelative, noSpace, noSign, if_false]
    rfl
  · obtain ⟨c, cs, start, noBlank⟩ := css_tree grammatical
    have before : combinator.before.toList = combinator.symbol.toList ++ [' '] := by
      cases combinator <;> simp_all [Combinator.before]
    have sign : Passes (inner.setMode (.relative host)) pos (combinator.symbol.toList ++ [' '])
        (argument.css.toList ++ rest)
        ((inner.openFrame (.relation host combinator)).setMode .start) := by
      refine passes_combinator unsigned (fun pos => ?_) (by simpa [start] using noBlank)
      simp only [step, State.setMode, readRelative, ofToken?_symbol unsigned]
      rfl
    obtain ⟨left, last, sameArgument, second⟩ := inside
      (pos + byteSize (combinator.symbol.toList ++ [' ']))
      (opens_start (inner.openFrame (.relation host combinator))) rfl trivial follows
    rw [before]
    exact ⟨left, last, sameArgument, sign.trans second⟩

theorem ReadsFrom.relation {argument : Tree} {combinator : Combinator}
    (host : ReadsFrom state inner pos text base) (inside : ReadsComplex argument)
    (grammatical : argument.Grammatical .complex) :
    ReadsFrom state inner pos
      (text ++ functionCss "has" (combinator.before.toList ++ argument.css.toList))
      (.relation base combinator argument) := by
  intro rest follows
  obtain ⟨baseAgain, same, first⟩ := host (follows_functionCss "has" _ rest)
  have opened : openFunction inner baseAgain "has" =
      .ok (inner.setMode (.relative (inner.host baseAgain))) := by
    simp [openFunction]
  obtain ⟨left, last, sameArgument, second⟩ := passes_relative inside grammatical inner
    (inner.host baseAgain) _ (follows_parenthesis rest)
  refine ⟨_, same.relation combinator sameArgument, ?_⟩
  exact first.trans (passes_parenthesized (by simp) opened second fun _ => rfl)

theorem ReadsCompound.relation {negated : Bool} {argument : Tree} {combinator : Combinator}
    (host : ReadsCompound negated base) (inside : ReadsComplex argument)
    (grammatical : argument.Grammatical .complex) :
    ReadsCompound negated (.relation base combinator argument) := by
  intro state inner rest pos opens admits follows
  rw [toList_css_relation]
  exact ReadsFrom.relation (host.readsFrom pos opens admits) inside grammatical follows

/-! ### Joined compounds -/

/-- A compound with nothing to the left of it. -/
theorem ReadsFrom.joinsFrom {tree : Tree} (reads : ReadsFrom state inner pos text tree)
    (noLeft : inner.left = none) : JoinsFrom state inner pos text tree := by
  intro rest follows
  obtain ⟨again, same, passes⟩ := reads follows
  refine ⟨none, again, same, ?_⟩
  have here : inner.behind none again = inner.setMode (.compound again none) := by
    rw [← noLeft]
    rfl
  rwa [here]

theorem ReadsCompound.readsComplex {tree : Tree} (reads : ReadsCompound false tree) :
    ReadsComplex tree := by
  intro state inner rest pos opens noLeft joins follows
  exact (reads.readsFrom pos opens fun _ => joins.negates).joinsFrom noLeft follows

/-- Where compounds are joined, a blank ends the compound in front of it. -/
theorem step_space {left : Option (Tree × Combinator)} {last : Tree} (joins : Joins inner.frames)
    (pos : Nat) :
    step (inner.behind left last) ⟨.space, String.ofList [' '], pos⟩ =
      .ok ((inner.behind left last).setMode (.between last none)) := by
  obtain ⟨finished, frames, outer, mode⟩ := inner
  match frames, joins with
  | [], _ | .relation _ _ :: _, _ => rfl

/-- Between two compounds the combinator is read, and the reader comes to where the second one can
start. -/
theorem passes_between (joins : Joins inner.frames) (left : Option (Tree × Combinator)) (last : Tree)
    (combinator : Combinator) (pos : Nat) (noBlank : ∀ c ∈ rest.head?, isCssBlank c = false) :
    ∃ next, Opens next ((inner.behind left last).combine last combinator) ∧
      Passes (inner.behind left last) pos combinator.between.toList rest next := by
  by_cases unsigned : combinator = .descendant
  · subst unsigned
    refine ⟨_, fun token first => ?_, .token (lexes_space noBlank) (step_space joins pos)⟩
    obtain ⟨noSpace, noSign, noEnd⟩ := ofToken?_of_opens first
    simp only [step, State.setMode, continueSelector, noSpace, noSign, noEnd, if_false]
    rfl
  · have text : combinator.between.toList = [' '] ++ (combinator.symbol.toList ++ [' ']) := by
      cases combinator <;> simp_all [Combinator.between]
    have blank : ∀ c ∈ (combinator.symbol.toList ++ [' '] ++ rest).head?, isCssBlank c = false := by
      cases combinator <;> simp_all [Combinator.symbol, isCssBlank]
    have space : Passes (inner.behind left last) pos [' '] (combinator.symbol.toList ++ [' '] ++ rest)
        ((inner.behind left last).setMode (.between last none)) :=
      .token (lexes_space blank) (step_space joins pos)
    refine ⟨_, opens_start _, ?_⟩
    rw [text]
    refine space.trans (passes_combinator unsigned (fun pos => ?_) noBlank)
    have noEnd (nested : Bool) : endsSelector nested ⟨.delim, combinator.symbol, pos⟩ = false := by
      cases combinator <;> cases nested <;> rfl
    simp only [step, State.setMode, continueSelector, noEnd, ofToken?_symbol unsigned]
    rfl

theorem toList_css_combined (before after : Tree) (combinator : Combinator) :
    (Tree.combined before combinator after).css.toList =
      before.css.toList ++ (combinator.between.toList ++ after.css.toList) := by
  simp [Tree.css]

theorem follows_between (combinator : Combinator) (rest : List Char) :
    Follows (combinator.between.toList ++ rest) := by
  cases combinator <;> exact follows_cons (by decide) _

theorem JoinsFrom.combined {before after : Tree} {combinator : Combinator}
    (first : JoinsFrom state inner pos text before) (joins : Joins inner.frames)
    (second : ReadsCompound false after) (grammatical : after.Grammatical (.compound false)) :
    JoinsFrom state inner pos (text ++ (combinator.between.toList ++ after.css.toList))
      (.combined before combinator after) := by
  intro rest follows
  obtain ⟨c, cs, start, noBlank⟩ := css_tree grammatical
  have behind : Follows (combinator.between.toList ++ after.css.toList ++ rest) := by
    rw [List.append_assoc]
    exact follows_between combinator _
  obtain ⟨left, last, same, passes⟩ := first behind
  have noBlank : ∀ d ∈ (after.css.toList ++ rest).head?, isCssBlank d = false := by
    simpa [start] using noBlank
  obtain ⟨next, opensNext, between⟩ := passes_between joins left last combinator
    (pos + byteSize text) noBlank
  obtain ⟨again, sameAfter, passesAfter⟩ := second
    (pos + byteSize text + byteSize combinator.between.toList) opensNext
    (fun _ => joins.negates) follows
  refine ⟨some ((inner.behind left last).complete last, combinator), again, ?_, ?_⟩
  · exact same.combined combinator sameAfter
  · exact passes.trans (between.trans passesAfter)

theorem ReadsComplex.combined {before after : Tree} {combinator : Combinator}
    (first : ReadsComplex before) (second : ReadsCompound false after)
    (grammatical : after.Grammatical (.compound false)) :
    ReadsComplex (.combined before combinator after) := by
  intro state inner rest pos opens noLeft joins follows
  have front : JoinsFrom state inner pos before.css.toList before :=
    fun _ follows => first pos opens noLeft joins follows
  rw [toList_css_combined]
  exact front.combined joins second grammatical follows

/-! ### Alternatives -/

/-- The arguments of `:is()` are read one after the other, behind those that have been read. -/
theorem passes_listCss {kind : Alternation} {host : Host} {arguments : List Tree}
    (nonempty : arguments ≠ []) (each : ∀ argument ∈ arguments, ReadsCompound false argument)
    (grammatical : ∀ argument ∈ arguments, argument.Grammatical (.compound false))
    (read : List Tree) (pos : Nat) (rest : List Char) :
    ∃ again last, Tree.AllAgain arguments (again ++ [last]) ∧
      Passes (inner.openFrame (.alternatives kind host read)) pos (Tree.listCss arguments).toList
        ([')'] ++ rest)
        ((inner.openFrame (.alternatives kind host (again.reverse ++ read))).setMode
          (.compound last none)) := by
  induction arguments generalizing read pos with
  | nil => exact absurd rfl nonempty
  | cons argument others ih =>
    have first : ReadsCompound false argument := each argument List.mem_cons_self
    have opens := opens_openFrame inner (.alternatives kind host read)
    cases others with
    | nil =>
      obtain ⟨again, same, passes⟩ := first pos opens (fun _ => rfl) (follows_parenthesis rest)
      exact ⟨[], again, .single same, passes⟩
    | cons next others =>
      obtain ⟨c, cs, start, noBlank⟩ := css_tree (grammatical next (by simp))
      have text : (Tree.listCss (argument :: next :: others)).toList = argument.css.toList ++
          ([','] ++ ([' '] ++ (Tree.listCss (next :: others)).toList)) := by
        simp [Tree.listCss]
      -- the comma ends the first argument, and the blank behind it is skipped
      have follows : Follows ([','] ++ ([' '] ++ (Tree.listCss (next :: others)).toList) ++
          ([')'] ++ rest)) := follows_cons (by decide) _
      obtain ⟨again, same, passes⟩ := first pos opens (fun _ => rfl) follows
      obtain ⟨agains, last, sameOthers, passesOthers⟩ := ih (by simp)
        (fun other member => each other (List.mem_cons_of_mem argument member))
        (fun other member => grammatical other (List.mem_cons_of_mem argument member))
        (again :: read)
        (pos + byteSize argument.css.toList + byteSize [','] + byteSize [' '])
      refine ⟨again :: agains, last, .cons same sameOthers, ?_⟩
      have comma (pos : Nat) : Passes
          ((inner.openFrame (.alternatives kind host read)).setMode (.compound again none)) pos [',']
          ([' '] ++ (Tree.listCss (next :: others)).toList ++ ([')'] ++ rest))
          ((inner.openFrame (.alternatives kind host (again :: read))).setMode .start) :=
        .sign (lexes_bracket (by decide)) rfl
      have blank : ∀ d ∈ ((Tree.listCss (next :: others)).toList ++ ([')'] ++ rest)).head?,
          isCssBlank d = false := by
        cases others <;> simpa [Tree.listCss, start] using noBlank
      rw [text]
      refine passes.trans ((comma _).trans ((passes_space _ blank).trans ?_))
      rw [List.reverse_cons, List.append_assoc]
      exact passesOthers

/-- The name of a functional pseudo-class with alternatives. -/
def alternationName : Alternation → String
  | .matchesAny => "is"
  | .specificityAdjustment => "where"

theorem toList_css_anyOf (kind : Alternation) (base : Tree) (arguments : List Tree) :
    (Tree.anyOf kind base arguments).css.toList =
      base.css.toList ++ functionCss (alternationName kind) (Tree.listCss arguments).toList := by
  cases kind <;> simp [Tree.css, functionCss, alternationName, alternationCss]

theorem ReadsFrom.anyOf {kind : Alternation} {arguments : List Tree}
    (host : ReadsFrom state inner pos text base) (nonempty : arguments ≠ [])
    (each : ∀ argument ∈ arguments, ReadsCompound false argument)
    (grammatical : ∀ argument ∈ arguments, argument.Grammatical (.compound false)) :
    ReadsFrom state inner pos
      (text ++ functionCss (alternationName kind) (Tree.listCss arguments).toList)
      (.anyOf kind base arguments) := by
  intro rest follows
  obtain ⟨baseAgain, same, first⟩ := host (follows_functionCss (alternationName kind) _ rest)
  have known : alternationName kind ∈ ["not", "has", "is", "where"] := by
    cases kind <;> decide
  have opened : openFunction inner baseAgain (alternationName kind) =
      .ok (inner.openFrame (.alternatives kind (inner.host baseAgain) [])) := by
    cases kind <;> simp [openFunction, alternationName]
  obtain ⟨again, last, sameArguments, second⟩ :=
    passes_listCss nonempty each grammatical [] _ rest
  refine ⟨_, same.anyOf kind sameArguments, ?_⟩
  refine first.trans (passes_parenthesized known opened second fun pos => ?_)
  have closed : step ((inner.openFrame (.alternatives kind (inner.host baseAgain)
      (again.reverse ++ []))).setMode (.compound last none)) ⟨.delim, ")", pos⟩ =
      .ok (inner.setMode (.compound
        (.anyOf kind baseAgain ((again.reverse ++ []).reverse ++ [last])) none)) := rfl
  rw [closed, List.append_nil, List.reverse_reverse]

theorem ReadsCompound.anyOf {negated : Bool} {kind : Alternation} {arguments : List Tree}
    (host : ReadsCompound negated base) (nonempty : arguments ≠ [])
    (each : ∀ argument ∈ arguments, ReadsCompound false argument)
    (grammatical : ∀ argument ∈ arguments, argument.Grammatical (.compound false)) :
    ReadsCompound negated (.anyOf kind base arguments) := by
  intro state inner rest pos opens admits follows
  rw [toList_css_anyOf]
  exact ReadsFrom.anyOf (host.readsFrom pos opens admits) nonempty each grammatical follows

/-! ### Trees -/

/-- Wherever it can stand, a grammatical tree without `:scope` is read from its text. -/
theorem reads_tree {place : Place} {tree : Tree} (grammatical : tree.Grammatical place)
    (noScope : .pseudoClass "scope" ∉ tree.simples) : Reads place tree := by
  induction grammatical with
  | element qualifier named => exact ReadsCompound.element qualifier named
  | restricted _ condition host =>
    simp only [Tree.simples, List.mem_append, List.mem_singleton, not_or] at noScope
    exact ReadsCompound.restricted (host noScope.1) condition (Ne.symm noScope.2)
  | negation _ _ host inside =>
    simp only [Tree.simples, List.mem_append, not_or] at noScope
    exact ReadsCompound.negation (host noScope.1) (inside noScope.2)
  | @anyOf _ _ _ arguments _ nonempty each host inside =>
    simp only [Tree.simples, List.mem_append, not_or] at noScope
    have outside (argument : Tree) (member : argument ∈ arguments) :
        .pseudoClass "scope" ∉ argument.simples :=
      fun scope => noScope.2 (Tree.simples_subset_allSimples member scope)
    exact ReadsCompound.anyOf (host noScope.1) nonempty
      (fun argument member => inside argument member (outside argument member)) each
  | relation _ argument host inside =>
    simp only [Tree.simples, List.mem_append, not_or] at noScope
    exact ReadsCompound.relation (host noScope.1) (inside noScope.2) argument
  | single _ compound => exact ReadsCompound.readsComplex (compound noScope)
  | combined _ after first second =>
    simp only [Tree.simples, List.mem_append, not_or] at noScope
    exact ReadsComplex.combined (first noScope.1) (second noScope.2) after

/-! ### Selectors -/

/-- A pseudo-element behind a compound, up to its name. -/
theorem passes_pseudoElementName {name : String} (plain : IsName name.toList) (ends : EndsName rest)
    (state : State) (tree : Tree) :
    Passes (state.setMode (.compound tree none)) pos ([':'] ++ ([':'] ++ name.toList)) rest
      (state.setMode (.pseudoElementName tree name)) := by
  have colon (rest : List Char) : Passes (state.setMode (.compound tree none)) pos [':'] rest
      (state.setMode (.colon tree false)) := by
    refine .sign (lexes_bracket (by decide)) ?_
    rw [step_compound fun nested => by cases nested <;> rfl]
    rfl
  have second (pos : Nat) (rest : List Char) : Passes (state.setMode (.colon tree false)) pos [':']
      rest (state.setMode (.doubleColon tree)) :=
    .sign (lexes_bracket (by decide)) rfl
  exact (colon _).trans ((second _ _).trans (.name plain ends rfl))

/-- A functional pseudo-element behind a compound. -/
theorem passes_pseudoElement {call : FunctionCall} (grammatical : call.Grammatical) (state : State)
    (tree : Tree) (pos : Nat) (rest : List Char) :
    ∃ start, Passes (state.setMode (.compound tree none)) pos ([':', ':'] ++ call.css.toList) rest
      (state.setMode (.compound tree (some (.functional (call.place start))))) := by
  obtain ⟨keyword, arguments⟩ := grammatical
  have text : [':', ':'] ++ call.css.toList = [':'] ++ ([':'] ++ call.name.toList) ++ (['('] ++
      ((Token.join Token.css call.arguments).toList ++ [')'])) := by
    simp [FunctionCall.css, FunctionCall.argumentsCss]
  have opened (pos : Nat) (rest : List Char) :
      Passes (state.setMode (.pseudoElementName tree call.name)) pos ['('] rest
        (state.setMode (.pseudoElementArguments tree call.name [])) :=
    .sign (lexes_bracket (by decide)) rfl
  have collects : Collects (.pseudoElementArguments tree call.name)
      (fun read => .compound tree (some (.functional (.make call.name read.reverse)))) :=
    fun _ _ _ => rfl
  have same (start : Nat) : FunctionCall.make call.name (Token.place start call.arguments) =
      call.place start := by
    simp [FunctionCall.make, FunctionCall.place, keyword.small]
  refine ⟨pos + byteSize ([':'] ++ ([':'] ++ call.name.toList)) + byteSize ['('], ?_⟩
  rw [text, ← same, ← (Token.place _ call.arguments).reverse_reverse]
  exact (passes_pseudoElementName keyword.plain (endsName_of_not rfl (by decide)) state tree).trans
    ((opened _ _).trans (passes_arguments collects arguments rest))

end Places

/-- The state at the start of a compound that stands behind `left`, in the first selector. -/
def State.startBehind (left : Option (Tree × Combinator)) : State := ⟨[], [], left, .start⟩

/-- The selectors of a text are those that are finished behind its tokens. -/
theorem parse_eq_read (text : String) :
    parse text =
      match read .initial 0 text.toList with
      | .ok state => .ok state.finished.reverse
      | .error e => .error e := by
  unfold parse tokenize read
  cases tokensFrom 0 text.toList <;> rfl

/-- If the reader comes to the end of a text in a compound, the text denotes one selector. -/
theorem parse_of_passes {text : String} {left : Option (Tree × Combinator)} {last : Tree}
    {pseudo : Option PseudoElement} (mode : Mode)
    (passes : Passes .initial 0 text.toList [] ((State.startBehind left).setMode mode))
    (ends : ∀ pos, step ((State.startBehind left).setMode mode) ⟨.eof, "", pos⟩ =
      .ok ((State.startBehind left).finish last pseudo .done)) :
    parse text = .ok [⟨(State.startBehind left).complete last, pseudo⟩] := by
  have ran : read .initial 0 text.toList =
      .ok ((State.startBehind left).finish last pseudo .done) := by
    unfold Passes at passes
    rw [List.append_nil] at passes
    rw [passes, read, tokensFrom]
    simp [run, ends]
  rw [parse_eq_read, ran]
  rfl

end Reader

/-- What a selector writes behind its tree. -/
def pseudoElementCss (selector : Selector) : String :=
  match selector.pseudoElement with
  | none => ""
  | some pseudo => "::" ++ pseudo.css

theorem css_eq (selector : Selector) :
    selector.css = selector.tree.css ++ selector.pseudoElementCss := by
  obtain ⟨tree, pseudo⟩ := selector
  cases pseudo with
  | none => simp [css, pseudoElementCss]
  | some pseudo => simp [css, pseudoElementCss, String.append_assoc]

open Reader in
/-- If the tree of a selector is read from the start of a text, and the rest is its pseudo-element,
the text denotes the selector. -/
theorem exists_again_of_joinsFrom {selector : Selector} {front text : String}
    (reads : JoinsFrom .initial .initial 0 front.toList selector.tree)
    (grammatical : ∀ pseudo ∈ selector.pseudoElement, pseudo.Grammatical)
    (split : text = front ++ selector.pseudoElementCss) :
    ∃ again, selector.Again again ∧ parse text = .ok [again] := by
  obtain ⟨tree, pseudoElement⟩ := selector
  cases pseudoElement with
  | none =>
    obtain ⟨left, last, same, passes⟩ := @reads [] (by simp [Follows])
    have split : text.toList = front.toList := by simp [split, pseudoElementCss]
    rw [← split] at passes
    exact ⟨_, .plain same, parse_of_passes _ passes fun _ => rfl⟩
  | some pseudo =>
    -- the two colons end the last compound, and nothing of the pseudo-element goes into the tree
    have fits := grammatical pseudo rfl
    cases pseudo with
    | simple name =>
      have keyword : Text.IsKeyword name := fits
      have split : text.toList = front.toList ++ ([':'] ++ ([':'] ++ name.toList)) := by
        simp [split, pseudoElementCss, PseudoElement.css]
      obtain ⟨left, last, same, passes⟩ := @reads ([':'] ++ ([':'] ++ name.toList) ++ [])
        (follows_cons (by decide) _)
      have ends : Lexer.EndsName [] := by simp [Lexer.EndsName]
      refine ⟨_, .withPseudoElement same rfl (.refl _),
        parse_of_passes (.pseudoElementName last name) ?_ fun pos => ?_⟩
      · rw [split]
        exact passes.trans
          (passes_pseudoElementName keyword.plain ends (State.startBehind left) last)
      · have ended : step ((State.startBehind left).setMode (.pseudoElementName last name))
            ⟨.eof, "", pos⟩ = .ok ((State.startBehind left).finish last
              (some (.simple (Text.lowerCase name))) .done) := rfl
        rw [ended, keyword.small]
    | functional call =>
      have split : text.toList = front.toList ++ ([':', ':'] ++ call.css.toList) := by
        simp [split, pseudoElementCss, PseudoElement.css]
      obtain ⟨left, last, same, passes⟩ := @reads ([':', ':'] ++ call.css.toList ++ [])
        (follows_cons (by decide) _)
      obtain ⟨start, behind⟩ := passes_pseudoElement fits (State.startBehind left) last
        (0 + Lexer.byteSize front.toList) []
      have unplaced : (PseudoElement.functional (call.place start)).unplaced =
          (PseudoElement.functional call).unplaced :=
        congrArg PseudoElement.functional (call.place_unplaced start)
      have placed := FunctionCall.widens_place fits.arguments.kind_ne_eof start
      have whole := passes.trans behind
      rw [← split] at whole
      exact ⟨_, .withPseudoElement same unplaced placed, parse_of_passes _ whole fun _ => rfl⟩

open Reader in
/-- A grammatical selector without `:scope` is what its text denotes. -/
theorem Grammatical.exists_again {selector : Selector} (grammatical : selector.Grammatical)
    (noScope : .pseudoClass "scope" ∉ selector.tree.simples) :
    ∃ again, selector.Again again ∧ parse selector.css = .ok [again] := by
  have tree : ReadsComplex selector.tree := reads_tree grammatical.tree noScope
  have reads : JoinsFrom .initial .initial 0 selector.tree.css.toList selector.tree :=
    fun _ follows => tree 0 (fun _ _ => rfl) rfl trivial follows
  exact exists_again_of_joinsFrom reads grammatical.pseudoElement selector.css_eq

/-- The text of a selector that comes from a text without backslashes and has no `:scope` denotes
one selector, which is the same but for the offsets of tokens and as specific. It is printed alike
exactly if no argument directly follows a string with an escaped character. -/
theorem parse_css {text : String} {selectors : List Selector} {selector : Selector}
    (plain : '\\' ∉ text.toList) (accepted : parse text = .ok selectors)
    (member : selector ∈ selectors) (noScope : .pseudoClass "scope" ∉ selector.tree.simples) :
    ∃ again, parse selector.css = .ok [again] ∧ again.unplaced = selector.unplaced ∧
      again.specificity = selector.specificity ∧
      (again.css = selector.css ↔ selector.crowded = 0) := by
  have grammatical := grammatical_of_parse plain accepted selector member
  obtain ⟨again, read, parsed⟩ := grammatical.exists_again noScope
  exact ⟨again, parsed, read.same, read.specificity, read.css.eq_iff⟩

/-- A class, a child and a function whose arguments are a string and a name. -/
theorem parse_css_child :
    ∃ selector : Selector, parse "p.x>q:foo('a\"b' c)" = .ok [selector] ∧
      selector.css = "p.x > q:foo(\"a\\\"b\" c)" ∧
      ∃ again, parse selector.css = .ok [again] ∧ again.unplaced = selector.unplaced ∧
        again.specificity = selector.specificity ∧
        (again.css = selector.css ↔ selector.crowded = 0) := by
  have lexed : (tokenize "p.x>q:foo('a\"b' c)").toOption = some
      [⟨.ident, "p", 0⟩, ⟨.delim, ".", 1⟩, ⟨.ident, "x", 2⟩, ⟨.delim, ">", 3⟩, ⟨.ident, "q", 4⟩,
        ⟨.delim, ":", 5⟩, ⟨.ident, "foo", 6⟩, ⟨.delim, "(", 9⟩, ⟨.string, "a\"b", 10⟩,
        ⟨.space, " ", 15⟩, ⟨.ident, "c", 16⟩, ⟨.delim, ")", 17⟩, ⟨.eof, "", 18⟩] := by
    decide +kernel
  have accepted : parse "p.x>q:foo('a\"b' c)" = .ok [⟨.combined
      (.restricted (.element none (some "p")) (.className "x")) .child
      (.restricted (.element none (some "q"))
        (.function ⟨"foo", [⟨.string, "a\"b", 10⟩, ⟨.ident, "c", 16⟩]⟩)), none⟩] := by
    rw [parse_of_tokenize lexed]
    cbv
  exact ⟨_, accepted, by cbv, parse_css (by decide) accepted List.mem_cons_self (by decide)⟩

/-- Where a name directly follows a string that holds a double quote, the text is printed with a
space in between the second time. -/
theorem css_parse_css_ne :
    '\\' ∉ "x:foo('a\"b'c)".toList ∧
    ∃ selector again : Selector, parse "x:foo('a\"b'c)" = .ok [selector] ∧
      .pseudoClass "scope" ∉ selector.tree.simples ∧
      parse selector.css = .ok [again] ∧
      selector.css = "x:foo(\"a\\\"b\"c)" ∧ again.css = "x:foo(\"a\\\"b\" c)" := by
  have lexed : (tokenize "x:foo('a\"b'c)").toOption = some
      [⟨.ident, "x", 0⟩, ⟨.delim, ":", 1⟩, ⟨.ident, "foo", 2⟩, ⟨.delim, "(", 5⟩,
        ⟨.string, "a\"b", 6⟩, ⟨.ident, "c", 11⟩, ⟨.delim, ")", 12⟩, ⟨.eof, "", 13⟩] := by
    decide +kernel
  have lexedAgain : (tokenize "x:foo(\"a\\\"b\"c)").toOption = some
      [⟨.ident, "x", 0⟩, ⟨.delim, ":", 1⟩, ⟨.ident, "foo", 2⟩, ⟨.delim, "(", 5⟩,
        ⟨.string, "a\"b", 6⟩, ⟨.ident, "c", 12⟩, ⟨.delim, ")", 13⟩, ⟨.eof, "", 14⟩] := by
    decide +kernel
  have css : Selector.css ⟨.restricted (.element none (some "x"))
      (.function ⟨"foo", [⟨.string, "a\"b", 6⟩, ⟨.ident, "c", 11⟩]⟩), none⟩ =
      "x:foo(\"a\\\"b\"c)" := by
    cbv
  refine ⟨by decide, _, ⟨.restricted (.element none (some "x"))
      (.function ⟨"foo", [⟨.string, "a\"b", 6⟩, ⟨.ident, "c", 12⟩]⟩), none⟩, ?_, ?_, ?_, css, ?_⟩
  · rw [parse_of_tokenize lexed]
    cbv
  · decide
  · rw [css, parse_of_tokenize lexedAgain]
    cbv
  · cbv

end SelectorPath.Selector
