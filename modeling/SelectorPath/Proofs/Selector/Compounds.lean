import Mathlib
import SelectorPath.Proofs.Selector.Runs
import SelectorPath.Proofs.Text.Case

/-!
# The trees of accepted texts

The type of trees admits a condition behind joined compounds, and no text has one: what restricts,
restricts a compound, an argument of `:not()`, `:is()` and `:where()` is a compound, and only a
whole selector and the argument of `:has()` are joined, to the left. Where a compound stands also
says what may restrict it: no further `:not()` in an argument of `:not()`, and `:scope` only behind
the universal selector that a whole selector starts with. All this holds however names are escaped,
so names are only said to be in small letters here, and not to be written in some form.

The reader keeps it of the selectors that are finished, of what waits in its frames, and of the
compound it is in.

## Main definitions

* `Selector.Tree.IsShaped` — a compound, or several of them where they may be joined
* `Selector.Site`, `Selector.Tree.IsFormed` — the trees that can be read at a site
* `Selector.Reader.FormedIn` — the same for all that a state holds

## Main results

* `Selector.Reader.formed_of_moves` — every move keeps the trees formed
* `Selector.formed_of_parse` — the trees of an accepted text are formed
* `Selector.shaped_of_parse` — the trees of an accepted text are shaped
-/

namespace SelectorPath

namespace Text

/-- The text has no ASCII capital. -/
def IsSmall (text : String) : Prop := ∀ c ∈ text.toList, ¬('A' ≤ c ∧ c ≤ 'Z')

theorem isSmall_lowerCase (text : String) : IsSmall (lowerCase text) := by
  intro c member
  rw [toList_lowerCase] at member
  obtain ⟨letter, -, rfl⟩ := List.mem_map.mp member
  simp only [le_iff_toNat, toNat_toLower, Char.reduceToNat]
  split <;> omega

/-- A text without capitals is its own lower case. -/
theorem IsSmall.lowerCase_eq {text : String} (small : IsSmall text) : lowerCase text = text := by
  rw [← String.toList_inj, toList_lowerCase]
  have each : ∀ c ∈ text.toList, c.toLower = id c := fun c member => by
    have noCapital := small c member
    simp only [le_iff_toNat, Char.reduceToNat] at noCapital
    rw [id_eq, eq_iff_toNat, toNat_toLower, if_neg noCapital]
  rw [List.map_congr_left each, List.map_id]

end Text

namespace Selector

open Text

/-! ### Compounds and joined compounds -/

mutual

/-- What restricts, restricts a compound. The tree is a compound, or several of them if they may be
`joined`. -/
def Tree.IsShaped : Tree → (joined : Bool) → Prop
  | .element _ _, _ => True
  | .restricted base _, _ => base.IsShaped false
  | .negation base argument, _ => base.IsShaped false ∧ argument.IsShaped false
  | .anyOf _ base arguments, _ => base.IsShaped false ∧ Tree.AllShaped arguments
  | .relation base _ argument, _ => base.IsShaped false ∧ argument.IsShaped true
  | .combined left _ right, joined => joined = true ∧ left.IsShaped true ∧ right.IsShaped false

def Tree.AllShaped : List Tree → Prop
  | [] => True
  | tree :: rest => tree.IsShaped false ∧ Tree.AllShaped rest

end

theorem Tree.allShaped_iff {trees : List Tree} :
    Tree.AllShaped trees ↔ ∀ tree ∈ trees, tree.IsShaped false := by
  induction trees with
  | nil => simp [AllShaped]
  | cons tree rest ih => rw [AllShaped, ih, List.forall_mem_cons]

/-! ### What a site admits -/

/-- Where a tree stands. -/
structure Site where
  /-- Combinators may join compounds. -/
  joined : Bool
  /-- A whole selector starts here. -/
  leading : Bool
  /-- It is the argument of a `:not()`. -/
  negated : Bool
  deriving DecidableEq, Repr

namespace Site

/-- A whole selector. -/
def whole : Site := ⟨true, true, false⟩

/-- The argument of `:has()`. -/
def relative : Site := ⟨true, false, false⟩

/-- The argument of `:not()`. -/
def negation : Site := ⟨false, false, true⟩

/-- An argument of `:is()` and `:where()`. -/
def alternative : Site := ⟨false, false, false⟩

/-- A compound alone at the site. -/
def compound (site : Site) : Site := { site with joined := false }

/-- A compound behind a combinator at the site. -/
def behind (site : Site) : Site := { site with joined := false, leading := false }

end Site

/-- The value is there exactly if it is compared with, and it is a string or an identifier. -/
structure IsComparison (selector : AttributeSelector) : Prop where
  present : selector.value = none ↔ selector.operator = .present
  literal : ∀ token ∈ selector.value, token.kind = .string ∨ token.kind = .ident

/-- The name of a pseudo-class: in small letters, and no pseudo-element by an old spelling. -/
structure IsPseudoClassName (name : String) : Prop where
  small : IsSmall name
  noElement : name ∉ ["before", "after", "first-line", "first-letter"]

/-- The token may stand between the parentheses of a function. -/
def IsFunctionArgument (token : Token) : Prop :=
  token.kind = .ident ∨ token.kind = .string ∨ token.kind = .number ∨
    token.kind = .delim ∧ (token.value = "+" ∨ token.value = "-")

/-- The function is none of those whose argument is a selector. -/
structure IsCall (call : FunctionCall) : Prop where
  name : IsPseudoClassName call.name
  noSelector : call.name ∉ ["not", "has", "is", "matches", "where"]
  arguments : ∀ token ∈ call.arguments, IsFunctionArgument token

/-- A simple selector that can be read. -/
def Simple.IsFormed : Simple → Prop
  | .className _ | .id _ => True
  | .attribute selector => IsComparison selector
  | .pseudoClass name => IsPseudoClassName name
  | .function call => IsCall call

mutual

/-- The tree can be read at the site. -/
def Tree.IsFormed : Tree → Site → Prop
  | .element _ _, _ => True
  | .restricted base simple, site =>
    base.IsFormed site.compound ∧ simple.IsFormed ∧
      (simple = .pseudoClass "scope" → site.leading = true ∧ base = .universal)
  | .negation base argument, site =>
    site.negated = false ∧ base.IsFormed site.compound ∧ argument.IsFormed .negation
  | .anyOf _ base arguments, site =>
    base.IsFormed site.compound ∧ arguments ≠ [] ∧ Tree.AllFormed arguments
  | .relation base _ argument, site => base.IsFormed site.compound ∧ argument.IsFormed .relative
  | .combined left _ right, site =>
    site.joined = true ∧ left.IsFormed site ∧ right.IsFormed site.behind

/-- The trees can be read as the arguments of `:is()` or `:where()`. -/
def Tree.AllFormed : List Tree → Prop
  | [] => True
  | tree :: rest => tree.IsFormed .alternative ∧ Tree.AllFormed rest

end

theorem Tree.allFormed_iff {trees : List Tree} :
    Tree.AllFormed trees ↔ ∀ tree ∈ trees, tree.IsFormed .alternative := by
  induction trees with
  | nil => simp [AllFormed]
  | cons tree rest ih => rw [AllFormed, ih, List.forall_mem_cons]

@[simp] theorem Tree.isFormed_element (ns name : Option String) (site : Site) :
    (Tree.element ns name).IsFormed site := by
  rw [IsFormed]
  trivial

/-- A compound can stand wherever compounds may be joined. -/
theorem Tree.IsFormed.join {tree : Tree} {site : Site} (formed : tree.IsFormed site.compound) :
    tree.IsFormed { site with joined := true } := by
  cases tree with
  | combined left combinator right => exact absurd formed.1 (by simp [Site.compound])
  | _ => exact formed

mutual

/-- Formed trees are compounds, joined where they may be. -/
theorem Tree.IsFormed.isShaped : {tree : Tree} → {site : Site} → tree.IsFormed site →
    tree.IsShaped site.joined
  | .element _ _, _, _ => trivial
  | .restricted _ _, _, formed => formed.1.isShaped
  | .negation _ _, _, formed => ⟨formed.2.1.isShaped, formed.2.2.isShaped⟩
  | .anyOf _ _ _, _, formed => ⟨formed.1.isShaped, formed.2.2.allShaped⟩
  | .relation _ _ _, _, formed => ⟨formed.1.isShaped, formed.2.isShaped⟩
  | .combined _ _ _, _, formed => by
    have left := formed.2.1.isShaped
    rw [formed.1] at left
    exact ⟨formed.1, left, formed.2.2.isShaped⟩

theorem Tree.AllFormed.allShaped : {trees : List Tree} → Tree.AllFormed trees →
    Tree.AllShaped trees
  | [], _ => trivial
  | _ :: _, formed => ⟨formed.1.isShaped, formed.2.allShaped⟩

end

namespace Reader

/-! ### States -/

/-- The site of a selector inside the frames. -/
def siteIn (frames : List Frame) : Site := ⟨true, frames.isEmpty, negates frames⟩

/-- The site of a compound inside the frames, with `left` to the left of it. -/
def compoundIn (frames : List Frame) : (left : Option (Tree × Combinator)) → Site
  | none => (siteIn frames).compound
  | some _ => (siteIn frames).behind

/-- What stands to the left of a combinator starts the selector. -/
def LeftFormed (frames : List Frame) (left : Option (Tree × Combinator)) : Prop :=
  ∀ pair ∈ left, pair.1.IsFormed (siteIn frames)

/-- The part of a selector inside the frames can be read there. -/
structure Host.IsFormed (frames : List Frame) (host : Host) : Prop where
  left : LeftFormed frames host.left
  tree : host.tree.IsFormed (compoundIn frames host.left)

/-- What waits in the frames can be read there. -/
def FramesFormed : List Frame → Prop
  | [] => True
  | .negation host :: outer => host.IsFormed outer ∧ negates outer = false ∧ FramesFormed outer
  | .alternatives _ host read :: outer =>
    host.IsFormed outer ∧ (∀ tree ∈ read, tree.IsFormed .alternative) ∧ FramesFormed outer
  | .relation host _ :: outer => host.IsFormed outer ∧ FramesFormed outer

def AttributeStage.IsFormed : AttributeStage → Prop
  | .value _ _ comparison => comparison ≠ .present
  | .closing selector => IsComparison selector
  | _ => True

/-- What the mode holds can be read inside the frames, at the site of a compound. A colon that
starts the compound follows the universal selector. -/
def Mode.IsFormed (frames : List Frame) (site : Site) : Mode → Prop
  | .start | .typeName _ | .qualifiedName _ | .bareName | .done => True
  | .compound tree _ | .className tree | .doubleColon tree | .pseudoElementName tree _
  | .pseudoElementArguments tree _ _ | .between tree _ | .closing tree => tree.IsFormed site
  | .attribute tree stage => tree.IsFormed site ∧ stage.IsFormed
  | .colon tree fresh => tree.IsFormed site ∧ (fresh = true → tree = .universal)
  | .pseudoClassName tree fresh name =>
    (tree.IsFormed site ∧ (fresh = true → tree = .universal)) ∧ IsPseudoClassName name
  | .arguments tree name read =>
    tree.IsFormed site ∧ IsPseudoClassName name ∧ name ∉ selectorFunctions ∧
      ∀ token ∈ read, isArgument token = true
  | .relative host => host.IsFormed frames

/-- All that the state holds can be read where it stands if the reader is in the mode. -/
structure FormedIn (state : State) (mode : Mode) : Prop where
  finished : ∀ selector ∈ state.finished, selector.tree.IsFormed .whole
  frames : FramesFormed state.frames
  left : LeftFormed state.frames state.left
  mode : mode.IsFormed state.frames (compoundIn state.frames state.left)

section Formed

variable {state middle next : State} {mode inner after : Mode} {token : Token}
  {frames : List Frame} {left : Option (Tree × Combinator)}

theorem isComparison_present (ns : Option String) (name : String) :
    IsComparison ⟨ns, name, .present, none⟩ := ⟨by simp, by simp⟩

theorem StageMoves.isFormed {stage after : AttributeStage} (moves : StageMoves token stage after)
    (formed : stage.IsFormed) : after.IsFormed := by
  induction moves with
  | unqualified _ _ ih => exact ih trivial
  | dashMatch => exact fun present => by cases present
  | operator _ sign => exact ofSymbol?_ne_present sign
  | valueBlank | closingBlank => exact formed
  | value literal =>
    refine ⟨by simpa using (show _ ≠ _ from formed), fun other member => ?_⟩
    obtain rfl := Option.mem_some_iff.mp member
    simpa [Token.isLiteral] using literal
  | _ => trivial

theorem StageCloses.isComparison {stage : AttributeStage} {selector : AttributeSelector}
    (closes : StageCloses stage selector) (formed : stage.IsFormed) : IsComparison selector := by
  cases closes with
  | named | present => exact isComparison_present _ _
  | compared => exact formed

theorem isFunctionArgument_of_isArgument (argument : isArgument token = true) :
    IsFunctionArgument token := by
  simp only [isArgument, Token.isDelim, Bool.or_eq_true, Bool.and_eq_true, beq_iff_eq] at argument
  grind [IsFunctionArgument]

theorem isPseudoClassName_lowerCase {name : String}
    (other : Text.lowerCase name ∉ singleColonPseudoElements) :
    IsPseudoClassName (Text.lowerCase name) :=
  ⟨isSmall_lowerCase name, by simp_all [singleColonPseudoElements]⟩

theorem isCall_make {name : String} {read : List Token} (named : IsPseudoClassName name)
    (other : name ∉ selectorFunctions) (arguments : ∀ token ∈ read, isArgument token = true) :
    IsCall (.make name read.reverse) := by
  have same : Text.lowerCase name = name := named.small.lowerCase_eq
  refine ⟨?_, ?_, fun token member => ?_⟩
  · rwa [FunctionCall.make_name, same]
  · rw [FunctionCall.make_name, same]
    exact other
  · exact isFunctionArgument_of_isArgument (arguments token (List.mem_reverse.mp member))

theorem FormedIn.inMode {other : Mode} (formed : FormedIn state mode)
    (here : other.IsFormed state.frames (compoundIn state.frames state.left)) :
    FormedIn state other :=
  ⟨formed.finished, formed.frames, formed.left, here⟩

theorem FormedIn.setMode {other : Mode} (formed : FormedIn state mode)
    (here : other.IsFormed state.frames (compoundIn state.frames state.left)) :
    FormedIn (state.setMode other) other :=
  ⟨formed.finished, formed.frames, formed.left, here⟩

theorem FormedIn.complete {tree : Tree} (formed : FormedIn state mode)
    (here : tree.IsFormed (compoundIn state.frames state.left)) :
    (state.complete tree).IsFormed (siteIn state.frames) := by
  unfold State.complete
  cases left : state.left with
  | none =>
    rw [left] at here
    exact here.join
  | some pair =>
    rw [left] at here
    exact ⟨rfl, formed.left pair left, here⟩

theorem FormedIn.openFrame {frame : Frame} (formed : FormedIn state mode)
    (here : FramesFormed (frame :: state.frames)) : FormedIn (state.openFrame frame) .start :=
  ⟨formed.finished, here, by simp [LeftFormed, State.openFrame], trivial⟩

theorem FormedIn.inside (formed : FormedIn state mode)
    (inside : state.frames = frames) : FramesFormed frames := by
  rw [← inside]
  exact formed.frames

/-- In front of a closed frame stands its host, and behind it the host with the restriction. -/
theorem FormedIn.closeFrame {outer : List Frame} {host : Host} {tree : Tree}
    (formed : FormedIn state mode) (frames : FramesFormed outer) (before : host.IsFormed outer)
    (here : tree.IsFormed (compoundIn outer host.left)) :
    FormedIn (state.closeFrame outer host tree) (.compound tree none) :=
  ⟨formed.finished, frames, before.left, here⟩

theorem FormedIn.combine {tree : Tree} (formed : FormedIn state mode)
    (here : tree.IsFormed (compoundIn state.frames state.left)) (combinator : Combinator) :
    FormedIn (state.combine tree combinator) .start := by
  refine ⟨formed.finished, formed.frames, fun pair member => ?_, trivial⟩
  obtain rfl := Option.mem_some_iff.mp member
  exact formed.complete here

theorem FormedIn.finish {tree : Tree} {other : Mode} (formed : FormedIn state mode)
    (outside : state.frames = []) (here : tree.IsFormed (compoundIn state.frames state.left))
    (behind : other = .start ∨ other = .done) (pseudo : Option PseudoElement) :
    FormedIn (state.finish tree pseudo other) other := by
  have whole := formed.complete here
  rw [outside] at whole
  refine ⟨List.forall_mem_cons.mpr ⟨whole, formed.finished⟩, formed.frames,
    by simp [LeftFormed, State.finish], ?_⟩
  obtain rfl | rfl := behind <;> trivial

/-- Inside a frame it makes no difference what stands to the left of a compound. -/
theorem compoundIn_cons (frame : Frame) (outer : List Frame) (left : Option (Tree × Combinator)) :
    compoundIn (frame :: outer) left = ⟨false, false, negates (frame :: outer)⟩ := by
  cases left <;> rfl

/-- A compound stays at its site when it becomes the base of a restriction. -/
theorem compoundIn_compound (frames : List Frame) (left : Option (Tree × Combinator)) :
    (compoundIn frames left).compound = compoundIn frames left := by
  cases left <;> rfl

theorem compoundIn_negated (frames : List Frame) (left : Option (Tree × Combinator)) :
    (compoundIn frames left).negated = negates frames := by
  cases left <;> rfl

/-- The compound at hand is the argument of the innermost frame. -/
theorem FormedIn.argument {frame : Frame} {outer : List Frame} {tree : Tree}
    (formed : FormedIn state (.closing tree)) (inside : state.frames = frame :: outer) :
    tree.IsFormed ⟨false, false, negates (frame :: outer)⟩ := by
  have here : tree.IsFormed (compoundIn state.frames state.left) := formed.mode
  rwa [inside, compoundIn_cons] at here

theorem restrict_formed {tree : Tree} {simple : Simple}
    (here : tree.IsFormed (compoundIn frames left)) (formed : simple.IsFormed)
    (placed : simple = .pseudoClass "scope" →
      (compoundIn frames left).leading = true ∧ tree = .universal) :
    (Tree.restricted tree simple).IsFormed (compoundIn frames left) := by
  rw [Tree.IsFormed, compoundIn_compound]
  exact ⟨here, formed, placed⟩

theorem StartsSimple.isFormed {tree : Tree} {fresh : Bool}
    (starts : StartsSimple tree fresh token mode)
    (here : tree.IsFormed (compoundIn frames left)) (first : fresh = true → tree = .universal) :
    mode.IsFormed frames (compoundIn frames left) := by
  cases starts with
  | id => exact restrict_formed here trivial (by simp)
  | className => exact here
  | bareName => trivial
  | openAttribute => exact ⟨here, trivial⟩
  | colon => exact ⟨here, first⟩

theorem TypeMoves.isFormed (moves : TypeMoves token mode after) :
    after.IsFormed frames (compoundIn frames left) := by
  cases moves with
  | firstName | firstStar | qualifier => trivial
  | qualifiedName | qualifiedStar | bareName => simp [Mode.IsFormed]

theorem SimpleMoves.isFormed (moves : SimpleMoves token mode after)
    (formed : mode.IsFormed frames (compoundIn frames left)) :
    after.IsFormed frames (compoundIn frames left) := by
  cases moves with
  | first starts => exact starts.isFormed (Tree.isFormed_element _ _ _) fun _ => rfl
  | further starts => exact starts.isFormed formed (by simp)
  | className => exact restrict_formed formed trivial (by simp)
  | inAttribute moves => exact ⟨formed.1, moves.isFormed formed.2⟩
  | closeAttribute _ closes =>
    exact restrict_formed formed.1 (closes.isComparison formed.2) (by simp)

theorem PseudoElementMoves.isFormed (moves : PseudoElementMoves token mode after)
    (formed : mode.IsFormed frames (compoundIn frames left)) :
    after.IsFormed frames (compoundIn frames left) := by
  cases moves with
  | doubleColon | singleColon => exact formed.1
  | name | opens | argument | closes => exact formed

theorem PseudoClassMoves.isFormed (moves : PseudoClassMoves token mode after)
    (formed : mode.IsFormed frames (compoundIn frames left)) :
    after.IsFormed frames (compoundIn frames left) := by
  cases moves with
  | name _ other => exact ⟨formed, isPseudoClassName_lowerCase other⟩
  | opens _ other => exact ⟨formed.1.1, formed.2, other, by simp⟩
  | argument argument =>
    obtain ⟨here, name, other, read⟩ := formed
    exact ⟨here, name, other, List.forall_mem_cons.mpr ⟨argument, read⟩⟩
  | closes =>
    obtain ⟨here, name, other, read⟩ := formed
    have call : IsCall (.make _ _) := isCall_make name other read
    exact restrict_formed here call (by simp)

theorem ModeMoves.isFormed (moves : ModeMoves token mode after)
    (formed : mode.IsFormed frames (compoundIn frames left)) :
    after.IsFormed frames (compoundIn frames left) := by
  cases moves with
  | skip => exact formed
  | type moves => exact moves.isFormed
  | simple moves => exact moves.isFormed formed
  | pseudoElement moves => exact moves.isFormed formed
  | pseudoClass moves => exact moves.isFormed formed

/-- A frame keeps the compound that its argument restricts. -/
theorem OpensFrame.formed {frame : Frame} (opens : OpensFrame state token mode frame)
    (formed : FormedIn state mode) : FormedIn (state.openFrame frame) .start := by
  cases opens with
  | negation _ outermost =>
    rw [State.isNegated_eq] at outermost
    exact formed.openFrame ⟨⟨formed.left, formed.mode.1.1⟩, outermost, formed.frames⟩
  | matchesAny | adjustment =>
    exact formed.openFrame ⟨⟨formed.left, formed.mode.1.1⟩, by simp, formed.frames⟩
  | relation => exact formed.openFrame ⟨formed.mode, formed.frames⟩

/-- Behind its argument that compound is restricted. -/
theorem ClosesFrame.formed {outer : List Frame} {host : Host} {tree : Tree}
    (closes : ClosesFrame state mode outer host tree) (formed : FormedIn state mode) :
    FormedIn (state.closeFrame outer host tree) (.compound tree none) := by
  cases closes with
  | relation inside =>
    obtain ⟨before, outside⟩ := formed.inside inside
    have argument := formed.complete formed.mode
    rw [inside] at argument
    refine formed.closeFrame outside before ?_
    rw [Tree.IsFormed, compoundIn_compound]
    exact ⟨before.tree, argument⟩
  | alternatives inside =>
    obtain ⟨before, read, outside⟩ := formed.inside inside
    have argument := formed.argument inside
    refine formed.closeFrame outside before ?_
    rw [Tree.IsFormed, compoundIn_compound, Tree.allFormed_iff, List.forall_mem_append,
      List.forall_mem_singleton]
    exact ⟨before.tree, by simp, fun tree member => read tree (List.mem_reverse.mp member),
      argument⟩
  | negation inside =>
    obtain ⟨before, outermost, outside⟩ := formed.inside inside
    refine formed.closeFrame outside before ?_
    rw [Tree.IsFormed, compoundIn_compound]
    exact ⟨(compoundIn_negated _ _).trans outermost, before.tree, formed.argument inside⟩

theorem Defers.formed (defers : Defers state token mode middle inner)
    (formed : FormedIn state mode) : FormedIn middle inner := by
  cases defers with
  | unqualified => exact formed.inMode (by simp [Mode.IsFormed])
  | pseudoElement | ends | endsArgument => exact formed.inMode formed.mode
  | pseudoClass _ placed =>
    -- a colon that starts the first compound follows the universal selector
    obtain ⟨⟨here, first⟩, name⟩ := formed.mode
    refine formed.inMode (restrict_formed here name fun same => ?_)
    obtain ⟨rfl, left, frames⟩ := placed (Simple.pseudoClass.inj same)
    rw [left, frames]
    exact ⟨rfl, first rfl⟩
  | relative => exact formed.openFrame ⟨formed.mode, formed.frames⟩
  | descendant => exact formed.combine formed.mode _

/-- Every move keeps the trees formed. -/
theorem formed_of_moves (moves : Moves state mode token next) (formed : FormedIn state mode)
    (sound : Sound state.frames mode) : FormedIn next next.mode := by
  induction moves with
  | turn moves => exact formed.setMode (moves.isFormed formed.mode)
  | openRelation => exact formed.setMode ⟨formed.left, formed.mode.1.1⟩
  | opens opens => exact opens.formed formed
  | closes _ closes => exact closes.formed formed
  | nextAlternative _ inside =>
    -- the argument at hand is kept in the frame
    obtain ⟨host, read, outer⟩ := formed.inside inside
    have left := formed.left
    rw [inside] at left
    refine ⟨formed.finished, ⟨host, ?_, outer⟩, left, trivial⟩
    exact List.forall_mem_cons.mpr ⟨formed.argument inside, read⟩
  | combine => exact formed.combine formed.mode _
  | finish _ outside =>
    refine formed.finish ((sound.joins _ _ rfl).eq_nil outside) formed.mode ?_ _
    split <;> simp
  | done => exact formed.setMode trivial
  | defers defers _ ih => exact ih (defers.formed formed) defers.sound

theorem formed_of_runs {tokens : List Token} (runs : Runs state tokens next)
    (formed : FormedIn state state.mode) (sound : Sound state.frames state.mode)
    (inside : ∀ token ∈ tokens, token.kind ≠ .eof) : FormedIn next next.mode := by
  have kept := runs.keeps
    (fun state => FormedIn state state.mode ∧ Sound state.frames state.mode)
    (fun here move ⟨formed, sound⟩ =>
      ⟨formed_of_moves move formed sound, sound_of_moves move sound here⟩)
    inside ⟨formed, sound⟩
  exact kept.1

theorem formed_initial : FormedIn .initial .start := by
  constructor <;> simp [State.initial, LeftFormed, FramesFormed, Mode.IsFormed]

end Formed

end Reader

open Reader in
/-- An accepted text leads to a formed state with its selectors. -/
theorem exists_formed_of_parse {text : String} {selectors : List Selector}
    (accepted : parse text = .ok selectors) :
    ∃ state : State, FormedIn state state.mode ∧ selectors = state.finished.reverse := by
  obtain ⟨before, last, state, tree, pseudo, -, ⟨-, inside⟩, runs, finishes, rfl⟩ :=
    exists_runs_of_parse accepted
  have formed := formed_of_runs runs formed_initial (sound_start _) inside
  have sound := sound_of_runs runs (sound_start _) inside
  exact ⟨_, formed_of_moves finishes.eof formed sound, rfl⟩

/-- What is finished when a text has been read is formed. -/
theorem isFormed_of_parse {text : String} {selectors : List Selector} {selector : Selector}
    (accepted : parse text = .ok selectors) (member : selector ∈ selectors) :
    selector.tree.IsFormed .whole := by
  obtain ⟨state, formed, rfl⟩ := exists_formed_of_parse accepted
  exact formed.finished selector (List.mem_reverse.mp member)

/-- The trees of an accepted text are formed. -/
theorem formed_of_parse {text : String} {selectors : List Selector}
    (accepted : parse text = .ok selectors) :
    ∀ selector ∈ selectors, selector.tree.IsFormed .whole := by
  obtain ⟨state, formed, rfl⟩ := exists_formed_of_parse accepted
  exact fun selector member => formed.finished selector (List.mem_reverse.mp member)

/-- The first compound of a selector with `:scope`, and a negation among alternatives. -/
theorem formed_of_parse_scope :
    let tree : Tree := .combined (.restricted .universal (.pseudoClass "scope")) .child
      (.anyOf .matchesAny (.element none (some "a"))
        [.element none (some "b"),
          .negation .universal (.restricted .universal (.attribute ⟨none, "c", .present, none⟩))])
    parse ":scope>a:is(b,:not([c]))" = .ok [⟨tree, none⟩] ∧
      ∀ selector ∈ [(⟨tree, none⟩ : Selector)], selector.tree.IsFormed .whole := by
  intro tree
  have lexed : (tokenize ":scope>a:is(b,:not([c]))").toOption = some
      [⟨.delim, ":", 0⟩, ⟨.ident, "scope", 1⟩, ⟨.delim, ">", 6⟩, ⟨.ident, "a", 7⟩,
        ⟨.delim, ":", 8⟩, ⟨.ident, "is", 9⟩, ⟨.delim, "(", 11⟩, ⟨.ident, "b", 12⟩,
        ⟨.delim, ",", 13⟩, ⟨.delim, ":", 14⟩, ⟨.ident, "not", 15⟩, ⟨.delim, "(", 18⟩,
        ⟨.delim, "[", 19⟩, ⟨.ident, "c", 20⟩, ⟨.delim, "]", 21⟩, ⟨.delim, ")", 22⟩,
        ⟨.delim, ")", 23⟩, ⟨.eof, "", 24⟩] := by
    decide +kernel
  have accepted : parse ":scope>a:is(b,:not([c]))" = .ok [⟨tree, none⟩] := by
    rw [parse_of_tokenize lexed]
    cbv
  exact ⟨accepted, formed_of_parse accepted⟩

/-- The trees of an accepted text are shaped. -/
theorem shaped_of_parse {text : String} {selectors : List Selector}
    (accepted : parse text = .ok selectors) :
    ∀ selector ∈ selectors, selector.tree.IsShaped true :=
  fun _ member => (isFormed_of_parse accepted member).isShaped

end Selector

end SelectorPath
