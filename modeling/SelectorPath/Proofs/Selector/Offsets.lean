import SelectorPath.Proofs.Selector.Runs
import SelectorPath.Proofs.Token.Seam

/-!
# Reading behind other text

Where a token stands does not matter to the reader, and neither does what has been finished before.
So a selector group that stands behind other text is read as it is alone: the same selectors, but
for the offsets of their tokens, behind those of the other text.

## Main definitions

* `Selector.Tree.shift`, `Selector.shift` — all offsets later by the same distance
* `Selector.Reader.State.displace` — the same state behind other text

## Main results

* `Selector.Reader.Moves.displace`, `Selector.Reader.Runs.displace` — moves and runs behind other
  text
* `Selector.Reader.Runs.isDelim_backslash` — no backslash that escapes nothing is accepted
* `Selector.parse_append_comma` — the selectors of two texts with a comma between them
-/

namespace SelectorPath

def FunctionCall.shift (distance : Nat) (call : FunctionCall) : FunctionCall :=
  { call with arguments := call.arguments.map (Token.shift distance) }

theorem FunctionCall.shift_make (distance : Nat) (name : String) (arguments : List Token) :
    (make name arguments).shift distance = make name (arguments.map (Token.shift distance)) := rfl

def PseudoElement.shift (distance : Nat) : PseudoElement → PseudoElement
  | .simple name => .simple name
  | .functional call => .functional (call.shift distance)

def AttributeSelector.shift (distance : Nat) (selector : AttributeSelector) : AttributeSelector :=
  { selector with value := selector.value.map (Token.shift distance) }

namespace Selector

def Simple.shift (distance : Nat) : Simple → Simple
  | .attribute selector => .attribute (selector.shift distance)
  | .function call => .function (call.shift distance)
  | .className name => .className name
  | .id value => .id value
  | .pseudoClass name => .pseudoClass name

mutual

/-- The tree with all offsets later by `distance`. -/
def Tree.shift (distance : Nat) : Tree → Tree
  | .element ns name => .element ns name
  | .restricted base simple => .restricted (base.shift distance) (simple.shift distance)
  | .negation base argument => .negation (base.shift distance) (argument.shift distance)
  | .anyOf kind base arguments =>
    .anyOf kind (base.shift distance) (Tree.allShift distance arguments)
  | .relation base combinator argument =>
    .relation (base.shift distance) combinator (argument.shift distance)
  | .combined left combinator right =>
    .combined (left.shift distance) combinator (right.shift distance)

def Tree.allShift (distance : Nat) : List Tree → List Tree
  | [] => []
  | tree :: rest => tree.shift distance :: Tree.allShift distance rest

end

theorem Tree.allShift_eq_map (distance : Nat) (trees : List Tree) :
    Tree.allShift distance trees = trees.map (Tree.shift distance) := by
  induction trees with
  | nil => rfl
  | cons tree rest ih => rw [allShift, ih, List.map_cons]

end Selector

/-- The selector with all offsets later by `distance`. -/
def Selector.shift (distance : Nat) (selector : Selector) : Selector :=
  ⟨selector.tree.shift distance, selector.pseudoElement.map (PseudoElement.shift distance)⟩

namespace Selector

namespace Reader

/-! ### States behind other text -/

/-- What stands to the left of a combinator. -/
def shiftLeft (distance : Nat) (left : Option (Tree × Combinator)) : Option (Tree × Combinator) :=
  left.map fun pair => (pair.1.shift distance, pair.2)

def Host.shift (distance : Nat) (host : Host) : Host :=
  ⟨shiftLeft distance host.left, host.tree.shift distance⟩

def Frame.shift (distance : Nat) : Frame → Frame
  | .negation host => .negation (host.shift distance)
  | .alternatives kind host read =>
    .alternatives kind (host.shift distance) (read.map (Tree.shift distance))
  | .relation host combinator => .relation (host.shift distance) combinator

def AttributeStage.shift (distance : Nat) : AttributeStage → AttributeStage
  | .closing selector => .closing (selector.shift distance)
  | .opened => .opened
  | .named first => .named first
  | .starred => .starred
  | .barred first => .barred first
  | .nameless => .nameless
  | .operator ns name => .operator ns name
  | .value ns name comparison => .value ns name comparison

def Mode.shift (distance : Nat) : Mode → Mode
  | .start => .start
  | .typeName first => .typeName first
  | .qualifiedName ns => .qualifiedName ns
  | .compound tree pseudo =>
    .compound (tree.shift distance) (pseudo.map (PseudoElement.shift distance))
  | .className tree => .className (tree.shift distance)
  | .bareName => .bareName
  | .attribute tree stage => .attribute (tree.shift distance) (stage.shift distance)
  | .colon tree fresh => .colon (tree.shift distance) fresh
  | .doubleColon tree => .doubleColon (tree.shift distance)
  | .pseudoElementName tree name => .pseudoElementName (tree.shift distance) name
  | .pseudoElementArguments tree name read =>
    .pseudoElementArguments (tree.shift distance) name (read.map (Token.shift distance))
  | .pseudoClassName tree fresh name => .pseudoClassName (tree.shift distance) fresh name
  | .arguments tree name read =>
    .arguments (tree.shift distance) name (read.map (Token.shift distance))
  | .relative host => .relative (host.shift distance)
  | .between tree pseudo =>
    .between (tree.shift distance) (pseudo.map (PseudoElement.shift distance))
  | .closing argument => .closing (argument.shift distance)
  | .done => .done

/-- The state behind other text: all offsets are later by `distance`, and the selectors in `earlier`
are finished already. -/
def State.displace (distance : Nat) (earlier : List Selector) (state : State) : State where
  finished := state.finished.map (Selector.shift distance) ++ earlier
  frames := state.frames.map (Frame.shift distance)
  left := shiftLeft distance state.left
  mode := state.mode.shift distance

section Displace

variable {distance : Nat} {earlier : List Selector} {state middle next : State}
  {mode inner after : Mode} {token : Token}

theorem State.closeFrame_displace (outer : List Frame) (host : Host) (tree : Tree) :
    (state.closeFrame outer host tree).displace distance earlier =
      (state.displace distance earlier).closeFrame (outer.map (Frame.shift distance))
        (host.shift distance) (tree.shift distance) := rfl

theorem State.frames_displace {frames : List Frame} (inside : state.frames = frames) :
    (state.displace distance earlier).frames = frames.map (Frame.shift distance) :=
  congrArg (List.map (Frame.shift distance)) inside

@[simp] theorem State.isNested_displace :
    (state.displace distance earlier).isNested = state.isNested := by
  simp [isNested, displace]

theorem State.complete_displace (tree : Tree) :
    (state.displace distance earlier).complete (tree.shift distance) =
      (state.complete tree).shift distance := by
  obtain ⟨finished, frames, left, mode⟩ := state
  cases left <;> rfl

theorem State.combine_displace (tree : Tree) (combinator : Combinator) :
    (state.combine tree combinator).displace distance earlier =
      (state.displace distance earlier).combine (tree.shift distance) combinator := by
  rw [combine, combine, complete_displace]
  rfl

theorem State.finish_displace (tree : Tree) (pseudo : Option PseudoElement) (mode : Mode) :
    (state.finish tree pseudo mode).displace distance earlier =
      (state.displace distance earlier).finish (tree.shift distance)
        (pseudo.map (PseudoElement.shift distance)) (mode.shift distance) := by
  rw [finish, finish, complete_displace]
  rfl

theorem joins_map_shift {frames : List Frame} :
    Joins (frames.map (Frame.shift distance)) ↔ Joins frames := by
  match frames with
  | [] | .negation _ :: _ | .alternatives _ _ _ :: _ | .relation _ _ :: _ => rfl

theorem State.isNegated_displace :
    (state.displace distance earlier).isNegated = state.isNegated := by
  rw [isNegated_eq, isNegated_eq]
  match frames : state.frames with
  | [] | .negation _ :: _ | .alternatives _ _ _ :: _ | .relation _ _ :: _ =>
    simp [displace, frames, Frame.shift, negates]

theorem StartsSimple.shift {tree : Tree} {fresh : Bool}
    (starts : StartsSimple tree fresh token mode) :
    StartsSimple (tree.shift distance) fresh (token.shift distance) (mode.shift distance) := by
  cases starts with
  | id hash => exact .id hash
  | className point => exact .className point
  | bareName bar => exact .bareName bar
  | openAttribute bracket => exact .openAttribute bracket
  | colon colon => exact .colon colon

theorem StageMoves.shift {stage after : AttributeStage} (moves : StageMoves token stage after) :
    StageMoves (token.shift distance) (stage.shift distance) (after.shift distance) := by
  induction moves with
  | openedBlank space => exact .openedBlank space
  | named ident => exact .named ident
  | starred star => exact .starred star
  | namedBar bar => exact .namedBar bar
  | unqualified noBar _ ih => exact .unqualified noBar ih
  | starredBar bar => exact .starredBar bar
  | dashMatch equals => exact .dashMatch equals
  | nameless equals => exact .nameless equals
  | qualified ident => exact .qualified ident
  | operatorBlank space => exact .operatorBlank space
  | operator delim sign => exact .operator delim sign
  | valueBlank space => exact .valueBlank space
  | value literal => exact .value literal
  | closingBlank space => exact .closingBlank space

theorem StageCloses.shift {stage : AttributeStage} {selector : AttributeSelector}
    (closes : StageCloses stage selector) :
    StageCloses (stage.shift distance) (selector.shift distance) := by
  cases closes with
  | named => exact .named
  | present => exact .present
  | compared => exact .compared

theorem Mode.SkipsBlank.shift (skips : mode.SkipsBlank) : (mode.shift distance).SkipsBlank := by
  cases skips with
  | start => exact .start
  | pseudoElementArguments => exact .pseudoElementArguments
  | arguments => exact .arguments
  | relative => exact .relative
  | between => exact .between
  | closing => exact .closing

theorem TypeMoves.shift (moves : TypeMoves token mode after) :
    TypeMoves (token.shift distance) (mode.shift distance) (after.shift distance) := by
  cases moves with
  | firstName ident => exact .firstName ident
  | firstStar star => exact .firstStar star
  | qualifier bar => exact .qualifier bar
  | qualifiedName ident => exact .qualifiedName ident
  | qualifiedStar star => exact .qualifiedStar star
  | bareName ident => exact .bareName ident

theorem SimpleMoves.shift (moves : SimpleMoves token mode after) :
    SimpleMoves (token.shift distance) (mode.shift distance) (after.shift distance) := by
  cases moves with
  | first starts => exact .first starts.shift
  | further starts => exact .further starts.shift
  | className ident => exact .className ident
  | inAttribute moves => exact .inAttribute moves.shift
  | closeAttribute bracket closes => exact .closeAttribute bracket closes.shift

theorem PseudoElementMoves.shift (moves : PseudoElementMoves token mode after) :
    PseudoElementMoves (token.shift distance) (mode.shift distance) (after.shift distance) := by
  cases moves with
  | doubleColon colon => exact .doubleColon colon
  | singleColon ident known => exact .singleColon ident known
  | name ident => exact .name ident
  | opens parenthesis => exact .opens parenthesis
  | argument argument => exact .argument argument
  | closes parenthesis =>
    simp only [Mode.shift, Option.map_some, PseudoElement.shift, FunctionCall.shift_make,
      List.map_reverse]
    exact .closes parenthesis

theorem PseudoClassMoves.shift (moves : PseudoClassMoves token mode after) :
    PseudoClassMoves (token.shift distance) (mode.shift distance) (after.shift distance) := by
  cases moves with
  | name ident other => exact .name ident other
  | opens parenthesis other => exact .opens parenthesis other
  | argument argument => exact .argument argument
  | closes parenthesis =>
    simp only [Mode.shift, Option.map_none, Tree.shift, Simple.shift, FunctionCall.shift_make,
      List.map_reverse]
    exact .closes parenthesis

theorem ModeMoves.shift (moves : ModeMoves token mode after) :
    ModeMoves (token.shift distance) (mode.shift distance) (after.shift distance) := by
  cases moves with
  | skip space skips => exact .skip space skips.shift
  | type moves => exact .type moves.shift
  | simple moves => exact .simple moves.shift
  | pseudoElement moves => exact .pseudoElement moves.shift
  | pseudoClass moves => exact .pseudoClass moves.shift

theorem OpensFrame.displace {frame : Frame} (opens : OpensFrame state token mode frame) :
    OpensFrame (state.displace distance earlier) (token.shift distance) (mode.shift distance)
      (frame.shift distance) := by
  cases opens with
  | negation parenthesis outermost =>
    exact .negation parenthesis (by rw [State.isNegated_displace]; exact outermost)
  | matchesAny parenthesis known => exact .matchesAny parenthesis known
  | adjustment parenthesis => exact .adjustment parenthesis
  | relation sign => exact .relation sign

theorem ClosesFrame.displace {outer : List Frame} {host : Host} {tree : Tree}
    (closes : ClosesFrame state mode outer host tree) :
    ClosesFrame (state.displace distance earlier) (mode.shift distance)
      (outer.map (Frame.shift distance)) (host.shift distance) (tree.shift distance) := by
  cases closes with
  | relation inside =>
    rw [Tree.shift, ← State.complete_displace]
    exact .relation (State.frames_displace inside)
  | alternatives inside =>
    rw [Tree.shift, Tree.allShift_eq_map, List.map_append, List.map_reverse]
    exact .alternatives (State.frames_displace inside)
  | negation inside => exact .negation (State.frames_displace inside)

theorem Defers.displace (defers : Defers state token mode middle inner) :
    Defers (state.displace distance earlier) (token.shift distance) (mode.shift distance)
      (middle.displace distance earlier) (inner.shift distance) := by
  cases defers with
  | unqualified noBar => exact .unqualified noBar
  | pseudoElement noCall => exact .pseudoElement noCall
  | pseudoClass noCall placed =>
    -- `:scope` asks for the first place of a selector, and not of the text
    refine .pseudoClass noCall fun scope => ?_
    obtain ⟨fresh, left, frames⟩ := placed scope
    exact ⟨fresh, by simp [State.displace, left, shiftLeft], by simp [State.displace, frames]⟩
  | ends ends joins =>
    exact .ends (by rw [State.isNested_displace]; exact ends) (joins_map_shift.mpr joins)
  | endsArgument ends single =>
    exact .endsArgument (by rw [State.isNested_displace]; exact ends)
      (mt joins_map_shift.mp single)
  | relative noBlank noSign => exact .relative noBlank noSign
  | descendant noBlank goesOn noSign =>
    rw [State.combine_displace]
    exact .descendant noBlank (by rw [State.isNested_displace]; exact goesOn) noSign

/-- Behind other text no frame of `:has()` appears. -/
theorem State.outside_displace
    (outside : ∀ host combinator outer, state.frames ≠ .relation host combinator :: outer)
    (host : Host) (combinator : Combinator) (outer : List Frame) :
    (state.displace distance earlier).frames ≠ .relation host combinator :: outer := by
  intro inside
  obtain ⟨frame, _, frames, relation, _⟩ := List.map_eq_cons_iff.mp inside
  cases frame with
  | relation host combinator => exact outside _ _ _ frames
  | negation | alternatives => cases relation

/-- Behind other text the reader moves alike. -/
theorem Moves.displace (moves : Moves state mode token next) :
    Moves (state.displace distance earlier) (mode.shift distance) (token.shift distance)
      (next.displace distance earlier) := by
  induction moves with
  | turn moves => exact .turn moves.shift
  | openRelation parenthesis => exact .openRelation parenthesis
  | opens opens => exact .opens opens.displace
  | closes parenthesis closes =>
    rw [State.closeFrame_displace]
    exact .closes parenthesis closes.displace
  | nextAlternative comma inside => exact .nextAlternative comma (State.frames_displace inside)
  | combine sign =>
    rw [State.combine_displace]
    exact .combine sign
  | finish ends outside =>
    rw [State.finish_displace, apply_ite (Mode.shift distance)]
    exact .finish (by rw [State.isNested_displace]; exact ends) (State.outside_displace outside)
  | done => exact .done
  | defers defers _ ih => exact .defers defers.displace ih

/-- Behind other text a run is the same. -/
theorem Runs.displace {tokens : List Token} (runs : Runs state tokens next) :
    Runs (state.displace distance earlier) (tokens.map (Token.shift distance))
      (next.displace distance earlier) := by
  induction runs with
  | nil state => exact .nil _
  | cons first _ ih => exact .cons first.displace ih

end Displace

/-! ### Backslashes -/

section Backslash

variable {state next : State} {mode : Mode} {token : Token}

/-- A backslash that escapes nothing is not accepted anywhere. -/
theorem Moves.isDelim_backslash (moves : Moves state mode token next) (reading : mode ≠ .done) :
    token.isDelim "\\" = false := by
  induction moves with
  | turn moves => exact moves.isPart.isDelim_backslash
  | opens opens => exact opens.isPart.isDelim_backslash
  | openRelation sign | closes sign | nextAlternative sign =>
    exact (isPart_of_isDelim sign (by decide)).isDelim_backslash
  | combine sign => exact (isPart_of_sign sign).isDelim_backslash
  | finish ends =>
    refine Bool.eq_false_iff.mpr fun lone => ?_
    obtain ⟨delim, value⟩ := kind_of_isDelim lone
    simp [endsSelector, Token.isDelim, delim, value] at ends
  | done => exact absurd rfl reading
  | defers defers _ ih => exact ih defers.sound.reading

theorem Runs.isDelim_backslash {tokens : List Token} (runs : Runs state tokens next)
    (sound : Sound state.frames state.mode) (inside : ∀ token ∈ tokens, token.kind ≠ .eof) :
    ∀ token ∈ tokens, token.isDelim "\\" = false := by
  induction runs with
  | nil => simp
  | cons first _ ih =>
    obtain ⟨notEof, inside⟩ := List.forall_mem_cons.mp inside
    exact List.forall_mem_cons.mpr ⟨first.isDelim_backslash sound.reading,
      ih (sound_of_moves first sound notEof) inside⟩

end Backslash

end Reader

open Reader in
/-- The selectors of two texts with a comma between them are those of the first, and those of the
second at later offsets. -/
theorem parse_append_comma {first second : String} {before after : List Selector}
    (closed : ¬Lexer.HasOpenComment first) (acceptedFirst : parse first = .ok before)
    (acceptedSecond : parse second = .ok after) :
    parse (first ++ "," ++ second) =
      .ok (before ++ after.map (Selector.shift (first.utf8ByteSize + 1))) := by
  obtain ⟨tokens, last, state, tree, pseudo, lexed, ⟨-, inside⟩, runs, finishes, rfl⟩ :=
    exists_runs_of_parse acceptedFirst
  obtain ⟨tokensBehind, lastBehind, stateBehind, treeBehind, pseudoBehind, lexedBehind, -,
    runsBehind, finishesBehind, rfl⟩ := exists_runs_of_parse acceptedSecond
  -- behind the comma the reader stands as in front of the second text, with the first finished
  let distance := first.utf8ByteSize + 1
  let earlier := (state.finish tree pseudo .done).finished
  have between : state.finish tree pseudo .start = State.initial.displace distance earlier := by
    rw [State.finish, finishes.frames]
    rfl
  have comma := finishes.comma ⟨.delim, ",", first.utf8ByteSize⟩ rfl
  rw [between] at comma
  have behind := runsBehind.append (runs_singleton_iff.mpr finishesBehind.eof)
  have ran := run_eq_ok_iff.mpr (runs.append (.cons comma behind.displace))
  have lexedBoth := tokenize_append_comma lexed lexedBehind closed
    (runs.isDelim_backslash (sound_start _) inside)
  unfold parse ofTokens
  rw [lexedBoth]
  simp only
  rw [ran]
  simp [State.displace, earlier, distance]

end Selector

end SelectorPath
