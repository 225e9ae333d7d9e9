import SelectorPath.Proofs.Selector.Reprint
import SelectorPath.Proofs.Selector.Runs

/-!
# What becomes of the simple selectors of a text

A `#`, a `.` and a `[` each start a simple selector. The reader keeps a simple selector that it has
read: it is part of the compound at hand, of what waits in a frame or to the left of a combinator,
or of a finished selector. There is one exception. A `|` where a simple selector could stand starts
a type selector without namespace, and that takes the place of all that has been read of the
compound. So the nodes of the trees and those of the compounds that have been replaced are together
as many as the tokens.

## Main definitions

* `Selector.Mark` — the simple selectors that a token of their own starts
* `Selector.Tree.tally`, `Selector.Reader.State.tally` — how many of them there are in a tree and in
  all that a state holds
* `Selector.Reader.replaced`, `Selector.Reader.allReplaced` — the compounds that a `|` replaces

## Main results

* `Selector.Reader.tally_of_moves`, `Selector.Reader.tally_of_runs` — one step, and then a run,
  neither loses nor invents a simple selector otherwise
* `Selector.tally_of_parse` — the account of a whole text, and when the trees hold all of it
-/

namespace SelectorPath.Selector

/-- A simple selector that a token of its own starts. -/
inductive Mark
  | hash
  | point
  | bracket
  deriving DecidableEq, Repr

namespace Mark

/-- The token starts such a simple selector. -/
def starts : Mark → Token → Bool
  | .hash, token => token.kind == .hash
  | .point, token => token.isDelim "."
  | .bracket, token => token.isDelim "["

/-- The simple selector is of this sort. -/
def marks : Mark → Simple → Bool
  | .hash, .id _ | .point, .className _ | .bracket, .attribute _ => true
  | _, _ => false

end Mark

/-! ### Counting -/

section Tally

variable (mark : Mark)

/-- How many simple selectors of the sort a tree has, those in arguments too. -/
def Tree.tally (tree : Tree) : Nat := tree.simples.countP mark.marks

/-- How many several trees have together. -/
def Tree.allTally (trees : List Tree) : Nat := (Tree.allSimples trees).countP mark.marks

@[simp] theorem Tree.tally_element (ns name : Option String) :
    (Tree.element ns name).tally mark = 0 := rfl

@[simp] theorem Tree.tally_restricted (base : Tree) (simple : Simple) :
    (Tree.restricted base simple).tally mark =
      base.tally mark + if mark.marks simple then 1 else 0 := by
  simp [tally, simples, List.countP_singleton]

@[simp] theorem Tree.tally_negation (base argument : Tree) :
    (Tree.negation base argument).tally mark = base.tally mark + argument.tally mark := by
  simp [tally, simples]

@[simp] theorem Tree.tally_anyOf (kind : Alternation) (base : Tree) (arguments : List Tree) :
    (Tree.anyOf kind base arguments).tally mark =
      base.tally mark + Tree.allTally mark arguments := by
  simp [tally, allTally, simples]

@[simp] theorem Tree.tally_relation (base : Tree) (combinator : Combinator) (argument : Tree) :
    (Tree.relation base combinator argument).tally mark =
      base.tally mark + argument.tally mark := by
  simp [tally, simples]

@[simp] theorem Tree.tally_combined (left : Tree) (combinator : Combinator) (right : Tree) :
    (Tree.combined left combinator right).tally mark = left.tally mark + right.tally mark := by
  simp [tally, simples]

@[simp] theorem Tree.allTally_nil : Tree.allTally mark [] = 0 := rfl

@[simp] theorem Tree.allTally_cons (tree : Tree) (rest : List Tree) :
    Tree.allTally mark (tree :: rest) = tree.tally mark + Tree.allTally mark rest := by
  simp [allTally, allSimples, tally]

@[simp] theorem Tree.allTally_append (before after : List Tree) :
    Tree.allTally mark (before ++ after) =
      Tree.allTally mark before + Tree.allTally mark after := by
  induction before with
  | nil => simp
  | cons tree rest ih => simp [ih, Nat.add_assoc]

@[simp] theorem Tree.allTally_reverse (trees : List Tree) :
    Tree.allTally mark trees.reverse = Tree.allTally mark trees := by
  induction trees with
  | nil => rfl
  | cons tree rest ih => simp [ih, Nat.add_comm]

theorem Tree.allTally_eq_zero_iff (trees : List Tree) :
    Tree.allTally mark trees = 0 ↔ ∀ tree ∈ trees, tree.tally mark = 0 := by
  induction trees with
  | nil => simp
  | cons tree rest ih => simp [ih]

namespace Reader

/-- What stands to the left of a combinator. -/
def tallyLeft (left : Option (Tree × Combinator)) : Nat :=
  match left with
  | none => 0
  | some (tree, _) => tree.tally mark

@[simp] theorem tallyLeft_none : tallyLeft mark none = 0 := rfl

@[simp] theorem tallyLeft_some (tree : Tree) (combinator : Combinator) :
    tallyLeft mark (some (tree, combinator)) = tree.tally mark := rfl

def Host.tally (host : Host) : Nat := tallyLeft mark host.left + host.tree.tally mark

def Frame.tally : Frame → Nat
  | .negation host | .relation host _ => host.tally mark
  | .alternatives _ host read => host.tally mark + Tree.allTally mark read

/-- The compound at hand, with the simple selector that has been started. -/
def Mode.tally : Mode → Nat
  | .start | .typeName _ | .qualifiedName _ | .bareName | .done => 0
  | .compound tree _ | .colon tree _ | .doubleColon tree | .pseudoElementName tree _
  | .pseudoElementArguments tree _ _ | .pseudoClassName tree _ _ | .arguments tree _ _
  | .between tree _ | .closing tree => tree.tally mark
  | .className tree => tree.tally mark + if mark = .point then 1 else 0
  | .attribute tree _ => tree.tally mark + if mark = .bracket then 1 else 0
  | .relative host => host.tree.tally mark

theorem Mode.tally_compound (tree : Tree) (pseudo : Option PseudoElement) :
    (Mode.compound tree pseudo).tally mark = tree.tally mark := rfl

theorem Mode.tally_between (tree : Tree) (pseudo : Option PseudoElement) :
    (Mode.between tree pseudo).tally mark = tree.tally mark := rfl

/-- All that has been read if the reader is in the mode and otherwise in the state. -/
def tallyIn (state : State) (mode : Mode) : Nat :=
  Tree.allTally mark (state.finished.map Selector.tree)
    + (state.frames.map (Frame.tally mark)).sum + tallyLeft mark state.left + mode.tally mark

/-- All that has been read. -/
def State.tally (state : State) : Nat := tallyIn mark state state.mode

theorem tally_setMode (state : State) (mode : Mode) :
    (state.setMode mode).tally mark = tallyIn mark state mode := rfl

theorem tally_complete (state : State) (tree : Tree) :
    (state.complete tree).tally mark = tallyLeft mark state.left + tree.tally mark := by
  unfold State.complete
  split
  · rename_i left
    simp [left]
  · rename_i left
    simp [left]

/-- A frame is opened around nothing if it holds what is at hand. -/
theorem tally_openFrame {state : State} {frame : Frame} {mode : Mode}
    (held : frame.tally mark = tallyLeft mark state.left + mode.tally mark) :
    (state.openFrame frame).tally mark = tallyIn mark state mode := by
  simp only [State.tally, State.openFrame, tallyIn, List.map_cons, List.sum_cons, tallyLeft_none,
    Mode.tally, held]
  omega

theorem tally_relation {state : State} {host : Host} {combinator : Combinator}
    (same : host.left = state.left) : (Frame.relation host combinator).tally mark =
      tallyLeft mark state.left + (Mode.relative host).tally mark := by
  rw [Frame.tally, Host.tally, same]
  rfl

/-- Behind a closed frame stands what it held, with what is at hand. -/
theorem tally_closeFrame {state : State} {frame : Frame} {outer : List Frame} {host : Host}
    {tree : Tree} {mode : Mode} (inside : state.frames = frame :: outer)
    (held : tallyLeft mark host.left + tree.tally mark =
      frame.tally mark + (tallyLeft mark state.left + mode.tally mark)) :
    (state.closeFrame outer host tree).tally mark = tallyIn mark state mode := by
  simp only [State.tally, State.closeFrame, tallyIn, inside, List.map_cons, List.sum_cons,
    Mode.tally_compound]
  omega

theorem tally_combine (state : State) (tree : Tree) (combinator : Combinator) :
    (state.combine tree combinator).tally mark = tallyIn mark state (.between tree none) := by
  simp [State.tally, State.combine, tallyIn, Mode.tally, tally_complete, Nat.add_assoc]

theorem tally_finish (state : State) (tree : Tree) (pseudo : Option PseudoElement) {mode : Mode}
    (nothing : mode.tally mark = 0) :
    (state.finish tree pseudo mode).tally mark = tallyIn mark state (.between tree pseudo) := by
  simp only [State.tally, State.finish, tallyIn, List.map_cons, Tree.allTally_cons, tally_complete,
    tallyLeft_none, Mode.tally_between, nothing]
  omega

end Reader

end Tally

namespace Reader

/-! ### One step -/

/-- The compound whose place a `|` takes. -/
def replaced (mode : Mode) (token : Token) : List Tree :=
  if token.isDelim "|" then
    match mode with
    | .compound tree none => [tree]
    | .pseudoClassName tree _ name => [.restricted tree (.pseudoClass name)]
    | _ => []
  else []

section Step

variable {mark : Mark} {state middle next : State} {mode inner after : Mode} {token : Token}

/-- The token neither starts a simple selector nor replaces a compound. -/
def IsPlain (mark : Mark) (token : Token) : Prop :=
  mark.starts token = false ∧ token.isDelim "|" = false

theorem isPlain_of_kind (kind : token.kind ≠ .hash ∧ token.kind ≠ .delim) : IsPlain mark token := by
  cases mark <;> simp [IsPlain, Mark.starts, Token.isDelim, kind]

theorem isPlain_of_isDelim {symbol : String} (sign : token.isDelim symbol = true)
    (other : symbol ∉ [".", "[", "|"]) : IsPlain mark token := by
  obtain ⟨delim, value⟩ := kind_of_isDelim sign
  simp only [List.mem_cons, List.not_mem_nil, or_false, not_or] at other
  cases mark <;> simp [IsPlain, Mark.starts, Token.isDelim, delim, value, other]

theorem isPlain_of_isArgument (argument : isArgument token = true) : IsPlain mark token := by
  simp only [isArgument, Bool.or_eq_true, beq_iff_eq] at argument
  obtain (((ident | string) | number) | plus) | minus := argument
  · exact isPlain_of_kind (by simp [ident])
  · exact isPlain_of_kind (by simp [string])
  · exact isPlain_of_kind (by simp [number])
  · exact isPlain_of_isDelim plus (by decide)
  · exact isPlain_of_isDelim minus (by decide)

theorem isPlain_of_sign {combinator : Combinator}
    (sign : Combinator.ofToken? token = some combinator) : IsPlain mark token :=
  isPlain_of_isDelim (isDelim_of_sign sign) (by cases combinator <;> decide)

theorem isPlain_of_endsSelector {nested : Bool} (ends : endsSelector nested token = true) :
    IsPlain mark token := by
  simp only [endsSelector, Bool.or_eq_true, Bool.and_eq_true, beq_iff_eq] at ends
  obtain (eof | comma) | ⟨-, parenthesis⟩ := ends
  · exact isPlain_of_kind (by simp [eof])
  · exact isPlain_of_isDelim comma (by decide)
  · exact isPlain_of_isDelim parenthesis (by decide)

variable (mark) in
/-- Inside an attribute selector no other simple selector starts. -/
theorem starts_of_stageMoves {stage after : AttributeStage} (moves : StageMoves token stage after) :
    mark.starts token = false := by
  induction moves with
  | unqualified _ _ ih => exact ih
  | operator delim sign =>
    cases mark with
    | hash => simp [Mark.starts, delim]
    | point | bracket =>
      -- neither sign is one of an operator
      refine Bool.eq_false_iff.mpr fun start => ?_
      rw [(kind_of_isDelim start).2] at sign
      exact absurd sign (by decide +revert)
  | value literal =>
    simp only [Token.isLiteral, Bool.or_eq_true, beq_iff_eq] at literal
    rcases literal with string | ident
    · exact (isPlain_of_kind (by simp [string])).1
    · exact (isPlain_of_kind (by simp [ident])).1
  | namedBar bar | starredBar bar =>
    obtain ⟨delim, value⟩ := kind_of_isDelim bar
    cases mark <;> simp [Mark.starts, Token.isDelim, delim, value]
  | starred sign | dashMatch sign | nameless sign => exact (isPlain_of_isDelim sign (by decide)).1
  | openedBlank kind | named kind | qualified kind | operatorBlank kind | valueBlank kind
    | closingBlank kind => exact (isPlain_of_kind (by simp [kind])).1

theorem replaced_of_noBar (noBar : token.isDelim "|" = false) (mode : Mode) :
    replaced mode token = [] := by
  simp [replaced, noBar]

theorem replaced_of_isPlain (plain : IsPlain mark token) (mode : Mode) : replaced mode token = [] :=
  replaced_of_noBar plain.2 mode

theorem isDelim_bar_of_endsCompound {nested : Bool} (ends : endsCompound nested token = true) :
    token.isDelim "|" = false := by
  refine Bool.eq_false_iff.mpr fun bar => ?_
  obtain ⟨delim, value⟩ := kind_of_isDelim bar
  simp [endsCompound, Token.isDelim, delim, value] at ends

theorem OpensFrame.isPlain {frame : Frame} (opens : OpensFrame state token mode frame) :
    IsPlain mark token := by
  obtain parenthesis | ⟨combinator, sign⟩ := opens.consumes
  · exact isPlain_of_isDelim parenthesis (by decide)
  · exact isPlain_of_sign sign

/-- A plain token is not counted, and takes no place. -/
theorem account_of_isPlain (plain : IsPlain mark token) {before behind : Nat}
    (same : behind = before) (mode : Mode) :
    behind + Tree.allTally mark (replaced mode token) =
      before + if mark.starts token then 1 else 0 := by
  simp [replaced_of_isPlain plain, plain.1, same]

/-! #### The mode -/

variable (mark)

/-- The first token of a simple selector is counted at once, and a `|` takes the place of what
stands there. -/
theorem StartsSimple.tally {tree : Tree} {fresh : Bool}
    (starts : StartsSimple tree fresh token mode) :
    mode.tally mark + (if token.isDelim "|" then tree.tally mark else 0) =
      tree.tally mark + if mark.starts token then 1 else 0 := by
  cases starts with
  | id hash => cases mark <;> simp [Mode.tally, Token.isDelim, Mark.starts, Mark.marks, hash]
  | className sign | bareName sign | openAttribute sign | colon sign =>
    obtain ⟨delim, value⟩ := kind_of_isDelim sign
    cases mark <;> simp [Mode.tally, Token.isDelim, Mark.starts, delim, value]

theorem TypeMoves.tally (moves : TypeMoves token mode after) :
    after.tally mark + Tree.allTally mark (replaced mode token) =
      mode.tally mark + if mark.starts token then 1 else 0 := by
  cases moves with
  | firstName ident | qualifiedName ident | bareName ident =>
    exact account_of_isPlain (isPlain_of_kind (by simp [ident])) rfl _
  | firstStar star | qualifiedStar star =>
    exact account_of_isPlain (isPlain_of_isDelim star (by decide)) rfl _
  | qualifier bar =>
    -- behind the first name a `|` takes no place
    have plain := starts_of_stageMoves mark (StageMoves.starredBar bar)
    simp [replaced, plain, Mode.tally]

/-- A class and an attribute selector are counted when they start, and kept when they are
complete. -/
theorem SimpleMoves.tally (moves : SimpleMoves token mode after) :
    after.tally mark + Tree.allTally mark (replaced mode token) =
      mode.tally mark + if mark.starts token then 1 else 0 := by
  cases moves with
  | first starts => simpa [replaced, Tree.universal, Mode.tally] using starts.tally mark
  | further starts =>
    have counted := starts.tally mark
    rw [replaced, Mode.tally_compound, ← counted]
    split <;> simp
  | className ident =>
    refine account_of_isPlain (isPlain_of_kind (by simp [ident])) ?_ _
    cases mark <;> simp [Mode.tally, Mark.marks]
  | inAttribute moves =>
    have plain := starts_of_stageMoves mark moves
    simp [replaced, plain, Mode.tally]
  | closeAttribute bracket =>
    refine account_of_isPlain (isPlain_of_isDelim bracket (by decide)) ?_ _
    cases mark <;> simp [Mode.tally, Mark.marks]

theorem PseudoElementMoves.tally (moves : PseudoElementMoves token mode after) :
    after.tally mark + Tree.allTally mark (replaced mode token) =
      mode.tally mark + if mark.starts token then 1 else 0 := by
  cases moves with
  | singleColon ident | name ident =>
    exact account_of_isPlain (isPlain_of_kind (by simp [ident])) rfl _
  | argument argument => exact account_of_isPlain (isPlain_of_isArgument argument) rfl _
  | doubleColon sign | opens sign | closes sign =>
    exact account_of_isPlain (isPlain_of_isDelim sign (by decide)) rfl _

theorem PseudoClassMoves.tally (moves : PseudoClassMoves token mode after) :
    after.tally mark + Tree.allTally mark (replaced mode token) =
      mode.tally mark + if mark.starts token then 1 else 0 := by
  cases moves with
  | name ident => exact account_of_isPlain (isPlain_of_kind (by simp [ident])) rfl _
  | opens sign => exact account_of_isPlain (isPlain_of_isDelim sign (by decide)) rfl _
  | argument argument => exact account_of_isPlain (isPlain_of_isArgument argument) rfl _
  | closes sign =>
    exact account_of_isPlain (isPlain_of_isDelim sign (by decide))
      (by simp [Mode.tally, Mark.marks]) _

theorem ModeMoves.tally (moves : ModeMoves token mode after) :
    after.tally mark + Tree.allTally mark (replaced mode token) =
      mode.tally mark + if mark.starts token then 1 else 0 := by
  cases moves with
  | skip space => exact account_of_isPlain (isPlain_of_kind (by simp [space])) rfl _
  | type moves => exact moves.tally mark
  | simple moves => exact moves.tally mark
  | pseudoElement moves => exact moves.tally mark
  | pseudoClass moves => exact moves.tally mark

/-! #### The state -/

theorem OpensFrame.tally {frame : Frame} (opens : OpensFrame state token mode frame)
    (operands : Operands state mode) :
    (state.openFrame frame).tally mark = tallyIn mark state mode := by
  cases opens with
  | negation | matchesAny | adjustment => exact tally_openFrame mark rfl
  | relation => exact tally_openFrame mark (tally_relation mark (operands.relative _ rfl))

theorem ClosesFrame.tally {outer : List Frame} {host : Host} {tree : Tree}
    (closes : ClosesFrame state mode outer host tree) (placed : Placed state.left state.frames) :
    (state.closeFrame outer host tree).tally mark = tallyIn mark state mode := by
  cases closes with
  | relation inside =>
    refine tally_closeFrame mark inside ?_
    simp only [Tree.tally_relation, tally_complete, Frame.tally, Host.tally, Mode.tally]
    omega
  | alternatives inside | negation inside =>
    -- An argument of these is a single compound, so nothing stands to its left.
    rw [inside] at placed
    refine tally_closeFrame mark inside ?_
    simp [Frame.tally, Host.tally, Mode.tally, placed.1, Nat.add_assoc]

/-- A token that is looked at again takes the place of the same compounds. -/
theorem Defers.replaced (defers : Defers state token mode middle inner) :
    replaced inner token = replaced mode token := by
  cases defers with
  | unqualified noBar => simp [Reader.replaced, noBar]
  | ends ends | endsArgument ends =>
    simp only [replaced_of_noBar (isDelim_bar_of_endsCompound ends)]
  | pseudoElement | pseudoClass | relative | descendant => rfl

theorem Defers.tally (defers : Defers state token mode middle inner)
    (operands : Operands state mode) : tallyIn mark middle inner = tallyIn mark state mode := by
  cases defers with
  | unqualified | pseudoElement | pseudoClass => simp [tallyIn, Mode.tally, Mark.marks]
  | ends | endsArgument => rfl
  | relative => exact tally_openFrame mark (tally_relation mark (operands.relative _ rfl))
  | descendant => exact tally_combine mark state _ _

/-- One step keeps all that has been read, but for a compound that is replaced, and adds the simple
selector that the token starts. -/
theorem tally_of_moves (moves : Moves state mode token next) (operands : Operands state mode)
    (sound : Sound state.frames mode) :
    next.tally mark + Tree.allTally mark (replaced mode token) =
      tallyIn mark state mode + if mark.starts token then 1 else 0 := by
  induction moves with
  | turn moves =>
    -- what is finished, in the frames and on the left stays as it is
    have counted := moves.tally mark
    simp only [tally_setMode, tallyIn]
    omega
  | openRelation sign => exact account_of_isPlain (isPlain_of_isDelim sign (by decide)) rfl _
  | opens opens => exact account_of_isPlain opens.isPlain (opens.tally mark operands) _
  | closes parenthesis closes =>
    exact account_of_isPlain (isPlain_of_isDelim parenthesis (by decide))
      (closes.tally mark operands.placed) _
  | nextAlternative comma inside =>
    refine account_of_isPlain (isPlain_of_isDelim comma (by decide)) ?_ _
    simp only [State.tally, tallyIn, inside, List.map_cons, List.sum_cons, Frame.tally, Mode.tally,
      Tree.allTally_cons]
    omega
  | combine sign => exact account_of_isPlain (isPlain_of_sign sign) (tally_combine mark _ _ _) _
  | finish ends outside =>
    refine account_of_isPlain (isPlain_of_endsSelector ends) (tally_finish mark _ _ _ ?_) _
    split <;> rfl
  | done => exact absurd rfl sound.reading
  | defers defers _ ih =>
    -- looked at again, the token finds the same count and takes the same place
    have behind := ih (defers.operands operands sound) defers.sound
    rwa [defers.replaced, defers.tally mark operands] at behind

end Step

/-! ### A whole run -/

/-- The compounds that are replaced while the tokens are read. -/
def allReplaced (state : State) : List Token → List Tree
  | [] => []
  | token :: rest =>
    replaced state.mode token ++
      match step state token with
      | .ok next => allReplaced next rest
      | .error _ => []

theorem allReplaced_cons {state next : State} {token : Token}
    (move : Moves state state.mode token next) (rest : List Token) :
    allReplaced state (token :: rest) = replaced state.mode token ++ allReplaced next rest := by
  rw [allReplaced, step_eq_ok_iff.mpr move]

theorem allReplaced_append {state next : State} {before : List Token}
    (runs : Runs state before next) (after : List Token) :
    allReplaced state (before ++ after) = allReplaced state before ++ allReplaced next after := by
  induction runs with
  | nil => rfl
  | cons move _ ih =>
    rw [List.cons_append, allReplaced_cons move, allReplaced_cons move, ih, List.append_assoc]

/-- What has been read before, and what the tokens start, is what the state holds afterwards and
what has been replaced. -/
theorem tally_of_runs (mark : Mark) {state next : State} {tokens : List Token}
    (runs : Runs state tokens next) (operands : Operands state state.mode)
    (sound : Sound state.frames state.mode) (inside : ∀ token ∈ tokens, token.kind ≠ .eof) :
    next.tally mark + Tree.allTally mark (allReplaced state tokens) =
      state.tally mark + tokens.countP mark.starts := by
  induction runs with
  | nil => rfl
  | @cons state middle next token rest move others ih =>
    have here := inside token List.mem_cons_self
    -- what the first move adds and replaces, and then the rest of the run
    have counted := tally_of_moves mark move operands sound
    have behind := ih (operands_of_moves move operands sound) (sound_of_moves move sound here)
      fun token member => inside token (List.mem_cons_of_mem _ member)
    rw [allReplaced_cons move, Tree.allTally_append, List.countP_cons]
    change _ = tallyIn mark state state.mode + _
    omega

end Reader

open Reader in
/-- The trees of a text and the compounds that a `|` has replaced have together as many nodes for
ids, classes and attribute selectors as the text has tokens that start one. So the trees alone have
as many exactly if there is none in a compound that has been replaced. -/
theorem tally_of_parse {text : String} {tokens : List Token} {selectors : List Selector}
    (lexed : tokenize text = .ok tokens) (accepted : parse text = .ok selectors) (mark : Mark) :
    Tree.allTally mark (selectors.map Selector.tree)
        + Tree.allTally mark (allReplaced .initial tokens) = tokens.countP mark.starts ∧
      (Tree.allTally mark (selectors.map Selector.tree) = tokens.countP mark.starts ↔
        ∀ tree ∈ allReplaced .initial tokens, tree.tally mark = 0) := by
  have account : Tree.allTally mark (selectors.map Selector.tree)
      + Tree.allTally mark (allReplaced .initial tokens) = tokens.countP mark.starts := by
    obtain ⟨before, last, state, tree, pseudo, same, ⟨eof, inside⟩, runs, finishes, rfl⟩ :=
      exists_runs_of_parse accepted
    obtain rfl := Except.ok.inj (lexed.symm.trans same)
    have counted := tally_of_runs mark runs operands_initial (sound_start _) inside
    have ended := tally_of_moves mark finishes.eof
      (operands_of_runs runs operands_initial (sound_start _) inside)
      (sound_of_runs runs (sound_start _) inside)
    have plain : IsPlain mark last := isPlain_of_kind (by simp [eof])
    have nothing : State.tally mark .initial = 0 := rfl
    -- At the end nothing is left but the finished selectors.
    have all : (state.finish tree pseudo .done).tally mark =
        Tree.allTally mark ((state.finish tree pseudo .done).finished.map Selector.tree) := by
      simp [State.tally, tallyIn, State.finish, finishes.frames, Mode.tally]
    rw [allReplaced_append runs, allReplaced_cons finishes.eof, replaced_of_isPlain plain,
      List.countP_append, List.countP_singleton, List.map_reverse, Tree.allTally_reverse, ← all]
    simp only [replaced_of_isPlain plain, Tree.allTally_nil, allReplaced, List.append_nil,
      plain.1] at ended ⊢
    change _ = State.tally mark state + _ at ended
    omega
  refine ⟨account, ?_⟩
  rw [← Tree.allTally_eq_zero_iff]
  omega

/-- An id, and a class and an attribute selector in a negation. -/
theorem tally_of_parse_negation :
    ∃ tokens selectors, tokenize "p#x:not(.y[z])" = .ok tokens ∧
      parse "p#x:not(.y[z])" = .ok selectors ∧
      Tree.allTally .bracket (selectors.map Selector.tree)
        + Tree.allTally .bracket (Reader.allReplaced .initial tokens)
          = tokens.countP Mark.bracket.starts ∧
      (Tree.allTally .bracket (selectors.map Selector.tree) = tokens.countP Mark.bracket.starts ↔
        ∀ tree ∈ Reader.allReplaced .initial tokens, tree.tally .bracket = 0) := by
  have lexed : (tokenize "p#x:not(.y[z])").toOption = some
      [⟨.ident, "p", 0⟩, ⟨.hash, "x", 1⟩, ⟨.delim, ":", 3⟩, ⟨.ident, "not", 4⟩, ⟨.delim, "(", 7⟩,
        ⟨.delim, ".", 8⟩, ⟨.ident, "y", 9⟩, ⟨.delim, "[", 10⟩, ⟨.ident, "z", 11⟩,
        ⟨.delim, "]", 12⟩, ⟨.delim, ")", 13⟩, ⟨.eof, "", 14⟩] := by
    decide +kernel
  have accepted : parse "p#x:not(.y[z])" = .ok [⟨.negation
      (.restricted (.element none (some "p")) (.id "x"))
      (.restricted (.restricted .universal (.className "y"))
        (.attribute ⟨none, "z", .present, none⟩)), none⟩] := by
    rw [parse_of_tokenize lexed]
    cbv
  exact ⟨_, _, tokenize_eq_ok lexed, accepted,
    tally_of_parse (tokenize_eq_ok lexed) accepted .bracket⟩

/-- A `|` behind a class takes the place of the class. -/
theorem tally_parse_bareName :
    ∃ tokens selectors, tokenize ".a|b" = .ok tokens ∧ parse ".a|b" = .ok selectors ∧
      tokens.countP Mark.point.starts = 1 ∧
      Tree.allTally .point (selectors.map Selector.tree) = 0 := by
  have lexed : (tokenize ".a|b").toOption = some
      [⟨.delim, ".", 0⟩, ⟨.ident, "a", 1⟩, ⟨.delim, "|", 2⟩, ⟨.ident, "b", 3⟩, ⟨.eof, "", 4⟩] := by
    decide +kernel
  have accepted : parse ".a|b" = .ok [⟨.element none (some "b"), none⟩] := by
    rw [parse_of_tokenize lexed]
    cbv
  exact ⟨_, _, tokenize_eq_ok lexed, accepted, by decide, by decide⟩

end SelectorPath.Selector
