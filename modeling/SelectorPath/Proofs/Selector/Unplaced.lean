import SelectorPath.Proofs.Selector.Reprint
import SelectorPath.Selector.Parser

/-!
# Reading without offsets

The reader decides by the kinds and values of tokens and never by their offsets. So setting all
offsets to zero can be done before a step or after it, and two lists of tokens that differ in their
offsets alone are read alike: both fail, or both give the same selectors up to offsets.

## Main definitions

* `Selector.Reader.State.unplaced`, `Selector.SyntaxError.unplaced` — all offsets set to zero
* `Selector.Reader.Outcome.unplaced` — what a step leads to, without offsets

## Main results

* `Selector.Reader.step_unplaced`, `Selector.Reader.run_unplaced` — steps and runs without offsets
* `Selector.ofTokens_unplaced` — the selectors of tokens that differ in their offsets
-/

namespace SelectorPath

/-- A call is made of the arguments read, the last of which came first. -/
theorem FunctionCall.unplaced_make (name : String) (read : List Token) :
    (make name read.reverse).unplaced = make name (read.map Token.unplaced).reverse := by
  rw [unplaced, make_arguments, List.map_reverse]
  rfl

namespace Selector

open Text

/-- The error without the offsets of the tokens in it. -/
def SyntaxError.unplaced : SyntaxError → SyntaxError
  | .unexpected expected found => .unexpected expected found.unplaced
  | .pseudoElementNotAtEnd pseudo => .pseudoElementNotAtEnd pseudo.unplaced
  | .pseudoElementInArgument pseudo => .pseudoElementInArgument pseudo.unplaced
  | error => error

theorem Tree.allUnplaced_eq_map (trees : List Tree) :
    Tree.allUnplaced trees = trees.map Tree.unplaced := by
  induction trees with
  | nil => rfl
  | cons tree rest ih => rw [allUnplaced, ih, List.map_cons]

namespace Reader

/-! ### States without offsets -/

/-- What stands to the left of a combinator. -/
def unplacedLeft (left : Option (Tree × Combinator)) : Option (Tree × Combinator) :=
  left.map fun pair => (pair.1.unplaced, pair.2)

def Host.unplaced (host : Host) : Host := ⟨unplacedLeft host.left, host.tree.unplaced⟩

def Frame.unplaced : Frame → Frame
  | .negation host => .negation host.unplaced
  | .alternatives kind host read => .alternatives kind host.unplaced (read.map Tree.unplaced)
  | .relation host combinator => .relation host.unplaced combinator

def AttributeStage.unplaced : AttributeStage → AttributeStage
  | .closing selector => .closing selector.unplaced
  | stage => stage

def Mode.unplaced : Mode → Mode
  | .compound tree pseudo => .compound tree.unplaced (pseudo.map PseudoElement.unplaced)
  | .className tree => .className tree.unplaced
  | .attribute tree stage => .attribute tree.unplaced stage.unplaced
  | .colon tree fresh => .colon tree.unplaced fresh
  | .doubleColon tree => .doubleColon tree.unplaced
  | .pseudoElementName tree name => .pseudoElementName tree.unplaced name
  | .pseudoElementArguments tree name read =>
    .pseudoElementArguments tree.unplaced name (read.map Token.unplaced)
  | .pseudoClassName tree fresh name => .pseudoClassName tree.unplaced fresh name
  | .arguments tree name read => .arguments tree.unplaced name (read.map Token.unplaced)
  | .relative host => .relative host.unplaced
  | .between tree pseudo => .between tree.unplaced (pseudo.map PseudoElement.unplaced)
  | .closing argument => .closing argument.unplaced
  | mode => mode

/-- The state without offsets. -/
def State.unplaced (state : State) : State where
  finished := state.finished.map Selector.unplaced
  frames := state.frames.map Frame.unplaced
  left := unplacedLeft state.left
  mode := state.mode.unplaced

/-- What a step leads to, without offsets. -/
def Outcome.unplaced : Outcome → Outcome
  | .ok state => .ok state.unplaced
  | .error error => .error error.unplaced

section Unplaced

variable (state : State) (token : Token) (tree : Tree) (pseudo : Option PseudoElement)

@[simp] theorem Outcome.unplaced_ok :
    Outcome.unplaced (.ok state) = .ok state.unplaced := rfl

@[simp] theorem State.isNested_unplaced : state.unplaced.isNested = state.isNested := by
  simp [isNested, unplaced]

@[simp] theorem State.isNegated_unplaced : state.unplaced.isNegated = state.isNegated := by
  obtain ⟨finished, frames, left, mode⟩ := state
  match frames with
  | [] | .negation _ :: _ | .alternatives _ _ _ :: _ | .relation _ _ :: _ => rfl

@[simp] theorem State.complete_unplaced :
    state.unplaced.complete tree.unplaced = (state.complete tree).unplaced := by
  obtain ⟨finished, frames, left, mode⟩ := state
  cases left <;> rfl

theorem State.combine_unplaced (combinator : Combinator) :
    (state.combine tree combinator).unplaced =
      state.unplaced.combine tree.unplaced combinator := by
  rw [combine, combine, complete_unplaced]
  rfl

theorem State.closeFrame_unplaced (outer : List Frame) (host : Host) :
    (state.closeFrame outer host tree).unplaced =
      state.unplaced.closeFrame (outer.map Frame.unplaced) host.unplaced tree.unplaced := rfl

theorem State.finish_unplaced (mode : Mode) :
    (state.finish tree pseudo mode).unplaced =
      state.unplaced.finish tree.unplaced (pseudo.map PseudoElement.unplaced) mode.unplaced := by
  rw [finish, finish, complete_unplaced]
  rfl

/-! ### Steps without offsets -/

theorem readSimple_unplaced (fresh : Bool) :
    (readSimple state tree fresh token).unplaced =
      readSimple state.unplaced tree.unplaced fresh token.unplaced := by
  simp only [readSimple, apply_ite Outcome.unplaced]
  rfl

theorem enter_unplaced :
    (enter state token).unplaced = enter state.unplaced token.unplaced := by
  simp only [enter, apply_ite Outcome.unplaced, readSimple_unplaced]
  rfl

theorem closeArgument_unplaced :
    (closeArgument state tree token).unplaced =
      closeArgument state.unplaced tree.unplaced token.unplaced := by
  obtain ⟨finished, frames, left, mode⟩ := state
  match frames with
  | [] | .relation _ _ :: _ | .negation _ :: _ =>
    simp only [closeArgument, apply_ite Outcome.unplaced]
    rfl
  | .alternatives kind host read :: outer =>
    have whole : (Tree.anyOf kind host.tree (read.reverse ++ [tree])).unplaced =
        .anyOf kind host.unplaced.tree ((read.map Tree.unplaced).reverse ++ [tree.unplaced]) := by
      simp [Tree.unplaced, Tree.allUnplaced_eq_map, Host.unplaced]
    simp only [closeArgument, apply_ite Outcome.unplaced, Outcome.unplaced_ok,
      State.closeFrame_unplaced, whole]
    rfl

theorem closeSelector_unplaced :
    (closeSelector state tree pseudo token).unplaced =
      closeSelector state.unplaced tree.unplaced (pseudo.map PseudoElement.unplaced)
        token.unplaced := by
  obtain ⟨finished, frames, left, mode⟩ := state
  match frames with
  | [] | .alternatives _ _ _ :: _ | .negation _ :: _ =>
    simp only [closeSelector, Outcome.unplaced_ok, State.finish_unplaced, apply_ite Mode.unplaced]
    rfl
  | .relation host combinator :: outer =>
    cases pseudo with
    | some pseudo => rfl
    | none =>
      simp only [closeSelector, apply_ite Outcome.unplaced, Outcome.unplaced_ok,
        State.closeFrame_unplaced, Tree.unplaced, ← State.complete_unplaced]
      rfl

theorem continueSelector_unplaced :
    (continueSelector state tree pseudo token).unplaced =
      continueSelector state.unplaced tree.unplaced (pseudo.map PseudoElement.unplaced)
        token.unplaced := by
  unfold continueSelector
  simp only [apply_ite Outcome.unplaced, closeSelector_unplaced, State.isNested_unplaced]
  cases pseudo with
  | some pseudo => rfl
  | none =>
    cases sign : Combinator.ofToken? token with
    | none =>
      have same : Combinator.ofToken? token.unplaced = none := sign
      simp only [enter_unplaced, State.combine_unplaced, same]
      rfl
    | some combinator =>
      have same : Combinator.ofToken? token.unplaced = some combinator := sign
      simp only [Outcome.unplaced_ok, State.combine_unplaced, same]
      rfl

theorem leave_unplaced :
    (leave state tree pseudo token).unplaced =
      leave state.unplaced tree.unplaced (pseudo.map PseudoElement.unplaced) token.unplaced := by
  obtain ⟨finished, frames, left, mode⟩ := state
  match frames with
  | [] | .relation _ _ :: _ => exact continueSelector_unplaced _ token tree pseudo
  | .negation _ :: _ | .alternatives _ _ _ :: _ =>
    cases pseudo with
    | some pseudo => rfl
    | none => exact closeArgument_unplaced _ token tree

theorem readCompound_unplaced :
    (readCompound state tree pseudo token).unplaced =
      readCompound state.unplaced tree.unplaced (pseudo.map PseudoElement.unplaced)
        token.unplaced := by
  unfold readCompound
  simp only [apply_ite Outcome.unplaced, leave_unplaced, State.isNested_unplaced]
  cases pseudo with
  | some pseudo => rfl
  | none =>
    rw [readSimple_unplaced]
    rfl

theorem readOperator_unplaced (ns : Option String) (name : String) :
    (readOperator state tree ns name token).unplaced =
      readOperator state.unplaced tree.unplaced ns name token.unplaced := by
  unfold readOperator
  have value : token.unplaced.value = token.value := rfl
  rw [value]
  cases AttributeOperator.ofSymbol? token.value <;>
    · simp only [apply_ite Outcome.unplaced]
      rfl

theorem readAttribute_unplaced (stage : AttributeStage) :
    (readAttribute state tree stage token).unplaced =
      readAttribute state.unplaced tree.unplaced stage.unplaced token.unplaced := by
  cases stage with
  | named first =>
    simp only [readAttribute, apply_ite Outcome.unplaced, readOperator_unplaced]
    rfl
  | operator ns name => exact readOperator_unplaced state token tree ns name
  | barred first =>
    cases first <;>
    · simp only [readAttribute, apply_ite Outcome.unplaced]
      rfl
  | opened | starred | nameless | value | closing =>
    simp only [readAttribute, apply_ite Outcome.unplaced]
    rfl

theorem readPseudoName_unplaced (fresh : Bool) :
    (readPseudoName state tree fresh token).unplaced =
      readPseudoName state.unplaced tree.unplaced fresh token.unplaced := by
  simp only [readPseudoName, apply_ite Outcome.unplaced]
  rfl

theorem openFunction_unplaced (name : String) :
    (openFunction state tree name).unplaced =
      openFunction state.unplaced tree.unplaced name := by
  simp only [openFunction, apply_ite Outcome.unplaced, State.isNegated_unplaced]
  rfl

theorem readPseudoClass_unplaced (fresh : Bool) (name : String) :
    (readPseudoClass state tree fresh name token).unplaced =
      readPseudoClass state.unplaced tree.unplaced fresh name token.unplaced := by
  -- where the scope may stand does not depend on offsets
  have left : state.unplaced.left.isNone = state.left.isNone := Option.isNone_map
  have frames : state.unplaced.frames.isEmpty = state.frames.isEmpty := List.isEmpty_map
  simp only [readPseudoClass, apply_ite Outcome.unplaced, openFunction_unplaced,
    readCompound_unplaced, left, frames]
  rfl

theorem readArgument_unplaced (more close : Mode) :
    (readArgument state more close token).unplaced =
      readArgument state.unplaced more.unplaced close.unplaced token.unplaced := by
  simp only [readArgument, apply_ite Outcome.unplaced]
  rfl

theorem readRelative_unplaced (host : Host) :
    (readRelative state host token).unplaced =
      readRelative state.unplaced host.unplaced token.unplaced := by
  unfold readRelative
  simp only [apply_ite Outcome.unplaced]
  cases sign : Combinator.ofToken? token with
  | none =>
    have same : Combinator.ofToken? token.unplaced = none := sign
    simp only [enter_unplaced, same]
    rfl
  | some combinator =>
    have same : Combinator.ofToken? token.unplaced = some combinator := sign
    simp only [same]
    rfl

/-- Offsets can be set to zero before a step or after it. -/
theorem step_unplaced : (step state token).unplaced = step state.unplaced token.unplaced := by
  obtain ⟨finished, frames, left, mode⟩ := state
  -- the modes differ in what they call; no call looks at an offset
  cases mode with
  | start => exact enter_unplaced _ token
  | typeName first =>
    simp only [step, apply_ite Outcome.unplaced, readCompound_unplaced]
    rfl
  | compound tree pseudo => exact readCompound_unplaced _ token tree pseudo
  | «attribute» tree stage => exact readAttribute_unplaced _ token tree stage
  | colon tree fresh =>
    simp only [step, apply_ite Outcome.unplaced, readPseudoName_unplaced]
    rfl
  | pseudoElementName tree name =>
    simp only [step, apply_ite Outcome.unplaced, readCompound_unplaced]
    rfl
  | pseudoElementArguments tree name read =>
    simp only [step, readArgument_unplaced, Mode.unplaced, Option.map_some,
      PseudoElement.unplaced, FunctionCall.unplaced_make]
    rfl
  | pseudoClassName tree fresh name => exact readPseudoClass_unplaced _ token tree fresh name
  | arguments tree name read =>
    simp only [step, readArgument_unplaced, Mode.unplaced, Option.map_none, Tree.unplaced,
      Simple.unplaced, FunctionCall.unplaced_make]
    rfl
  | relative host => exact readRelative_unplaced _ token host
  | between tree pseudo => exact continueSelector_unplaced _ token tree pseudo
  | closing argument => exact closeArgument_unplaced _ token argument
  | qualifiedName | className | bareName | doubleColon | done =>
    simp only [step, apply_ite Outcome.unplaced]
    rfl

/-- Offsets can be set to zero before a run or after it. -/
theorem run_unplaced (tokens : List Token) :
    (run state tokens).unplaced = run state.unplaced (tokens.map Token.unplaced) := by
  induction tokens generalizing state with
  | nil => rfl
  | cons token rest ih =>
    rw [List.map_cons, run, run, ← step_unplaced]
    cases step state token with
    | ok next => exact ih next
    | error error => rfl

end Unplaced

end Reader

open Reader in
/-- Where one of two lists of tokens that differ in their offsets alone is read, the other is, as
the same selectors up to offsets. -/
theorem ofTokens_unplaced {tokens others : List Token} {selectors : List Selector}
    (same : others.map Token.unplaced = tokens.map Token.unplaced)
    (accepted : ofTokens tokens = .ok selectors) :
    ∃ again, ofTokens others = .ok again ∧
      again.map Selector.unplaced = selectors.map Selector.unplaced := by
  have alike : (run .initial others).unplaced = (run .initial tokens).unplaced := by
    rw [run_unplaced, run_unplaced, same]
  unfold ofTokens at accepted ⊢
  split at accepted
  · rename_i state ran
    obtain rfl := Except.ok.inj accepted
    rw [ran] at alike
    cases read : run .initial others with
    | ok other =>
      rw [read] at alike
      have finished := congrArg State.finished (Except.ok.inj alike)
      refine ⟨other.finished.reverse, rfl, ?_⟩
      rw [List.map_reverse, List.map_reverse]
      exact congrArg List.reverse finished
    | error error =>
      rw [read] at alike
      cases alike
  · cases accepted

end Selector

end SelectorPath
