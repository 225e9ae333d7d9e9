import Mathlib
import SelectorPath.Selector.Parser

/-!
# Where reading fails

Reading fails at one token, and that token is the last one that has been looked at: the error is a
matter of the tokens up to it. If the error is that a token cannot stand where it does, it is that
very token of the list, so its description and its offset in the message are those of a token that
is there. Whatever had followed it instead, the list would have been refused in the same words.

## Main definitions

* `Reader.Blames` — an outcome finds no fault with any token but the one at hand

## Main results

* `Reader.blames_step` — a step finds no fault with any token but the one it reads
* `Reader.run_eq_error_iff` — a run fails at one of its tokens, and all before it have been read
* `Selector.ofTokens_unexpected` — an unexpected token stands in the list, and no list that is the
  same up to it is read
-/

namespace SelectorPath.Selector

namespace Reader

/-- If the outcome is that a token is unexpected, then it is this one. -/
def Blames (token : Token) (outcome : Outcome) : Prop :=
  ∀ expected found, outcome = .error (.unexpected expected found) → found = token

section Blames

variable {token : Token} {state : State} {tree : Tree} {pseudo : Option PseudoElement}

@[simp] theorem blames_ok (token : Token) (state : State) : Blames token (.ok state) := by
  intro expected found eq
  exact nomatch eq

@[simp] theorem blames_error_iff {error : SyntaxError} :
    Blames token (.error error) ↔
      ∀ expected found, error = .unexpected expected found → found = token := by
  simp [Blames]

@[simp] theorem blames_fail (expected : Expectation) (token : Token) :
    Blames token (fail expected token) := by
  simp [fail]

/-! ### One step -/

theorem blames_readSimple (fresh : Bool) : Blames token (readSimple state tree fresh token) := by
  unfold readSimple
  repeat' split
  all_goals simp

theorem blames_enter : Blames token (enter state token) := by
  unfold enter
  repeat' split
  case isFalse => exact blames_readSimple true
  all_goals simp

theorem blames_closeArgument : Blames token (closeArgument state tree token) := by
  unfold closeArgument
  repeat' split
  all_goals simp

theorem blames_closeSelector : Blames token (closeSelector state tree pseudo token) := by
  unfold closeSelector
  repeat' split
  all_goals simp

theorem blames_continueSelector : Blames token (continueSelector state tree pseudo token) := by
  unfold continueSelector
  split
  · simp
  split
  · exact blames_closeSelector
  split
  · simp
  split
  · simp
  -- the next compound starts at the same token, behind a combinator that blanks have been
  · exact blames_enter

theorem blames_leave : Blames token (leave state tree pseudo token) := by
  unfold leave
  split
  case h_3 => exact blames_continueSelector
  all_goals
    split
    · simp
    · exact blames_closeArgument

theorem blames_readCompound : Blames token (readCompound state tree pseudo token) := by
  unfold readCompound
  split
  · exact blames_leave
  split
  · simp
  · exact blames_readSimple false

theorem blames_readOperator (ns : Option String) (name : String) :
    Blames token (readOperator state tree ns name token) := by
  unfold readOperator
  repeat' split
  all_goals simp

theorem blames_readAttribute (stage : AttributeStage) :
    Blames token (readAttribute state tree stage token) := by
  cases stage with
  | named first =>
    simp only [readAttribute]
    split
    · simp
    · exact blames_readOperator none first
  | operator ns name => exact blames_readOperator ns name
  | _ =>
    simp only [readAttribute]
    repeat' split
    all_goals simp

theorem blames_openFunction (name : String) : Blames token (openFunction state tree name) := by
  unfold openFunction
  repeat' split
  all_goals simp

theorem blames_readPseudoName (fresh : Bool) :
    Blames token (readPseudoName state tree fresh token) := by
  unfold readPseudoName
  split
  · dsimp only
    split <;> simp
  · simp

theorem blames_readPseudoClass (fresh : Bool) (name : String) :
    Blames token (readPseudoClass state tree fresh name token) := by
  unfold readPseudoClass
  split
  · exact blames_openFunction name
  split
  · simp
  · exact blames_readCompound

theorem blames_readArgument (more close : Mode) :
    Blames token (readArgument state more close token) := by
  unfold readArgument
  repeat' split
  all_goals simp

theorem blames_readRelative (host : Host) : Blames token (readRelative state host token) := by
  unfold readRelative
  repeat' split
  case h_2 => exact blames_enter
  all_goals simp

end Blames

/-- A step finds no fault with any token but the one it reads. -/
theorem blames_step (state : State) (token : Token) : Blames token (step state token) := by
  unfold step
  split
  case h_1 => exact blames_enter
  case h_2 =>
    split
    · simp
    · exact blames_readCompound
  case h_4 => exact blames_readCompound
  case h_7 tree stage _ => exact blames_readAttribute stage
  case h_8 =>
    split
    · simp
    · exact blames_readPseudoName _
  case h_10 =>
    split
    · simp
    · exact blames_readCompound
  case h_11 | h_13 => exact blames_readArgument _ _
  case h_12 => exact blames_readPseudoClass _ _
  case h_14 host _ => exact blames_readRelative host
  case h_15 => exact blames_continueSelector
  case h_16 => exact blames_closeArgument
  -- the other modes expect one name or sign
  all_goals
    repeat' split
    all_goals simp

/-! ### A run -/

/-- A run fails at one of its tokens, and those before it have been read. -/
theorem run_eq_error_iff {state : State} {tokens : List Token} {error : SyntaxError} :
    run state tokens = .error error ↔
      ∃ before token after middle, tokens = before ++ token :: after ∧
        run state before = .ok middle ∧ step middle token = .error error := by
  constructor
  · intro failed
    induction tokens generalizing state with
    | nil => exact nomatch failed
    | cons token rest ih =>
      unfold run at failed
      split at failed
      · -- the first token has been read, so the rest fails from the state behind it
        rename_i next first
        obtain ⟨before, last, after, middle, rfl, ran, stopped⟩ := ih failed
        refine ⟨token :: before, last, after, middle, rfl, ?_, stopped⟩
        rw [run, first]
        exact ran
      · rename_i stopped
        rw [Except.error.inj failed] at stopped
        exact ⟨[], token, rest, state, rfl, rfl, stopped⟩
  · rintro ⟨before, token, after, middle, rfl, ran, stopped⟩
    rw [run_append, ran]
    simp only [run, stopped]

end Reader

theorem ofTokens_eq_error_iff {tokens : List Token} {error : SyntaxError} :
    ofTokens tokens = .error error ↔ Reader.run .initial tokens = .error error := by
  unfold ofTokens
  split <;> simp_all

/-- An unexpected token stands in the list that is refused, and every list that is the same up to
this token is refused for the same reason. -/
theorem ofTokens_unexpected {tokens : List Token} {expected : Expectation} {found : Token}
    (refused : ofTokens tokens = .error (.unexpected expected found)) :
    ∃ before after, tokens = before ++ found :: after ∧
      ∀ later, ofTokens (before ++ found :: later) = .error (.unexpected expected found) := by
  obtain ⟨before, token, after, middle, split, ran, stopped⟩ :=
    Reader.run_eq_error_iff.mp (ofTokens_eq_error_iff.mp refused)
  obtain rfl : found = token := Reader.blames_step middle token expected found stopped
  refine ⟨before, after, split, fun later => ?_⟩
  apply ofTokens_eq_error_iff.mpr
  apply Reader.run_eq_error_iff.mpr
  exact ⟨before, found, later, middle, rfl, ran, stopped⟩

/-- In `a:is(b,c d)` the alternative `c` ends at the blank, and neither `,` nor `)` follows. -/
theorem ofTokens_unexpected_alternative :
    let tokens : List Token :=
      [⟨.ident, "a", 0⟩, ⟨.delim, ":", 1⟩, ⟨.ident, "is", 2⟩, ⟨.delim, "(", 4⟩, ⟨.ident, "b", 5⟩,
        ⟨.delim, ",", 6⟩, ⟨.ident, "c", 7⟩, ⟨.space, " ", 8⟩, ⟨.ident, "d", 9⟩,
        ⟨.delim, ")", 10⟩, ⟨.eof, "", 11⟩]
    let found : Token := ⟨.ident, "d", 9⟩
    ofTokens tokens = .error (.unexpected .commaOrParenthesis found) ∧
      ∃ before after, tokens = before ++ found :: after ∧
        ∀ later, ofTokens (before ++ found :: later) =
          .error (.unexpected .commaOrParenthesis found) := by
  intro tokens found
  have refused : ofTokens tokens = .error (.unexpected .commaOrParenthesis found) := by cbv
  exact ⟨refused, ofTokens_unexpected refused⟩

end SelectorPath.Selector
