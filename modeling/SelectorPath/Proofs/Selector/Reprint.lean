import Mathlib
import SelectorPath.Proofs.Token.Unescaped
import SelectorPath.Selector.Printer
import SelectorPath.Selector.Specificity

/-!
# Printing what was read from print

The offsets of tokens are all that a selector loses when it is printed and read again. They still
matter for the text: the arguments of a function are printed with a space for each gap that the
offsets show, and a string with an escaped character seems to end too early. So an argument that
directly follows such a string is printed with a space in front of it the second time.

## Main definitions

* `Token.unplaced`, `Selector.Tree.unplaced`, `Selector.unplaced` — all offsets set to zero
* `Selector.Tree.simples` — the simple selectors of a tree, in the order of the text
* `Token.crowded`, `Selector.crowded` — the number of arguments that directly follow a string with
  an escaped character
* `Token.place` — arguments at the offsets of their text
* `Selector.Tree.Again` — a tree and what is read from its text

## Main results

* `Token.widens_place` — the text of placed arguments
* `Selector.specificity_unplaced` — offsets do not count in the specificity
-/

namespace SelectorPath

/-! ### Offsets -/

namespace Token

/-- The token without its offset. -/
def unplaced (token : Token) : Token := { token with pos := 0 }

end Token

/-- The call without the offsets of its arguments. -/
def FunctionCall.unplaced (call : FunctionCall) : FunctionCall :=
  { call with arguments := call.arguments.map Token.unplaced }

def PseudoElement.unplaced : PseudoElement → PseudoElement
  | .simple name => .simple name
  | .functional call => .functional call.unplaced

def AttributeSelector.unplaced (selector : AttributeSelector) : AttributeSelector :=
  { selector with value := selector.value.map Token.unplaced }

namespace Selector

def Simple.unplaced : Simple → Simple
  | .attribute selector => .attribute selector.unplaced
  | .function call => .function call.unplaced
  | simple => simple

mutual

/-- The tree without offsets. -/
def Tree.unplaced : Tree → Tree
  | .element ns name => .element ns name
  | .restricted base simple => .restricted base.unplaced simple.unplaced
  | .negation base argument => .negation base.unplaced argument.unplaced
  | .anyOf kind base arguments => .anyOf kind base.unplaced (Tree.allUnplaced arguments)
  | .relation base combinator argument => .relation base.unplaced combinator argument.unplaced
  | .combined left combinator right => .combined left.unplaced combinator right.unplaced

def Tree.allUnplaced : List Tree → List Tree
  | [] => []
  | tree :: rest => tree.unplaced :: Tree.allUnplaced rest

end

end Selector

/-- The selector without offsets. -/
def Selector.unplaced (selector : Selector) : Selector :=
  ⟨selector.tree.unplaced, selector.pseudoElement.map PseudoElement.unplaced⟩

namespace Selector

@[simp] theorem Simple.specificity_unplaced (simple : Simple) :
    simple.unplaced.specificity = simple.specificity := by
  cases simple <;> rfl

mutual

/-- Offsets do not count in the specificity. -/
@[simp] theorem Tree.specificity_unplaced :
    (tree : Tree) → tree.unplaced.specificity = tree.specificity
  | .element _ _ => by simp [unplaced]
  | .restricted base _ => by simp [unplaced, specificity, base.specificity_unplaced]
  | .negation base argument => by
    simp [unplaced, specificity, base.specificity_unplaced, argument.specificity_unplaced]
  | .anyOf .matchesAny base arguments => by
    simp [unplaced, specificity, base.specificity_unplaced, greatest_unplaced arguments]
  | .anyOf .specificityAdjustment base _ => by
    simp [unplaced, specificity, base.specificity_unplaced]
  | .relation base _ argument => by
    simp [unplaced, specificity, base.specificity_unplaced, argument.specificity_unplaced]
  | .combined left _ right => by
    simp [unplaced, specificity, left.specificity_unplaced, right.specificity_unplaced]

theorem Tree.greatest_unplaced :
    (trees : List Tree) → Tree.greatest (Tree.allUnplaced trees) = Tree.greatest trees
  | [] => rfl
  | tree :: rest => by
    simp [Tree.allUnplaced, Tree.greatest, tree.specificity_unplaced, greatest_unplaced rest]

end

theorem specificity_unplaced (selector : Selector) :
    selector.unplaced.specificity = selector.specificity := by
  simp [specificity, unplaced]

end Selector

/-! ### Wider texts -/

/-- The text has become wider by `n` characters, and is the same if `n` is zero. -/
structure Text.Widens (n : Nat) (text wider : String) : Prop where
  length : wider.length = text.length + n
  same : n = 0 → wider = text

namespace Text.Widens

variable {m n : Nat} {text wider : String}

theorem refl (text : String) : Widens 0 text text := ⟨rfl, fun _ => rfl⟩

theorem append {other widerOther : String} (first : Widens m text wider)
    (second : Widens n other widerOther) : Widens (m + n) (text ++ other) (wider ++ widerOther) := by
  constructor
  · rw [String.length_append, String.length_append, first.length, second.length]
    omega
  · intro zero
    rw [first.same (by omega), second.same (by omega)]

theorem eq_iff (widens : Widens n text wider) : wider = text ↔ n = 0 := by
  constructor
  · rintro rfl
    have length := widens.length
    omega
  · exact widens.same

end Text.Widens

/-! ### Arguments in print -/

namespace Token

/-- The token is a string with a character that is escaped in print. -/
def isEscaped (token : Token) : Bool :=
  token.kind == .string && token.value.toList.any fun c => c == '\\' || c == '"'

/-- The number of tokens that directly follow a string with an escaped character, where the first
one follows `previous`. -/
def crowdedAfter (previous : Token) : List Token → Nat
  | [] => 0
  | token :: rest =>
    (if previous.isEscaped ∧ ¬previous.endPos < token.pos then 1 else 0) + crowdedAfter token rest

/-- The number of arguments that directly follow a string with an escaped character. -/
def crowded : List Token → Nat
  | [] => 0
  | token :: rest => crowdedAfter token rest

/-- The offset at which a token is printed if printing has come to `pos` behind a token that ended
at `previous`. -/
def printPos (pos previous : Nat) (token : Token) : Nat :=
  if previous < token.pos then pos + 1 else pos

/-- The tokens that follow one ending at `previous`, at the offsets of their text if that starts at
`pos`. -/
def placeAfter (pos previous : Nat) : List Token → List Token
  | [] => []
  | token :: rest =>
    { token with pos := token.printPos pos previous } ::
      placeAfter (token.printPos pos previous + token.css.utf8ByteSize) token.endPos rest

/-- The arguments at the offsets of their text if that starts at `pos`. -/
def place (pos : Nat) : List Token → List Token
  | [] => []
  | token :: rest =>
    { token with pos := pos } :: placeAfter (pos + token.css.utf8ByteSize) token.endPos rest

theorem placeAfter_unplaced (pos previous : Nat) (tokens : List Token) :
    (placeAfter pos previous tokens).map unplaced = tokens.map unplaced := by
  induction tokens generalizing pos previous with
  | nil => rfl
  | cons token rest ih => simp [placeAfter, ih, unplaced]

/-- Placing changes nothing but offsets. -/
theorem place_unplaced (pos : Nat) (tokens : List Token) :
    (place pos tokens).map unplaced = tokens.map unplaced := by
  cases tokens with
  | nil => rfl
  | cons token rest => simp [place, placeAfter_unplaced, unplaced]

@[simp] theorem css_place (token : Token) (pos : Nat) : css { token with pos := pos } = token.css :=
  rfl

/-- The characters that are escaped take one byte more. -/
theorem byteSize_quotedChar (cs : List Char) :
    Lexer.byteSize (cs.flatMap quotedChar) =
      Lexer.byteSize cs + cs.countP fun c => c == '\\' || c == '"' := by
  induction cs with
  | nil => rfl
  | cons c cs ih =>
    rw [List.flatMap_cons, Lexer.byteSize_append, ih, List.countP_cons]
    by_cases marked : c = '\\' ∨ c = '"'
    · rcases marked with rfl | rfl <;> simp [quotedChar, Lexer.byteSize, Char.utf8Size] <;> omega
    · rw [not_or] at marked
      simp [quotedChar, marked, Lexer.byteSize]
      omega

theorem utf8ByteSize_eq (text : String) : text.utf8ByteSize = Lexer.byteSize text.toList := by
  rw [← Lexer.utf8ByteSize_ofList, String.ofList_toList]

/-- A token takes at least the bytes that its offset and end show, and more exactly if it is a
string with an escaped character. -/
theorem size_css {token : Token} (inside : token.kind ≠ .eof) :
    token.value.utf8ByteSize + markBytes token.kind ≤ token.css.utf8ByteSize ∧
      (token.value.utf8ByteSize + markBytes token.kind < token.css.utf8ByteSize ↔
        token.isEscaped = true) := by
  obtain ⟨kind, value, pos⟩ := token
  simp only [utf8ByteSize_eq, isEscaped]
  cases kind with
  | eof => exact absurd rfl inside
  | string =>
    have size := byteSize_quotedChar value.toList
    have some : (0 < value.toList.countP fun c => c == '\\' || c == '"') ↔
        (value.toList.any fun c => c == '\\' || c == '"') = true := by
      rw [List.countP_pos_iff, List.any_eq_true]
    have quotes : Lexer.byteSize (quoted value).toList =
        Lexer.byteSize (value.toList.flatMap quotedChar) + 2 := by
      simp [quoted, Lexer.byteSize, Char.utf8Size]
      omega
    simp only [css, markBytes, quotes, size]
    refine ⟨by omega, ?_⟩
    rw [show (Kind.string == Kind.string) = true from rfl, Bool.true_and, ← some]
    omega
  | hash =>
    simp [css, markBytes, Lexer.byteSize, Char.utf8Size]
    omega
  | _ => simp [css, markBytes]

open Text

/-- Behind a token at its printed offset there is a gap where there has been one, and behind a
string with an escaped character. -/
theorem widens_gap {previous : Token} (inside : previous.kind ≠ .eof) (token : Token)
    (start : Nat) :
    Widens (if previous.isEscaped ∧ ¬previous.endPos < token.pos then 1 else 0)
      (if previous.endPos < token.pos then " " else "")
      (if { previous with pos := start }.endPos
          < token.printPos (start + previous.css.utf8ByteSize) previous.endPos
        then " " else "") := by
  obtain ⟨enough, more⟩ := size_css inside
  unfold printPos
  by_cases gap : previous.endPos < token.pos
  · have kept : { previous with pos := start }.endPos
        < start + previous.css.utf8ByteSize + 1 := by
      simp only [endPos]
      omega
    simp only [gap, kept, not_true, and_false, if_true, if_false]
    exact .refl " "
  · have widened : { previous with pos := start }.endPos < start + previous.css.utf8ByteSize ↔
        previous.isEscaped = true := by
      rw [← more]
      simp only [endPos]
      omega
    simp only [gap, if_false, not_false_eq_true, and_true, widened]
    by_cases escaped : previous.isEscaped = true
    · simp only [escaped, if_true]
      exact ⟨rfl, by simp⟩
    · simp only [escaped, Bool.false_eq_true, if_false]
      exact .refl ""

theorem widens_placeAfter {previous : Token} (inside : previous.kind ≠ .eof) {tokens : List Token}
    (all : ∀ token ∈ tokens, token.kind ≠ .eof) (start : Nat) :
    Widens (crowdedAfter previous tokens) (joinAfter css previous.endPos tokens)
      (joinAfter css { previous with pos := start }.endPos
        (placeAfter (start + previous.css.utf8ByteSize) previous.endPos tokens)) := by
  induction tokens generalizing previous start with
  | nil => exact .refl ""
  | cons token rest ih =>
    have behind := ih (all token List.mem_cons_self)
      (fun other member => all other (List.mem_cons_of_mem token member))
      (token.printPos (start + previous.css.utf8ByteSize) previous.endPos)
    have gap := widens_gap inside token start
    exact (gap.append (.refl token.css)).append behind

/-- Arguments at the offsets of their text are printed with as many spaces more as there are
arguments that directly follow a string with an escaped character. -/
theorem widens_place {tokens : List Token} (all : ∀ token ∈ tokens, token.kind ≠ .eof)
    (pos : Nat) : Widens (crowded tokens) (join css tokens) (join css (place pos tokens)) := by
  cases tokens with
  | nil => exact .refl ""
  | cons token rest =>
    have behind := widens_placeAfter (all token List.mem_cons_self)
      (fun other member => all other (List.mem_cons_of_mem token member)) pos
    simpa [crowded, join, place] using (Widens.refl token.css).append behind

end Token

/-! ### Calls in print -/

namespace FunctionCall

/-- The number of arguments that directly follow a string with an escaped character. -/
def crowded (call : FunctionCall) : Nat := Token.crowded call.arguments

/-- The call with its arguments at the offsets of their text if that starts at `pos`. -/
def place (call : FunctionCall) (pos : Nat) : FunctionCall :=
  { call with arguments := Token.place pos call.arguments }

theorem place_unplaced (call : FunctionCall) (pos : Nat) :
    (call.place pos).unplaced = call.unplaced := by
  simp [place, unplaced, Token.place_unplaced]

theorem widens_place {call : FunctionCall} (all : ∀ token ∈ call.arguments, token.kind ≠ .eof)
    (pos : Nat) : Text.Widens call.crowded call.css (call.place pos).css := by
  have arguments := Token.widens_place all pos
  have name := Text.Widens.refl (call.name ++ "(")
  simpa [css, argumentsCss, crowded, place] using (name.append arguments).append (.refl ")")

end FunctionCall

/-! ### Trees in print -/

namespace Selector

mutual

/-- The simple selectors of a tree, those in arguments too, in the order of the text. -/
def Tree.simples : Tree → List Simple
  | .element _ _ => []
  | .restricted base simple => base.simples ++ [simple]
  | .negation base argument => base.simples ++ argument.simples
  | .anyOf _ base arguments => base.simples ++ Tree.allSimples arguments
  | .relation base _ argument => base.simples ++ argument.simples
  | .combined left _ right => left.simples ++ right.simples

/-- The simple selectors of several trees. -/
def Tree.allSimples : List Tree → List Simple
  | [] => []
  | tree :: rest => tree.simples ++ Tree.allSimples rest

end

theorem Tree.mem_allSimples_iff {trees : List Tree} {simple : Simple} :
    simple ∈ Tree.allSimples trees ↔ ∃ tree ∈ trees, simple ∈ tree.simples := by
  induction trees with
  | nil => simp [allSimples]
  | cons tree rest ih => simp [allSimples, ih]

theorem Tree.simples_subset_allSimples {trees : List Tree} {tree : Tree} (member : tree ∈ trees) :
    tree.simples ⊆ Tree.allSimples trees :=
  fun _ inside => mem_allSimples_iff.mpr ⟨tree, member, inside⟩

/-- The number of arguments that directly follow a string with an escaped character. -/
def Simple.crowded : Simple → Nat
  | .function call => call.crowded
  | _ => 0

/-- The arguments in a tree that directly follow a string with an escaped character. -/
def Tree.crowded (tree : Tree) : Nat := (tree.simples.map Simple.crowded).sum

def Tree.allCrowded (trees : List Tree) : Nat := ((Tree.allSimples trees).map Simple.crowded).sum

/-- What is read from the text of a simple selector. -/
structure Simple.Again (simple again : Simple) : Prop where
  same : again.unplaced = simple.unplaced
  css : Text.Widens simple.crowded simple.css again.css

/-- What is read from the text of a tree: the same but for offsets, and with a space more for each
crowded argument. -/
structure Tree.Again (tree again : Tree) : Prop where
  same : again.unplaced = tree.unplaced
  css : Text.Widens tree.crowded tree.css again.css

/-- What is read from the texts of the arguments of `:is()`. -/
structure Tree.AllAgain (trees again : List Tree) : Prop where
  same : Tree.allUnplaced again = Tree.allUnplaced trees
  css : Text.Widens (Tree.allCrowded trees) (Tree.listCss trees) (Tree.listCss again)

namespace Tree

open Text

variable {base baseAgain argument argumentAgain : Tree} {arguments argumentsAgain : List Tree}

/-- A tree without arguments of functions has no offsets. -/
theorem Again.element (ns name : Option String) : Again (.element ns name) (.element ns name) :=
  ⟨rfl, .refl _⟩

theorem Again.restricted {simple simpleAgain : Simple} (first : Again base baseAgain)
    (second : simple.Again simpleAgain) :
    Again (.restricted base simple) (.restricted baseAgain simpleAgain) := by
  refine ⟨?_, ?_⟩
  · simp [unplaced, first.same, second.same]
  · simpa [crowded, simples, Tree.css] using first.css.append second.css

theorem Again.negation (first : Again base baseAgain) (second : Again argument argumentAgain) :
    Again (.negation base argument) (.negation baseAgain argumentAgain) := by
  refine ⟨?_, ?_⟩
  · simp [unplaced, first.same, second.same]
  · have text := ((first.css.append (.refl ":not(")).append second.css).append (.refl ")")
    simpa [crowded, simples, Tree.css] using text

theorem Again.relation (combinator : Combinator) (first : Again base baseAgain)
    (second : Again argument argumentAgain) :
    Again (.relation base combinator argument) (.relation baseAgain combinator argumentAgain) := by
  refine ⟨?_, ?_⟩
  · simp [unplaced, first.same, second.same]
  · have text := (((first.css.append (.refl ":has(")).append (.refl combinator.before)).append
      second.css).append (.refl ")")
    simpa [crowded, simples, Tree.css] using text

theorem Again.combined (combinator : Combinator) (first : Again base baseAgain)
    (second : Again argument argumentAgain) :
    Again (.combined base combinator argument) (.combined baseAgain combinator argumentAgain) := by
  refine ⟨?_, ?_⟩
  · simp [unplaced, first.same, second.same]
  · have text := (first.css.append (.refl combinator.between)).append second.css
    simpa [crowded, simples, Tree.css] using text

theorem Again.anyOf (kind : Alternation) (first : Again base baseAgain)
    (second : AllAgain arguments argumentsAgain) :
    Again (.anyOf kind base arguments) (.anyOf kind baseAgain argumentsAgain) := by
  refine ⟨?_, ?_⟩
  · simp [unplaced, first.same, second.same]
  · have text := ((first.css.append (.refl (alternationCss kind))).append second.css).append
      (.refl ")")
    simpa [crowded, allCrowded, simples, Tree.css] using text

theorem AllAgain.single (only : Again argument argumentAgain) :
    AllAgain [argument] [argumentAgain] := by
  refine ⟨?_, ?_⟩
  · simp [allUnplaced, only.same]
  · simpa [allCrowded, allSimples, listCss, crowded] using only.css

theorem AllAgain.cons {next : Tree} (first : Again argument argumentAgain)
    (rest : AllAgain (next :: arguments) argumentsAgain) :
    AllAgain (argument :: next :: arguments) (argumentAgain :: argumentsAgain) := by
  refine ⟨?_, ?_⟩
  · rw [allUnplaced, first.same, rest.same, ← allUnplaced]
  · have text := (first.css.append (.refl ", ")).append rest.css
    have count : allCrowded (argument :: next :: arguments) =
        argument.crowded + 0 + allCrowded (next :: arguments) := by
      simp [allCrowded, allSimples, crowded]
    cases argumentsAgain with
    | nil => exact absurd rest.same (by simp [allUnplaced])
    | cons nextAgain argumentsAgain =>
      rw [listCss, listCss, count]
      simpa [String.append_assoc] using text

end Tree

end Selector

/-! ### Selectors in print -/

/-- The arguments in a pseudo-element that directly follow a string with an escaped character. -/
def PseudoElement.crowded : PseudoElement → Nat
  | .simple _ => 0
  | .functional call => call.crowded

namespace Selector

/-- The arguments in a selector that directly follow a string with an escaped character. -/
def crowded (selector : Selector) : Nat :=
  selector.tree.crowded +
    match selector.pseudoElement with
    | none => 0
    | some pseudo => pseudo.crowded

/-- What is read from the text of a selector. -/
structure Again (selector again : Selector) : Prop where
  same : again.unplaced = selector.unplaced
  css : Text.Widens selector.crowded selector.css again.css

theorem Again.specificity {selector again : Selector} (read : selector.Again again) :
    again.specificity = selector.specificity := by
  rw [← specificity_unplaced, read.same, specificity_unplaced]

theorem Again.plain {tree treeAgain : Tree} (read : tree.Again treeAgain) :
    Again ⟨tree, none⟩ ⟨treeAgain, none⟩ := by
  refine ⟨?_, ?_⟩
  · simp [unplaced, read.same]
  · simpa [Selector.crowded, Selector.css] using read.css

theorem Again.withPseudoElement {tree treeAgain : Tree} {pseudo pseudoAgain : PseudoElement}
    (read : tree.Again treeAgain) (same : pseudoAgain.unplaced = pseudo.unplaced)
    (text : Text.Widens pseudo.crowded pseudo.css pseudoAgain.css) :
    Again ⟨tree, some pseudo⟩ ⟨treeAgain, some pseudoAgain⟩ := by
  refine ⟨?_, ?_⟩
  · simp [unplaced, read.same, same]
  · simpa [Selector.crowded, Selector.css] using (read.css.append (.refl "::")).append text

end Selector

end SelectorPath
