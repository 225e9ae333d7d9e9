import SelectorPath.Proofs.XPath.Grammar

/-!
# Primary expressions in front of other text

A text that goes on behind an expression is cut into tokens only as far as the expression goes. What
is left is any text at all, also one that no token starts. `Grammar.Scans` is the lexical rules up
to such a place, and a primary expression is one that needs nothing behind it to be complete: a
literal, a number, a variable, a call or an expression in parentheses.

## Main definitions

* `Grammar.Scans` — characters start with tokens, and the rest is left
* `Grammar.Primary` — the production of primary expressions
* `Grammar.ReadsPrimary` — a text starts with a primary expression

## Main results

* `Grammar.Scans.lexes` — tokens in front of a text that is cut into tokens
* `Grammar.Scans.split` — the longer of two scans goes on where the shorter one ends
-/

namespace SelectorPath.XPath.Grammar

/-- The characters start with the tokens, from a place on that is or is not the place of an operand,
and leave `rest`, in front of which an operand has to follow or not. Blanks in front of a token are
passed over, and blanks behind the last one are left. -/
inductive Scans : Bool → List Char → List Token → Bool → List Char → Prop
  | done (operand : Bool) (rest : List Char) : Scans operand rest [] operand rest
  | token {operand behind : Bool} {cs after rest : List Char} {token : Token}
      {tokens : List Token}
      (read : readToken operand (cs.dropWhile isSpace) = some (token, after))
      (others : Scans token.wantsOperand after tokens behind rest) :
      Scans operand cs (token :: tokens) behind rest

/-- The tokens are a primary expression. -/
inductive Primary : List Token → Term → Prop
  | variable (name : String) : Primary [.variable name] (.variable name)
  | literal (value : String) : Primary [.literal value] (.literal value)
  | number (spelling : String) : Primary [.number spelling] (.number spelling)
  | parentheses {tokens : List Token} {t : Term} (inner : Expression 0 tokens t) :
      Primary (.openParenthesis :: tokens ++ [.closeParenthesis]) t
  | callNothing (function : String) :
      Primary [.functionName function, .openParenthesis, .closeParenthesis] (.call function [])
  | call (function : String) {tokens : List Token} {terms : List Term}
      (arguments : Arguments tokens terms) :
      Primary (.functionName function :: .openParenthesis :: tokens ++ [.closeParenthesis])
        (.call function terms)

/-- The text starts with a primary expression that says what the term says, and `rest` is left. -/
def ReadsPrimary (text : String) (term : Term) (rest : String) : Prop :=
  ∃ tokens, Scans true text.toList tokens false rest.toList ∧ Primary tokens term

/-- A primary expression stands where one with predicates may. -/
theorem Primary.filter {tokens : List Token} {t : Term} : Primary tokens t → Filter tokens t
  | .variable name => .variable name
  | .literal value => .literal value
  | .number spelling => .number spelling
  | .parentheses inner => .parentheses inner
  | .callNothing function => .callNothing function
  | .call function arguments => .call function arguments

namespace Scans

variable {operand behind last : Bool} {cs rest left : List Char} {tokens others : List Token}

/-- A visible character starts the token that its reader finds. -/
theorem visible {c : Char} {after : List Char} {token : Token} (visible : isSpace c = false)
    (read : readToken operand (c :: cs) = some (token, after))
    (scans : Scans token.wantsOperand after tokens behind rest) :
    Scans operand (c :: cs) (token :: tokens) behind rest :=
  .token (by rwa [List.dropWhile_cons_of_neg (by simp [visible])]) scans

/-- A blank in front of a token is passed over. -/
theorem space {c : Char} {token : Token} (blank : isSpace c = true)
    (scans : Scans operand cs (token :: tokens) behind rest) :
    Scans operand (c :: cs) (token :: tokens) behind rest := by
  cases scans with
  | token read others => exact .token (by rwa [List.dropWhile_cons_of_pos blank]) others

theorem append (first : Scans operand cs tokens behind rest)
    (second : Scans behind rest others last left) :
    Scans operand cs (tokens ++ others) last left := by
  induction first with
  | done => exact second
  | token read _ ih => exact .token read (ih second)

/-- Behind the scanned tokens stand those of the rest. -/
theorem lexes (scans : Scans operand cs tokens behind rest) (more : Lexes behind rest others) :
    Lexes operand cs (tokens ++ others) := by
  induction scans with
  | done => exact more
  | @token operand _ cs _ _ _ _ read _ ih =>
    have found := ih more
    clear ih
    induction cs with
    | nil => simp [readToken] at read
    | cons c cs skip =>
      cases blank : isSpace c with
      | true =>
        rw [List.dropWhile_cons_of_pos blank] at read
        exact .space blank (skip read)
      | false =>
        rw [List.dropWhile_cons_of_neg (by simp [blank])] at read
        exact .token blank read found

theorem rest_eq (scans : Scans operand cs [] behind rest) : rest = cs := by
  cases scans with
  | done => rfl

/-- Characters are scanned in one way, so the longer of two scans goes on where the shorter one
ends. -/
theorem split (scans : Scans operand cs tokens behind rest)
    (also : Scans operand cs others last left) (shorter : tokens.length ≤ others.length) :
    ∃ more, others = tokens ++ more ∧ Scans behind rest more last left := by
  induction scans generalizing others with
  | done => exact ⟨others, rfl, also⟩
  | token read _ ih =>
    cases also with
    | done => simp at shorter
    | token readAlso more =>
      obtain ⟨rfl, rfl⟩ := Prod.mk.inj (Option.some.inj (read.symm.trans readAlso))
      obtain ⟨extra, rfl, goesOn⟩ := ih more (by simpa using shorter)
      exact ⟨extra, rfl, goesOn⟩

end Scans

end SelectorPath.XPath.Grammar
