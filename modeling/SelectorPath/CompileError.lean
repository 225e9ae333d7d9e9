import SelectorPath.Selector.SyntaxError
import SelectorPath.Series.Parser

/-!
# Errors of the compilation

Why a selector group has no XPath expression: it is no selector group, or it asks for something that
an expression cannot say.

## Main definitions

* `CompileError`, with its `message`
-/

namespace SelectorPath

/-- Why a selector group has no XPath expression. -/
inductive CompileError
  | /-- The text is no selector group. -/
    malformed (error : Selector.SyntaxError)
  | /-- The arguments of a call are no series. -/
    malformedSeries (call : FunctionCall) (error : Series.Error)
  | /-- The arguments of a call are not strings or identifiers only, or there are none. -/
    invalidArgument (call : FunctionCall)
  | /-- The pseudo-class counts elements of one type, and no type is named. -/
    untyped (pseudoClass : String)
  | unknownPseudoClass (name : String)
  | unknownFunction (name : String)
  | pseudoElement (pseudo : PseudoElement)
  deriving DecidableEq, Repr

/-- The wording of an error. -/
def CompileError.message : CompileError → String
  | .malformed error => error.message
  | .malformedSeries call _ => "Invalid series: '" ++ call.argumentsCss ++ "'"
  | .invalidArgument call =>
    "Expected a single string or identifier for :" ++ call.name ++ "(), got "
      ++ Token.describeAll call.arguments
  | .untyped pseudoClass => "Unsupported selector: *:" ++ pseudoClass
  | .unknownPseudoClass name => "The pseudo-class :" ++ name ++ " is unknown"
  | .unknownFunction name => "The pseudo-class :" ++ name ++ "() is unknown"
  | .pseudoElement pseudo => "Pseudo-elements are not supported: ::" ++ pseudo.css

end SelectorPath
