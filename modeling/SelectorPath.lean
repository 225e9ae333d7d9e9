import SelectorPath.Selector.Path
import SelectorPath.Selector.Printer
import SelectorPath.Selector.Specificity
import SelectorPath.Proofs.Condition.Positions
import SelectorPath.Proofs.Selector.ValidText
import SelectorPath.Proofs.Selector.Acceptance
import SelectorPath.Proofs.Selector.Account
import SelectorPath.Proofs.Selector.Alternatives
import SelectorPath.Proofs.Selector.ChildPlaces
import SelectorPath.Proofs.Selector.Preservation
import SelectorPath.Proofs.Selector.Scope
import SelectorPath.Proofs.XPath.Quotation
import SelectorPath.Proofs.Selector.LetterCase
import SelectorPath.Proofs.Selector.Arguments
import SelectorPath.Proofs.Selector.Restrictions
import SelectorPath.Proofs.Selector.Relative
import SelectorPath.Proofs.Selector.TypeSelectors
import SelectorPath.Proofs.Selector.Prefixes
import SelectorPath.Proofs.XPath.Joins
import SelectorPath.Proofs.Condition.Operators
import SelectorPath.Proofs.Series.Grammar
import SelectorPath.Proofs.Series.Membership
import SelectorPath.Proofs.Series.Source
import SelectorPath.Proofs.Condition.Language
import SelectorPath.Proofs.Condition.FormControls
import SelectorPath.Proofs.Token.Comments
import SelectorPath.Proofs.Token.Strings
import SelectorPath.Proofs.Token.CodePoints
import SelectorPath.Proofs.Selector.Blanks
import SelectorPath.Proofs.Selector.Unexpected
import SelectorPath.Proofs.Selector.Expansions
import SelectorPath.Proofs.Selector.RawText
import SelectorPath.Proofs.Selector.ScopeText
import SelectorPath.Proofs.Selector.Length
import SelectorPath.Proofs.Selector.BuiltPaths
