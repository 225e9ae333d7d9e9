import SelectorPath.Proofs.XPath.Meaning

/-!
# Quoted texts end where they are meant to

A text from a selector may hold quotes of both kinds, brackets and anything else. However it looks,
its quotation is one primary expression, a literal or a call that puts literals together, and what
stands behind the quotation is not touched: the same primary expression is read in front of every
other text, and no other one is.

## Main results

* `readsPrimary_quote_iff` — in front of any text, a quoted value is read as that value and nothing
  else
-/

namespace SelectorPath.XPath

open Grammar

/-- A quoted text is read as one primary expression, a literal or a call of `concat` with at least
two literals, that has the text for its value in every document and context. Whatever stands behind
it is left, and nothing else can be read from there. -/
theorem readsPrimary_quote_iff (value rest : String) :
    ∃ term, Quotes value term ∧
      (∀ document context, term.eval document context = some (.string value)) ∧
      ∀ found left, ReadsPrimary (quote value ++ rest) found left ↔ found = term ∧ left = rest := by
  obtain ⟨tokens, primary, scans⟩ := exists_scan_quote value
  have reads : ReadsPrimary (quote value ++ rest) (literalTerm value) rest :=
    ⟨tokens, by simpa using scans rest.toList, primary⟩
  have quotes := quotes_literalTerm value
  refine ⟨literalTerm value, quotes, fun document context => quotes.eval, fun found left => ?_⟩
  constructor
  · intro also
    exact also.unique reads
  · rintro ⟨rfl, rfl⟩
    exact reads

end SelectorPath.XPath
