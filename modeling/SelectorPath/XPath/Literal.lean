/-!
# String literals of XPath

XPath 1.0 has no escapes: a literal stands between two quotes of one kind and holds none of that
kind. A text with both kinds is therefore cut into runs, those of single quotes in double quotes and
the others in single quotes, and `concat` puts them together again.

## Main definitions

* `XPath.quoteRuns` — the maximal runs of single quotes and of other characters
* `XPath.quote` — a text as a string literal or a `concat` call
-/

namespace SelectorPath.XPath

/-- The characters in maximal runs, either of single quotes only or of other characters only. -/
def quoteRuns : List Char → List (List Char)
  | [] => []
  | c :: cs =>
    match quoteRuns cs with
    | (d :: run) :: runs =>
      if (c == '\'') = (d == '\'') then (c :: d :: run) :: runs else [c] :: (d :: run) :: runs
    | runs => [c] :: runs

/-- The runs make up the text. -/
@[simp] theorem flatten_quoteRuns (cs : List Char) : (quoteRuns cs).flatten = cs := by
  induction cs with
  | nil => rfl
  | cons c cs ih =>
    unfold quoteRuns
    split
    · rename_i d run runs heq
      rw [heq] at ih
      split <;> simpa using ih
    · simpa using ih

/-- A run in quotes of the kind that it does not hold. -/
def quoteRun (run : List Char) : List Char :=
  if '\'' ∈ run then '"' :: run ++ ['"'] else '\'' :: run ++ ['\'']

/-- The characters of a literal with the given value. -/
def quoteChars (cs : List Char) : List Char :=
  if '\'' ∉ cs then '\'' :: cs ++ ['\'']
  else if '"' ∉ cs then '"' :: cs ++ ['"']
  else "concat(".toList ++ ", ".toList.intercalate ((quoteRuns cs).map quoteRun) ++ [')']

/-- An expression whose value is the given text. -/
def quote (value : String) : String := String.ofList (quoteChars value.toList)

end SelectorPath.XPath
