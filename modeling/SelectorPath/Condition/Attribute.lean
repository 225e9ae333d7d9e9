import SelectorPath.Options
import SelectorPath.Selector.Basic
import SelectorPath.Text.Blank
import SelectorPath.XPath.LocationPath

/-!
# Conditions on attributes

Classes, ids and attribute selectors ask for the value of an attribute. An attribute whose name can
be written is `@name`; any other is found by comparing names on the attribute axis.

## Main definitions

* `Condition.attributeNamed` — an attribute as an expression
* `Condition.hasWord` — a word among those of an attribute
* `Condition.compare` — what an operator asks of an attribute
* `Condition.ofAttribute`, `Condition.ofClass`, `Condition.ofId` — the conditions of selectors
-/

namespace SelectorPath.Condition

open XPath

/-- The attribute with the given name. -/
def attributeNamed (name : String) : Expr :=
  if isPlainName name then .step .attribute name []
  else .step (.named .attribute) "*" [.nameIs name]

/-- The attribute with the given name in a namespace. -/
def attributeInNamespace (ns name : String) : Expr :=
  if isPlainName ns && isPlainName name then .step .attribute (ns ++ ":" ++ name) []
  else attributeNamed (ns ++ ":" ++ name)

/-- A condition that never holds. -/
def never : Expr := .integer 0

/-- A condition that always holds. -/
def always : Expr := .integer 1

/-- The text is one word: not empty, and without blanks. -/
def isWord (text : String) : Bool :=
  !text.toList.isEmpty && !text.toList.any Text.isBlank

/-- The attribute holds `word` among its words. Each word of the attribute, its blanks normalized,
stands between two spaces. What is no word is in no attribute. -/
def hasWord (attr : Expr) (word : String) : Expr :=
  if isWord word then
    .binary .and attr
      (.call .contains
        [.call .concat
          [.literal " ", .call .normalizeSpace [attr], .literal " "],
        .literal (" " ++ word ++ " ")])
  else never

/-- The condition `test` on an attribute that is there. -/
def ifPresent (attr test : Expr) : Expr := .binary .and attr test

/-- The condition `test` if the text to compare with is not empty. An empty text begins, ends and
occurs in everything, but as the operand of an operator it matches nothing. -/
def unlessEmpty (value : String) (test : Expr) : Expr :=
  if value.toList.isEmpty then never else test

/-- The attribute ends in `value`: what is left of it from the place where `value` would start. -/
def hasSuffix (attr : Expr) (value : String) : Expr :=
  .binary .equal
    (.call .substring
      [attr,
        .binary (.minus .neither) (.call .stringLength [attr])
          (.integer (value.length - 1))])
    (.literal value)

/-- What an operator asks of an attribute. -/
def compare (attr : Expr) (operator : AttributeOperator) (value : String) :
    Expr :=
  match operator with
  | .present => attr
  | .equal => .binary .equal attr (.literal value)
  | .includes => hasWord attr value
  | .dashMatch =>
    ifPresent attr
      (.group
        (.binary .or (.binary .equal attr (.literal value))
          (.call .startsWith [attr, .literal (value ++ "-")])))
  | .prefixMatch =>
    unlessEmpty value
      (ifPresent attr (.call .startsWith [attr, .literal value]))
  | .suffixMatch => unlessEmpty value (ifPresent attr (hasSuffix attr value))
  | .substringMatch =>
    unlessEmpty value
      (ifPresent attr (.call .contains [attr, .literal value]))
  | .notEqual =>
    .binary .or (.call .not [attr]) (.binary .notEqual attr (.literal value))

/-- The condition of an attribute selector; a missing value is the empty one. -/
def ofAttribute (options : Options) (selector : AttributeSelector) : Expr :=
  let name := Options.foldCase options.lowerCaseAttributeNames selector.name
  let attr :=
    match selector.ns with
    | none => attributeNamed name
    | some ns => attributeInNamespace ns name
  let value :=
    match selector.value with
    | none => ""
    | some token => Options.foldCase options.lowerCaseAttributeValues token.value
  compare attr selector.operator value

/-- The condition of a class selector. -/
def ofClass (options : Options) (name : String) : Expr :=
  hasWord (attributeNamed options.classAttribute) name

/-- The condition of an id selector. -/
def ofId (options : Options) (value : String) : Expr :=
  .binary .equal (attributeNamed options.idAttribute) (.literal value)

end SelectorPath.Condition
