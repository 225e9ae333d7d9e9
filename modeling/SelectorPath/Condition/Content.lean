import SelectorPath.Condition.Attribute

/-!
# Conditions on text and language

Two conditions take a text from the selector: that the text of the element contains it, and that the
element is in that language.

## Main definitions

* `Condition.containsText`, `Condition.ofLanguage`
-/

namespace SelectorPath.Condition

open XPath

/-- The text of an element contains `value`. -/
def containsText (value : String) : Expr := .call .contains [.self, .literal value]

/-- The letters whose case is folded where languages are compared. -/
def capitals : String := "ABCDEFGHIJKLMNOPQRSTUVWXYZ"

/-- The letters that take their place. -/
def smallLetters : String := "abcdefghijklmnopqrstuvwxyz"

/-- The value of the attribute in small letters, with a hyphen behind it. -/
def foldedWithHyphen (attr : Expr) : Expr :=
  .call .concat
    [.call .translate [attr, .literal capitals, .literal smallLetters], .literal "-"]

/-- The language of an element is `value` or a variety of it. In HTML the nearest element with the
attribute decides: its value is `value`, or `value` and a hyphen start it, without regard to ASCII
case. -/
def ofLanguage (options : Options) (value : String) : Expr :=
  if options.dialect.isHtml then
    let attr := attributeNamed options.langAttribute
    .step (.named .ancestorOrSelf) "*"
      [attr, .integer 1,
        .call .startsWith
          [foldedWithHyphen attr, .literal (Text.lowerCase value ++ "-")]]
  else .call .lang [.literal value]

end SelectorPath.Condition
