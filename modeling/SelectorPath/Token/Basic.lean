/-!
# Tokens of a selector

A selector is read as a list of tokens, each with the byte offset at which it starts. A token holds
the text it stands for, not the text it was written as: escapes are undone, strings have lost their
quotes and hashes their `#`. `Token.css` writes a token again.

Where blanks and comments have been dropped from a list of tokens, the offsets still show the gaps
they left, and `Token.join` puts one space into each.

## Main definitions

* `Token`, `Token.Kind`
* `Token.css` — a token as text of a selector
* `Token.describe`, `Token.describeAll` — tokens in error messages
* `Token.join` — the text of a list of tokens, one space for a gap
-/

namespace SelectorPath

/-- The lexical category of a token. -/
inductive Token.Kind
  | ident
  | hash
  | string
  | number
  | delim
  | space
  | eof
  deriving DecidableEq, Repr

/-- The name of a category, as it stands in error messages. -/
def Token.Kind.name : Token.Kind → String
  | .ident => "IDENT"
  | .hash => "HASH"
  | .string => "STRING"
  | .number => "NUMBER"
  | .delim => "DELIM"
  | .space => "S"
  | .eof => "EOF"

/-- A token: its category, the text it stands for, and the byte offset at which it starts. -/
structure Token where
  kind : Token.Kind
  value : String
  pos : Nat
  deriving DecidableEq, Repr

namespace Token

/-- The token is the delimiter `symbol`. -/
def isDelim (token : Token) (symbol : String) : Bool :=
  token.kind == .delim && token.value == symbol

/-- The token is a quoted string or a bare identifier. -/
def isLiteral (token : Token) : Bool := token.kind == .string || token.kind == .ident

/-- A character inside double quotes: a backslash goes before a backslash and before a quote. -/
def quotedChar (c : Char) : List Char :=
  if c = '\\' || c = '"' then ['\\', c] else [c]

/-- A text in double quotes. -/
def quoted (text : String) : String :=
  String.ofList ('"' :: text.toList.flatMap quotedChar ++ ['"'])

/-- The token as text of a selector. The end of the input has no text. -/
def css (token : Token) : String :=
  match token.kind with
  | .string => quoted token.value
  | .hash => "#" ++ token.value
  | .eof => ""
  | _ => token.value

/-- The token as error messages show it. -/
def describe (token : Token) : String :=
  match token.kind with
  | .eof => "<EOF at " ++ toString token.pos ++ ">"
  | kind => "<" ++ kind.name ++ " '" ++ token.value ++ "' at " ++ toString token.pos ++ ">"

/-- A list of tokens as error messages show it, in brackets. -/
def describeAll (tokens : List Token) : String :=
  "[" ++ ", ".intercalate (tokens.map describe) ++ "]"

/-- The bytes that the source of a token has beside its value, if it is written without escapes:
two quotes around a string, and the `#` of a hash. -/
def markBytes : Kind → Nat
  | .string => 2
  | .hash => 1
  | _ => 0

/-- The byte offset behind a token that is written without escapes. -/
def endPos (token : Token) : Nat :=
  token.pos + token.value.utf8ByteSize + markBytes token.kind

/-- The texts of the tokens that follow a token ending at `previous`, with a space before each
token that starts later than the one before it ends. -/
def joinAfter (render : Token → String) (previous : Nat) : List Token → String
  | [] => ""
  | token :: rest =>
    (if previous < token.pos then " " else "") ++ render token
      ++ joinAfter render token.endPos rest

/-- The texts of the tokens one after the other, with one space in each gap. -/
def join (render : Token → String) : List Token → String
  | [] => ""
  | token :: rest => render token ++ joinAfter render token.endPos rest

@[simp] theorem join_nil (render : Token → String) : join render [] = "" := rfl

end Token

end SelectorPath
