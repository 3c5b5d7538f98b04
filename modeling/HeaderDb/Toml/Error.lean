import HeaderDb.Text.Quoted

/-!
What can be wrong with a TOML document, where, and the words for it. Offsets
count bytes.
-/

namespace HeaderDb.Toml

/-- The kinds of tokens, as messages name them. -/
inductive Kind where
  | whitespace
  | newline
  | comment
  | equals
  | period
  | comma
  | colon
  | plus
  | leftBrace
  | rightBrace
  | leftBracket
  | rightBracket
  | bare
  | string
  | multilineString
  deriving Repr, DecidableEq

def Kind.describe : Kind → String
  | .whitespace => "whitespace"
  | .newline => "a newline"
  | .comment => "a comment"
  | .equals => "an equals"
  | .period => "a period"
  | .comma => "a comma"
  | .colon => "a colon"
  | .plus => "a plus"
  | .leftBrace => "a left brace"
  | .rightBrace => "a right brace"
  | .leftBracket => "a left bracket"
  | .rightBracket => "a right bracket"
  | .bare => "an identifier"
  | .string => "a string"
  | .multilineString => "a multiline string"

/-- What the grammar asks for at some place. -/
inductive Wanted where
  | token (kind : Kind)
  | key
  | value
  | lineEnd
  deriving Repr, DecidableEq

def Wanted.describe : Wanted → String
  | .token k => k.describe
  | .key => "a table key"
  | .value => "a value"
  | .lineEnd => "newline"

inductive Cause where
  | unexpectedChar (c : Char)
  | newlineInString
  | unterminatedString
  | invalidCharInString (c : Char)
  | invalidEscape (c : Char)
  | invalidHexEscape (c : Char)
  | invalidEscapeValue (n : Nat)
  /-- Something else stood where `wanted` should; nothing for the end of the text. -/
  | wanted (wanted : Wanted) (found : Option Kind)
  | multilineKey
  | unquotedString
  | unexpectedEnd
  | invalidNumber
  | invalidDate
  | dottedKeyOnValue
  deriving Repr, DecidableEq

def Cause.message : Cause → String
  | .unexpectedChar c => "unexpected character found: `" ++ Text.shownChar c ++ "`"
  | .newlineInString => "newline in string found"
  | .unterminatedString => "unterminated string"
  | .invalidCharInString c => "invalid character in string: `" ++ Text.shownChar c ++ "`"
  | .invalidEscape c => "invalid escape character in string: `" ++ Text.shownChar c ++ "`"
  | .invalidHexEscape c => "invalid hex escape character in string: `" ++ Text.shownChar c ++ "`"
  | .invalidEscapeValue n => "invalid escape value: `" ++ toString n ++ "`"
  | .wanted w found =>
    "expected " ++ w.describe ++ ", found " ++ (found.map Kind.describe).getD "eof"
  | .multilineKey => "multiline strings are not allowed for key"
  | .unquotedString => "invalid TOML value, did you mean to use a quoted string?"
  | .unexpectedEnd => "unexpected eof encountered"
  | .invalidNumber => "invalid number"
  | .invalidDate => "invalid date"
  | .dottedKeyOnValue => "dotted key attempted to extend non-table type"

structure Error where
  offset : Nat
  cause : Cause
  deriving Repr, DecidableEq

end HeaderDb.Toml
