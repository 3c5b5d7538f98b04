/-!
Text with marks for a terminal. A styled text is a list of spans; each switches
its attributes on, one after the other, and all of them off at its end.
-/

namespace HeaderDb.Terminal

inductive Attribute where
  | bold
  | underlined
  | red
  | yellow
  | cyan
  deriving Repr, DecidableEq

def Attribute.code : Attribute → String
  | .bold => "1"
  | .underlined => "4"
  | .red => "31"
  | .yellow => "33"
  | .cyan => "36"

/-- What a terminal is told to do with the text that follows. -/
def selection (code : String) : String := "\x1b[" ++ code ++ "m"

/-- A stretch of text with its attributes. -/
structure Span where
  attributes : List Attribute := []
  text : String
  deriving Repr, DecidableEq

/-- A span without attributes has no marks at all; one with attributes has them
even around an empty text. -/
def Span.render (s : Span) : String :=
  if s.attributes.isEmpty then s.text
  else String.join (s.attributes.map fun a => selection a.code) ++ s.text ++ selection "0"

abbrev Styled := List Span

def plain (text : String) : Span := { text }

def Styled.render (t : Styled) : String := String.join (t.map Span.render)

end HeaderDb.Terminal
