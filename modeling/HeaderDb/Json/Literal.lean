/-!
JSON string literals. Quotes, backslashes and the characters below U+0020 are
escaped; everything else stands for itself, so a literal never holds a line end.
-/

namespace HeaderDb.Json

/-- The two lower-case hexadecimal digits of a number below 256. -/
def hexPair (n : Nat) : List Char := [Nat.digitChar (n / 16), Nat.digitChar (n % 16)]

/-- A character inside a literal. -/
def escape (c : Char) : List Char :=
  if c = '"' then ['\\', '"']
  else if c = '\\' then ['\\', '\\']
  else if c = '\x08' then ['\\', 'b']
  else if c = '\t' then ['\\', 't']
  else if c = '\n' then ['\\', 'n']
  else if c = '\x0c' then ['\\', 'f']
  else if c = '\r' then ['\\', 'r']
  else if c < ' ' then ['\\', 'u', '0', '0'] ++ hexPair c.toNat
  else [c]

/-- The literal of a text. -/
def literal (s : String) : String :=
  String.ofList ('"' :: s.toList.flatMap escape ++ ['"'])

end HeaderDb.Json
