import HeaderDb.Text.GraphemeExtend
import HeaderDb.Text.Unprintable
import HeaderDb.Text.Utf8

/-!
Texts and names as diagnostics show them. A quoted text stands between double
quotes and is escaped where it could not be told from its surroundings; a name
that is no text shows each stray byte by its value. A single character named
in a message is reduced to printable ASCII.
-/

namespace HeaderDb.Text

/-- Lower-case hexadecimal digits of a number, without leading zeros. -/
def hex (n : Nat) : List Char := Nat.toDigits 16 n

/-- A character by its code point: backslash, `u` and the digits in braces. -/
def codePoint (c : Char) : List Char := ['\\', 'u', '\x7b'] ++ hex c.toNat ++ ['\x7d']

/-- A character inside a quoted text. -/
def quotedChar (c : Char) : List Char :=
  if c = '\x00' then ['\\', '0']
  else if c = '\t' then ['\\', 't']
  else if c = '\r' then ['\\', 'r']
  else if c = '\n' then ['\\', 'n']
  else if c = '"' then ['\\', '"']
  else if c = '\\' then ['\\', '\\']
  else if isGraphemeExtend c || isUnprintable c then codePoint c
  else [c]

/-- A text in double quotes. -/
def quoted (s : String) : String :=
  String.ofList ('"' :: s.toList.flatMap quotedChar ++ ['"'])

/-- A byte by its value: backslash, `x` and two upper-case digits. -/
def quotedByte (b : UInt8) : List Char :=
  ['\\', 'x', (Nat.digitChar (b.toNat / 16)).toUpper, (Nat.digitChar (b.toNat % 16)).toUpper]

/-- A name in double quotes, whatever its bytes are. -/
def quotedName (b : Bytes) : String :=
  String.ofList ('"' :: (Utf8.pieces b).flatMap (fun
    | .char c => quotedChar c
    | .broken bytes => bytes.flatMap quotedByte) ++ ['"'])

/-- A character named in a message: printable ASCII as it is, all else escaped. -/
def shownChar (c : Char) : String :=
  String.ofList
    (if c = '\t' then ['\\', 't']
    else if c = '\r' then ['\\', 'r']
    else if c = '\n' then ['\\', 'n']
    else if c = '\x27' || c = '"' || c = '\\' then ['\\', c]
    else if ' ' ≤ c && c ≤ '~' then [c]
    else codePoint c)

end HeaderDb.Text
