import HeaderDb.Terminal.Style

/-!
Text without what only a terminal understands. Control characters and control
sequences are taken out, whether they are part of the text's own style or came
in with a name; blanks, line ends and all other characters stay.

An escape character opens a sequence, and the characters after it decide where
it ends. A tab or a line end in the middle of a short sequence is shown; it
suspends the sequence, which goes on after the next control character.
-/

namespace HeaderDb.Terminal

/-- What a reader is in the middle of. -/
inductive Mode where
  | text
  /-- After an escape character. -/
  | escape
  /-- After an escape character and a sign that another one completes. -/
  | incomplete
  /-- In a control sequence: parameters, then a letter or a like sign. -/
  | control
  /-- In a command, which goes on until a bell. -/
  | command
  /-- At the start of a device string. -/
  | device
  /-- In the parameters of a device string. -/
  | deviceParameters
  /-- Before the sign that ends the head of a device string. -/
  | deviceIncomplete
  /-- In the contents of a string. -/
  | contents
  deriving Repr, DecidableEq

/-- Whether a code point is in a range, ends included. -/
def inRange (low high : Nat) (c : Char) : Bool := low ≤ c.toNat && c.toNat ≤ high

/-- Blanks that are also control characters. -/
def isBlankControl (c : Char) : Bool := c = '\t' || c = '\n' || c = '\x0c' || c = '\r'

/-- Characters that stay in a text. -/
def isShown (c : Char) : Bool := inRange 0x20 0x7E c || isBlankControl c || 0x80 ≤ c.toNat

/-- Contents of a string end at the byte 9C, also where it is part of a
character. -/
def endsContents (c : Char) : Bool := (String.utf8EncodeChar c).contains 0x9C

/-- The mode after a character that is not shown. Two control characters end any
sequence at once, and an escape character opens a new one. -/
def Mode.next (m : Mode) (c : Char) : Mode :=
  if c = '\x18' || c = '\x1a' then .text
  else if c = '\x1b' then .escape
  else match m with
  | .text => .text
  | .escape =>
    if inRange 0x20 0x2F c then .incomplete
    else if c = '[' then .control
    else if c = ']' then .command
    else if c = 'P' then .device
    else if c = 'X' || c = '^' || c = '_' then .contents
    else if inRange 0x30 0x7E c then .text
    else .escape
  | .incomplete => if inRange 0x30 0x7E c then .text else .incomplete
  | .control => if inRange 0x40 0x7E c then .text else .control
  | .command => if c = '\x07' then .text else .command
  | .device =>
    if inRange 0x20 0x2F c then .deviceIncomplete
    else if inRange 0x30 0x3F c then .deviceParameters
    else if inRange 0x40 0x7E c then .contents
    else .device
  | .deviceParameters =>
    if inRange 0x20 0x2F c then .deviceIncomplete
    else if inRange 0x3C 0x7E c then .contents
    else .deviceParameters
  | .deviceIncomplete => if inRange 0x30 0x7E c then .contents else .deviceIncomplete
  | .contents => if endsContents c then .text else .contents

/-- Whether blanks interrupt a sequence; those of longer strings belong to
them. -/
def Mode.isShort : Mode → Bool
  | .escape | .incomplete | .control => true
  | _ => false

/-- The characters that are shown, from the given mode on. In a suspended
sequence they are shown as in text. -/
def filterFrom (m : Mode) (suspended : Bool) : List Char → List Char
  | [] => []
  | c :: rest =>
    if m = .text || suspended then
      if isShown c then c :: filterFrom (if c.toNat < 0x80 then m else .text) suspended rest
      else filterFrom (m.next c) false rest
    else if m.isShort && isBlankControl c then c :: filterFrom m true rest
    else filterFrom (m.next c) false rest

/-- A text without controls and control sequences. -/
def filter (s : String) : String := String.ofList (filterFrom .text false s.toList)

/-- A styled text as a reader without a terminal gets it, or with its marks. -/
def Styled.print (t : Styled) (coloured : Bool) : String :=
  if coloured then t.render else filter t.render

end HeaderDb.Terminal
