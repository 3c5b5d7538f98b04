import HeaderDb.Toml.Error
import HeaderDb.Toml.Source

/-!
TOML strings: between double quotes with escapes, between single quotes without;
three quotes instead of one allow line ends. One walk along the characters, with
a mode for what has been started.
-/

namespace HeaderDb.Toml

/-- What the walk is in the middle of. -/
inductive Mode where
  /-- Between characters. While `trimming`, blanks and line ends are dropped. -/
  | plain (trimming : Bool)
  /-- After a backslash. -/
  | escape
  /-- In a hexadecimal escape that was announced at `offset`. -/
  | hex (offset : Nat) (left : Nat) (value : Nat)
  /-- After a backslash and a blank: only a line end may follow the blanks. -/
  | folding (offset : Nat) (blank : Char)
  deriving Repr, DecidableEq

/-- Tabs and everything from U+0020 on but DEL. -/
def allowedInString (c : Char) : Bool := c = '\t' || (' ' ≤ c && c ≠ '\x7f')

def isBlank (c : Char) : Bool := c = ' ' || c = '\t'

def shortEscape? (c : Char) : Option Char :=
  if c = '"' then some '"'
  else if c = '\\' then some '\\'
  else if c = 'b' then some '\x08'
  else if c = 'f' then some '\x0c'
  else if c = 'n' then some '\n'
  else if c = 'r' then some '\r'
  else if c = 't' then some '\t'
  else none

def digitValue? (radix : Nat) (c : Char) : Option Nat :=
  let value :=
    if '0' ≤ c && c ≤ '9' then c.toNat - '0'.toNat
    else if 'a' ≤ c && c ≤ 'f' then c.toNat - 'a'.toNat + 10
    else if 'A' ≤ c && c ≤ 'F' then c.toNat - 'A'.toNat + 10
    else 16
  if value < radix then some value else none

abbrev Scanned := Except Error (List Char × Source)

def prepend (c : Char) : Scanned → Scanned
  | .ok (cs, rest) => .ok (c :: cs, rest)
  | .error e => .error e

/-- Up to two quotes right after the closing three belong to the string. -/
def closingQuotes (quote : Char) : Source → List Char × Source
  | (i, a) :: (j, b) :: rest =>
    if a = quote then
      if b = quote then ([quote, quote], rest) else ([quote], (j, b) :: rest)
    else ([], (i, a) :: (j, b) :: rest)
  | [(i, a)] => if a = quote then ([quote], []) else ([], [(i, a)])
  | [] => ([], [])

/-- Whether two quotes follow. -/
def twoQuotes? (quote : Char) : Source → Option Source
  | (_, a) :: (_, b) :: rest => if a = quote && b = quote then some rest else none
  | _ => none

/-- The rest of a string that was opened at `start`: its characters and what
follows its closing quotes. -/
def scanText (start : Nat) (quote : Char) (multiline : Bool) : Mode → Source → Scanned
  | _, [] => .error ⟨start, .unterminatedString⟩
  | .plain trimming, (i, c) :: rest =>
    if trimming && (isBlank c || c = '\n') then
      scanText start quote multiline (.plain true) rest
    else if c = '\n' then
      if multiline then prepend '\n' (scanText start quote multiline (.plain false) rest)
      else .error ⟨i, .newlineInString⟩
    else if c = quote then
      if !multiline then .ok ([], rest)
      else match twoQuotes? quote rest with
      | some rest => .ok (closingQuotes quote rest)
      | none => prepend c (scanText start quote multiline (.plain false) rest)
    else if c = '\\' && quote = '"' then scanText start quote multiline .escape rest
    else if allowedInString c then
      prepend c (scanText start quote multiline (.plain false) rest)
    else .error ⟨i, .invalidCharInString c⟩
  | .escape, (i, c) :: rest =>
    match shortEscape? c with
    | some e => prepend e (scanText start quote multiline (.plain false) rest)
    | none =>
      if c = 'u' then scanText start quote multiline (.hex i 4 0) rest
      else if c = 'U' then scanText start quote multiline (.hex i 8 0) rest
      else if multiline && c = '\n' then scanText start quote multiline (.plain true) rest
      else if multiline && isBlank c then scanText start quote multiline (.folding i c) rest
      else .error ⟨i, .invalidEscape c⟩
  | .hex offset left value, (i, c) :: rest =>
    match digitValue? 16 c with
    | none => .error ⟨i, .invalidHexEscape c⟩
    | some d =>
      let value := 16 * value + d
      if left ≠ 1 then scanText start quote multiline (.hex offset (left - 1) value) rest
      else if value.isValidChar then
        prepend (Char.ofNat value) (scanText start quote multiline (.plain false) rest)
      else .error ⟨offset, .invalidEscapeValue value⟩
  | .folding offset blank, (_, c) :: rest =>
    if isBlank c then scanText start quote multiline (.folding offset blank) rest
    else if c = '\n' then scanText start quote multiline (.plain true) rest
    else .error ⟨offset, .invalidEscape blank⟩

/-- A line end right after the opening quotes is dropped. -/
def dropNewline : Source → Source
  | (i, c) :: rest => if c = '\n' then rest else (i, c) :: rest
  | [] => []

/-- A string after its first quote: whether it is of the form with three quotes,
its characters, and what follows it. -/
def scanString (start : Nat) (quote : Char) (cs : Source) :
    Except Error (Bool × List Char × Source) :=
  match twoQuotes? quote cs with
  | some rest => (scanText start quote true (.plain false) (dropNewline rest)).map (true, ·)
  | none =>
    match cs with
    | (i, c) :: rest =>
      if c = quote then .ok (false, [], rest)
      else (scanText start quote false (.plain false) ((i, c) :: rest)).map (false, ·)
    | [] => .error ⟨start, .unterminatedString⟩

end HeaderDb.Toml
