import HeaderDb.Toml.Number

/-!
The structure of a TOML document: the entries before the first header, then the
headers with their entries. A document is read as a whole before any of its
values is used, and the first error in the text wins.
-/

namespace HeaderDb.Toml

/-- What was wanted here and is not there. -/
def Lexemes.missing (wanted : Wanted) : Lexemes → Error
  | .done stop => ⟨stop, .wanted wanted none⟩
  | .fault e => e
  | .next start t _ => ⟨start, .wanted wanted (some t.kind)⟩

/-- Drops blanks, of which there is one token at most. -/
def Lexemes.skipBlanks : Lexemes → Lexemes
  | .next _ (.whitespace _) rest => rest
  | ls => ls

/-- The token of a kind that carries nothing else. -/
def expect (t : Token) : Lexemes → Except Error Lexemes
  | .next start found rest =>
    if found = t then .ok rest else .error ((Lexemes.next start found rest).missing (.token t.kind))
  | ls => .error (ls.missing (.token t.kind))

/-- A line end or the end of the text. -/
def lineEnd : Lexemes → Except Error Lexemes
  | .next _ .newline rest => .ok rest
  | .done stop => .ok (.done stop)
  | ls => .error (ls.missing .lineEnd)

/-- What may follow on a line: blanks, a comment and the line end. -/
def restOfLine (ls : Lexemes) : Except Error Lexemes :=
  match ls.skipBlanks with
  | .next _ .comment rest => lineEnd rest
  | ls => lineEnd ls

/-! ## Keys -/

/-- The parts of a dotted key. -/
structure Key where
  first : String
  more : List String
  deriving Repr, DecidableEq

/-- One part of a key. -/
def keyPart : Lexemes → Except Error (String × Lexemes)
  | .next _ (.bare cs) rest => .ok (String.ofList cs, rest)
  | .next _ (.string false s) rest => .ok (s, rest)
  | .next start (.string true _) _ => .error ⟨start, .multilineKey⟩
  | ls => .error (ls.missing .key)

/-- Further parts of a key after the first, and the blanks after them. The fuel
bounds their number. -/
def keyParts : Nat → Lexemes → Except Error (List String × Lexemes)
  | 0, ls => .ok ([], ls)
  | fuel + 1, ls =>
    match ls.skipBlanks with
    | .next _ .period rest =>
      match keyPart rest.skipBlanks with
      | .error e => .error e
      | .ok (part, rest) => (keyParts fuel rest).map fun (parts, rest) => (part :: parts, rest)
    | .fault e => .error e
    | ls => .ok ([], ls)

/-- A dotted key and the blanks after it. -/
def key (ls : Lexemes) : Except Error (Key × Lexemes) :=
  match keyPart ls with
  | .error e => .error e
  | .ok (first, rest) =>
    (keyParts (rest.length + 1) rest).map fun (more, rest) => (⟨first, more⟩, rest)

/-! ## Dates -/

/-- The word of a date that starts at `start`. -/
def dateWord (start : Nat) : Lexemes → Except Error Lexemes
  | .next _ (.bare _) rest => .ok rest
  | .fault e => .error e
  | _ => .error ⟨start, .invalidDate⟩

/-- A word of a date, if `mark` comes before it. -/
def optionalWord (start : Nat) (mark : Token) : Lexemes → Except Error Lexemes
  | .next offset t rest => if t = mark then dateWord start rest else .ok (.next offset t rest)
  | .fault e => .error e
  | ls => .ok ls

/-- The time of a date after its first colon: minutes, seconds, and then
optionally fractions and an offset. -/
def timeOfDay (start : Nat) (ls : Lexemes) : Except Error Lexemes := do
  let ls ← dateWord start ls
  let ls ← expect .colon ls
  let ls ← dateWord start ls
  let ls ← optionalWord start .period ls
  let ls ← optionalWord start .plus ls
  optionalWord start .colon ls

/-- A single blank and a word after a date are its time. -/
def skipHour : Lexemes → Lexemes
  | .next _ (.whitespace [' ']) (.next _ (.bare _) rest) => rest
  | ls => ls

/-- The rest of a date that starts at `start`. Dates are delimited, and their
numbers are not looked at. -/
def date (start : Nat) (colonTaken : Bool) (ls : Lexemes) : Except Error Lexemes :=
  let ls := skipHour ls
  if colonTaken then timeOfDay start ls
  else match ls with
  | .next _ .colon rest => timeOfDay start rest
  | .fault e => .error e
  | ls => .ok ls

/-- Whether a word has an exponent with a minus sign. -/
def hasNegativeExponent : List Char → Bool
  | a :: b :: rest => ((a = 'e' || a = 'E') && b = '-') || hasNegativeExponent (b :: rest)
  | _ => false

/-- Whether a word is the start of a date by itself. -/
def isDate (cs : List Char) : Bool :=
  cs.any (fun c => c = 'T' || c = 't') || ((cs.drop 1).contains '-' && !hasNegativeExponent cs)

/-! ## Values -/

/-- A number or a date that starts with the word `cs`. -/
def numberOrDate (start : Nat) (cs : List Char) (ls : Lexemes) :
    Except Error (Located Value × Lexemes) :=
  if isDate cs then (date start false ls).map fun ls => (⟨start, .date⟩, ls)
  else match ls with
  | .next _ .colon rest => (date start true rest).map fun ls => (⟨start, .date⟩, ls)
  | .fault e => .error e
  | ls => number start start cs ls

/-- The value of a word. -/
def word (start : Nat) (cs : List Char) (ls : Lexemes) : Except Error (Located Value × Lexemes) :=
  if cs = ['t', 'r', 'u', 'e'] then .ok (⟨start, .boolean true⟩, ls)
  else if cs = ['f', 'a', 'l', 's', 'e'] then .ok (⟨start, .boolean false⟩, ls)
  else if cs = ['i', 'n', 'f'] || cs = ['n', 'a', 'n'] ||
      (cs.take 1).all (fun c => c = '-' || c.isDigit) then numberOrDate start cs ls
  else .error ⟨start, .unquotedString⟩

/-- The number after a plus sign at `start`. -/
def positive (start : Nat) : Lexemes → Except Error (Located Value × Lexemes)
  | .next offset (.bare cs) rest => number start offset cs rest
  | .fault e => .error e
  | ls => .error ⟨ls.offset, .invalidNumber⟩

/-- Drops blanks, line ends and comments inside an array. The fuel bounds their
number. -/
def skipLines : Nat → Lexemes → Except Error Lexemes
  | 0, ls => .ok ls
  | fuel + 1, ls =>
    match ls.skipBlanks with
    | .next _ .newline rest => skipLines fuel rest
    | .next _ .comment rest => (lineEnd rest).bind (skipLines fuel)
    | .fault e => .error e
    | ls => .ok ls

mutual

/-- A value. The fuel bounds the number of values and of container items on the
way to the innermost one; two for each token suffice. -/
def value : Nat → Lexemes → Except Error (Located Value × Lexemes)
  | 0, ls => .error ⟨ls.offset, .unexpectedEnd⟩
  | fuel + 1, ls =>
    match ls with
    | .next start (.string _ s) rest => .ok (⟨start, .string s⟩, rest)
    | .next start (.bare cs) rest => word start cs rest
    | .next start .plus rest => positive start rest
    | .next start .leftBrace rest =>
      match rest.skipBlanks with
      | .next _ .rightBrace rest => .ok (⟨start, .table false []⟩, rest)
      | .fault e => .error e
      | rest =>
        (entries fuel [] rest).map fun (table, rest) => (⟨start, .table false table⟩, rest)
    | .next start .leftBracket rest =>
      (items fuel rest).map fun (items, rest) => (⟨start, .array items⟩, rest)
    | .done stop => .error ⟨stop, .unexpectedEnd⟩
    | ls => .error (ls.missing .value)

/-- The items of an array up to its closing bracket. -/
def items : Nat → Lexemes → Except Error (List (Located Value) × Lexemes)
  | 0, ls => .error ⟨ls.offset, .unexpectedEnd⟩
  | fuel + 1, ls =>
    match skipLines (ls.length + 1) ls with
    | .error e => .error e
    | .ok (.next _ .rightBracket rest) => .ok ([], rest)
    | .ok ls =>
      match value fuel ls with
      | .error e => .error e
      | .ok (item, ls) =>
        match skipLines (ls.length + 1) ls with
        | .error e => .error e
        | .ok (.next _ .comma rest) =>
          (items fuel rest).map fun (items, rest) => (item :: items, rest)
        | .ok ls => (expect .rightBracket ls).map fun rest => ([item], rest)

/-- The entries of a table in braces, from a key on, up to the closing brace. -/
def entries : Nat → Table → Lexemes → Except Error (Table × Lexemes)
  | 0, _, ls => .error ⟨ls.offset, .unexpectedEnd⟩
  | fuel + 1, table, ls =>
    match entry fuel ls with
    | .error e => .error e
    | .ok (key, value, ls) =>
      match table.insert value key.first key.more with
      | .error e => .error e
      | .ok table =>
        match ls.skipBlanks with
        | .next _ .rightBrace rest => .ok (table, rest)
        | ls => (expect .comma ls).bind fun rest => entries fuel table rest.skipBlanks

/-- A key, an equals sign and a value. -/
def entry : Nat → Lexemes → Except Error (Key × Located Value × Lexemes)
  | 0, ls => .error ⟨ls.offset, .unexpectedEnd⟩
  | fuel + 1, ls =>
    match key ls with
    | .error e => .error e
    | .ok (key, ls) =>
      match expect .equals ls with
      | .error e => .error e
      | .ok ls => (value fuel ls.skipBlanks).map fun (value, ls) => (key, value, ls)

end

/-! ## Lines -/

/-- A table header; `array` tells that it stands in double brackets. -/
structure Header where
  start : Nat
  array : Bool
  key : Key
  deriving Repr, DecidableEq

/-- A header with the entries below it. -/
structure Section where
  header : Header
  table : Table

structure Document where
  root : Table := []
  /-- Latest first. -/
  sections : List Section := []

/-- Adds an entry below the latest header. -/
def Document.insert (d : Document) (key : Key) (value : Located Value) : Except Error Document :=
  match d.sections with
  | [] => (d.root.insert value key.first key.more).map fun root => { d with root }
  | s :: rest =>
    (s.table.insert value key.first key.more).map fun table =>
      { d with sections := { s with table } :: rest }

/-- A header after its first bracket, which stands at `start`. -/
def header (start : Nat) (ls : Lexemes) : Except Error (Header × Lexemes) := do
  let (array, ls) := match ls with
    | .next _ .leftBracket rest => (true, rest)
    | ls => (false, ls)
  let (key, ls) ← key ls.skipBlanks
  let ls ← expect .rightBracket ls
  let ls ← if array then expect .rightBracket ls else .ok ls
  let ls ← restOfLine ls
  return (⟨start, array, key⟩, ls)

/-- The lines of a document, added to what has been read. The fuel bounds their
number. -/
def lines : Nat → Document → Lexemes → Except Error Document
  | 0, d, _ => .ok d
  | fuel + 1, d, ls =>
    match ls.skipBlanks with
    | .done _ => .ok d
    | .fault e => .error e
    | .next _ .newline rest => lines fuel d rest
    | .next _ .comment rest => (lineEnd rest).bind (lines fuel d)
    | .next start .leftBracket rest =>
      (header start rest).bind fun (h, rest) =>
        lines fuel { d with sections := ⟨h, []⟩ :: d.sections } rest
    | ls => do
      let (key, value, rest) ← entry (2 * ls.length + 2) ls
      let rest ← restOfLine rest
      let d ← d.insert key value
      lines fuel d rest

/-- The document that a text holds. -/
def Document.parse (s : String) : Except Error Document :=
  let ls := Lexemes.ofDocument s.toList
  lines (ls.length + 1) {} ls

end HeaderDb.Toml
