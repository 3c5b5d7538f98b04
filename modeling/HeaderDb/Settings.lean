import HeaderDb.Database.Record
import HeaderDb.Decimal.Shortest
import HeaderDb.Mismatch
import HeaderDb.Toml.Document

/-!
Settings from a TOML document: the compiler, its flags, and the pattern that
headers match. Every key is optional, and none may be given twice. What the
command line gives wins over the document, and the document over the defaults.

A document is first read as TOML and then checked entry by entry, so an error of
the format anywhere wins over a wrong key or value.
-/

namespace HeaderDb

structure Settings where
  compiler : Option String := none
  flags : Option (List String) := none
  pattern : Option String := none
  deriving Repr, DecidableEq

namespace Settings

/-- The pattern of headers where nothing else is said. -/
def defaultPattern : String := "*.hh"

/-- The compiler invocation; `compiler` comes from the command line. -/
def template (s : Settings) (compiler : Option String) : Template :=
  let defaults : Template := {}
  { compiler := (compiler.or s.compiler).getD defaults.compiler
    flags := s.flags.getD defaults.flags }

/-- The pattern of headers; `pattern` comes from the command line. -/
def patternOr (s : Settings) (pattern : Option String) : String :=
  (pattern.or s.pattern).getD defaultPattern

inductive Key where
  | compiler
  | flags
  | pattern
  deriving Repr, DecidableEq

def Key.name : Key → String
  | .compiler => "compiler"
  | .flags => "flags"
  | .pattern => "pattern"

def Key.ofName? (name : String) : Option Key :=
  [Key.compiler, .flags, .pattern].find? fun k => k.name = name

inductive Cause where
  | toml (cause : Toml.Cause)
  | unknown (name : String)
  | duplicate (key : Key)
  | mismatch (key : Key) (mismatch : Mismatch)
  deriving Repr, DecidableEq

def Cause.message : Cause → String
  | .toml c => c.message
  | .unknown name =>
    "unknown field `" ++ name ++ "`, expected one of `compiler`, `flags`, `pattern`"
  | .duplicate k => "duplicate field `" ++ k.name ++ "`"
  | .mismatch k m => m.message ++ " for key `" ++ k.name ++ "`"

structure Error where
  offset : Nat
  cause : Cause
  deriving Repr, DecidableEq

/-- The words for an error in the given document. -/
def Error.message (e : Error) (document : String) : String :=
  e.cause.message ++ (Toml.Place.ofOffset e.offset document.toList).describe

/-! ## Values -/

/-- Numbers in messages are always written positionally. -/
def numberStyle : Decimal.Style := ⟨.up, none⟩

def realText : Toml.Real → String
  | .finite negative x => numberStyle.render negative x
  | .infinite false => "inf"
  | .infinite true => "-inf"
  | .nan => "NaN"

/-- A value as messages name it. -/
def found : Toml.Value → Found
  | .string s => .string s
  | .integer n => .integer n
  | .real x => .floating (realText x)
  | .boolean b => .boolean b
  | .date => .map
  | .array _ => .sequence
  | .table _ _ => .map

/-- A text where one is wanted. The error of an array has no place of its own
and is put at `elsewhere`. -/
def text (key : Key) (elsewhere : Nat) (v : Toml.Located Toml.Value) : Except Error String :=
  match v.value with
  | .string s => .ok s
  | .array _ => .error ⟨elsewhere, .mismatch key ⟨.sequence, .string⟩⟩
  | value => .error ⟨v.start, .mismatch key ⟨found value, .string⟩⟩

/-- A list of texts where one is wanted. -/
def texts (key : Key) (elsewhere : Nat) (v : Toml.Located Toml.Value) :
    Except Error (List String) :=
  match v.value with
  | .array items => items.mapM (text key elsewhere)
  | value => .error ⟨v.start, .mismatch key ⟨found value, .sequence⟩⟩

/-! ## Documents -/

/-- Whether a key has a value. -/
def has (s : Settings) : Key → Bool
  | .compiler => s.compiler.isSome
  | .flags => s.flags.isSome
  | .pattern => s.pattern.isSome

/-- The key of a new entry. -/
def newKey (s : Settings) (elsewhere : Nat) (name : String) : Except Error Key :=
  match Key.ofName? name with
  | none => .error ⟨elsewhere, .unknown name⟩
  | some key => if s.has key then .error ⟨elsewhere, .duplicate key⟩ else .ok key

/-- Takes over one entry of a document. -/
def assign (elsewhere : Nat) (s : Settings) (entry : String × Toml.Located Toml.Value) :
    Except Error Settings :=
  match s.newKey elsewhere entry.1 with
  | .error e => .error e
  | .ok .compiler => (text .compiler elsewhere entry.2).map fun t => { s with compiler := some t }
  | .ok .flags => (texts .flags elsewhere entry.2).map fun ts => { s with flags := some ts }
  | .ok .pattern => (text .pattern elsewhere entry.2).map fun t => { s with pattern := some t }

/-- The error of a header: no setting is a table. A header in double brackets
is a sequence of tables, unless it has a key of more than one part. -/
def headerError (elsewhere : Nat) (s : Settings) (h : Toml.Header) : Error :=
  match s.newKey elsewhere h.key.first with
  | .error e => e
  | .ok key =>
    let sequence := h.array && h.key.more.isEmpty
    let mismatch : Mismatch := match key with
      | .flags => if sequence then ⟨.map, .string⟩ else ⟨.map, .sequence⟩
      | _ => if sequence then ⟨.sequence, .string⟩ else ⟨.map, .string⟩
    ⟨elsewhere, .mismatch key mismatch⟩

/-- The settings of a document. Errors without a place of their own are put at
the last header, or at the start if there is none. -/
def ofDocument (d : Toml.Document) : Except Error Settings :=
  let elsewhere := (d.sections.head?.map fun s => s.header.start).getD 0
  match d.root.foldlM (assign elsewhere) {} with
  | .error e => .error e
  | .ok s =>
    match d.sections.getLast? with
    | none => .ok s
    | some first => .error (headerError elsewhere s first.header)

/-- The settings that a text holds. -/
def parse (document : String) : Except Error Settings :=
  match Toml.Document.parse document with
  | .error e => .error ⟨e.offset, .toml e.cause⟩
  | .ok d => ofDocument d

end Settings
end HeaderDb
