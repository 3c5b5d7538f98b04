import HeaderDb.Failure
import HeaderDb.Glob.Match
import HeaderDb.Text.Quoted
import HeaderDb.Tree.Access

/-!
Headers in a directory. Every entry is looked at once, in the order of the
enumeration, and draws at most one note: its name is no text, it leads to a
directory, or it is a header. The headers are the entries with a note of the
last kind.
-/

namespace HeaderDb

inductive Note where
  | notUtf8 (name : Name)
  | directory (name : String)
  | matched (name : String)
  /-- What a whole run has found. -/
  | summary (count : Nat) (pattern directory : String)
  deriving Repr, DecidableEq

def Note.message : Note → String
  | .notUtf8 name => Text.quotedName name ++ ": skipping non-utf8 name"
  | .directory name => name ++ ": skipping directory"
  | .matched name => name ++ ": matched"
  | .summary count pattern dir =>
    toString count ++ " header(s) matching " ++ pattern ++ " in " ++ dir

/-- What there is to say about an entry. Names that are text and do not match
are passed over in silence. -/
def Glob.note? (g : Glob) (e : Entry) : Option Note :=
  match Utf8.decode? e.name with
  | none => some (.notUtf8 e.name)
  | some name =>
    if !g.matches name then none
    else if e.isDirectory then some (.directory name)
    else some (.matched name)

/-- The notes on the entries of a directory, in their order. -/
def Glob.notes (g : Glob) (entries : List Entry) : List Note := entries.filterMap g.note?

def Note.header? : Note → Option String
  | .matched name => some name
  | _ => none

/-- The headers among the entries that were noted, in their order. -/
def headersOf (notes : List Note) : List String := notes.filterMap Note.header?

/-- The notes on the entries of a directory. The pattern is read before the
directory is. -/
def scan (pattern : String) (entries : Except OsError (List Entry)) : Except Failure (List Note) :=
  match Glob.parse pattern with
  | .error e => .error (.pattern pattern e)
  | .ok g =>
    match entries with
    | .error e => .error (.os e)
    | .ok entries => .ok (g.notes entries)

end HeaderDb
