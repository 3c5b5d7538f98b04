import HeaderDb.Text.Quoted

/-!
A value of one kind where another was wanted, and the words for it. Settings
and databases share them.
-/

namespace HeaderDb

/-- The value that was there. A floating point number is given by its text,
since each format lays its digits out in its own way. -/
inductive Found where
  | integer (n : Int)
  | floating (text : String)
  | boolean (b : Bool)
  | string (s : String)
  | null
  | map
  | sequence
  deriving Repr, DecidableEq

/-- The kind of value that was wanted. -/
inductive Wanted where
  | string
  | sequence
  | record
  deriving Repr, DecidableEq

def Found.describe : Found → String
  | .integer n => "integer `" ++ toString n ++ "`"
  | .floating text => "floating point `" ++ text ++ "`"
  | .boolean true => "boolean `true`"
  | .boolean false => "boolean `false`"
  | .string s => "string " ++ Text.quoted s
  | .null => "null"
  | .map => "map"
  | .sequence => "sequence"

def Wanted.describe : Wanted → String
  | .string => "a string"
  | .sequence => "a sequence"
  | .record => "struct CompileCommand"

structure Mismatch where
  found : Found
  wanted : Wanted
  deriving Repr, DecidableEq

def Mismatch.message (m : Mismatch) : String :=
  "invalid type: " ++ m.found.describe ++ ", expected " ++ m.wanted.describe

end HeaderDb
