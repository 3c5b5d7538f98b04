import HeaderDb.Text.Utf8

/-!
Paths as byte sequences. Slashes divide a path into components; how many of them
stand together does not matter, but one at the end asks for a directory.
-/

namespace HeaderDb

namespace Path

def slash : UInt8 := 47
def dot : UInt8 := 46

theorem utf8EncodeChar_slash : String.utf8EncodeChar '/' = [slash] := rfl

def isAbsolute (p : Bytes) : Bool := p.head? = some slash

/-- `dir` and `p` with a slash between them, unless `dir` ends in one. -/
def append (dir p : Bytes) : Bytes :=
  if dir.getLast? = some slash || dir.isEmpty then dir ++ p else dir ++ slash :: p

/-- `p` as seen from `dir`. -/
def join (dir p : Bytes) : Bytes := if isAbsolute p then p else append dir p

end Path

/-- The name of a directory entry. -/
abbrev Name := Bytes

/-- Entries have names of 1 to 255 bytes that can stand as a component. -/
def Name.IsLegal (n : Name) : Prop :=
  n ≠ [] ∧ n ≠ [Path.dot] ∧ n ≠ [Path.dot, Path.dot] ∧ Path.slash ∉ n ∧ 0 ∉ n ∧ n.length ≤ 255

inductive Component where
  | name (n : Name)
  /-- A single dot. -/
  | here
  /-- Two dots. -/
  | up
  /-- A slash at the end. -/
  | slash
  deriving Repr, DecidableEq

def Component.ofName (n : Name) : Component :=
  if n = [Path.dot] then .here
  else if n = [Path.dot, Path.dot] then .up
  else .name n

/-- The components of a path, given the name that has been started, latest byte
first. -/
def componentsFrom (started : Name) : Bytes → List Component
  | [] => if started.isEmpty then [] else [.ofName started.reverse]
  | b :: rest =>
    if b ≠ Path.slash then componentsFrom (b :: started) rest
    else if started.isEmpty then componentsFrom [] rest
    else if rest.all (· = Path.slash) then [.ofName started.reverse, .slash]
    else .ofName started.reverse :: componentsFrom [] rest

/-- The components of a path. -/
def components (p : Bytes) : List Component := componentsFrom [] p

end HeaderDb
