import HeaderDb.Tree.Node

/-!
Path resolution. A walk goes from a directory along the components of a path.
Links in the middle are always followed; the last component is followed, kept,
or allowed to be missing, as the caller intends. At most forty links are
followed on one walk. A path that is too long as a whole is refused before the
walk begins, wherever it leads.
-/

namespace HeaderDb

inductive OsError where
  | notFound
  | notADirectory
  | isADirectory
  | nameTooLong
  | linkLoop
  /-- A path with a zero byte never reaches the system. -/
  | nulByte
  deriving Repr, DecidableEq

def OsError.message : OsError → String
  | .notFound => "No such file or directory (os error 2)"
  | .notADirectory => "Not a directory (os error 20)"
  | .isADirectory => "Is a directory (os error 21)"
  | .nameTooLong => "File name too long (os error 36)"
  | .linkLoop => "Too many levels of symbolic links (os error 40)"
  | .nulByte => "file name contained an unexpected NUL byte"

/-- A directory as a process holds it: `removed` levels below the directory at
`path`. A directory that has been removed is empty and has no path, but its
parent can still be reached from it. -/
structure Place where
  path : List Name := []
  removed : Nat := 0
  deriving Repr, DecidableEq

def Place.root : Place := {}

/-- The parent directory; that of the root is the root. -/
def Place.parent (p : Place) : Place :=
  if p.removed = 0 then { p with path := p.path.dropLast } else { p with removed := p.removed - 1 }

/-- A file tree and the current directory in it. -/
structure Tree where
  root : Node := .empty
  current : Place := .root

/-- What a walk is for. -/
inductive Intent where
  | follow
  /-- A link at the end is kept. -/
  | keep
  /-- A file at the end may be created. -/
  | create
  deriving Repr, DecidableEq

/-- Where a walk ends. -/
inductive Spot where
  | directory (place : Place)
  /-- An entry that is no directory. -/
  | entry (dir : List Name) (name : Name) (node : Node)
  | absent (dir : List Name) (name : Name)

def maxNameLength : Nat := 255
def maxPathLength : Nat := 4095
def maxLinks : Nat := 40

/-- The directory that a path starts from. -/
def Place.start (here : Place) (p : Bytes) : Place :=
  if Path.isAbsolute p then .root else here

/-- Goes on along components; `follow` goes on after a link. -/
def advance (root : Node) (intent : Intent)
    (follow : Place → List Component → Except OsError Spot) :
    Place → List Component → Except OsError Spot
  | here, [] => .ok (.directory here)
  | here, .here :: rest => advance root intent follow here rest
  | here, .slash :: rest => advance root intent follow here rest
  | here, .up :: rest => advance root intent follow here.parent rest
  | here, .name n :: rest =>
    -- no file can be created under a name that asks for a directory
    if intent = .create && rest = [.slash] then .error .isADirectory
    else if here.removed ≠ 0 then .error .notFound
    else if maxNameLength < n.length then .error .nameTooLong
    else match root.get? (here.path ++ [n]) with
    | none => if rest.isEmpty then .ok (.absent here.path n) else .error .notFound
    | some (.dir _) => advance root intent follow ⟨here.path ++ [n], 0⟩ rest
    | some (.link target) =>
      if rest.isEmpty && intent = .keep then .ok (.entry here.path n (.link target))
      else follow (here.start target) (components target ++ rest)
    | some node => if rest.isEmpty then .ok (.entry here.path n node) else .error .notADirectory

/-- A walk that may still follow the given number of links. -/
def walk (root : Node) (intent : Intent) : Nat → Place → List Component → Except OsError Spot
  | 0 => advance root intent fun _ _ => .error .linkLoop
  | links + 1 => advance root intent (walk root intent links)

/-- Where a path leads. -/
def Tree.resolve (t : Tree) (intent : Intent) (p : Bytes) : Except OsError Spot :=
  if p.contains 0 then .error .nulByte
  else if maxPathLength < p.length then .error .nameTooLong
  else if p.isEmpty then .error .notFound
  else walk t.root intent maxLinks (t.current.start p) (components p)

end HeaderDb
