import HeaderDb.Tree.Walk

/-!
What a program can ask of a file tree: read a file, write one, list a directory,
and name the current directory.
-/

namespace HeaderDb

/-- A directory entry as a scan sees it: its name, and whether it leads to a
directory once links are followed. -/
structure Entry where
  name : Name
  isDirectory : Bool
  deriving Repr, DecidableEq

namespace Tree

/-- The contents of a file. A pipe is read as empty, as if its other end gave
nothing. -/
def load (t : Tree) (p : Bytes) : Except OsError Bytes :=
  match t.resolve .follow p with
  | .error e => .error e
  | .ok (.directory _) => .error .isADirectory
  | .ok (.absent _ _) => .error .notFound
  | .ok (.entry _ _ (.file data)) => .ok data
  | .ok (.entry _ _ _) => .ok []

/-- Gives a file the contents, in place of what it held; a missing file is
created. A pipe takes the data and keeps nothing. -/
def store (t : Tree) (p : Bytes) (data : Bytes) : Except OsError Tree :=
  match t.resolve .create p with
  | .error e => .error e
  | .ok (.directory _) => .error .isADirectory
  | .ok (.absent dir n) | .ok (.entry dir n (.file _)) =>
    .ok { t with root := t.root.modify (Node.put n (.file data)) dir }
  | .ok (.entry _ _ _) => .ok t

def isDirectory (t : Tree) (p : Bytes) : Bool :=
  match t.resolve .follow p with
  | .ok (.directory _) => true
  | _ => false

/-- The names in a directory. -/
def names (t : Tree) (p : Bytes) : Except OsError (List Name) :=
  match t.resolve .follow p with
  | .error e => .error e
  | .ok (.directory place) =>
    if place.removed ≠ 0 then .ok []
    else .ok (((t.root.get? place.path).map Node.entries).getD [] |>.map Prod.fst)
  | .ok (.absent _ _) => .error .notFound
  | .ok (.entry _ _ _) => .error .notADirectory

/-- The entries of a directory. Each is looked at by its path from the one
given. -/
def list (t : Tree) (p : Bytes) : Except OsError (List Entry) :=
  (t.names p).map fun ns => ns.map fun n => ⟨n, t.isDirectory (Path.append p n)⟩

/-- The path of the current directory; one that has been removed has none. -/
def currentDirectory (t : Tree) : Except OsError Bytes :=
  if t.current.removed ≠ 0 then .error .notFound
  else if t.current.path.isEmpty then .ok [Path.slash]
  else .ok (t.current.path.flatMap fun n => Path.slash :: n)

/-- What a path holds. -/
inductive Contents where
  | data (bytes : Bytes)
  | directory
  /-- A link that leads nowhere. -/
  | dangling
  | nothing
  deriving Repr, DecidableEq

/-- What a path holds once links are followed. -/
def inspect (t : Tree) (p : Bytes) : Contents :=
  match t.resolve .follow p with
  | .ok (.directory _) => .directory
  | .ok (.entry _ _ (.file data)) => .data data
  | .ok (.entry _ _ _) => .data []
  | _ =>
    match t.resolve .keep p with
    | .ok (.entry _ _ (.link _)) => .dangling
    | _ => .nothing

end Tree
end HeaderDb
