import HeaderDb.Tree.Access

/-!
Changes to a file tree from outside the program: new entries, removals, renames,
and a change of the current directory. The current directory stays the same
directory when it is renamed or removed together with one above it.
-/

namespace HeaderDb

/-- The current directory after everything at `path` has been removed. -/
def Place.afterRemoval (path : List Name) (p : Place) : Place :=
  if path.isPrefixOf p.path then
    { path := path.dropLast, removed := p.removed + (p.path.length - path.length) + 1 }
  else p

/-- The current directory after everything at `source` has moved to `target`. -/
def Place.afterMove (source target : List Name) (p : Place) : Place :=
  if source.isPrefixOf p.path then { p with path := target ++ p.path.drop source.length } else p

namespace Tree

/-- Adds an entry to the directory at `dir`. -/
def put (t : Tree) (dir : List Name) (n : Name) (child : Node) : Tree :=
  { t with root := t.root.modify (Node.put n child) dir }

/-- Removes what is at `dir` and `n`, with all that it holds. -/
def erase (t : Tree) (dir : List Name) (n : Name) : Tree :=
  { root := t.root.modify (Node.erase n) dir
    current := t.current.afterRemoval (dir ++ [n]) }

/-- Makes the directories along the given components, of which `done` have been
made already. -/
def makeDirectories (t : Tree) (start : Place) (done : List Component) :
    List Component → Except OsError Tree
  | [] => .ok t
  | c :: rest =>
    let done := done ++ [c]
    match walk t.root .follow maxLinks start done with
    | .error e => .error e
    | .ok (.directory _) => makeDirectories t start done rest
    | .ok (.absent dir n) => makeDirectories (t.put dir n .empty) start done rest
    | .ok (.entry _ _ _) => .error .notADirectory

/-- What can be put into a tree. -/
inductive Addition where
  | file (data : Bytes)
  | directory
  | link (target : Bytes)
  | fifo
  deriving Repr, DecidableEq

/-- Puts something at a path; missing directories on the way are made. -/
def create (t : Tree) (p : Bytes) (what : Addition) : Except OsError Tree := do
  let start := t.current.start p
  let cs := (components p).filter (· ≠ .slash)
  match what with
  | .directory => t.makeDirectories start [] cs
  | .file data =>
    let t ← t.makeDirectories start [] cs.dropLast
    t.store p data
  | .link target =>
    let t ← t.makeDirectories start [] cs.dropLast
    place t (.link target)
  | .fifo =>
    let t ← t.makeDirectories start [] cs.dropLast
    place t .fifo
where
  place (t : Tree) (node : Node) : Except OsError Tree := do
    match ← t.resolve .keep p with
    | .absent dir n => .ok (t.put dir n node)
    | _ => .ok t

/-- The directory and the name of an entry. -/
def locate (t : Tree) (p : Bytes) : Except OsError (List Name × Name × Option Node) := do
  match ← t.resolve .keep p with
  | .entry dir n node => .ok (dir, n, some node)
  | .absent dir n => .ok (dir, n, none)
  | .directory place =>
    match place.path.getLast? with
    | some n => .ok (place.path.dropLast, n, t.root.get? place.path)
    | none => .error .isADirectory

/-- Removes a file, a link, or a directory with all that it holds. -/
def remove (t : Tree) (p : Bytes) : Except OsError Tree := do
  match ← t.locate p with
  | (dir, n, some _) => .ok (t.erase dir n)
  | (_, _, none) => .error .notFound

/-- Moves an entry; what is at the target gives way. -/
def rename (t : Tree) (source target : Bytes) : Except OsError Tree := do
  let (dir, n, node) ← t.locate source
  let (dir', n', replaced) ← t.locate target
  match node with
  | none => .error .notFound
  | some node =>
    if dir ++ [n] = dir' ++ [n'] then .ok t
    else
      let t := if replaced.isSome then t.erase dir' n' else t
      let root := t.root.modify (Node.erase n) dir
      .ok { root := root.modify (Node.put n' node) dir'
            current := t.current.afterMove (dir ++ [n]) (dir' ++ [n']) }

/-- Makes another directory the current one. -/
def enter (t : Tree) (p : Bytes) : Except OsError Tree := do
  match ← t.resolve .follow p with
  | .directory place => .ok { t with current := place }
  | .entry _ _ _ => .error .notADirectory
  | .absent _ _ => .error .notFound

end Tree
end HeaderDb
