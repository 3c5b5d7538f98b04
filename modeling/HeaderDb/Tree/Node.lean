import HeaderDb.Tree.Path

/-!
The contents of a file tree. A directory holds its entries in the order in which
they are enumerated. Look-up and change go along a list of names.
-/

namespace HeaderDb

inductive Node where
  | file (data : Bytes)
  | dir (entries : List (Name × Node))
  | link (target : Bytes)
  | fifo

namespace Node

def empty : Node := .dir []

/-- The entries of a directory; other nodes have none. -/
def entries : Node → List (Name × Node)
  | .dir es => es
  | _ => []

/-- The node at the end of a list of names. -/
def get? (root : Node) : List Name → Option Node
  | [] => some root
  | n :: rest => (root.entries.lookup n).bind fun child => child.get? rest

/-- Changes the node at the end of a list of names, if there is one. -/
def modify (f : Node → Node) : List Name → Node → Node
  | [], root => f root
  | n :: rest, .dir es =>
    .dir (es.map fun (k, child) => if k = n then (k, modify f rest child) else (k, child))
  | _ :: _, root => root

/-- Gives a directory an entry. One that is there keeps its place, a new one
comes last. -/
def put (n : Name) (child : Node) : Node → Node
  | .dir es =>
    if es.any fun e => e.1 = n then
      .dir (es.map fun e => if e.1 = n then (n, child) else e)
    else .dir (es ++ [(n, child)])
  | node => node

/-- Takes an entry from a directory. -/
def erase (n : Name) : Node → Node
  | .dir es => .dir (es.filter fun e => e.1 ≠ n)
  | node => node

/-- All directories of a tree have distinct legal names. -/
def WellFormed (root : Node) : Prop :=
  ∀ path es, root.get? path = some (.dir es) →
    (es.map Prod.fst).Nodup ∧ ∀ e ∈ es, e.1.IsLegal

end Node
end HeaderDb
