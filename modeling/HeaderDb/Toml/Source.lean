/-!
The characters of a document with their byte offsets. A carriage return before
a line feed is part of the line end. Messages give a place by line and column,
both from one, the column in bytes.
-/

namespace HeaderDb.Toml

abbrev Source := List (Nat × Char)

/-- The characters with their offsets, the first of them at `offset`. -/
def Source.ofChars (offset : Nat) : List Char → Source
  | [] => []
  | '\r' :: '\n' :: rest => (offset, '\n') :: ofChars (offset + 2) rest
  | c :: rest => (offset, c) :: ofChars (offset + c.utf8Size) rest

/-- The characters of a document; a byte order mark in front is skipped. -/
def Source.ofDocument : List Char → Source
  | '\uFEFF' :: rest => ofChars 3 rest
  | cs => ofChars 0 cs

structure Place where
  line : Nat
  column : Nat
  deriving Repr, DecidableEq

/-- The place of an offset in a text. -/
def Place.ofOffset : Nat → List Char → Place
  | _, [] => ⟨1, 1⟩
  | offset, c :: cs =>
    if offset = 0 then ⟨1, 1⟩
    else
      let after := ofOffset (offset - c.utf8Size) cs
      if c = '\n' then ⟨after.line + 1, after.column⟩
      else if after.line = 1 then ⟨1, after.column + c.utf8Size⟩
      else after

def Place.describe (p : Place) : String :=
  " at line " ++ toString p.line ++ " column " ++ toString p.column

end HeaderDb.Toml
