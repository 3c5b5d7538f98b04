import HeaderDb.Decimal.Binary64
import HeaderDb.Toml.Error

/-!
TOML values with the offsets where they start, and tables. Only tables that
dotted keys have made can be extended by further dotted keys.
-/

namespace HeaderDb.Toml

/-- A floating point number. -/
inductive Real where
  | finite (negative : Bool) (magnitude : Decimal.Binary64)
  | infinite (negative : Bool)
  | nan
  deriving Repr, DecidableEq

structure Located (α : Type) where
  start : Nat
  value : α
  deriving Repr

inductive Value where
  | string (s : String)
  | integer (n : Int)
  | real (x : Real)
  | boolean (b : Bool)
  | date
  | array (items : List (Located Value))
  /-- A table written in place, or one made by dotted keys. -/
  | table (dotted : Bool) (entries : List (String × Located Value))

abbrev Table := List (String × Located Value)

namespace Table

/-- Gives the first entry of a key another value. -/
def replace (key : String) (value : Located Value) : Table → Table
  | [] => []
  | (k, v) :: rest => if k = key then (k, value) :: rest else (k, v) :: replace key value rest

/-- Adds a value under a key of one or more parts. A table for the first part is
made at need; it starts where the value starts. -/
def insert (value : Located Value) (key : String) : List String → Table → Except Error Table
  | [], table => .ok (table ++ [(key, value)])
  | next :: more, table =>
    match table.lookup key with
    | none =>
      (insert value next more []).map fun inner =>
        table ++ [(key, ⟨value.start, .table true inner⟩)]
    | some ⟨start, .table true inner⟩ =>
      (insert value next more inner).map fun inner =>
        table.replace key ⟨start, .table true inner⟩
    | some ⟨start, _⟩ => .error ⟨start, .dottedKeyOnValue⟩

end Table
end HeaderDb.Toml
