/-!
Glob patterns for file names. `?` stands for a character, `*` for any sequence,
`**` for whole path components, `[...]` for a character of a class and `[!...]`
for one outside it. Every other character stands for itself.
-/

namespace HeaderDb
namespace Glob

/-- One item of a character class. -/
inductive Member where
  | single (c : Char)
  | range (low high : Char)
  deriving Repr, DecidableEq

inductive Token where
  | literal (c : Char)
  | anyChar
  | anySequence
  | anyComponents
  | within (members : List Member)
  | outside (members : List Member)
  deriving Repr, DecidableEq

/-- What is wrong with a pattern. -/
inductive Cause where
  | wildcards
  | recursive
  | range
  deriving Repr, DecidableEq

def Cause.message : Cause → String
  | .wildcards => "wildcards are either regular `*` or recursive `**`"
  | .recursive => "recursive wildcards must form a single path component"
  | .range => "invalid range pattern"

/-- A pattern error; the position counts characters from zero. -/
structure Error where
  position : Nat
  cause : Cause
  deriving Repr, DecidableEq

def Error.message (e : Error) : String :=
  "Pattern syntax error near position " ++ toString e.position ++ ": " ++ e.cause.message

/-- The members of a class: three characters with a dash in the middle are a
range, taken from left to right; all others stand for themselves. -/
def members : List Char → List Member
  | a :: '-' :: b :: rest => .range a b :: members rest
  | c :: rest => .single c :: members rest
  | [] => []

/-- Adds a component wildcard to the tokens so far, which stand latest first.
Of two in a row the second is dropped, except right at the start. -/
def pushComponents : List Token → List Token
  | .anyComponents :: t :: rest => .anyComponents :: t :: rest
  | seen => .anyComponents :: seen

mutual

/-- The tokens of the rest of a pattern. `position` and `previous` tell where
the rest stands, `seen` holds the tokens so far, latest first. -/
def readTokens (position : Nat) (previous : Option Char) (seen : List Token) :
    List Char → Except Error (List Token)
  | [] => .ok seen.reverse
  | '?' :: rest => readTokens (position + 1) (some '?') (.anyChar :: seen) rest
  | '*' :: '*' :: '*' :: _ => .error ⟨position + 2, .wildcards⟩
  | '*' :: '*' :: rest =>
    if previous.all (· = '/') then
      match rest with
      | [] => .ok (pushComponents seen).reverse
      | '/' :: rest => readTokens (position + 3) (some '/') (pushComponents seen) rest
      | _ :: _ => .error ⟨position + 2, .recursive⟩
    else .error ⟨position - 1, .recursive⟩
  | '*' :: rest => readTokens (position + 1) (some '*') (.anySequence :: seen) rest
  | '[' :: '!' :: c :: rest => readClass position true [c] (position + 3) seen rest
  | '[' :: '!' :: [] => .error ⟨position, .range⟩
  | '[' :: c :: rest => readClass position false [c] (position + 2) seen rest
  | '[' :: [] => .error ⟨position, .range⟩
  | c :: rest => readTokens (position + 1) (some c) (.literal c :: seen) rest

/-- The rest of a pattern inside a class that was opened at `start`; `inside`
holds the characters of the class so far, latest first. -/
def readClass (start : Nat) (negated : Bool) (inside : List Char) (position : Nat)
    (seen : List Token) : List Char → Except Error (List Token)
  | [] => .error ⟨start, .range⟩
  | ']' :: rest =>
    let ms := members inside.reverse
    let token : Token := if negated then .outside ms else .within ms
    readTokens (position + 1) (some ']') (token :: seen) rest
  | c :: rest => readClass start negated (c :: inside) (position + 1) seen rest

end

end Glob

/-- A pattern that has been read. -/
structure Glob where
  tokens : List Glob.Token
  deriving Repr, DecidableEq

def Glob.parse (pattern : String) : Except Glob.Error Glob :=
  (Glob.readTokens 0 none [] pattern.toList).map Glob.mk

end HeaderDb
