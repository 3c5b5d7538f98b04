import HeaderDb.Glob.Pattern

/-!
Matching names against a pattern. Letters of ASCII match regardless of case. A
dot at the start of a path component is matched by a literal dot only, so
wildcards and classes leave hidden names alone.

The search backtracks over the wildcards. It gives up altogether as soon as the
name is used up before a token that needs a character: no other choice for the
wildcards before it leaves more of the name.
-/

namespace HeaderDb
namespace Glob

/-- Equality up to the case of ASCII letters. -/
def sameLetter (a b : Char) : Bool := a.toLower = b.toLower

/-- Whether a range holds a character. A range between two ASCII letters also
holds the other case of what lies between them. -/
def inRange (low high c : Char) : Bool :=
  (low ≤ c && c ≤ high) ||
    (c.toNat < 128 && low.isAlpha && high.isAlpha &&
      low.toLower ≤ c.toLower && c.toLower ≤ high.toLower)

def Member.holds (c : Char) : Member → Bool
  | .single s => sameLetter c s
  | .range low high => inRange low high c

/-- Whether a token other than a wildcard takes a character; `leading` tells
whether it starts a path component. -/
def Token.takes (leading : Bool) (c : Char) : Token → Bool
  | .literal l => sameLetter c l
  | .anyChar => !(leading && c = '.')
  | .within ms => !(leading && c = '.') && ms.any (Member.holds c)
  | .outside ms => !(leading && c = '.') && !ms.any (Member.holds c)
  | .anySequence | .anyComponents => false

/-- Outcome of a search: besides success and failure of the choices made so
far, the failure of every choice. -/
inductive Verdict where
  | matched
  | mismatch
  | exhausted
  deriving Repr, DecidableEq

/-- Lets a wildcard take one more character after another until the rest of the
pattern, given by `tail`, does not simply fail. A wildcard for whole components
stops only behind a slash or at the end. -/
def extendWildcard (components : Bool) (tail : Bool → List Char → Verdict) :
    Bool → List Char → Verdict
  | leading, [] => tail leading []
  | leading, c :: rest =>
    if leading && c = '.' then .mismatch
    else if components && c ≠ '/' then extendWildcard components tail false rest
    else match tail (c = '/') rest with
    | .mismatch => extendWildcard components tail (c = '/') rest
    | v => v

/-- A wildcard takes nothing, or else as little as possible. -/
def matchWildcard (components : Bool) (tail : Bool → List Char → Verdict)
    (leading : Bool) (name : List Char) : Verdict :=
  match tail leading name with
  | .mismatch => extendWildcard components tail leading name
  | v => v

/-- A token other than a wildcard takes one character. -/
def matchChar (t : Token) (tail : Bool → List Char → Verdict) (leading : Bool) :
    List Char → Verdict
  | [] => .exhausted
  | c :: rest => if t.takes leading c then tail (c = '/') rest else .mismatch

/-- Matches tokens against the rest of a name. -/
def matchTokens : List Token → Bool → List Char → Verdict
  | [], _, name => if name.isEmpty then .matched else .mismatch
  | t :: ts, leading, name =>
    match t with
    | .anySequence => matchWildcard false (matchTokens ts) leading name
    | .anyComponents => matchWildcard true (matchTokens ts) leading name
    | t => matchChar t (matchTokens ts) leading name

end Glob

/-- Whether a name matches a pattern. -/
def Glob.matches (g : Glob) (name : String) : Bool :=
  Glob.matchTokens g.tokens true name.toList = .matched

end HeaderDb
