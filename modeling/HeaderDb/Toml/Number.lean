import HeaderDb.Toml.Lexeme
import HeaderDb.Toml.Value

/-!
TOML numbers. They are spread over tokens: a point divides two words, and a plus
sign stands alone. Digits may be grouped by single underscores.
-/

namespace HeaderDb.Toml

open Decimal (Binary64)

def natOfDigits (radix : Nat) (cs : List Char) : Nat :=
  cs.foldl (fun n c => radix * n + (digitValue? radix c).getD 0) 0

/-- Digits with single underscores between them, from `offset` on: the digits
and what follows. `started` tells that a digit came before, `zero` that the
first digit was a zero which no other may follow, `gap` that an underscore came
right before. Errors without a place of their own are at `start`. -/
def scanDigits (radix : Nat) (zeros : Bool) (start : Nat) (offset : Nat)
    (started zero gap : Bool) : List Char → Except Error (List Char × List Char)
  | [] => if started && !gap then .ok ([], []) else .error ⟨start, .invalidNumber⟩
  | c :: rest =>
    if (digitValue? radix c).isSome then
      if zero then .error ⟨offset, .invalidNumber⟩
      else
        let zero := !started && c = '0' && !zeros
        (scanDigits radix zeros start (offset + 1) true zero false rest).map
          fun (digits, rest) => (c :: digits, rest)
    else if c = '_' && !started then .error ⟨offset, .invalidNumber⟩
    else if c = '_' && !gap then
      scanDigits radix zeros start (offset + 1) started zero true rest
    else if started && !gap then .ok ([], c :: rest)
    else .error ⟨start, .invalidNumber⟩

/-- A run of digits: whether it has a minus sign, the digits, and what follows. -/
def scanRun (radix : Nat) (sign zeros : Bool) (start : Nat) (cs : List Char) :
    Except Error (Bool × List Char × List Char) :=
  match cs with
  | '-' :: rest =>
    if sign then (scanDigits radix zeros start (start + 1) false false false rest).map (true, ·)
    else (scanDigits radix zeros start start false false false cs).map (false, ·)
  | _ => (scanDigits radix zeros start start false false false cs).map (false, ·)

/-- A whole word as an integer of 64 bits. Only decimal integers have a sign,
and only they may not start with a superfluous zero. -/
def integer (radix : Nat) (start : Nat) (cs : List Char) : Except Error Int :=
  match scanRun radix (radix = 10) (radix ≠ 10) start cs with
  | .error e => .error e
  | .ok (negative, digits, []) =>
    let n := natOfDigits radix digits
    if negative && n ≤ Nat.pow 2 63 then .ok (-n)
    else if !negative && n < Nat.pow 2 63 then .ok n
    else .error ⟨start, .invalidNumber⟩
  | .ok _ => .error ⟨start, .invalidNumber⟩

/-- The digits after the point, and what follows them. -/
def fraction : Option (Nat × List Char) → List Char → Except Error (List Char × List Char)
  | none, suffix => .ok ([], suffix)
  | some (offset, cs), _ => (scanRun 10 false true offset cs).map (·.2)

/-- The exponent of a number whose integer part starts at `start`, if `suffix`
begins one. A mark at the end of its word is followed by an optional plus sign
and the digits as tokens of their own; `suffixOffset` is where `suffix` stands. -/
def exponent (start suffixOffset : Nat) (suffix : List Char) (ls : Lexemes) :
    Except Error (Int × Lexemes) :=
  let finish (ls : Lexemes) : Bool × List Char × List Char → Except Error (Int × Lexemes)
    | (negative, digits, []) =>
      let n : Int := natOfDigits 10 digits
      .ok (if negative then -n else n, ls)
    | _ => .error ⟨start, .invalidNumber⟩
  match suffix with
  | [] => .ok (0, ls)
  | [mark] =>
    if mark = 'e' || mark = 'E' then
      let ls := match ls with
        | .next _ .plus rest => rest
        | ls => ls
      match ls with
      | .next offset (.bare cs) rest => (scanRun 10 false true offset cs).bind (finish rest)
      | .fault e => .error e
      | _ => .error ⟨start, .invalidNumber⟩
    else .error ⟨start, .invalidNumber⟩
  | mark :: cs =>
    if mark = 'e' || mark = 'E' then
      (scanRun 10 true true (suffixOffset + 1) cs).bind (finish ls)
    else .error ⟨start, .invalidNumber⟩

/-- A floating point number from its integer part, the word after the point if
there is one, and the tokens that follow. -/
def real (start : Nat) (cs : List Char) (after : Option (Nat × List Char)) (ls : Lexemes) :
    Except Error (Real × Lexemes) := do
  let (negative, whole, suffix) ← scanRun 10 true false start cs
  if after.isSome && !suffix.isEmpty then .error ⟨start, .invalidNumber⟩
  let (digits, suffix) ← fraction after suffix
  let stop := match after with
    | some (offset, cs) => offset + cs.length
    | none => start + cs.length
  let (e, ls) ← exponent start (stop - suffix.length) suffix ls
  match Binary64.ofDecimal (natOfDigits 10 (whole ++ digits)) (e - digits.length) with
  | some x => .ok (.finite negative x, ls)
  | none => .error ⟨start, .invalidNumber⟩

/-- A number whose first word is `cs` at `offset`; the value starts at `start`,
except that a number with a point starts behind it. -/
def number (start offset : Nat) (cs : List Char) (ls : Lexemes) :
    Except Error (Located Value × Lexemes) :=
  let placed (start : Nat) (r : Real × Lexemes) : Located Value × Lexemes :=
    (⟨start, .real r.1⟩, r.2)
  let whole (n : Int) : Located Value × Lexemes := (⟨start, .integer n⟩, ls)
  match cs with
  | '0' :: 'x' :: digits => (integer 16 (offset + 2) digits).map whole
  | '0' :: 'o' :: digits => (integer 8 (offset + 2) digits).map whole
  | '0' :: 'b' :: digits => (integer 2 (offset + 2) digits).map whole
  | cs =>
    if cs.any fun c => c = 'e' || c = 'E' then (real offset cs none ls).map (placed start)
    else match ls with
    | .next _ .period (.next start (.bare after) rest) =>
      (real offset cs (some (start, after)) rest).map (placed start)
    | .next _ .period (.fault e) => .error e
    | .next _ .period rest => .error ⟨rest.offset, .invalidNumber⟩
    | .fault e => .error e
    | ls =>
      if cs = ['i', 'n', 'f'] then .ok (⟨start, .real (.infinite false)⟩, ls)
      else if cs = ['-', 'i', 'n', 'f'] then .ok (⟨start, .real (.infinite true)⟩, ls)
      else if cs = ['n', 'a', 'n'] || cs = ['-', 'n', 'a', 'n'] then
        .ok (⟨start, .real .nan⟩, ls)
      else (integer 10 offset cs).map whole

end HeaderDb.Toml
