import HeaderDb.Decimal.Binary64

/-!
The decimal text of a binary magnitude: the fewest digits that read back as the
same magnitude, and of these the nearest to it. A `Style` says which of two
equally near ones is taken and how the digits are laid out.
-/

namespace HeaderDb.Decimal

/-- A decimal number `digits * 10 ^ exponent`. -/
structure Digits where
  digits : Nat
  exponent : Int
  deriving Repr, DecidableEq

/-- Drops the zeros at the end, at most `fuel` of them. -/
def Digits.trim : Nat → Digits → Digits
  | 0, d => d
  | fuel + 1, d =>
    if d.digits ≠ 0 && d.digits % 10 = 0 then trim fuel ⟨d.digits / 10, d.exponent + 1⟩ else d

/-- Which of two equally near numbers is taken: the greater one, or the one with
an even last digit. -/
inductive Tie where
  | up
  | toEven
  deriving Repr, DecidableEq

namespace Binary64

/-- The number of digits before the decimal point of the ratio `num / den`;
zero or negative for a ratio below one. -/
def integerDigits (num den : Nat) : Int :=
  if den ≤ num then digitCount (num / den)
  else 1 - (digitCount ((den + num - 1) / num - 1) : Int)

/-- The decimal number with its last digit at `10 ^ p` that reads back as `x`
and is nearest to it, if there is one. -/
def onGrid? (tie : Tie) (x : Binary64) (p : Int) : Option Digits :=
  -- in units of a quarter of the distance to the next magnitude
  let value := 4 * x.mantissa
  let above := value + 2
  let below :=
    if x.mantissa = Nat.pow 2 52 && minExponent < x.exponent then value - 1 else value - 2
  let (n, d) := toRatio ⟨1, x.exponent - 2⟩
  let (n, d) := if 0 ≤ p then (n, d * Nat.pow 10 p.toNat) else (n * Nat.pow 10 (-p).toNat, d)
  let floor := value * n / d
  let ends := x.mantissa % 2 = 0
  let lower := if ends then below * n ≤ floor * d else below * n < floor * d
  let upper := if ends then (floor + 1) * d ≤ above * n else (floor + 1) * d < above * n
  let twice := 2 * (value * n - floor * d)
  let down := twice < d || (twice = d && tie = .toEven && floor % 2 = 0)
  if lower && (down || !upper) then some ⟨floor, p⟩
  else if upper then some ⟨floor + 1, p⟩
  else none

/-- The shortest decimal number that reads back as `x`. Seventeen digits always
do, so the search ends with a hit. -/
def shortest (tie : Tie) (x : Binary64) : Digits :=
  if x.mantissa = 0 then ⟨0, 0⟩
  else
    let (n, d) := x.toRatio
    let top := integerDigits n d
    let found := (List.range 17).findSome? fun (i : Nat) => x.onGrid? tie (top - (i + 1))
    (found.getD ⟨0, 0⟩).trim 17

end Binary64

/-- How decimal digits are laid out. Numbers `d.ddd * 10 ^ e` with `least ≤ e ≤
greatest` are written positionally, all others with a marked exponent. Without
bounds every number is written positionally. -/
structure Style where
  tie : Tie
  positional : Option (Int × Int)
  deriving Repr, DecidableEq

/-- The digits without exponent, with at least one digit on both sides of the point. -/
def Digits.toPositional (d : Digits) : List Char :=
  let cs := Nat.toDigits 10 d.digits
  if 0 ≤ d.exponent then cs ++ List.replicate d.exponent.toNat '0' ++ ['.', '0']
  else
    let places := (-d.exponent).toNat
    if places < cs.length then
      cs.take (cs.length - places) ++ '.' :: cs.drop (cs.length - places)
    else '0' :: '.' :: List.replicate (places - cs.length) '0' ++ cs

/-- The digits with one of them before the point, then the exponent with its sign. -/
def Digits.toScientific (d : Digits) : List Char :=
  let cs := Nat.toDigits 10 d.digits
  let e := d.exponent + cs.length - 1
  let fraction := if cs.length = 1 then [] else '.' :: cs.drop 1
  let sign := if e < 0 then '-' else '+'
  cs.take 1 ++ fraction ++ 'e' :: sign :: Nat.toDigits 10 e.natAbs

/-- The text of a signed magnitude. -/
def Style.render (style : Style) (negative : Bool) (x : Binary64) : String :=
  let d := x.shortest style.tie
  let e := d.exponent + digitCount d.digits - 1
  let fixed := match style.positional with
    | none => true
    | some (least, greatest) => least ≤ e && e ≤ greatest
  String.ofList
    ((if negative then ['-'] else []) ++ (if fixed then d.toPositional else d.toScientific))

end HeaderDb.Decimal
