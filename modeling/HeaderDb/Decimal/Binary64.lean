/-!
Magnitudes of binary floating point numbers with 53 significant bits, in exact
integer arithmetic. Every operation rounds the exact ratio to the nearest
representable magnitude, and a half goes to the even neighbour. A ratio too
large for the format has no magnitude.
-/

namespace HeaderDb.Decimal

/-- The magnitude `mantissa * 2 ^ exponent`. -/
structure Binary64 where
  mantissa : Nat
  exponent : Int
  deriving Repr, DecidableEq

/-- The integer nearest to a ratio; a half goes to the even neighbour. -/
def roundEven (num den : Nat) : Nat :=
  let floor := num / den
  let twice := 2 * (num % den)
  if twice < den then floor
  else if den < twice then floor + 1
  else floor + floor % 2

/-- The ratio `num / den` divided by a power of two. -/
def shifted (num den : Nat) (q : Int) : Nat × Nat :=
  if 0 ≤ q then (num, den * Nat.pow 2 q.toNat) else (num * Nat.pow 2 (-q).toNat, den)

/-- The number of decimal digits of a number. -/
def digitCount (n : Nat) : Nat := (Nat.toDigits 10 n).length

namespace Binary64

/-- The exponent of the smallest magnitudes. -/
def minExponent : Int := -1074

/-- The exponent of the greatest magnitudes. -/
def maxExponent : Int := 971

def zero : Binary64 := ⟨0, minExponent⟩

/-- The magnitude nearest to a ratio. -/
def ofRatio (num den : Nat) : Option Binary64 :=
  if num = 0 then some zero
  else
    -- divided by 2 ^ guess, the ratio lies between 2 ^ 51 and 2 ^ 53
    let guess : Int := (num.log2 : Int) - den.log2 - 52
    let (n, d) := shifted num den guess
    let q := max minExponent (if n / d < Nat.pow 2 52 then guess - 1 else guess)
    let (n, d) := shifted num den q
    let m := roundEven n d
    let (m, q) := if m = Nat.pow 2 53 then (Nat.pow 2 52, q + 1) else (m, q)
    if maxExponent < q then none else some ⟨m, q⟩

/-- A magnitude as a ratio. -/
def toRatio (x : Binary64) : Nat × Nat :=
  if 0 ≤ x.exponent then (x.mantissa * Nat.pow 2 x.exponent.toNat, 1)
  else (x.mantissa, Nat.pow 2 (-x.exponent).toNat)

def mul? (x y : Binary64) : Option Binary64 :=
  let (n, d) := x.toRatio
  let (n', d') := y.toRatio
  ofRatio (n * n') (d * d')

def div? (x y : Binary64) : Option Binary64 :=
  let (n, d) := x.toRatio
  let (n', d') := y.toRatio
  ofRatio (n * d') (d * n')

/-- The magnitude nearest to `digits * 10 ^ exponent`. Powers far outside the
format's range are not computed. -/
def ofDecimal (digits : Nat) (exponent : Int) : Option Binary64 :=
  let magnitude := digitCount digits + exponent
  if digits = 0 || magnitude < -400 then some zero
  else if 400 < magnitude then none
  else if 0 ≤ exponent then ofRatio (digits * Nat.pow 10 exponent.toNat) 1
  else ofRatio digits (Nat.pow 10 (-exponent).toNat)

end Binary64
end HeaderDb.Decimal
