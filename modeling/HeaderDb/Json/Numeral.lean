import HeaderDb.Decimal.Shortest

/-!
JSON numbers. An integer that fits 64 bits is kept as such. Anything else
becomes a binary magnitude: the digits that fit an unsigned 64 bit significand,
scaled by one power of ten, each of the two steps rounded.
-/

namespace HeaderDb.Json

open Decimal (Binary64)

/-- The parts of a number as it is written; digits only. -/
structure Numeral where
  negative : Bool
  whole : List Char
  fraction : List Char
  /-- Whether the exponent is negative, and its digits. -/
  exponent : Option (Bool × List Char)
  deriving Repr, DecidableEq

inductive Number where
  | integer (n : Int)
  | floating (negative : Bool) (magnitude : Binary64)
  deriving Repr, DecidableEq

def digitValue (c : Char) : Nat := c.toNat - '0'.toNat

def natOfDigits (cs : List Char) : Nat := cs.foldl (fun n c => 10 * n + digitValue c) 0

/-- Appends digits to a significand while it fits 64 bits; also gives the number
of digits left over. -/
def extend (significand : Nat) : List Char → Nat × Nat
  | [] => (significand, 0)
  | c :: cs =>
    let next := significand * 10 + digitValue c
    if next < Nat.pow 2 64 then extend next cs else (significand, cs.length + 1)

/-- The greatest power of ten that is scaled by in one step. -/
def maxPower : Nat := 308

/-- Divides by a power of ten, in several steps where it is too large for one. -/
def divideByPower (x : Binary64) (e : Nat) : Option Binary64 :=
  if e ≤ maxPower then (Binary64.ofRatio (Nat.pow 10 e) 1).bind x.div?
  else if x.mantissa = 0 then some x
  else (Binary64.ofRatio (Nat.pow 10 maxPower) 1).bind fun p =>
    (x.div? p).bind fun y => divideByPower y (e - maxPower)
termination_by e
decreasing_by simp [maxPower] at *; omega

/-- `significand * 10 ^ e`; nothing if that is too large. -/
def scale (significand : Nat) (e : Int) : Option Binary64 :=
  (Binary64.ofRatio significand 1).bind fun x =>
    if e < 0 then divideByPower x (-e).toNat
    else if e ≤ maxPower then (Binary64.ofRatio (Nat.pow 10 e.toNat) 1).bind x.mul?
    else if x.mantissa = 0 then some x
    else none

/-- The value of a number; nothing if it is too large. -/
def Numeral.value? (n : Numeral) : Option Number :=
  let (significand, dropped) := extend 0 n.whole
  if dropped = 0 && n.fraction.isEmpty && n.exponent.isNone then
    if !n.negative then some (.integer significand)
    else if significand ≠ 0 && significand ≤ Nat.pow 2 63 then some (.integer (-significand))
    else (scale significand 0).map (.floating true)
  else
    let (significand, left) := extend significand n.fraction
    let start : Int := dropped - (n.fraction.length - left : Nat)
    let magnitude := match n.exponent with
      | none => scale significand start
      | some (negative, digits) =>
        let e := natOfDigits digits
        if Nat.pow 2 31 ≤ e then
          if significand ≠ 0 && !negative then none else some .zero
        else scale significand (if negative then start - e else start + e)
    magnitude.map (.floating n.negative)

end HeaderDb.Json
