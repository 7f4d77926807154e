import ScriptAtlas.Number.Power

/-!
# Double precision numbers

A binary floating point number with 53 significant bits, as an exact value: a mantissa times a power
of two. Rounding a ratio goes to the nearest number, a tie to the even mantissa, and everything from
half a unit above the largest number on is infinite.
-/

namespace ScriptAtlas

/-- A double precision number. A finite one is `±mantissa · 2 ^ exponent`. -/
inductive Binary64 where
  | finite (negative : Bool) (mantissa : Nat) (exponent : Int)
  | infinite (negative : Bool)
  | nan
deriving DecidableEq, Repr, Inhabited

namespace Binary64

def minExponent : Int := -1074

def maxExponent : Int := 971

def zero (negative : Bool) : Binary64 := .finite negative 0 minExponent

/-- The quotient rounded to the nearest integer, a tie to the even one. -/
def roundDiv (num den : Nat) : Nat :=
  let q := num / den
  let r := num % den
  if 2 * r < den then q
  else if den < 2 * r then q + 1
  else if q % 2 = 0 then q else q + 1

/-- `num / den` in units of `2 ^ e`, rounded. -/
def scaled (num den : Nat) (e : Int) : Nat :=
  if 0 ≤ e then roundDiv num (den * pow2 e.toNat) else roundDiv (num * pow2 (-e).toNat) den

def atLeastPow (num den : Nat) (e : Int) : Bool :=
  if 0 ≤ e then den * pow2 e.toNat ≤ num else den ≤ num * pow2 (-e).toNat

/-- The number nearest to `± num / den`. -/
def ofRatio (negative : Bool) (num den : Nat) : Binary64 :=
  if num = 0 || den = 0 then zero negative
  else
    -- the power of two at or just below the ratio
    let guess : Int := (Nat.log2 num : Int) - (Nat.log2 den : Int)
    let top := if atLeastPow num den guess then guess else guess - 1
    let e := max minExponent (top - 52)
    let m := scaled num den e
    let (m, e) := if m = pow2 53 then (pow2 52, e + 1) else (m, e)
    if maxExponent < e then .infinite negative else .finite negative m e

def ofDecimal (negative : Bool) (digits : Nat) (exponent : Int) : Binary64 :=
  let size : Int := (Nat.toDigits 10 digits).length
  if digits = 0 then zero negative
  else if 310 < exponent + size then .infinite negative
  else if exponent + size < -330 then zero negative
  else if 0 ≤ exponent then ofRatio negative (digits * pow10 exponent.toNat) 1
  else ofRatio negative digits (pow10 (-exponent).toNat)

def ofInt (n : Int) : Binary64 := ofRatio (n < 0) n.natAbs 1

def neg : Binary64 → Binary64
  | .finite s m e => .finite (!s) m e
  | .infinite s => .infinite (!s)
  | .nan => .nan

def addOne : Binary64 → Binary64
  | .finite s m e =>
    let den : Nat := if 0 ≤ e then 1 else pow2 (-e).toNat
    let size : Nat := if 0 ≤ e then m * pow2 e.toNat else m
    let sum : Int := (if s then -(size : Int) else size) + den
    ofRatio (sum < 0) sum.natAbs den
  | x => x

/-- The largest integer not above the absolute value, if the number is finite. -/
def truncAbs? : Binary64 → Option Nat
  | .finite _ m e => some (if 0 ≤ e then m * pow2 e.toNat else m / pow2 (-e).toNat)
  | _ => none

def isIntegral : Binary64 → Bool
  | .finite _ m e => if 0 ≤ e then true else m % pow2 (-e).toNat == 0
  | _ => false

def isNegative : Binary64 → Bool
  | .finite s _ _ => s
  | .infinite s => s
  | .nan => false

/-- The integer that the number is cut to, from 0 up to the largest of 64 bits. -/
def toNat64 : Binary64 → Nat
  | .finite s m e =>
    if s then 0
    else min (pow2 64 - 1) (if 0 ≤ e then m * pow2 e.toNat else m / pow2 (-e).toNat)
  | .infinite s => if s then 0 else pow2 64 - 1
  | .nan => 0

def bits? : Binary64 → Option Nat
  | .finite s m e =>
    let sign := if s then pow2 63 else 0
    if m < pow2 52 then some (sign + m)
    else some (sign + (e - minExponent + 1).toNat * pow2 52 + (m - pow2 52))
  | .infinite s => some ((if s then pow2 63 else 0) + 2047 * pow2 52)
  | .nan => none

end Binary64

end ScriptAtlas
