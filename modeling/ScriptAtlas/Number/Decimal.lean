import ScriptAtlas.Number.Binary64
import ScriptAtlas.Text.Cut

/-!
# Decimal texts of numbers

Reading a decimal text as the nearest double, and writing a double with the fewest digits that read
back as it, always positionally.
-/

namespace ScriptAtlas.Binary64

/-! ## Reading -/

def digitsValue (ds : List Char) : Nat :=
  ds.foldl (fun n c => n * 10 + (c.toNat - '0'.toNat)) 0

/-- An exponent: nothing, or an `e` with digits and perhaps a sign. -/
def exponentOf? : List Char → Option Int
  | [] => some 0
  | c :: rest =>
    if c == 'e' || c == 'E' then
      let (negative, ds) := match rest with
        | '-' :: r => (true, r)
        | '+' :: r => (false, r)
        | r => (false, r)
      if ds.isEmpty || !ds.all Char.isDigit then none
      else some (if negative then -(digitsValue ds : Int) else digitsValue ds)
    else none

/-- A decimal without sign: digits around at most one point, at least one of them, and an
exponent; or the name of an infinity or of the undefined number, in any case. -/
def ofUnsigned? (negative : Bool) (s : List Char) : Option Binary64 :=
  let word := String.ofList (s.map Char.toLower)
  if word == "inf" || word == "infinity" then some (.infinite negative)
  else if word == "nan" then some .nan
  else
    let whole := s.takeWhile Char.isDigit
    let rest := s.dropWhile Char.isDigit
    let (fraction, rest) := match rest with
      | '.' :: r => (r.takeWhile Char.isDigit, r.dropWhile Char.isDigit)
      | r => ([], r)
    if whole.isEmpty && fraction.isEmpty then none
    else (exponentOf? rest).map fun e =>
      ofDecimal negative (digitsValue (whole ++ fraction)) (e - fraction.length)

def ofText? (text : String) : Option Binary64 :=
  match text.toList with
  | '-' :: r => ofUnsigned? true r
  | '+' :: r => ofUnsigned? false r
  | r => ofUnsigned? false r

/-! ## Writing -/

/-- Twice the value and twice the ends of the interval of reals that round to it, over a common
denominator: `(low, value, high, denominator, endsIncluded)`. -/
def interval (m : Nat) (e : Int) : Nat × Nat × Nat × Nat × Bool :=
  -- below a power of two the neighbours lie half as far apart
  let tight := m == pow2 52 && minExponent < e
  let (lo, v, hi) := if tight then (4 * m - 1, 4 * m, 4 * m + 2) else (4 * m - 2, 4 * m, 4 * m + 2)
  let up := if 0 ≤ e then pow2 e.toNat else 1
  let down := if 0 ≤ e then 1 else pow2 (-e).toNat
  (lo * up, v * up, hi * up, 4 * down, m % 2 == 0)

/-- On the grid of multiples of `10 ^ k`, the multiple nearest to the value that lies in the
interval, if there is one; a tie goes to the even multiple. -/
def onGrid? (lo v hi den : Nat) (ends : Bool) (k : Int) : Option Nat :=
  -- all quantities times 10 ^ -k
  let up := if 0 ≤ k then 1 else pow10 (-k).toNat
  let den := if 0 ≤ k then den * pow10 k.toNat else den
  let fits (n : Nat) : Bool :=
    if ends then lo * up ≤ n * den && n * den ≤ hi * up else lo * up < n * den && n * den < hi * up
  let below := v * up / den
  let above := below + 1
  let distBelow := v * up - below * den
  let distAbove := above * den - v * up
  let nearerBelow :=
    if distBelow = distAbove then below % 2 == 0 else decide (distBelow < distAbove)
  if fits below && fits above then some (if nearerBelow then below else above)
  else if fits below then some below
  else if fits above then some above
  else none

/-- The fewest digits that read back, with their power of ten, trying coarse grids first. -/
def shortestFrom (lo v hi den : Nat) (ends : Bool) : Nat → Int → Nat × Int
  | 0, k => (v / den, k)
  | fuel + 1, k =>
    match onGrid? lo v hi den ends k with
    | some n => if n = 0 then shortestFrom lo v hi den ends fuel (k - 1) else (n, k)
    | none => shortestFrom lo v hi den ends fuel (k - 1)

def shortest (m : Nat) (e : Int) : Nat × Int :=
  let (lo, v, hi, den, ends) := interval m e
  -- the power of ten at or above the value
  let size : Int := (Nat.toDigits 10 (v / den)).length
  let start := if v / den = 0 then 0 else size
  let (n, k) := shortestFrom lo v hi den ends 400 start
  (n, k)

def positional (n : Nat) (k : Int) : String :=
  let ds := Nat.toDigits 10 n
  if 0 ≤ k then String.ofList (ds ++ List.replicate k.toNat '0')
  else
    let places := (-k).toNat
    let padded := List.replicate (places + 1 - ds.length) '0' ++ ds
    let cut := padded.length - places
    let fraction := (padded.drop cut).reverse.dropWhile (· == '0')
    let whole := String.ofList (padded.take cut)
    if fraction.isEmpty then whole else whole ++ "." ++ String.ofList fraction.reverse

def text : Binary64 → String
  | .nan => "NaN"
  | .infinite s => if s then "-inf" else "inf"
  | .finite s m e =>
    let sign := if s then "-" else ""
    if m = 0 then sign ++ "0"
    else
      let (n, k) := shortest m e
      sign ++ positional n k

end ScriptAtlas.Binary64
