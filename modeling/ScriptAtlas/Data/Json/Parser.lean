import ScriptAtlas.Data.Json
import ScriptAtlas.Number.Power

/-!
# Reading JSON

The strict grammar: no comments, no trailing commas, quoted keys, no control characters in strings,
paired surrogates, numbers that a double can hold, and at most 127 levels of nesting.
-/

namespace ScriptAtlas.Json

def isJsonBlank (c : Char) : Bool := c == ' ' || c == '\n' || c == '\t' || c == '\r'

def skipBlanks (s : List Char) : List Char := s.dropWhile isJsonBlank

/-! ## Strings -/

def stringBody? : Nat → List Char → Option (List Char × List Char)
  | 0, _ => none
  | _ + 1, [] => none
  | fuel + 1, c :: rest =>
    let more (d : Char) (s : List Char) : Option (List Char × List Char) :=
      (stringBody? fuel s).map fun (t, after) => (d :: t, after)
    if c == '\x22' then some ([], rest)
    else if c == '\\' then
      match rest with
      | '\x22' :: r => more '\x22' r
      | '\\' :: r => more '\\' r
      | '/' :: r => more '/' r
      | 'b' :: r => more '\x08' r
      | 'f' :: r => more '\x0c' r
      | 'n' :: r => more '\n' r
      | 'r' :: r => more '\r' r
      | 't' :: r => more '\t' r
      | 'u' :: r => (unicodeEscape? r).bind fun (d, after) => more d after
      | _ => none
    else if c.toNat < 0x20 then none
    else more c rest

/-! ## Numbers -/

def digitRun? (s : List Char) : Option (List Char × List Char) :=
  let ds := s.takeWhile Char.isDigit
  if ds.isEmpty then none else some (ds, s.dropWhile Char.isDigit)

structure NumberParts where
  negative : Bool
  whole : List Char
  fraction : List Char
  exponent : Int

def natOf (ds : List Char) : Nat := ds.foldl (fun n c => n * 10 + (c.toNat - '0'.toNat)) 0

/-- Whether a double can hold the number: at least half a unit below the first power too large. -/
def NumberParts.isFinite (p : NumberParts) : Bool :=
  let m := natOf (p.whole ++ p.fraction)
  let e := p.exponent - p.fraction.length
  if m = 0 then true
  else if 400 < e then false
  else if 0 ≤ e then m * pow10 e.toNat < pow2 1024 - pow2 970
  else if (p.whole ++ p.fraction).length ≤ (-e).toNat then true
  else m < (pow2 1024 - pow2 970) * pow10 (-e).toNat

/-- Reads a number; a leading zero stands alone. -/
def numberParts? (s : List Char) : Option (NumberParts × List Char) := do
  let (negative, s) := match s with
    | '-' :: r => (true, r)
    | r => (false, r)
  let (whole, s) ← match s with
    | '0' :: r => some (['0'], r)
    | r => digitRun? r
  if (s.head?).any Char.isDigit then none
  let (fraction, s) ← match s with
    | '.' :: r => digitRun? r
    | r => some ([], r)
  let readExponent (r : List Char) : Option (Int × List Char) :=
    match r with
    | '+' :: r => (digitRun? r).map fun (ds, t) => ((natOf ds : Int), t)
    | '-' :: r => (digitRun? r).map fun (ds, t) => (-(natOf ds : Int), t)
    | r => (digitRun? r).map fun (ds, t) => ((natOf ds : Int), t)
  let (exponent, s) ← match s with
    | 'e' :: r => readExponent r
    | 'E' :: r => readExponent r
    | r => some (0, r)
  let parts := { negative, whole, fraction, exponent : NumberParts }
  if parts.isFinite then some (parts, s) else none

def number? (s : List Char) : Option (Json × List Char) :=
  (numberParts? s).map fun (_, rest) =>
    (.number (String.ofList (s.take (s.length - rest.length))), rest)

/-! ## Values -/

mutual

def value? : Nat → Nat → List Char → Option (Json × List Char)
  | 0, _, _ => none
  | fuel + 1, depth, s =>
    match skipBlanks s with
    | 'n' :: 'u' :: 'l' :: 'l' :: r => some (.null, r)
    | 't' :: 'r' :: 'u' :: 'e' :: r => some (.bool true, r)
    | 'f' :: 'a' :: 'l' :: 's' :: 'e' :: r => some (.bool false, r)
    | '\x22' :: r =>
      (stringBody? (r.length + 1) r).map fun (t, after) => (.string (String.ofList t), after)
    | '[' :: r =>
      if depth = 0 then none
      else match skipBlanks r with
        | ']' :: after => some (.array [], after)
        | r => (items? fuel (depth - 1) r).map fun (xs, after) => (.array xs, after)
    | '\x7b' :: r =>
      if depth = 0 then none
      else match skipBlanks r with
        | '\x7d' :: after => some (.object [], after)
        | r => (fields? fuel (depth - 1) r).map fun (xs, after) => (.object xs, after)
    | r => number? r

def items? : Nat → Nat → List Char → Option (List Json × List Char)
  | 0, _, _ => none
  | fuel + 1, depth, s => do
    let (x, r) ← value? fuel depth s
    match skipBlanks r with
    | ']' :: after => some ([x], after)
    | ',' :: more =>
      let (xs, after) ← items? fuel depth more
      return (x :: xs, after)
    | _ => none

def fields? : Nat → Nat → List Char → Option (List (String × Json) × List Char)
  | 0, _, _ => none
  | fuel + 1, depth, s =>
    match skipBlanks s with
    | '\x22' :: r => do
      let (k, r) ← stringBody? (r.length + 1) r
      match skipBlanks r with
      | ':' :: r =>
        let (v, r) ← value? fuel depth r
        match skipBlanks r with
        | '\x7d' :: after => some ([(String.ofList k, v)], after)
        | ',' :: more =>
          let (xs, after) ← fields? fuel depth more
          return ((String.ofList k, v) :: xs, after)
        | _ => none
      | _ => none
    | _ => none

end

def parse? (text : String) : Option Json := do
  let s := text.toList
  let (j, rest) ← value? (2 * s.length + 2) 127 s
  if (skipBlanks rest).isEmpty then some j else none

end ScriptAtlas.Json
