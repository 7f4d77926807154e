import ScriptAtlas.Text.Cut

/-!
# JSON values

A value of the JSON data model. A number is kept as it is written, because what it means depends on
what asks for it; an object keeps its fields in order, and of fields of one name the last counts. All
notations share escapes by the number of a character.
-/

namespace ScriptAtlas

inductive Json where
  | null
  | bool (b : Bool)
  | number (literal : String)
  | string (s : String)
  | array (items : List Json)
  | object (fields : List (String × Json))
deriving Inhabited

namespace Json

def nat (n : Nat) : Json := .number (toString n)

def strings (xs : List String) : Json := .array (xs.map .string)

/-- The field of the given name, the last one if there are several. -/
def get? (j : Json) (key : String) : Option Json :=
  match j with
  | .object fields => (fields.reverse.find? (·.1 == key)).map Prod.snd
  | _ => none

def asString? : Json → Option String
  | .string s => some s
  | _ => none

def asArray? : Json → Option (List Json)
  | .array items => some items
  | _ => none

def asBool? : Json → Option Bool
  | .bool b => some b
  | _ => none

def digits? (literal : String) : Option Nat :=
  if literal != "" && literal.toList.all Char.isDigit then
    some (literal.toList.foldl (fun n c => n * 10 + (c.toNat - '0'.toNat)) 0)
  else none

def asNat? : Json → Option Nat
  | .number literal => digits? literal
  | _ => none

/-- A number written as an integer; a negative zero is none. -/
def asInt? : Json → Option Int
  | .number literal =>
    match Text.after? "-" literal with
    | some rest => (digits? rest).bind fun n => if n = 0 then none else some (-(n : Int))
    | none => (digits? literal).map fun n => (n : Int)
  | _ => none

/-- The fields sorted by name, the last of several under one name. -/
def sortedFields (fields : List (String × Json)) : List (String × Json) :=
  let kept := fields.foldl (fun acc f => acc.filter (·.1 != f.1) ++ [f]) []
  kept.mergeSort fun a b => !(b.1 < a.1)

/-! ## Escapes by number -/

def hexValue? (c : Char) : Option Nat :=
  if c.isDigit then some (c.toNat - '0'.toNat)
  else if 'a' ≤ c && c ≤ 'f' then some (c.toNat - 'a'.toNat + 10)
  else if 'A' ≤ c && c ≤ 'F' then some (c.toNat - 'A'.toNat + 10)
  else none

def hexRun? : Nat → Nat → List Char → Option (Nat × List Char)
  | 0, acc, s => some (acc, s)
  | n + 1, acc, c :: r => (hexValue? c).bind fun d => hexRun? n (acc * 16 + d) r
  | _ + 1, _, [] => none

/-- The character of a Unicode escape behind its `u`; surrogates come in pairs. -/
def unicodeEscape? (s : List Char) : Option (Char × List Char) := do
  let (n, rest) ← hexRun? 4 0 s
  if 0xDC00 ≤ n && n ≤ 0xDFFF then none
  else if 0xD800 ≤ n && n ≤ 0xDBFF then
    match rest with
    | '\\' :: 'u' :: more =>
      let (m, after) ← hexRun? 4 0 more
      if 0xDC00 ≤ m && m ≤ 0xDFFF then
        some (Char.ofNat (0x10000 + (n - 0xD800) * 0x400 + (m - 0xDC00)), after)
      else none
    | _ => none
  else some (Char.ofNat n, rest)

end Json

end ScriptAtlas
