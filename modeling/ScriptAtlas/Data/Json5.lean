import ScriptAtlas.Data.Json
import ScriptAtlas.Number.Decimal
import ScriptAtlas.Text.Category

/-!
# JSON with comments and loose notation

The extended form of JSON for files that people write: comments, trailing commas, unquoted and
single-quoted keys, hexadecimal numbers, more escapes, and strings continued over lines.
-/

namespace ScriptAtlas.Json5

open Text

/-! ## Blanks and comments -/

def isLineTerminator (c : Char) : Bool :=
  c == '\n' || c == '\r' || c.toNat == 0x2028 || c.toNat == 0x2029

def isBlank (c : Char) : Bool :=
  isLineTerminator c || c == '\t' || c.toNat == 0xB || c.toNat == 0xC || c == ' '
    || c.toNat == 0xA0 || c.toNat == 0xFEFF || c.toNat == 0x1680
    || (0x2000 ≤ c.toNat && c.toNat ≤ 0x200A) || c.toNat == 0x202F || c.toNat == 0x205F
    || c.toNat == 0x3000

def afterBlock? : List Char → Option (List Char)
  | '*' :: '/' :: r => some r
  | _ :: r => afterBlock? r
  | [] => none

/-- The text behind blanks and comments; a comment that does not end is left standing. -/
def skipTrivia : Nat → List Char → List Char
  | 0, s => s
  | fuel + 1, s =>
    match s with
    | '/' :: '/' :: r => skipTrivia fuel (r.dropWhile (!isLineTerminator ·))
    | '/' :: '*' :: r =>
      match afterBlock? r with
      | some after => skipTrivia fuel after
      | none => s
    | c :: r => if isBlank c then skipTrivia fuel r else s
    | [] => []

def skip (s : List Char) : List Char := skipTrivia (s.length + 1) s

/-! ## Strings -/

/-- The characters of an escape behind its backslash: none for a continued line. -/
def escape? : List Char → Option (List Char × List Char)
  | 'b' :: r => some (['\x08'], r)
  | 'f' :: r => some (['\x0c'], r)
  | 'n' :: r => some (['\n'], r)
  | 'r' :: r => some (['\r'], r)
  | 't' :: r => some (['\t'], r)
  | 'v' :: r => some (['\x0b'], r)
  | '0' :: r => some ([Char.ofNat 0], r)
  | 'x' :: r => (Json.hexRun? 2 0 r).map fun (n, rest) => ([Char.ofNat n], rest)
  | 'u' :: r => (Json.unicodeEscape? r).map fun (c, rest) => ([c], rest)
  | '\r' :: '\n' :: r => some ([], r)
  | c :: r =>
    if isLineTerminator c then some ([], r)
    else if c.isDigit then none
    else some ([c], r)
  | [] => none

def stringBody? (quote : Char) : Nat → List Char → Option (List Char × List Char)
  | 0, _ => none
  | _ + 1, [] => none
  | fuel + 1, c :: rest =>
    if c == quote then some ([], rest)
    else if c == '\\' then
      (escape? rest).bind fun (cs, r) =>
        (stringBody? quote fuel r).map fun (t, after) => (cs ++ t, after)
    else if isLineTerminator c then none
    else (stringBody? quote fuel rest).map fun (t, after) => (c :: t, after)

/-! ## Names and numbers -/

def isIdentifierStart (c : Char) : Bool := isLetter c || c == '$' || c == '_'

def isIdentifierPart (c : Char) : Bool :=
  isIdentifierStart c || isMark c || isDecimalDigit c || isConnector c || isJoiner c

def identifierTail : Nat → List Char → List Char × List Char
  | 0, s => ([], s)
  | fuel + 1, s =>
    match s with
    | '\\' :: 'u' :: r =>
      match Json.unicodeEscape? r with
      | some (c, rest) =>
        let (t, after) := identifierTail fuel rest
        (c :: t, after)
      | none => ([], s)
    | c :: r =>
      if isIdentifierPart c then
        let (t, after) := identifierTail fuel r
        (c :: t, after)
      else ([], s)
    | [] => ([], [])

def identifier? (s : List Char) : Option (List Char × List Char) :=
  match s with
  | '\\' :: 'u' :: _ =>
    let (t, after) := identifierTail s.length s
    if t.isEmpty then none else some (t, after)
  | c :: _ => if isIdentifierStart c then some (identifierTail s.length s) else none
  | [] => none

def exponent (s : List Char) : List Char × List Char :=
  match s with
  | c :: r =>
    if c == 'e' || c == 'E' then
      let (sign, r) := match r with
        | '+' :: r => (['+'], r)
        | '-' :: r => (['-'], r)
        | r => ([], r)
      let ds := r.takeWhile Char.isDigit
      if ds.isEmpty then ([], s) else (c :: sign ++ ds, r.dropWhile Char.isDigit)
    else ([], s)
  | [] => ([], [])

def unsigned? (s : List Char) : Option (List Char × List Char) :=
  let hex (x : Char) (r : List Char) : Option (List Char × List Char) :=
    let ds := r.takeWhile fun c => (Json.hexValue? c).isSome
    if ds.isEmpty then none else some ('0' :: x :: ds, r.drop ds.length)
  let decimal (s : List Char) : Option (List Char × List Char) :=
    let (whole, r) := match s with
      | '0' :: r => (['0'], r)
      | r => (r.takeWhile Char.isDigit, r.dropWhile Char.isDigit)
    match r with
    | '.' :: r' =>
      let ds := r'.takeWhile Char.isDigit
      if whole.isEmpty && ds.isEmpty then none
      else
        let (e, after) := exponent (r'.dropWhile Char.isDigit)
        some (whole ++ '.' :: ds ++ e, after)
    | _ =>
      if whole.isEmpty then none
      else
        let (e, after) := exponent r
        some (whole ++ e, after)
  match s with
  | '0' :: 'x' :: r => (hex 'x' r).orElse fun _ => decimal s
  | '0' :: 'X' :: r => (hex 'X' r).orElse fun _ => decimal s
  | _ =>
    match afterList? "Infinity".toList s, afterList? "NaN".toList s with
    | some r, _ => some ("Infinity".toList, r)
    | none, some r => some ("NaN".toList, r)
    | none, none => decimal s

def number? (s : List Char) : Option (Json × List Char) :=
  let (sign, r) := match s with
    | '+' :: r => (['+'], r)
    | '-' :: r => (['-'], r)
    | r => ([], r)
  (unsigned? r).map fun (ds, rest) => (.number (String.ofList (sign ++ ds)), rest)

/-! ## Values -/

mutual

def value? : Nat → List Char → Option (Json × List Char)
  | 0, _ => none
  | fuel + 1, s =>
    match skip s with
    | 'n' :: 'u' :: 'l' :: 'l' :: r => some (.null, r)
    | 't' :: 'r' :: 'u' :: 'e' :: r => some (.bool true, r)
    | 'f' :: 'a' :: 'l' :: 's' :: 'e' :: r => some (.bool false, r)
    | '\x22' :: r =>
      (stringBody? '\x22' (r.length + 1) r).map fun (t, after) =>
        (.string (String.ofList t), after)
    | '\x27' :: r =>
      (stringBody? '\x27' (r.length + 1) r).map fun (t, after) =>
        (.string (String.ofList t), after)
    | '[' :: r =>
      match skip r with
      | ']' :: after => some (.array [], after)
      | r => (items? fuel r).map fun (xs, after) => (.array xs, after)
    | '\x7b' :: r =>
      match skip r with
      | '\x7d' :: after => some (.object [], after)
      | r => (fields? fuel r).map fun (xs, after) => (.object xs, after)
    | r => number? r

def items? : Nat → List Char → Option (List Json × List Char)
  | 0, _ => none
  | fuel + 1, s => do
    let (x, r) ← value? fuel s
    match skip r with
    | ']' :: after => some ([x], after)
    | ',' :: more =>
      match skip more with
      | ']' :: after => some ([x], after)
      | more =>
        let (xs, after) ← items? fuel more
        return (x :: xs, after)
    | _ => none

def fields? : Nat → List Char → Option (List (String × Json) × List Char)
  | 0, _ => none
  | fuel + 1, s => do
    let (k, r) ← match skip s with
      | '\x22' :: r => stringBody? '\x22' (r.length + 1) r
      | '\x27' :: r => stringBody? '\x27' (r.length + 1) r
      | r => identifier? r
    match skip r with
    | ':' :: r =>
      let (v, r) ← value? fuel r
      let field := (String.ofList k, v)
      match skip r with
      | '\x7d' :: after => some ([field], after)
      | ',' :: more =>
        match skip more with
        | '\x7d' :: after => some ([field], after)
        | more =>
          let (xs, after) ← fields? fuel more
          return (field :: xs, after)
      | _ => none
    | _ => none

end

def parse? (text : String) : Option Json := do
  let s := text.toList
  let (j, rest) ← value? (2 * s.length + 2) s
  if (skip rest).isEmpty then some j else none

/-! ## What numbers mean -/

def hexLiteral? (literal : String) : Option (List Char) :=
  match literal.toList with
  | '0' :: x :: d :: ds => if x == 'x' || x == 'X' then some (d :: ds) else none
  | _ => none

def hexNumber? (ds : List Char) : Option Nat :=
  (ds.foldl (fun acc c => acc.bind fun n => (Json.hexValue? c).map (n * 16 + ·)) (some 0)).filter
    (· < pow2 32)

/-- The number a literal stands for; a decimal that is too large stands for none. -/
def toBinary64? (literal : String) : Option Binary64 :=
  match literal with
  | "Infinity" => some (.infinite false)
  | "-Infinity" => some (.infinite true)
  | "NaN" => some .nan
  | "-NaN" => some .nan
  | _ =>
    match hexLiteral? literal with
    | some ds => (hexNumber? ds).map fun n => .ofInt n
    | none =>
      match Binary64.ofText? literal with
      | some (.finite s m e) => some (.finite s m e)
      | _ => none

/-- A literal as a count of 64 bits: cut to an integer, and kept within bounds. -/
def toCount? (literal : String) : Option Nat := (toBinary64? literal).map Binary64.toNat64

/-- Whether the literal of a value that nobody asked for can still be read: an integer has to fit
64 bits. -/
def isReadableNumber (literal : String) : Bool :=
  let isInteger := !hasChar '.' literal
    && ((hexLiteral? literal).isSome || (!hasChar 'e' literal && !hasChar 'E' literal))
    && !contains "Infinity" literal && !contains "NaN" literal
  if isInteger then
    match hexLiteral? literal with
    | some ds => (hexNumber? ds).isSome
    | none =>
      let ds := dropStart (fun c => c == '+' || c == '-') literal
      match Json.digits? ds with
      | some n => if beginsWith "-" literal then n ≤ pow2 63 else n < pow2 63
      | none => false
  else (toBinary64? literal).isSome

mutual

def isReadable : Json → Bool
  | .number literal => isReadableNumber literal
  | .array items => allReadable items
  | .object fields => allFieldsReadable fields
  | _ => true

def allReadable : List Json → Bool
  | [] => true
  | j :: rest => isReadable j && allReadable rest

def allFieldsReadable : List (String × Json) → Bool
  | [] => true
  | (_, j) :: rest => isReadable j && allFieldsReadable rest

end

end ScriptAtlas.Json5
