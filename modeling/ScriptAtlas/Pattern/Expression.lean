import ScriptAtlas.Pattern.Regular
import ScriptAtlas.Text.Category

/-!
# Written regular expressions

The text form of regular patterns over characters: alternation, groups, repetition, classes,
anchors, word boundaries and inline flags. A text that is no expression gives nothing; look-around
and references back to a group are no expressions here.
-/

namespace ScriptAtlas.Pattern.Expression

open Text

/-- Switches that hold from where they stand to the end of the group. -/
structure Flags where
  ignoreCase : Bool
  multiLine : Bool
  dotAll : Bool
  spaced : Bool

def Flags.none : Flags := ⟨false, false, false, false⟩

def Flags.set? (f : Flags) (on : Bool) : Char → Option Flags
  | 'i' => some { f with ignoreCase := on }
  | 'm' => some { f with multiLine := on }
  | 's' => some { f with dotAll := on }
  | 'x' => some { f with spaced := on }
  | 'U' => some f
  | 'u' => some f
  | 'R' => some f
  | _ => Option.none

/-! ## Characters -/

abbrev CharSet := Char → Bool

/-- The set, with the other case of its letters if case is ignored. -/
def caseless (flags : Flags) (p : CharSet) : CharSet :=
  if flags.ignoreCase then fun c => p c || p c.toLower || p c.toUpper else p

def isWordAt (c : Option Char) : Bool := c.any isWordChar

def hexDigit? (c : Char) : Option Nat :=
  if c.isDigit then some (c.toNat - '0'.toNat)
  else if 'a' ≤ c && c ≤ 'f' then some (c.toNat - 'a'.toNat + 10)
  else if 'A' ≤ c && c ≤ 'F' then some (c.toNat - 'A'.toNat + 10)
  else none

def charOf? (n : Nat) : Option Char :=
  let c := Char.ofNat n
  if c.toNat = n then some c else none

def hexValue? (ds : List Char) : Option Nat :=
  if ds.isEmpty then none
  else ds.foldl (fun acc c => acc.bind fun n => (hexDigit? c).map (n * 16 + ·)) (some 0)

def braced? (s : List Char) : Option (List Char × List Char) := splitOnceList? '\x7d' s

/-- A character given by its code: `width` digits, or digits in braces. -/
def codeEscape? (width : Nat) : List Char → Option (Char × List Char)
  | '\x7b' :: r => do
    let (ds, rest) ← braced? r
    return (← charOf? (← hexValue? ds), rest)
  | r => do
    let ds := r.take width
    if ds.length < width then none
    return (← charOf? (← hexValue? ds), r.drop width)

def charEscape? : List Char → Option (Char × List Char)
  | 'n' :: r => some ('\n', r)
  | 't' :: r => some ('\t', r)
  | 'r' :: r => some ('\r', r)
  | 'f' :: r => some ('\x0c', r)
  | 'v' :: r => some ('\x0b', r)
  | 'a' :: r => some ('\x07', r)
  | 'x' :: r => codeEscape? 2 r
  | 'u' :: r => codeEscape? 4 r
  | 'U' :: r => codeEscape? 8 r
  | c :: r => if c.toNat < 0x80 && !c.isAlphanum && c != '<' && c != '>' then some (c, r) else none
  | [] => none

def category? : String → Option CharSet
  | "L" | "Letter" | "Alphabetic" | "Alpha" => some isLetter
  | "M" | "Mark" => some isMark
  | "Nd" | "N" | "Number" => some isDecimalDigit
  | "Pc" => some isConnector
  | "White_Space" | "Space" => some isWhiteSpace
  | _ => none

def categoryEscape? (negated : Bool) : List Char → Option (CharSet × List Char)
  | '\x7b' :: r => do
    let (name, rest) ← braced? r
    let p ← category? (String.ofList name)
    return (fun c => p c != negated, rest)
  | c :: r => (category? (String.singleton c)).map fun p => (fun c => p c != negated, r)
  | [] => none

def setEscape? : List Char → Option (CharSet × List Char)
  | 'd' :: r => some (isDecimalDigit, r)
  | 'D' :: r => some (fun c => !isDecimalDigit c, r)
  | 's' :: r => some (isWhiteSpace, r)
  | 'S' :: r => some (fun c => !isWhiteSpace c, r)
  | 'w' :: r => some (isWordChar, r)
  | 'W' :: r => some (fun c => !isWordChar c, r)
  | 'p' :: r => categoryEscape? false r
  | 'P' :: r => categoryEscape? true r
  | _ => none

/-! ## Classes -/

def asciiClass? : String → Option CharSet
  | "alnum" => some Char.isAlphanum
  | "alpha" => some Char.isAlpha
  | "ascii" => some fun c => c.toNat < 0x80
  | "blank" => some fun c => c == ' ' || c == '\t'
  | "cntrl" => some fun c => c.toNat < 0x20 || c.toNat == 0x7F
  | "digit" => some Char.isDigit
  | "graph" => some fun c => 0x21 ≤ c.toNat && c.toNat ≤ 0x7E
  | "lower" => some Char.isLower
  | "print" => some fun c => 0x20 ≤ c.toNat && c.toNat ≤ 0x7E
  | "punct" => some fun c => 0x21 ≤ c.toNat && c.toNat ≤ 0x7E && !c.isAlphanum
  | "space" => some fun c => c == ' ' || (9 ≤ c.toNat && c.toNat ≤ 13)
  | "upper" => some Char.isUpper
  | "word" => some fun c => c.isAlphanum || c == '_'
  | "xdigit" => some fun c => (hexDigit? c).isSome
  | _ => none

/-- The rest of `[:name:]` or `[:^name:]` behind `[:`. -/
def namedClass? (s : List Char) : Option (CharSet × List Char) := do
  let (negated, r) := match s with
    | '^' :: r => (true, r)
    | r => (false, r)
  let name := r.takeWhile Char.isLower
  let rest ← afterList? [':', ']'] (r.drop name.length)
  let p ← asciiClass? (String.ofList name)
  return (fun c => p c != negated, rest)

inductive SetOp where
  | inter | diff | symDiff

def SetOp.apply : SetOp → CharSet → CharSet → CharSet
  | inter, p, q => fun c => p c && q c
  | diff, p, q => fun c => p c && !q c
  | symDiff, p, q => fun c => p c != q c

def classChar? : List Char → Option (Char × List Char)
  | '\\' :: r => charEscape? r
  | c :: r => some (c, r)
  | [] => none

mutual

def charClass? : Nat → List Char → Option (CharSet × List Char)
  | 0, _ => none
  | fuel + 1, s => do
    let (negated, s) := match s with
      | '^' :: r => (true, r)
      | r => (false, r)
    let (seed, s) : CharSet × List Char := match s with
      | ']' :: r => (fun c => c == ']', r)
      | r => (fun _ => false, r)
    let (p, rest) ← classItems? fuel seed s
    return (fun c => p c != negated, rest)

def classItems? : Nat → CharSet → List Char → Option (CharSet × List Char)
  | 0, _, _ => none
  | fuel + 1, acc, s =>
    let add (p : CharSet) (rest : List Char) : Option (CharSet × List Char) :=
      classItems? fuel (fun c => acc c || p c) rest
    let combine (op : SetOp) (rest : List Char) : Option (CharSet × List Char) :=
      (classItems? fuel (fun _ => false) rest).map fun (q, after) => (op.apply acc q, after)
    match s with
    | [] => none
    | ']' :: rest => some (acc, rest)
    | '&' :: '&' :: rest => combine .inter rest
    | '~' :: '~' :: rest => combine .symDiff rest
    | '-' :: '-' :: rest => combine .diff rest
    | '[' :: ':' :: rest =>
      match namedClass? rest with
      | some (p, after) => add p after
      | none => none
    | '[' :: rest => (charClass? fuel rest).bind fun (p, after) => add p after
    | s =>
      match s with
      | '\\' :: r =>
        match setEscape? r with
        | some (p, after) => add p after
        | none => classRange? fuel acc s
      | _ => classRange? fuel acc s

def classRange? : Nat → CharSet → List Char → Option (CharSet × List Char)
  | 0, _, _ => none
  | fuel + 1, acc, s => do
    let (lo, rest) ← classChar? s
    match rest with
    | '-' :: more =>
      match more with
      | ']' :: _ => classItems? fuel (fun c => acc c || c == lo) rest
      | '-' :: _ => classItems? fuel (fun c => acc c || c == lo) rest
      | _ =>
        let (hi, after) ← classChar? more
        if hi < lo then none
        else classItems? fuel (fun c => acc c || (lo ≤ c && c ≤ hi)) after
    | _ => classItems? fuel (fun c => acc c || c == lo) rest

end

/-! ## Repetition -/

structure Count where
  least : Nat
  most : Option Nat

def Count.apply (n : Count) (r : Regular Char) : Regular Char :=
  match n.most with
  | none => .seq (r.times n.least) (.many r)
  | some m => .seq (r.times n.least) (r.upTo (m - n.least))

def decimal? (ds : List Char) : Option Nat :=
  if ds.isEmpty || !ds.all Char.isDigit then none
  else some (ds.foldl (fun n c => n * 10 + (c.toNat - '0'.toNat)) 0)

def bracedCount? (ds : List Char) : Option Count :=
  match splitOnceList? ',' ds with
  | none => (decimal? ds).map fun n => ⟨n, some n⟩
  | some (a, b) =>
    match decimal? a, b with
    | some n, [] => some ⟨n, none⟩
    | some n, b => (decimal? b).bind fun m => if m < n then none else some ⟨n, some m⟩
    | none, _ => none

/-- The repetition that follows an item, if one does; a question mark behind it does not change
what matches. `none` is a repetition that is written wrongly. -/
def repetition? (s : List Char) : Option (Option Count × List Char) :=
  let lazy_ (n : Count) (r : List Char) : Option (Option Count × List Char) :=
    match r with
    | '?' :: r => some (some n, r)
    | r => some (some n, r)
  match s with
  | '*' :: r => lazy_ ⟨0, none⟩ r
  | '+' :: r => lazy_ ⟨1, none⟩ r
  | '?' :: r => lazy_ ⟨0, some 1⟩ r
  | '\x7b' :: r => do
    let (ds, rest) ← braced? r
    let n ← bracedCount? (ds.filter (· != ' '))
    if 1000 < n.least || n.most.any (1000 < ·) then none
    lazy_ n rest
  | s => some (none, s)

def repeated? : Nat → Regular Char → List Char → Option (Regular Char × List Char)
  | 0, _, _ => none
  | fuel + 1, r, s => do
    let (n, rest) ← repetition? s
    match n with
    | none => return (r, rest)
    | some n => repeated? fuel (n.apply r) rest

/-! ## Expressions -/

/-- Inline flags up to a colon or a closing parenthesis: the flags, whether a group follows, and
what follows. -/
def inlineFlags? (flags : Flags) (on : Bool) : List Char → Option (Flags × Bool × List Char)
  | [] => none
  | ')' :: r => some (flags, false, r)
  | ':' :: r => some (flags, true, r)
  | '-' :: r => if on then inlineFlags? flags false r else none
  | c :: r => (flags.set? on c).bind fun f => inlineFlags? f on r

def boundaryEscape? : List Char → Option (Regular Char × List Char)
  | 'b' :: '\x7b' :: r => do
    let (name, rest) ← braced? r
    match String.ofList name with
    | "start" => return (.between fun a b => !isWordAt a && isWordAt b, rest)
    | "end" => return (.between fun a b => isWordAt a && !isWordAt b, rest)
    | "start-half" => return (.between fun a _ => !isWordAt a, rest)
    | "end-half" => return (.between fun _ b => !isWordAt b, rest)
    | _ => none
  | 'b' :: r => some (.between fun a b => isWordAt a != isWordAt b, r)
  | 'B' :: r => some (.between fun a b => isWordAt a == isWordAt b, r)
  | 'A' :: r => some (.between fun a _ => a.isNone, r)
  | 'z' :: r => some (.between fun _ b => b.isNone, r)
  | '<' :: r => some (.between fun a b => !isWordAt a && isWordAt b, r)
  | '>' :: r => some (.between fun a b => isWordAt a && !isWordAt b, r)
  | _ => none

def skipLayout : Nat → List Char → List Char
  | 0, s => s
  | fuel + 1, s =>
    match s with
    | '#' :: r => skipLayout fuel (r.dropWhile (· != '\n'))
    | c :: r => if isWhiteSpace c then skipLayout fuel r else s
    | [] => []

mutual

def alternatives? : Nat → Flags → List Char → Option (Regular Char × List Char)
  | 0, _, _ => none
  | fuel + 1, flags, s => do
    let (r, flags, rest) ← sequence? fuel flags .empty s
    match rest with
    | '|' :: more =>
      let (r', after) ← alternatives? fuel flags more
      return (.alt r r', after)
    | _ => return (r, rest)

def sequence? :
    Nat → Flags → Regular Char → List Char → Option (Regular Char × Flags × List Char)
  | 0, _, _, _ => none
  | fuel + 1, flags, acc, s =>
    let s := if flags.spaced then skipLayout s.length s else s
    match s with
    | [] => some (acc, flags, [])
    | '|' :: _ => some (acc, flags, s)
    | ')' :: _ => some (acc, flags, s)
    | '(' :: '?' :: r =>
      match group? fuel flags r with
      | none => none
      | some (.inl newFlags, rest) => sequence? fuel newFlags acc rest
      | some (.inr g, rest) =>
        (repeated? (rest.length + 1) g rest).bind fun (item, after) =>
          sequence? fuel flags (.seq acc item) after
    | _ =>
      (atom? fuel flags s).bind fun (a, rest) =>
        (repeated? (rest.length + 1) a rest).bind fun (item, after) =>
          sequence? fuel flags (.seq acc item) after

/-- What follows `(?`: new flags, or a group with flags or a name. -/
def group? : Nat → Flags → List Char → Option ((Flags ⊕ Regular Char) × List Char)
  | 0, _, _ => none
  | fuel + 1, flags, s =>
    let inner (f : Flags) (r : List Char) : Option ((Flags ⊕ Regular Char) × List Char) := do
      let (g, rest) ← alternatives? fuel f r
      match rest with
      | ')' :: after => return (.inr g, after)
      | _ => none
    let named (r : List Char) : Option ((Flags ⊕ Regular Char) × List Char) := do
      let (name, rest) ← splitOnceList? '>' r
      if name.isEmpty || !(name.all fun c => isWordChar c || c == '.' || c == '[' || c == ']')
        || (name.head?).any Char.isDigit then none
      inner flags rest
    match s with
    | 'P' :: '<' :: r => named r
    | '<' :: '=' :: _ => none
    | '<' :: '!' :: _ => none
    | '<' :: r => named r
    | ')' :: _ => none
    | s => do
      let (f, opens, rest) ← inlineFlags? flags true s
      if opens then inner f rest else return (.inl f, rest)

def atom? : Nat → Flags → List Char → Option (Regular Char × List Char)
  | 0, _, _ => none
  | fuel + 1, flags, s =>
    let single (p : CharSet) (rest : List Char) : Option (Regular Char × List Char) :=
      some (.one (caseless flags p), rest)
    match s with
    | [] => none
    | '(' :: r => do
      let (g, rest) ← alternatives? fuel flags r
      match rest with
      | ')' :: after => return (g, after)
      | _ => none
    | '[' :: r => (charClass? (r.length + 2) r).bind fun (p, rest) => single p rest
    | '.' :: r => some (.one (fun c => flags.dotAll || c != '\n'), r)
    | '^' :: r =>
      some (.between fun a _ => a.isNone || (flags.multiLine && a == some '\n'), r)
    | '$' :: r =>
      some (.between fun _ b => b.isNone || (flags.multiLine && b == some '\n'), r)
    | '\\' :: r =>
      match boundaryEscape? r, setEscape? r with
      | some (b, rest), _ => some (b, rest)
      | none, some (p, rest) => single p rest
      | none, none => (charEscape? r).bind fun (c, rest) => single (fun d => d == c) rest
    | '*' :: _ => none
    | '+' :: _ => none
    | '?' :: _ => none
    | '\x7b' :: _ => none
    | c :: r => single (fun d => d == c) r

end

def parse? (text : String) : Option (Regular Char) := do
  let s := text.toList
  let (r, rest) ← alternatives? (4 * s.length + 8) Flags.none s
  if rest.isEmpty then some r else none

end ScriptAtlas.Pattern.Expression
