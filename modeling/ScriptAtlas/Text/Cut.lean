/-!
# Cutting text

Splitting, trimming and replacing, on characters. The functions on `List Char` do the work; those on
`String` wrap them.
-/

namespace ScriptAtlas.Text

/-! ## On lists of characters -/

/-- The pieces between the occurrences of `c`; there is always at least one piece. -/
def splitList (c : Char) : List Char → List (List Char)
  | [] => [[]]
  | d :: rest =>
    match splitList c rest with
    | [] => [[d]]
    | piece :: pieces => if d = c then [] :: piece :: pieces else (d :: piece) :: pieces

/-- The number that digits in base 36 spell: tables of characters are shorter in it. -/
def ofBase36 (digits : List Char) : Nat :=
  digits.foldl (fun n c =>
    n * 36 + (if c.isDigit then c.toNat - '0'.toNat else c.toNat - 'a'.toNat + 10)) 0

def afterList? : List Char → List Char → Option (List Char)
  | [], s => some s
  | _ :: _, [] => none
  | c :: p, d :: s => if c = d then afterList? p s else none

def splitOnceList? (c : Char) : List Char → Option (List Char × List Char)
  | [] => none
  | d :: rest =>
    if d = c then some ([], rest)
    else (splitOnceList? c rest).map fun (a, b) => (d :: a, b)

def containsList (p : List Char) : List Char → Bool
  | [] => p.isEmpty
  | d :: rest => (afterList? p (d :: rest)).isSome || containsList p rest

def replaceList (c : Char) (r : List Char) : List Char → List Char
  | [] => []
  | d :: rest => if d = c then r ++ replaceList c r rest else d :: replaceList c r rest

theorem splitList_ne_nil (c : Char) (s : List Char) : splitList c s ≠ [] := by
  cases s with
  | nil => simp [splitList]
  | cons d rest =>
    unfold splitList
    split
    · simp
    · split <;> simp

/-! ## On strings -/

def split (c : Char) (s : String) : List String :=
  (splitList c s.toList).map String.ofList

def splitOnce? (c : Char) (s : String) : Option (String × String) :=
  (splitOnceList? c s.toList).map fun (a, b) => (String.ofList a, String.ofList b)

def splitLast? (c : Char) (s : String) : Option (String × String) :=
  (splitOnceList? c s.toList.reverse).map fun (b, a) =>
    (String.ofList a.reverse, String.ofList b.reverse)

def after? (p s : String) : Option String :=
  (afterList? p.toList s.toList).map String.ofList

def before? (p s : String) : Option String :=
  (afterList? p.toList.reverse s.toList.reverse).map fun r => String.ofList r.reverse

def beginsWith (p s : String) : Bool := (after? p s).isSome

def endsWith (p s : String) : Bool := (before? p s).isSome

def contains (p s : String) : Bool := containsList p.toList s.toList

def hasChar (c : Char) (s : String) : Bool := s.toList.contains c

def replace (c : Char) (r s : String) : String :=
  String.ofList (replaceList c r.toList s.toList)

def dropStart (p : Char → Bool) (s : String) : String :=
  String.ofList (s.toList.dropWhile p)

def dropEnd (p : Char → Bool) (s : String) : String :=
  String.ofList (s.toList.reverse.dropWhile p).reverse

/-- Drops `p` from the beginning as often as it stands there, at most `fuel` times. -/
def dropLeadingUpTo (p : String) : Nat → String → String
  | 0, s => s
  | fuel + 1, s =>
    match after? p s with
    | some rest => dropLeadingUpTo p fuel rest
    | none => s

def dropLeading (p s : String) : String := dropLeadingUpTo p s.length s

def isWhiteSpace (c : Char) : Bool :=
  let n := c.toNat
  (9 ≤ n && n ≤ 13) || n == 0x20 || n == 0x85 || n == 0xA0 || n == 0x1680
    || (0x2000 ≤ n && n ≤ 0x200A) || n == 0x2028 || n == 0x2029 || n == 0x202F || n == 0x205F
    || n == 0x3000

def trim (s : String) : String := dropEnd isWhiteSpace (dropStart isWhiteSpace s)

def join (sep : String) : List String → String
  | [] => ""
  | [s] => s
  | s :: rest => s ++ sep ++ join sep rest

end ScriptAtlas.Text
