import ScriptAtlas.Text.Cut
import ScriptAtlas.Text.Decomposition
import Std.Data.HashMap

/-!
# Normal forms of text

Texts that are to count as the same are brought to one form: characters are taken apart, marks are put
into a fixed order, and what belongs together is put together again. The canonical form (`nfc`) takes
only apart what is the same character in other words; the compatible form (`nfkc`) also drops
differences of style and width.
-/

namespace ScriptAtlas.Text

namespace NormalForm

/-! ## Tables -/

def entryOf (c : Nat) (parts : List Char) : Bool × List Nat :=
  match parts with
  | '!' :: rest => (true, c :: (splitList ' ' rest).map ofBase36)
  | _ => (false, c :: (splitList ' ' parts).map ofBase36)

def rowEntries : Nat → List (List Char) → List (Bool × List Nat)
  | _, [] => []
  | next, text :: rest =>
    match splitList '=' text with
    | [c, parts] => entryOf (ofBase36 c) parts :: rowEntries (ofBase36 c + 1) rest
    | _ => entryOf next text :: rowEntries (next + 1) rest

def entries (table : List String) : List (Bool × List Nat) :=
  table.flatMap fun row => rowEntries 0 (splitList '|' row.toList)

def addEntry (m : Std.HashMap Nat (List Nat)) (e : Bool × List Nat) : Std.HashMap Nat (List Nat) :=
  match e.2 with
  | c :: parts => m.insert c parts
  | [] => m

def addRun {α : Type} (value : Nat → Nat → α) (m : Std.HashMap Nat α) (e : Bool × List Nat) :
    Std.HashMap Nat α :=
  match e.2 with
  | [first, last, x] =>
    (List.range (last + 1 - first)).foldl (fun m i => m.insert (first + i) (value x i)) m
  | _ => m

def canonical : Std.HashMap Nat (List Nat) := (entries canonicalTable).foldl addEntry ∅

def composites : Std.HashMap (Nat × Nat) Nat :=
  (entries canonicalTable).foldl (fun m e =>
    match e with
    | (false, [c, a, b]) => m.insert (a, b) c
    | _ => m) ∅

def compatible : Std.HashMap Nat (List Nat) :=
  (entries compatibilityRuns).foldl (addRun fun target i => [target + i])
    ((entries compatibilityTable).foldl addEntry ∅)

def classes : Std.HashMap Nat Nat := (entries combiningRuns).foldl (addRun fun cls _ => cls) ∅

def classOf (c : Nat) : Nat := (classes[c]?).getD 0

/-! ## Taking apart -/

/-- Korean syllables are made of letters by calculation. -/
def syllableParts? (c : Nat) : Option (List Nat) :=
  if 0xAC00 ≤ c && c ≤ 0xD7A3 then
    let s := c - 0xAC00
    let lead := 0x1100 + s / 588
    let vowel := 0x1161 + s % 588 / 28
    some (if s % 28 = 0 then [lead, vowel] else [lead, vowel, 0x11A7 + s % 28])
  else none

def canonicalPartsUpTo : Nat → Nat → List Nat
  | 0, c => [c]
  | fuel + 1, c =>
    (syllableParts? c).getD (((canonical[c]?).map (·.flatMap (canonicalPartsUpTo fuel))).getD [c])

def canonicalParts (c : Nat) : List Nat := canonicalPartsUpTo 8 c

/-- The parts of a character where style and width do not count. -/
def compatibleParts (c : Nat) : List Nat := (compatible[c]?).getD (canonicalParts c)

/-! ## Order -/

/-- Adds a character to a text that is given in reverse: a mark goes before marks of a higher
class. -/
def insertMark (c : Nat) : List Nat → List Nat
  | [] => [c]
  | d :: rest =>
    if classOf c ≠ 0 ∧ classOf c < classOf d then d :: insertMark c rest else c :: d :: rest

def ordered (cs : List Nat) : List Nat := (cs.foldl (fun acc c => insertMark c acc) []).reverse

/-! ## Putting together -/

def composite? (a b : Nat) : Option Nat :=
  if 0x1100 ≤ a && a ≤ 0x1112 && 0x1161 ≤ b && b ≤ 0x1175 then
    some (0xAC00 + ((a - 0x1100) * 21 + (b - 0x1161)) * 28)
  else if 0xAC00 ≤ a && a ≤ 0xD7A3 && (a - 0xAC00) % 28 == 0 && 0x11A8 ≤ b && b ≤ 0x11C2 then
    some (a + (b - 0x11A7))
  else composites[(a, b)]?

/-- A text that is being put together: what is done, the character that marks may still join, and the
marks behind it that did not; the lists are in reverse. -/
structure Composing where
  done : List Nat
  base : Option Nat
  marks : List Nat

/-- Whether the marks behind the base keep a character from joining it. -/
def Composing.blocked (s : Composing) (c : Nat) : Bool :=
  match s.marks with
  | [] => false
  | m :: _ => classOf c ≤ classOf m

def Composing.flush (s : Composing) : List Nat := s.marks ++ (s.base.toList ++ s.done)

def Composing.add (s : Composing) (c : Nat) : Composing :=
  let joined := if s.blocked c then none else s.base.bind (composite? · c)
  match joined with
  | some x => { s with base := some x }
  | none =>
    if classOf c = 0 then { done := s.flush, base := some c, marks := [] }
    else { s with marks := c :: s.marks }

def composed (cs : List Nat) : List Nat :=
  (cs.foldl Composing.add { done := [], base := none, marks := [] }).flush.reverse

def form (parts : Nat → List Nat) (cs : List Char) : List Char :=
  (composed (ordered (cs.flatMap fun c => parts c.toNat))).map Char.ofNat

end NormalForm

def nfc (s : String) : String := String.ofList (NormalForm.form NormalForm.canonicalParts s.toList)

def nfkc (s : String) : String := String.ofList (NormalForm.form NormalForm.compatibleParts s.toList)

def isNfc (s : String) : Bool := nfc s == s

end ScriptAtlas.Text
