/-!
# Source text and positions

A source file as an array of characters, with the position of each character as other tools count
it: its UTF-8 byte offset, its line from 1, and its column in UTF-8 bytes from 0. Only a line feed
ends a line.
-/

namespace ScriptAtlas.Syntax

structure Mark where
  byte : Nat
  line : Nat
  column : Nat
deriving DecidableEq, Repr, Inhabited

namespace Mark

def start : Mark := ⟨0, 1, 0⟩

def isAtOrBefore (m : Mark) (line column : Nat) : Bool :=
  m.line < line || (m.line == line && m.column ≤ column)

def advance (m : Mark) (c : Char) : Mark :=
  if c = '\n' then ⟨m.byte + 1, m.line + 1, 0⟩
  else ⟨m.byte + c.utf8Size, m.line, m.column + c.utf8Size⟩

end Mark

/-- A text together with the position of each of its characters; `marks` has one entry more than
`chars`, the position of the end. -/
structure Source where
  chars : Array Char
  marks : Array Mark
deriving Inhabited

namespace Source

def marksFrom (m : Mark) : List Char → List Mark
  | [] => [m]
  | c :: cs => m :: marksFrom (m.advance c) cs

theorem length_marksFrom (m : Mark) (cs : List Char) :
    (marksFrom m cs).length = cs.length + 1 := by
  induction cs generalizing m with
  | nil => rfl
  | cons c cs ih => simp [marksFrom, ih]

def ofString (text : String) : Source :=
  let cs := text.toList
  { chars := cs.toArray, marks := (marksFrom Mark.start cs).toArray }

def size (s : Source) : Nat := s.chars.size

/-- The position of the `i`-th character, or of the end when there are fewer. -/
def mark (s : Source) (i : Nat) : Mark :=
  (s.marks[i]?).getD ((s.marks.back?).getD Mark.start)

def slice (s : Source) (start stop : Nat) : String :=
  String.ofList (s.chars.extract start stop).toList

def text (s : Source) : String := s.slice 0 s.size

end Source

end ScriptAtlas.Syntax
