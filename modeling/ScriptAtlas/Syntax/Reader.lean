import ScriptAtlas.Syntax.Character
import ScriptAtlas.Syntax.Shape

/-!
# Reading tokens

A reader consumes a prefix of the source from a position on and fails without effect: its only state
is the position after the last token, and a choice that fails is taken back. Tokens are read on
demand, because what a slash or an angle bracket begins depends on the construct around it. Blanks
and comments before a token are skipped; which comments they were is recovered later from the gaps
between tokens.
-/

namespace ScriptAtlas.Syntax

/-- What a reader reads: the characters, and whether markup may stand where an expression may. -/
structure Input where
  chars : Array Char
  markup : Bool

/-- A reader of an `α`; its state is the position after the last token read. -/
abbrev Reader (α : Type) := ReaderT Input (StateT Nat Option) α

/-! ## Blanks and comments -/

def findFrom (cs : Array Char) (p : Char → Bool) : Nat → Nat → Nat
  | 0, pos => pos
  | fuel + 1, pos =>
    match cs[pos]? with
    | none => pos
    | some c => if p c then pos else findFrom cs p fuel (pos + 1)

def blockCommentEnd (cs : Array Char) : Nat → Nat → Nat
  | 0, pos => pos
  | fuel + 1, pos =>
    match cs[pos]?, cs[pos + 1]? with
    | some '*', some '/' => pos + 2
    | some _, _ => blockCommentEnd cs fuel (pos + 1)
    | none, _ => pos

def commentEnd? (cs : Array Char) (pos : Nat) : Option Nat :=
  match cs[pos]?, cs[pos + 1]? with
  | some '/', some '/' => some (findFrom cs isLineEnd (cs.size - pos) (pos + 2))
  | some '/', some '*' => some (blockCommentEnd cs (cs.size - pos) (pos + 2))
  | _, _ => none

def skipTrivia (cs : Array Char) : Nat → Nat → Nat
  | 0, pos => pos
  | fuel + 1, pos =>
    match cs[pos]? with
    | none => pos
    | some c =>
      if isBlank c then skipTrivia cs fuel (pos + 1)
      else match commentEnd? cs pos with
        | some e => skipTrivia cs fuel e
        | none => pos

def commentsBetween (cs : Array Char) (stop : Nat) : Nat → Nat → List (Nat × Nat)
  | 0, _ => []
  | fuel + 1, pos =>
    if stop ≤ pos then []
    else match commentEnd? cs pos with
      | some e => (pos, e) :: commentsBetween cs stop fuel e
      | none => commentsBetween cs stop fuel (pos + 1)

/-! ## Names and numbers -/

/-- The end of a Unicode escape that begins at `pos` and may stand in a name, if one does. -/
def nameEscapeEnd? (cs : Array Char) (pos : Nat) : Option Nat :=
  if cs[pos]? == some '\\' && cs[pos + 1]? == some 'u' then
    let hexAt (i : Nat) : Bool := (cs[i]?).any isHexDigit
    if cs[pos + 2]? == some '\x7b' then
      let e := findFrom cs (fun c => !isHexDigit c) (cs.size - pos) (pos + 3)
      if pos + 3 < e && cs[e]? == some '\x7d' then some (e + 1) else none
    else if hexAt (pos + 2) && hexAt (pos + 3) && hexAt (pos + 4) && hexAt (pos + 5) then
      some (pos + 6)
    else none
  else none

def namePartsEnd (cs : Array Char) : Nat → Nat → Nat
  | 0, pos => pos
  | fuel + 1, pos =>
    match cs[pos]? with
    | none => pos
    | some c =>
      if isNamePart c then namePartsEnd cs fuel (pos + 1)
      else match nameEscapeEnd? cs pos with
        | some e => namePartsEnd cs fuel e
        | none => pos

def nameEnd? (cs : Array Char) (pos : Nat) : Option Nat :=
  match cs[pos]? with
  | none => none
  | some c =>
    if isNameStart c then some (namePartsEnd cs cs.size (pos + 1))
    else match nameEscapeEnd? cs pos with
      | some e => some (namePartsEnd cs cs.size e)
      | none => none

def digitsEnd (cs : Array Char) (isDigit : Char → Bool) (pos : Nat) : Nat :=
  findFrom cs (fun c => !(isDigit c || c == '_')) (cs.size - pos) pos

def exponentEnd (cs : Array Char) (pos : Nat) : Nat :=
  match cs[pos]? with
  | some c =>
    if c == 'e' || c == 'E' then
      let d := match cs[pos + 1]? with
        | some s => if s == '+' || s == '-' then pos + 2 else pos + 1
        | none => pos + 1
      let e := digitsEnd cs Char.isDigit d
      if d < e then e else pos
    else pos
  | none => pos

def numberEnd? (cs : Array Char) (pos : Nat) : Option Nat :=
  let bigSuffix (e : Nat) : Nat := if cs[e]? == some 'n' then e + 1 else e
  match cs[pos]? with
  | none => none
  | some c =>
    if c == '0' && (cs[pos + 1]?).any (fun d => "xXoObB".toList.contains d) then
      some (bigSuffix (digitsEnd cs isHexDigit (pos + 2)))
    else if c.isDigit then
      let e := digitsEnd cs Char.isDigit pos
      if cs[e]? == some 'n' then some (e + 1)
      else if cs[e]? == some '.' then
        some (exponentEnd cs (digitsEnd cs Char.isDigit (e + 1)))
      else some (exponentEnd cs e)
    else if c == '.' && (cs[pos + 1]?).any Char.isDigit then
      some (exponentEnd cs (digitsEnd cs Char.isDigit (pos + 1)))
    else none

/-! ## Punctuators -/

def longPunctuators : List String :=
  [">>>=",
   "...", "===", "!==", "**=", "<<=", ">>=", ">>>", "&&=", "||=", "??=",
   "=>", "==", "!=", "<=", ">=", "&&", "||", "??", "?.", "++", "--", "+=", "-=", "*=", "/=",
   "%=", "&=", "|=", "^=", "<<", ">>", "**"]

def standsAt (cs : Array Char) (text : List Char) (pos : Nat) : Bool :=
  match text with
  | [] => true
  | c :: rest => cs[pos]? == some c && standsAt cs rest (pos + 1)

/-- The longest operator or bracket at `pos`; empty when a name, a literal or the end is there. An
optional chain before a digit is a question mark before a number. -/
def punctuatorAt (cs : Array Char) (pos : Nat) : String :=
  let fits (t : String) : Bool :=
    standsAt cs t.toList pos && !(t == "?." && (cs[pos + 2]?).any Char.isDigit)
  match longPunctuators.find? fits with
  | some t => t
  | none =>
    match cs[pos]? with
    | some c =>
      if isPunctuation c && c != '\x22' && c != '\x27' && c != '\\' then String.singleton c else ""
    | none => ""

/-! ## Readers of tokens -/

namespace Reader

def runAt {α : Type} (p : Reader α) (input : Input) (pos : Nat) : Option (α × Nat) :=
  (ReaderT.run p input).run pos

def nextStart : Reader Nat := do
  let cs := (← read).chars
  let pos ← get
  return skipTrivia cs (cs.size + 1 - pos) pos

def newlineAhead : Reader Bool := do
  let cs := (← read).chars
  let pos ← get
  let next ← nextStart
  return (cs.extract pos next).any isLineBreak

def atEnd : Reader Bool := do
  return (← read).chars.size ≤ (← nextStart)

def sliceText (a b : Nat) : Reader String := do
  return String.ofList ((← read).chars.extract a b).toList

def peekWord : Reader String := do
  let cs := (← read).chars
  let a ← nextStart
  match nameEnd? cs a with
  | some b => sliceText a b
  | none => return ""

def peekPunct : Reader String := do
  return punctuatorAt (← read).chars (← nextStart)

def peekChar : Reader (Option Char) := do
  return (← read).chars[← nextStart]?

def isAhead {α : Type} (p : Reader α) : Reader Bool := fun input pos =>
  some ((p input pos).isSome, pos)

def guardThat (b : Bool) : Reader Unit :=
  if b then pure () else failure

def punct (text : String) : Reader Shape := do
  let a ← nextStart
  guardThat (punctuatorAt (← read).chars a == text)
  set (a + text.length)
  return .token text a (a + text.length)

/-- The given characters, even as the beginning of a longer operator. -/
def symbol (text : String) : Reader Shape := do
  let a ← nextStart
  guardThat (standsAt (← read).chars text.toList a)
  set (a + text.length)
  return .token text a (a + text.length)

def keyword (text : String) : Reader Shape := do
  let cs := (← read).chars
  let a ← nextStart
  match nameEnd? cs a with
  | some b =>
    guardThat ((← sliceText a b) == text)
    set b
    return .token text a b
  | none => failure

def anyWord (k : Kind) : Reader Shape := do
  let cs := (← read).chars
  let a ← nextStart
  match nameEnd? cs a with
  | some b => set b; return .leaf k a b
  | none => failure

def wordAs (k : Kind) (text : String) : Reader Shape := do
  let t ← keyword text
  return .leaf k t.start t.stop

def keywordOf (texts : List String) : Reader Shape := do
  let w ← peekWord
  guardThat (texts.contains w)
  keyword w

def punctOf (texts : List String) : Reader Shape := do
  let p ← peekPunct
  guardThat (texts.contains p)
  punct p

def privateName : Reader Shape := do
  let cs := (← read).chars
  let a ← nextStart
  guardThat (cs[a]? == some '#')
  match nameEnd? cs (a + 1) with
  | some b => set b; return .leaf .privatePropertyIdentifier a b
  | none => failure

def number : Reader Shape := do
  let cs := (← read).chars
  let a ← nextStart
  match numberEnd? cs a with
  | some b => set b; return .leaf .number a b
  | none => failure

/-! ## Combinators -/

def node (k : Kind) (p : Reader (List Shape)) : Reader Shape := do
  let a ← nextStart
  return .branch k a (← p)

def opt (p : Reader Shape) : Reader (List Shape) := fun input pos =>
  match p input pos with
  | some (s, q) => some ([s], q)
  | none => some ([], pos)

def optAll (p : Reader (List Shape)) : Reader (List Shape) := fun input pos =>
  match p input pos with
  | some r => some r
  | none => some ([], pos)

def firstOf {α : Type} : List (Reader α) → Reader α
  | [] => failure
  | p :: ps => fun input pos =>
    match p input pos with
    | some r => some r
    | none => firstOf ps input pos

/-- Reads `p` as long as it succeeds and moves on, at most `fuel` times. -/
def repeatUpTo {α : Type} (p : Reader (List α)) : Nat → Reader (List α)
  | 0 => pure []
  | fuel + 1 => fun input pos =>
    match p input pos with
    | none => some ([], pos)
    | some (xs, next) =>
      if next ≤ pos then some (xs, next)
      else match repeatUpTo p fuel input next with
        | some (ys, last) => some (xs ++ ys, last)
        | none => some (xs, next)

/-- Reads `p` as long as it succeeds; every round consumes a character, so the rounds are bounded
by what is left. -/
def many {α : Type} (p : Reader (List α)) : Reader (List α) := fun input pos =>
  repeatUpTo p (input.chars.size + 1 - pos) input pos

def growUpTo (step : Shape → Reader Shape) : Nat → Shape → Reader Shape
  | 0, left => pure left
  | fuel + 1, left => fun input pos =>
    match step left input pos with
    | none => some (left, pos)
    | some (wider, next) =>
      if next ≤ pos then some (wider, next) else growUpTo step fuel wider input next

def grow (step : Shape → Reader Shape) (left : Shape) : Reader Shape := fun input pos =>
  growUpTo step (input.chars.size + 1 - pos) left input pos

def commaSep1 (p : Reader (List Shape)) : Reader (List Shape) := do
  let first ← p
  let rest ← many (do
    let c ← punct ","
    let x ← p
    return c :: x)
  return first ++ rest

def bracketed (opening closing : String) (p : Reader (List Shape)) : Reader (List Shape) := do
  let o ← punct opening
  let first ← optAll p
  let rest ← many (do
    let c ← punct ","
    let x ← optAll p
    return c :: x)
  let c ← punct closing
  return o :: first ++ rest ++ [c]

/-- An explicit semicolon if there is one. Where none stands the statement ends by itself. -/
def semicolon : Reader (List Shape) := opt (punct ";")

end Reader

end ScriptAtlas.Syntax
