import ScriptAtlas.Syntax.Grammar.Goal

/-!
# Literals

Strings, templates and regular expressions. Inside them blanks and comments are text, so these rules
read characters from the exact position on.
-/

namespace ScriptAtlas.Syntax.Grammar

open Reader

/-- The end of the escape sequence whose backslash stands at `pos`. -/
def escapeEnd (cs : Array Char) (pos : Nat) : Nat :=
  match nameEscapeEnd? cs pos with
  | some e => e
  | none =>
    match cs[pos + 1]? with
    | some 'x' =>
      if (cs[pos + 2]?).any isHexDigit && (cs[pos + 3]?).any isHexDigit then pos + 4 else pos + 2
    | some '\r' => if cs[pos + 2]? == some '\n' then pos + 3 else pos + 2
    | some c =>
      if c.isDigit then findFrom cs (fun d => !d.isDigit) 3 (pos + 1) else pos + 2
    | none => pos + 1

/-- The end of the longest run of plain characters from `pos` on: no backslash, and no position at
which `stops` holds. -/
def plainRunEnd (cs : Array Char) (stops : Nat → Bool) : Nat → Nat → Nat
  | 0, pos => pos
  | fuel + 1, pos =>
    if pos < cs.size && !stops pos && cs[pos]? != some '\\' then
      plainRunEnd cs stops fuel (pos + 1)
    else pos

def plainRun (k : Kind) (stops : Array Char → Nat → Bool) : Reader Shape := do
  let cs := (← read).chars
  let a ← get
  let b := plainRunEnd cs (stops cs) (cs.size - a) a
  guardThat (a < b)
  set b
  return .leaf k a b

def escape : Reader Shape := do
  let cs := (← read).chars
  let a ← get
  guardThat (cs[a]? == some '\\')
  let b := min cs.size (escapeEnd cs a)
  set b
  return .leaf .escapeSequence a b

def exactly (text : String) : Reader Shape := do
  let a ← get
  guardThat (standsAt (← read).chars text.toList a)
  set (a + text.length)
  return .token text a (a + text.length)

def quoted (quote : String) : Reader Shape := node .string do
  let o ← symbol quote
  let stops (cs : Array Char) (pos : Nat) : Bool := standsAt cs quote.toList pos
  let parts ← many (firstOf [do return [← plainRun .stringFragment stops],
    do return [← escape]])
  let c ← exactly quote
  return o :: parts ++ [c]

def stringLiteral : Reader Shape := firstOf [quoted "'", quoted "\""]

def templateStops (cs : Array Char) (pos : Nat) : Bool :=
  cs[pos]? == some '\x60' || standsAt cs ['$', '\x7b'] pos

def template (k slot : Kind) (p : Reader Shape) : Reader Shape := node k do
  let o ← symbol "\x60"
  let parts ← many (firstOf [
    do return [← plainRun .stringFragment templateStops],
    do return [← escape],
    do
      let s ← node slot do
        let a ← exactly "$\x7b"
        let e ← p
        let z ← punct "\x7d"
        return [a, e, z]
      return [s]])
  let c ← exactly "\x60"
  return o :: parts ++ [c]

def templateString (recur : Recur) : Reader Shape :=
  template .templateString .templateSubstitution (recur (.expression true))

/-- The end of a regular expression's body: the first slash outside a character class. -/
def regexBodyEnd (cs : Array Char) : Nat → Bool → Nat → Option Nat
  | 0, _, _ => none
  | fuel + 1, inClass, pos =>
    match cs[pos]? with
    | none => none
    | some '\n' => none
    | some '\\' => regexBodyEnd cs fuel inClass (pos + 2)
    | some '[' => regexBodyEnd cs fuel true (pos + 1)
    | some ']' => regexBodyEnd cs fuel false (pos + 1)
    | some '/' => if inClass then regexBodyEnd cs fuel inClass (pos + 1) else some pos
    | some _ => regexBodyEnd cs fuel inClass (pos + 1)

def regex : Reader Shape := node .regex do
  let cs := (← read).chars
  let o ← symbol "/"
  match regexBodyEnd cs (cs.size + 1) false o.stop with
  | none => failure
  | some e =>
    guardThat (o.stop < e)
    set (e + 1)
    let body := Shape.leaf .regexPattern o.stop e
    let close := Shape.token "/" e (e + 1)
    let f := findFrom cs (fun c => !c.isAlpha) (cs.size - e) (e + 1)
    set f
    let flags := if e + 1 < f then [(Shape.leaf .regexFlags (e + 1) f).part .flags] else []
    return [o, body.part .pattern, close] ++ flags

end ScriptAtlas.Syntax.Grammar
