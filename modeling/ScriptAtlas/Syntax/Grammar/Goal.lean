import ScriptAtlas.Syntax.Reader

/-!
# Goals of the grammar

The grammar is recursive through a handful of constructs only; a `Goal` names one of them. Each rule
takes the reader of goals as an argument, so a rule is an ordinary function and the recursion is
closed in one place.
-/

namespace ScriptAtlas.Syntax

/-- The constructs through which the grammar refers to itself. -/
inductive Goal where
  | statement
  | block
  /-- An expression, commas included; `allowIn` is off in the head of a loop. -/
  | expression (allowIn : Bool)
  /-- An expression without a comma at its top. With `arrowTypes` off an arrow function's
  parameters are not followed by a type, which the middle of a conditional needs. -/
  | assignment (allowIn arrowTypes : Bool)
  /-- Operands joined by operators that bind at least as tightly as `level`. -/
  | binary (allowIn : Bool) (level : Nat)
  | unary
  /-- An operand without member accesses and calls. -/
  | operand
  /-- An operand with its member accesses and calls. -/
  | leftHand
  /-- A member or an element that an assignment may change. -/
  | target
  | type
  /-- A type that a prefix operator applies to. -/
  | typeOperand
  | pattern
  | element
deriving Repr

/-- The reader of the goals, as a rule sees it. -/
abbrev Recur := Goal → Reader Shape

namespace Grammar

def reservedWords : List String :=
  ["break", "case", "catch", "class", "const", "continue", "debugger", "default", "delete", "do",
   "else", "enum", "export", "extends", "false", "finally", "for", "function", "if", "import",
   "in", "instanceof", "new", "null", "return", "super", "switch", "this", "throw", "true", "try",
   "typeof", "var", "void", "while", "with"]

open Reader

def nameAs (k : Kind) : Reader Shape := do
  guardThat (!reservedWords.contains (← peekWord))
  anyWord k

def identifier : Reader Shape := nameAs .identifier

/-- Whether `p` holds of the token behind the next word. -/
def afterWord (p : Reader Bool) : Reader Bool := do
  let b ← isAhead (do
    let _ ← anyWord .identifier
    guardThat (← p))
  return b

def propertyNameAhead : Reader Bool := do
  let w ← peekWord
  if w != "" then return true
  match ← peekChar with
  | some c => return c.isDigit || ['\x22', '\x27', '[', '#', '*'].contains c
  | none => return false

/-- The word `w` as a modifier: the name it modifies follows. -/
def modifier (w : String) : Reader Shape := do
  let t ← keyword w
  guardThat (← propertyNameAhead)
  return t

end Grammar

end ScriptAtlas.Syntax
