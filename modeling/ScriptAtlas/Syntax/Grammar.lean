import ScriptAtlas.Syntax.Grammar.Markup
import ScriptAtlas.Syntax.Grammar.Statement

/-!
# The grammar, closed

`goal` ties the rules together: a goal may open as many nested goals as its fuel says. A source of
`n` characters nests no deeper than a constant times `n`, because between two goals at the same
position lies a bounded chain of rules; `program` computes that bound from the source.
-/

namespace ScriptAtlas.Syntax.Grammar

open Reader

def rule (recur : Recur) : Goal → Reader Shape
  | .statement => statement recur
  | .block => blockStatement recur
  | .expression allowIn => expression recur allowIn
  | .assignment allowIn arrowTypes => assignment recur allowIn arrowTypes
  | .binary allowIn level => binary recur allowIn level
  | .unary => unary recur
  | .operand => operand recur
  | .leftHand => leftHand recur
  | .target => assignmentTarget recur
  | .type => typeExpression recur
  | .typeOperand => typeOperand recur
  | .pattern => pattern recur
  | .element => element recur

def goal : Nat → Goal → Reader Shape
  | 0, _ => failure
  | fuel + 1, g => fun input pos => rule (goal fuel) g input pos

/-- The first line of a script that names its interpreter. -/
def hashBangLine : Reader Shape := do
  let cs := (← read).chars
  let pos ← get
  guardThat (pos == 0 && standsAt cs ['#', '!'] 0)
  let e := findFrom cs isLineEnd cs.size 0
  set e
  return .leaf .hashBangLine 0 e

/-- The statements of a file. What does not parse is left out together with all that follows. -/
def program (fuel : Nat) : Reader (List Shape) := do
  let bang ← opt hashBangLine
  let body ← many (do return [← goal fuel .statement])
  return bang ++ body

/-- The nesting that a source of the given size can need. -/
def fuelFor (size : Nat) : Nat := 16 * size + 64

def parse (input : Input) : Shape :=
  let size := input.chars.size
  let body := ((program (fuelFor size)).runAt input 0).elim [] Prod.fst
  let first := (body.head?.map Shape.start).getD size
  .mk (.named .program) none first size body

end ScriptAtlas.Syntax.Grammar
