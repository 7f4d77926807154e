import ScriptAtlas.Query.Failure
import ScriptAtlas.Text.Script

/-!
# Confusable names

The names declared in a file that are not plain ASCII, and the pairs of names that look alike: those
with one skeleton. Names that hide characters or have a look-alike are critical, names that mix
scripts deserve a warning.
-/

namespace ScriptAtlas.Query

open Project Syntax

inductive Severity where
  | info | warning | critical
deriving DecidableEq, Repr, Inhabited

namespace Severity

def text : Severity → String
  | info => "info"
  | warning => "warning"
  | critical => "critical"

def title : Severity → String
  | info => "Info"
  | warning => "Warning"
  | critical => "Critical"

def rank : Severity → Nat
  | info => 0
  | warning => 1
  | critical => 2

def max (a b : Severity) : Severity := if a.rank < b.rank then b else a

def max? : List Severity → Option Severity
  | [] => none
  | s :: rest => some (rest.foldl max s)

end Severity

namespace Confusables

structure Declared where
  name : String
  line : Nat
  scope : String
deriving DecidableEq, Repr, Inhabited

structure IdentifierReport where
  name : String
  line : Nat
  scripts : List String
  mixedScript : Bool
  hasBidi : Bool
  hasZeroWidth : Bool
  nfc : String
  isNfc : Bool
  scope : String
  severity : Severity
deriving DecidableEq, Repr, Inhabited

structure Pair where
  first : String
  firstLine : Nat
  second : String
  secondLine : Nat
  skeleton : String
  reason : String
  severity : Severity
deriving DecidableEq, Repr, Inhabited

structure Report where
  filePath : String
  identifiers : List IdentifierReport
  pairs : List Pair
  maxSeverity : Option Severity
deriving DecidableEq, Repr, Inhabited

/-! ## Declared names -/

def labelName (n : Node) : String := ((n.field? .name).map Node.text).getD "<anonymous>"

def scopeLabel? (n : Node) : Option String :=
  match n.kind? with
  | some .functionDeclaration | some .generatorFunctionDeclaration | some .methodDefinition
  | some .functionExpression | some .arrowFunction => some ("function " ++ labelName n)
  | some .classDeclaration | some .abstractClassDeclaration | some .classExpression
  | some .interfaceDeclaration => some ("class " ++ labelName n)
  | _ => none

def scopeOf (declaration : Node) : String :=
  match declaration.ancestors.findSome? scopeLabel? with
  | some label => label
  | none => if declaration.ancestors.any (·.hasKind .statementBlock) then "block" else "module"

def nameTokens (n : Node) : List Node :=
  match n.kind? with
  | some .variableDeclarator => ((n.field? .name).map Node.bindingNames).getD []
  | some .requiredParameter | some .optionalParameter =>
    ((n.field? .pattern).map Node.bindingNames).getD []
  | _ => n.declarationName?.toList

def declaredNames (file : SourceFile) : List Declared :=
  (file.tree.nodes.filter (·.declarationKind?.isSome)).flatMap fun n =>
    ((nameTokens n).filter (!·.hasKind .string)).map fun token =>
      { name := token.text, line := token.line, scope := scopeOf n }

/-! ## Pairs -/

def firstDeclarations (declared : List Declared) : List Declared :=
  declared.foldl (fun acc d => if acc.any (·.name == d.name) then acc else acc ++ [d]) []

def reasonOf (first second : String) : String :=
  let a := Text.scriptsOf first
  let b := Text.scriptsOf second
  let onlyA := Text.join ", " (a.filter (!b.contains ·))
  let onlyB := Text.join ", " (b.filter (!a.contains ·))
  if onlyA == "" && onlyB == "" then "differ only in invisible or compatibility characters"
  else if onlyA == "" then s!"'{second}' uses {onlyB} characters"
  else if onlyB == "" then s!"'{first}' uses {onlyA} characters"
  else s!"'{first}' uses {onlyA} where '{second}' uses {onlyB}"

def pairOf (skeleton : String) (a b : Declared) : Pair :=
  { first := a.name, firstLine := a.line, second := b.name, secondLine := b.line, skeleton
    reason := reasonOf a.name b.name, severity := .critical }

def pairsIn (skeleton : String) : List Declared → List Pair
  | [] => []
  | d :: rest => rest.map (pairOf skeleton d) ++ pairsIn skeleton rest

/-- The pairs of declared names that look alike, by the lines of their declarations. Pairs at one
place come in the order of their skeletons. -/
def pairsOf (declared : List Declared) : List Pair :=
  let names := (firstDeclarations declared).map fun d => (Text.skeleton d.name, d)
  let skeletons := ((names.map Prod.fst).eraseDups).mergeSort fun a b => !(b < a)
  let found := skeletons.flatMap fun s =>
    pairsIn s ((names.filter (·.1 == s)).map Prod.snd)
  found.mergeSort fun a b =>
    a.firstLine < b.firstLine || (a.firstLine == b.firstLine && a.secondLine ≤ b.secondLine)

/-! ## Names -/

def isAscii (name : String) : Bool := name.toList.all fun c => c.toNat < 128

def identifierReport (pairs : List Pair) (d : Declared) : IdentifierReport :=
  let scripts := Text.scriptsOf d.name
  let hasBidi := d.name.toList.any Text.isBidiControl
  let hasZeroWidth := d.name.toList.any Text.isZeroWidth
  let inPair := pairs.any fun p => p.first == d.name || p.second == d.name
  { name := d.name
    line := d.line
    scripts
    mixedScript := 1 < scripts.length
    hasBidi
    hasZeroWidth
    nfc := Text.nfc d.name
    isNfc := Text.isNfc d.name
    scope := d.scope
    severity := if hasBidi || hasZeroWidth || inPair then .critical
      else if 1 < scripts.length then .warning else .info }

def report (file : SourceFile) : Report :=
  let declared := declaredNames file
  let pairs := pairsOf declared
  let identifiers := (declared.filter (!isAscii ·.name)).map (identifierReport pairs)
  { filePath := file.relPath
    identifiers
    pairs
    maxSeverity := Severity.max? (identifiers.map (·.severity) ++ pairs.map (·.severity)) }

end Confusables

def confusables (idx : Index) (file : String) : Except Failure Confusables.Report :=
  match idx.findFile? file with
  | some f => .ok (Confusables.report f)
  | none => .error (.fileNotIndexed file)

end ScriptAtlas.Query
