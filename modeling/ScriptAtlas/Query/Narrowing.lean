import ScriptAtlas.Query.Locate

/-!
# Narrowing

The constructs inside a callable that narrow the type of a value: conditions that test a value, early
returns, cases of a switch, assertions, and checks that nothing is left over.
-/

namespace ScriptAtlas.Query

open Project Syntax

inductive GuardKind where
  | userDefinedGuard | assertion | typeOf | instanceOf | inOperator | discriminant | equality
  | nullish | arrayCheck | earlyReturn | exhaustiveness | compound
deriving DecidableEq, Repr, Inhabited

namespace GuardKind

def text : GuardKind → String
  | userDefinedGuard => "userDefinedGuard"
  | assertion => "assertion"
  | typeOf => "typeof"
  | instanceOf => "instanceof"
  | inOperator => "inOperator"
  | discriminant => "discriminant"
  | equality => "equality"
  | nullish => "nullish"
  | arrayCheck => "arrayCheck"
  | earlyReturn => "earlyReturn"
  | exhaustiveness => "exhaustiveness"
  | compound => "compound"

def title : GuardKind → String
  | userDefinedGuard => "UserDefinedGuard"
  | assertion => "Assertion"
  | typeOf => "Typeof"
  | instanceOf => "Instanceof"
  | inOperator => "InOperator"
  | discriminant => "Discriminant"
  | equality => "Equality"
  | nullish => "Nullish"
  | arrayCheck => "ArrayCheck"
  | earlyReturn => "EarlyReturn"
  | exhaustiveness => "Exhaustiveness"
  | compound => "Compound"

end GuardKind

/-- Whether an early return leaves when the condition holds of the value, or goes on with it. -/
inductive GuardPolarity where
  | positive | negative
deriving DecidableEq, Repr, Inhabited

def GuardPolarity.text : GuardPolarity → String
  | positive => "positive"
  | negative => "negative"

structure GuardEntry where
  kind : GuardKind
  line : Nat
  text : String
  subject : Option String
  narrowedTo : Option String
  polarity : Option GuardPolarity
  /-- The kinds of the parts of a compound condition. -/
  components : List GuardKind
deriving DecidableEq, Repr, Inhabited

namespace Narrowing

structure Report where
  symbol : SymbolRef
  isTypeGuard : Bool
  isAssertion : Bool
  guards : List GuardEntry
deriving DecidableEq, Repr, Inhabited

/-! ## Parts of conditions -/

def flatten (s : String) : String :=
  let words := s.toList.splitBy fun a b => Text.isWhiteSpace a == Text.isWhiteSpace b
  Text.join " " ((words.filter fun w => !w.any Text.isWhiteSpace).map String.ofList)

def operator (n : Node) : String := ((n.field? .operator).map Node.text).getD ""

def typeOfOperand? (n : Node) : Option Node :=
  if n.hasKind .unaryExpression && operator n == "typeof" then
    (n.field? .argument).map Node.unwrap
  else none

def isLiteral (n : Node) : Bool :=
  n.hasKindIn [.string, .number, .trueLiteral, .falseLiteral, .nullLiteral, .undefinedLiteral,
    .templateString]

def isNullish (n : Node) : Bool :=
  n.hasKindIn [.nullLiteral, .undefinedLiteral] || n.text == "undefined"

def literalText (n : Node) : String := if n.hasKind .string then n.stringValue else n.text

def firstArgument? (call : Node) : Option Node :=
  (call.field? .arguments).bind fun args => args.parts.head?

def entryAt (n : Node) (kind : GuardKind) (subject narrowedTo : Option String) : GuardEntry :=
  { kind, line := n.line, text := flatten n.text, subject, narrowedTo, polarity := none
    components := [] }

/-! ## Predicates -/

inductive PredicateKind where
  | typeGuard | assertion
deriving DecidableEq, Repr

def predicateOf? (function : Node) : Option (PredicateKind × Node) :=
  (function.field? .returnType).bind fun written =>
    match written.kind? with
    | some .annotatedPredicate =>
      (written.namedChildren.find? (·.hasKind .typePredicate)).map fun p => (.typeGuard, p)
    | some .annotatedAsserts => written.namedChildren.head?.map fun p => (.assertion, p)
    | _ => none

/-- The parameter that a predicate is about, and the type that it has then. -/
def predicateParts (predicate : Node) : Option String × Option String :=
  let inner := if predicate.hasKind .asserts then
      (predicate.namedChildren.find? (·.hasKind .typePredicate)).getD predicate
    else predicate
  if inner.hasKind .typePredicate then
    ((inner.field? .name).map Node.text, (inner.field? .type).map Node.text)
  else
    ((inner.namedChildren.find? (·.hasKindIn [.identifier, .thisExpression])).map Node.text, none)

def calleeToken? (call : Node) : Option Node :=
  (call.field? .function).bind fun f =>
    let callee := f.unwrap
    match callee.kind? with
    | some .identifier => some callee
    | some .memberExpression => callee.field? .property
    | _ => none

def calleePredicate? (idx : Index) (file : SourceFile) (call : Node) :
    Option (PredicateKind × Node) :=
  ((calleeToken? call).bind (idx.resolveAt? file)).bind fun s =>
    s.declarations.findSome? fun d => d.node.functionNode?.bind predicateOf?

def isWrittenNever (n : Node) : Bool :=
  ((n.field? .type).bind (·.namedChildren.head?)).any (·.text == "never")

/-- Whether a call calls a function by a plain name with a parameter that no value fits. -/
def isNeverCheck (idx : Index) (file : SourceFile) (call : Node) : Bool :=
  match (call.field? .function).map Node.unwrap with
  | none => false
  | some callee =>
    callee.hasKind .identifier && (idx.resolveAt? file callee).any fun s =>
      s.declarations.any fun d =>
        d.node.functionNode?.any fun f => f.parameters.any isWrittenNever

/-! ## Conditions -/

def equalityGuard (e left right : Node) : Option GuardEntry :=
  let (subject, other) := if isLiteral left && !isLiteral right then (right, left) else (left, right)
  match typeOfOperand? subject with
  | some operand => some (entryAt e .typeOf (some operand.text) (some other.stringValue))
  | none =>
    if isNullish other then some (entryAt e .nullish (some subject.text) (some other.text))
    else if subject.hasKind .memberExpression && isLiteral other then
      (subject.field? .object).map fun object =>
        entryAt e .discriminant (some object.text) (some (literalText other))
    else some (entryAt e .equality (some subject.text) (some other.text))

def callGuard (idx : Index) (file : SourceFile) (e : Node) : Option GuardEntry :=
  (e.field? .function).bind fun f =>
    let subject := (firstArgument? e).map Node.text
    if f.unwrap.text == "Array.isArray" then some (entryAt e .arrayCheck subject (some "array"))
    else match calleePredicate? idx file e with
      | some (.typeGuard, p) => some (entryAt e .userDefinedGuard subject (predicateParts p).2)
      | _ => none

def joinGuards (e : Node) : Option GuardEntry → Option GuardEntry → Option GuardEntry
  | some l, some r => some { entryAt e .compound l.subject none with components := [l.kind, r.kind] }
  | some l, none => some l
  | none, r => r

def conditionUpTo (idx : Index) (file : SourceFile) : Nat → Node → Option GuardEntry
  | 0, _ => none
  | fuel + 1, e =>
    match e.kind? with
    | some .parenthesizedExpression => conditionUpTo idx file fuel e.unwrap
    | some .unaryExpression =>
      if operator e == "!" then
        ((e.field? .argument).bind fun a => conditionUpTo idx file fuel a.unwrap).map fun g =>
          { g with line := e.line, text := flatten e.text }
      else none
    | some .binaryExpression =>
      match (e.field? .left).map Node.unwrap, (e.field? .right).map Node.unwrap with
      | some left, some right =>
        match operator e with
        | "&&" | "||" =>
          joinGuards e (conditionUpTo idx file fuel left) (conditionUpTo idx file fuel right)
        | "instanceof" =>
          some (entryAt e (if right.text == "Array" then .arrayCheck else .instanceOf)
            (some left.text) (some right.text))
        | "in" => some (entryAt e .inOperator (some right.text) (some left.stringValue))
        | "===" | "!==" | "==" | "!=" => equalityGuard e left right
        | _ => none
      | _, _ => none
    | some .callExpression => callGuard idx file e
    | _ => none

def condition (idx : Index) (file : SourceFile) (e : Node) : Option GuardEntry :=
  conditionUpTo idx file (e.entry.size + 1) e

/-! ## Statements -/

def polarityOf (e : Node) : GuardPolarity :=
  let e := e.unwrap
  match e.kind? with
  | some .unaryExpression => if operator e == "!" then .negative else .positive
  | some .binaryExpression =>
    if operator e == "==" || operator e == "===" then .negative else .positive
  | _ => .positive

def testedValue? (e : Node) : Option Node :=
  let e := e.unwrap
  match e.kind? with
  | some .identifier | some .memberExpression => some e
  | some .unaryExpression =>
    ((e.field? .argument).map Node.unwrap).filter (·.hasKindIn [.identifier, .memberExpression])
  | _ => none

/-- Whether a conditional only leaves: its branch ends by leaving, and it has no other branch. -/
def isEarlyReturn (stmt : Node) : Bool :=
  (stmt.field? .alternative).isNone && (stmt.field? .consequence).any fun c =>
    let last := if c.hasKind .statementBlock then c.parts.getLast? else some c
    last.any (·.hasKindIn
      [.returnStatement, .throwStatement, .continueStatement, .breakStatement])

def earlyReturn (idx : Index) (file : SourceFile) (e : Node) : GuardEntry :=
  let inner := condition idx file e
  { kind := .earlyReturn
    line := e.line
    text := flatten e.text
    subject := inner.bind (·.subject) <|> (testedValue? e).map Node.text
    narrowedTo := inner.bind (·.narrowedTo)
    polarity := some (polarityOf e)
    components := match inner with
      | some g => if g.components.isEmpty then [g.kind] else g.components
      | none => [] }

def switchGuards (stmt : Node) : List GuardEntry :=
  let tested : Option (GuardKind × Node) := ((stmt.field? .value).map Node.unwrap).bind fun v =>
    match typeOfOperand? v with
    | some operand => some (.typeOf, operand)
    | none =>
      if v.hasKind .memberExpression then (v.field? .object).map fun o => (.discriminant, o)
      else none
  match tested, stmt.field? .body with
  | some (kind, subject), some body =>
    (body.namedChildren.filter (·.hasKind .switchCase)).filterMap fun case =>
      (case.field? .value).map fun label =>
        { kind, line := case.line, text := "case " ++ label.text, subject := some subject.text
          narrowedTo := some (literalText label), polarity := none, components := [] }
  | _, _ => []

def statementGuard (idx : Index) (file : SourceFile) (stmt : Node) : Option GuardEntry :=
  (stmt.namedChildren.head?.filter (·.hasKind .callExpression)).bind fun call =>
    let subject := (firstArgument? call).map Node.text
    match calleePredicate? idx file call with
    | some (.assertion, p) => some (entryAt call .assertion subject (predicateParts p).2)
    | _ =>
      if isNeverCheck idx file call then
        some (entryAt call .exhaustiveness subject (some "never"))
      else none

/-- What one node in the body of a callable narrows; in a type guard what it returns counts too. -/
def guardsAt (idx : Index) (file : SourceFile) (inTypeGuard : Bool) (n : Node) : List GuardEntry :=
  match n.kind? with
  | some .ifStatement =>
    match (n.field? .condition).map Node.unwrap with
    | some e =>
      if isEarlyReturn n then [earlyReturn idx file e] else (condition idx file e).toList
    | none => []
  | some .whileStatement | some .doStatement | some .ternaryExpression =>
    (((n.field? .condition).map Node.unwrap).bind (condition idx file)).toList
  | some .returnStatement =>
    if inTypeGuard then ((n.namedChildren.head?.map Node.unwrap).bind (condition idx file)).toList
    else []
  | some .switchStatement => switchGuards n
  | some .expressionStatement => (statementGuard idx file n).toList
  | some .variableDeclarator =>
    if isWrittenNever n then
      [entryAt n .exhaustiveness ((n.field? .value).map Node.text) (some "never")]
    else []
  | _ => []

def predicateEntry (kind : PredicateKind) (p : Node) : GuardEntry :=
  let (subject, narrowedTo) := predicateParts p
  entryAt p (if kind == .typeGuard then .userDefinedGuard else .assertion) subject narrowedTo

def report (idx : Index) (d : Declaration) : Report :=
  let function := d.node.functionNode?
  let predicate := function.bind predicateOf?
  let isTypeGuard := predicate.any (·.1 == .typeGuard)
  let own := (predicate.map fun (kind, p) => predicateEntry kind p).toList
  let inner := match function.bind (·.field? .body) with
    | some body => body.descendants.flatMap (guardsAt idx d.file isTypeGuard)
    | none => []
  { symbol := d.ref
    isTypeGuard
    isAssertion := predicate.any (·.1 == .assertion)
    guards := (own ++ inner).mergeSort fun a b => a.line ≤ b.line }

end Narrowing

def narrowing (idx : Index) (q : SymbolQuery) : Except Failure Narrowing.Report :=
  (locateCallable idx q).map (Narrowing.report idx)

end ScriptAtlas.Query
