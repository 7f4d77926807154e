import ScriptAtlas.Symbol.Annotated
import ScriptAtlas.Symbol.Heritage

/-!
# Types of values

The types of expressions and declarations, and what a member expression stands for. The three
questions lead to each other: the type of `a.b` is that of the member it stands for, which depends on
the type of `a`. An `Inference` answers all three; `Inference.step` says how each is answered with the
answers to smaller questions, and `Inference.upTo` repeats the step.

Inference from an expression takes at most `inferenceLevels` steps before it gives up, but each member
expression on the way starts to count anew.
-/

namespace ScriptAtlas

open Project Syntax

structure Inference where
  expression : ExpressionTypes
  declaration : Declaration → Nat → StaticType
  member : MemberSymbols

/-- Whether a name stands inside a type, where names of values and of types both count. -/
def inTypeContext (n : Node) : Bool :=
  (n.findAncestor? (·.hasKindIn [.annotatedType, .typeArguments, .typeQuery, .implementsClause,
    .extendsTypeClause, .typeAliasDeclaration])).isSome

/-- What a token in the list of an import statement stands for: the import itself, or, for the name
in the other module, what that module exports. -/
def importEntrySymbol? (idx : Index) (file : SourceFile) (spec token : Node) : Option Symbol := do
  let name ← spec.declarationName?
  let d ← Declaration.make? file spec name
  if (spec.field? .alias).isSome && token.isFieldOf .name spec then idx.resolveImport d
  else some (Symbol.single d)

/-- What a token that names no declaration stands for by its place inside `parent` and its kind. -/
def usedSymbol? (idx : Index) (members : MemberSymbols) (file : SourceFile) (parent token : Node) :
    Option Symbol :=
  if parent.hasKind .memberExpression && token.isFieldOf .property parent then members file parent
  else if parent.hasKindIn [.nestedTypeIdentifier, .nestedIdentifier]
      && (token.isFieldOf .name parent || parent.namedChildren.getLast?.any (· == token)) then
    idx.resolveQualified file parent
  else match token.kind? with
    | some .typeIdentifier => idx.resolveName file token token.text .type
    | some .identifier | some .shorthandPropertyIdentifier =>
      idx.resolveName file token token.text (if inTypeContext token then .any else .value)
    | some .thisExpression => (enclosingClass? file token).map Symbol.single
    | _ => none

/-- What a token stands for, where an import stands for itself. -/
def symbolAt? (idx : Index) (members : MemberSymbols) (file : SourceFile) (token : Node) :
    Option Symbol := do
  let parent ← token.parent?
  if parent.hasKind .importSpecifier then importEntrySymbol? idx file parent token
  else if parent.hasKind .exportSpecifier then idx.exportEntrySymbol? file parent
  else match Declaration.ofName? file token with
    | some d => some (idx.merged d)
    | none => usedSymbol? idx members file parent token

def resolveAt? (idx : Index) (members : MemberSymbols) (file : SourceFile) (token : Node) :
    Option Symbol :=
  (symbolAt? idx members file token).map idx.resolveSymbol

namespace Inference

variable (idx : Index) (known : Inference)

def annotated (file : SourceFile) (node : Node) : StaticType :=
  annotatedType idx known.expression file node

def signature (file : SourceFile) (function : Node) (levels : Nat) : Signature :=
  signatureOf known.expression (annotated idx known file) file function levels

/-! ## Signatures -/

def callMembers (file : SourceFile) (holder : Node) (levels : Nat) : List Signature :=
  ((holder.typeBody?.getD holder).namedChildren.filter (·.hasKind .callSignature)).map fun m =>
    signature idx known file m levels

def callSignatures : Nat → StaticType → List Signature
  | 0, _ => []
  | levels + 1, t =>
    match t with
    | .function parameters result => [⟨parameters, result⟩]
    | .aliasOf _ target _ => callSignatures levels target
    | .union members | .intersection members => members.flatMap (callSignatures levels)
    | .instanceOf d _ =>
      if d.kind == .interfaceType then callMembers idx known d.file d.node levels else []
    | .object file node => callMembers idx known file node levels
    | _ => []

/-! ## Members -/

/-- How many aliases, unions and bounds a member is looked for through. -/
def memberLevels : Nat := 9

def membersOf (name : String) : Nat → StaticType → List Declaration
  | 0, _ => []
  | levels + 1, t =>
    match t with
    | .instanceOf d _ =>
      if d.kind == .enumType then [] else typeMember idx known.member d name
    | .aliasOf _ target _ => membersOf name levels target
    | .typeParameter d =>
      match (d.node.field? .constraint).bind (·.namedChildren.head?) with
      | some bound => membersOf name levels (annotated idx known d.file bound)
      | none => []
    | .union members | .intersection members =>
      (members.findSome? fun m =>
        let found := membersOf name levels m
        if found.isEmpty then none else some found).getD []
    | .valueOf d => idx.namespaceMember d name
    | .object file node =>
      (node.namedChildren.filter (·.hasKindIn [.propertySignature, .methodSignature])).filterMap
        fun m => (m.field? .name).bind fun n =>
          if n.text == name then Declaration.make? file m n else none
    | _ => []

/-- What a member expression stands for: the members that the class has for `this`, its base for
`super`, and the type of the object otherwise. -/
def memberSymbol : MemberSymbols := fun file node => do
  let object ← (node.field? .object).map Node.unwrap
  let property ← node.field? .property
  let name := property.text
  match object.kind? with
  | some .thisExpression =>
    let c ← enclosingClass? file object
    Symbol.ofList? (typeMember idx known.member c name)
  | some .superExpression =>
    let c ← enclosingClass? file object
    let base ← (heritageOf idx known.member c).extends_
    Symbol.ofList? (typeMember idx known.member base.first name)
  | _ =>
    Symbol.ofList? (membersOf idx known name memberLevels
      (known.expression file object inferenceLevels))

/-! ## Declarations -/

def loopVariableType (d : Declaration) (levels : Nat) : StaticType :=
  if !d.node.hasToken "of" || !(d.node.field? .left).any (· == d.nameNode) then .unknown
  else match d.node.field? .right with
    | none => .unknown
    | some right =>
      match known.expression d.file right levels with
      | .array element => element
      | .named name (first :: _) =>
        if name == "Array" || name == "ReadonlyArray" then first else .unknown
      | _ => .unknown

def bindsWhole (d : Declaration) : Bool :=
  match d.node.field? .name <|> d.node.field? .pattern with
  | some n => n == d.nameNode
  | none => d.node == d.nameNode

def bindingType (d : Declaration) (levels : Nat) : StaticType :=
  if d.node.hasKind .forInStatement then loopVariableType known d levels
  else if !bindsWhole d then .unknown
  else match d.node.field? .type, d.node.functionNode?, d.node.field? .value with
    | some a, _, _ => annotated idx known d.file a
    | none, some f, _ => StaticType.ofSignature (signature idx known d.file f levels)
    | none, none, some v => known.expression d.file v levels
    | none, none, none => .unknown

def declarationType (d : Declaration) : Nat → StaticType
  | 0 => .unknown
  | levels + 1 =>
    match d.kind with
    | .classType | .enumType | .namespaceName => .valueOf d
    | .interfaceType | .typeAlias | .typeParameter => .unknown
    | .enumMember => .enumLiteral d
    | .importName =>
      if d.isAlias then
        match idx.aliasTarget? (Symbol.single d) with
        | some s => if s.first.isAlias then .unknown else known.declaration s.first levels
        | none => .unknown
      else .valueOf d
    | .function | .method | .constructor =>
      StaticType.ofSignature
        (signature idx known d.file (d.node.functionNode?.getD d.node) levels)
    | .accessor =>
      let s := signature idx known d.file d.node levels
      if d.node.hasToken "set" then ((s.parameters.head?).map Prod.snd).getD .unknown
      else s.result
    | .variableName | .parameter | .property => bindingType idx known d levels

/-! ## Expressions -/

/-- Operators whose value is that of the left side, unless it is absent. -/
def choiceOperators : List String := ["??", "||"]

def comparisonOperators : List String :=
  ["===", "!==", "==", "!=", "<", ">", "<=", ">=", "instanceof", "in"]

/-- The type that an assertion asserts, if it is written, or else that of the expression. -/
def assertedType (file : SourceFile) (e : Node) (asserted : Option Node) (levels : Nat) :
    StaticType :=
  match asserted with
  | some a => annotated idx known file a
  | none => known.expression file e.unwrap levels

def constructedType (file : SourceFile) (e : Node) (levels : Nat) : StaticType :=
  match e.field? .constructor with
  | none => .unknown
  | some c =>
    let args := ((e.field? .typeArguments).map fun l =>
      l.namedChildren.map (annotated idx known file)).getD []
    match known.expression file c levels with
    | .valueOf d => if d.kind == .classType then .instanceOf d args else .unknown
    | _ => .unknown

def expressionType (file : SourceFile) (e : Node) : Nat → StaticType
  | 0 => .unknown
  | levels + 1 =>
    let typeOf (part : Node) : StaticType := known.expression file part levels
    let typeOf? (part : Option Node) : StaticType := (part.map typeOf).getD .unknown
    match e.kind? with
    | some .parenthesizedExpression | some .nonNullExpression | some .satisfiesExpression =>
      typeOf e.unwrap
    | some .asExpression => assertedType idx known file e (e.parts[1]?) levels
    | some .typeAssertion =>
      assertedType idx known file e
        ((e.namedChildren.find? (·.hasKind .typeArguments)).bind (·.namedChildren.head?)) levels
    | some .identifier =>
      match resolveAt? idx known.member file e with
      | some s => known.declaration s.first levels
      | none => .unknown
    | some .thisExpression =>
      ((enclosingClass? file e).map fun c => .instanceOf c []).getD .unknown
    | some .newExpression => constructedType idx known file e levels
    | some .callExpression =>
      match e.field? .function with
      | none => .unknown
      | some f => ((callSignatures idx known levels (typeOf f)).head?.map (·.result)).getD .unknown
    | some .memberExpression =>
      match known.member file e with
      | some s => known.declaration (idx.resolveSymbol s).first levels
      | none => .unknown
    | some .subscriptExpression => (typeOf? (e.field? .object)).element
    | some .awaitExpression =>
      match typeOf? e.namedChildren.head? with
      | .named name (first :: rest) => if name == "Promise" then first else .named name (first :: rest)
      | t => t
    | some .ternaryExpression =>
      StaticType.oneOf (((e.field? .consequence).toList ++ (e.field? .alternative).toList).map
        typeOf)
    | some .binaryExpression =>
      let operator := ((e.field? .operator).map Node.text).getD ""
      if choiceOperators.contains operator then typeOf? (e.field? .left)
      else if comparisonOperators.contains operator then .primitive "boolean"
      else .unknown
    | some .array => .array (typeOf? e.parts.head?)
    | some .string | some .templateString => .primitive "string"
    | some .number => .primitive "number"
    | some .trueLiteral | some .falseLiteral => .primitive "boolean"
    | some .nullLiteral => .primitive "null"
    | some .undefinedLiteral => .primitive "undefined"
    | some .arrowFunction | some .functionExpression | some .generatorFunction =>
      StaticType.ofSignature (signature idx known file e levels)
    | some .classExpression => ((Declaration.ofNode? file e).map .valueOf).getD .unknown
    | _ => .unknown

def upTo (idx : Index) : Nat → Inference
  | 0 =>
    { expression := fun _ _ _ => .unknown
      declaration := fun _ _ => .unknown
      member := fun _ _ => none }
  | fuel + 1 =>
    { expression := fun file e levels => expressionType idx (upTo idx fuel) file e levels
      declaration := fun d levels => declarationType idx (upTo idx fuel) d levels
      member := fun file node => memberSymbol idx (upTo idx fuel) file node }

/-- Fuel for inference. Between two member expressions or written queries for types there are at most
`inferenceLevels` steps, and the fuel lets each of these be passed once; that this is enough wherever
inference comes to an end is not proved. Where it never does, as for a function `q` that returns
`q(a).concat(1)`, the answer is `unknown`. -/
def fuel (idx : Index) : Nat := (inferenceLevels + 3) * (idx.nodeCount + 1)

end Inference

namespace Project.Index

def inference (idx : Index) : Inference := Inference.upTo idx (Inference.fuel idx)

def symbolAt? (idx : Index) (file : SourceFile) (token : Node) : Option Symbol :=
  ScriptAtlas.symbolAt? idx idx.inference.member file token

def resolveAt? (idx : Index) (file : SourceFile) (token : Node) : Option Symbol :=
  ScriptAtlas.resolveAt? idx idx.inference.member file token

def annotatedType (idx : Index) (file : SourceFile) (node : Node) : StaticType :=
  Inference.annotated idx idx.inference file node

def expressionType (idx : Index) (file : SourceFile) (e : Node) : StaticType :=
  idx.inference.expression file e inferenceLevels

def declarationType (idx : Index) (d : Declaration) : StaticType :=
  idx.inference.declaration d inferenceLevels

def callSignatures (idx : Index) (t : StaticType) : List Signature :=
  Inference.callSignatures idx idx.inference inferenceLevels t

def heritage (idx : Index) (d : Declaration) : Heritage := heritageOf idx idx.inference.member d

def typeMember (idx : Index) (d : Declaration) (name : String) : List Declaration :=
  ScriptAtlas.typeMember idx idx.inference.member d name

end Project.Index

end ScriptAtlas
