import ScriptAtlas.Symbol.Qualified
import ScriptAtlas.Symbol.Type

/-!
# Types that are written down

The type that an annotation says. Names are looked up and aliases are expanded; an alias inside its
own expansion is not expanded again, so the expansion ends. Types of expressions come in where an
annotation asks for the type of a value, and where the default value of a parameter stands in for its
type; they are a parameter here.
-/

namespace ScriptAtlas

open Project Syntax

/-- The type of an expression in a file, with the number of steps that inference may still take. -/
abbrev ExpressionTypes := SourceFile → Node → Nat → StaticType

def inferenceLevels : Nat := 13

/-- How many steps an annotation may take. Each goes into a part of the node, of which there are no
more than nodes, or into an alias that is not being expanded. -/
def annotationSteps (idx : Index) : Nat := (idx.nodeCount + idx.files.size + 1) * (idx.nodeCount + 1)

def owningFunction? (n : Node) : Option Node := n.findAncestor? (·.kind?.any Kind.isFunctionLike)

def returnedExpressions (function body : Node) : List Node :=
  (body.descendants.filter fun n =>
    n.hasKind .returnStatement && (owningFunction? n).any (· == function)).filterMap
      fun n => n.namedChildren.head?

def inferredResult (values : ExpressionTypes) (file : SourceFile) (function : Node) :
    Nat → StaticType
  | 0 => .unknown
  | levels + 1 =>
    match function.field? .body with
    | none => .unknown
    | some body =>
      let inner := if body.hasKind .statementBlock then
          StaticType.oneOf ((returnedExpressions function body).map fun e => values file e levels)
        else values file body levels
      if function.hasToken "async" && !inner.isUnknown then .named "Promise" [inner] else inner

/-- The signature of a function, given how its annotations are read. A parameter without an
annotation has the type of its default value. -/
def signatureOf (values : ExpressionTypes) (annotated : Node → StaticType) (file : SourceFile)
    (function : Node) (levels : Nat) : Signature :=
  { parameters := function.parameters.map fun p =>
      (p.parameterName, match p.field? .type, p.field? .value with
        | some a, _ => annotated a
        | none, some default => values file default levels
        | none, none => .unknown)
    result := match function.field? .returnType with
      | some a => annotated a
      | none => inferredResult values file function levels }

namespace Annotation

/-- What a name that refers to a declaration says as a type; aliases apart. -/
def ofDeclaration (d : Declaration) (args : List StaticType) : StaticType :=
  match d.kind with
  | .classType | .interfaceType | .enumType => .instanceOf d args
  | .typeParameter => .typeParameter d
  | .enumMember => .enumLiteral d
  | .namespaceName => .valueOf d
  | _ => .named d.name args

def nameSymbol? (idx : Index) (file : SourceFile) (nameNode : Node) : Option Symbol :=
  (if nameNode.hasKind .nestedTypeIdentifier then idx.resolveQualified file nameNode
  else idx.resolveName file nameNode nameNode.text .type).map idx.resolveSymbol

/-- The type that a name with arguments says. An alias is expanded by `expand`, unless it is being
expanded already. -/
def ofName (idx : Index) (expand : Declaration → Node → StaticType) (file : SourceFile)
    (expanding : List DeclarationKey) (nameNode : Node) (args : List StaticType) : StaticType :=
  match nameSymbol? idx file nameNode with
  | none => .named nameNode.text args
  | some s =>
    let d := s.first
    if d.kind != .typeAlias then ofDeclaration d args
    else if expanding.contains d.key then .aliasOf d .unknown args
    else
      let target := match d.node.field? .value with
        | some v => expand d v
        | none => .unknown
      .aliasOf d target args

/-- The members of a union or an intersection, where a member of the same form contributes its own
members. -/
def flatten (inner? : StaticType → Option (List StaticType)) (members : List StaticType) :
    List StaticType :=
  members.flatMap fun m => (inner? m).getD [m]

/-- The type that an annotation says, in so many steps at most. -/
def typeUpTo (idx : Index) (values : ExpressionTypes) :
    Nat → SourceFile → List DeclarationKey → Node → StaticType
  | 0, _, _, _ => .unknown
  | fuel + 1, file, expanding, node =>
    let again := typeUpTo idx values fuel file expanding
    let named := ofName idx
      (fun d v => typeUpTo idx values fuel d.file (d.key :: expanding) v) file expanding
    match node.kind? with
    | some .annotatedType | some .optingType | some .omittingType | some .parenthesizedType
    | some .readonlyType | some .optionalType | some .restType =>
      (node.namedChildren.head?.map again).getD .unknown
    | some .predefinedType => .primitive node.text
    | some .literalType | some .templateLiteralType => .literal node.text
    | some .typeIdentifier | some .nestedTypeIdentifier => named node []
    | some .genericType =>
      match node.field? .name with
      | some nameNode =>
        named nameNode (((node.field? .typeArguments).map fun l => l.namedChildren.map again).getD [])
      | none => .unknown
    | some .unionType => .union (flatten
        (fun | .union inner => some inner | _ => none) (node.namedChildren.map again))
    | some .intersectionType => .intersection (flatten
        (fun | .intersection inner => some inner | _ => none) (node.namedChildren.map again))
    | some .arrayType => (node.namedChildren.head?.map fun e => .array (again e)).getD .unknown
    | some .tupleType => .tuple (node.namedChildren.map again)
    | some .functionType | some .constructorType =>
      StaticType.ofSignature (signatureOf values again file node (inferenceLevels - 1))
    | some .objectType => .object file node
    | some .typeQuery =>
      (node.namedChildren.head?.map fun e => values file e inferenceLevels).getD .unknown
    | some .typePredicate | some .annotatedPredicate => .primitive "boolean"
    | some .asserts | some .annotatedAsserts => .primitive "void"
    | _ => .unknown

end Annotation

def annotatedType (idx : Index) (values : ExpressionTypes) (file : SourceFile) (node : Node) :
    StaticType :=
  Annotation.typeUpTo idx values (annotationSteps idx) file [] node

end ScriptAtlas
