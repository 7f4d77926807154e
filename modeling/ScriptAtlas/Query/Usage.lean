import ScriptAtlas.Symbol.Inference

/-!
# Usage

How an identifier is used where it stands: imported, called, as a type, written or read. The first
that applies counts.
-/

namespace ScriptAtlas.Query

open Syntax

inductive UsageKind where
  | imported | called | asType | written | read
deriving DecidableEq, Repr, Inhabited

namespace UsageKind

def text : UsageKind → String
  | imported => "import"
  | called => "call"
  | asType => "type"
  | written => "write"
  | read => "read"

def all : List UsageKind := [imported, called, asType, written, read]

end UsageKind

namespace Usage

def inImport (n : Node) : Bool :=
  (n.findAncestor? (·.hasKindIn [.importSpecifier, .importClause, .namespaceImport,
    .importRequireClause, .exportSpecifier])).isSome

def inHeritage (n : Node) : Bool :=
  (n.findAncestor? (·.hasKindIn [.classHeritage, .extendsClause, .implementsClause])).isSome

/-- The expression that an identifier stands for: the member expression whose property it is, or
itself. -/
def expressionOf (n : Node) : Node :=
  match n.parent? with
  | some p => if p.hasKind .memberExpression && n.isFieldOf .property p then p else n
  | none => n

def isCallee (outer : Node) : Bool :=
  outer.parent?.any fun p =>
    (p.hasKind .callExpression && outer.isFieldOf .function p)
      || (p.hasKind .newExpression && outer.isFieldOf .constructor p)

/-- Whether a name is bound by a pattern, going up through the ancestors of `current`. Default values
and computed keys are not. -/
def boundByPattern (current : Node) : List Node → Bool
  | [] => false
  | parent :: above =>
    match parent.kind? with
    | some .objectPattern | some .arrayPattern => true
    | some .restPattern | some .shorthandPropertyIdentifierPattern => boundByPattern parent above
    | some .pairPattern => current.isFieldOf .value parent && boundByPattern parent above
    | some .objectAssignmentPattern | some .assignmentPattern =>
      current.isFieldOf .left parent && boundByPattern parent above
    | _ => false

/-- Whether an identifier, whose expression with its wrappers is `outer`, is assigned to. -/
def isWritten (n outer : Node) : Bool :=
  outer.parent?.any fun p =>
    match p.kind? with
    | some .assignmentExpression | some .augmentedAssignmentExpression => outer.isFieldOf .left p
    | some .updateExpression => true
    | some .variableDeclarator => outer.isFieldOf .name p
    | _ => boundByPattern n n.ancestors

end Usage

def classify (n : Node) : UsageKind :=
  let outer := (Usage.expressionOf n).outermostWrapper
  if Usage.inImport n then .imported
  else if Usage.isCallee outer then .called
  else if n.hasKind .typeIdentifier || inTypeContext n || Usage.inHeritage n then .asType
  else if Usage.isWritten n outer then .written
  else .read

end ScriptAtlas.Query
