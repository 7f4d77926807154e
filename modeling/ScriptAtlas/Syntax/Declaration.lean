import ScriptAtlas.Symbol.Kind
import ScriptAtlas.Syntax.Tree

/-!
# Declarations in syntax trees

Which nodes declare something, what names they bind, and what belongs to them. Everything that
works with declarations asks here, so a construct that is not known is simply no declaration.
-/

namespace ScriptAtlas.Syntax.Node

/-! ## Kinds and names -/

def isParameterProperty (n : Node) : Bool :=
  n.children.any fun c =>
    c.hasKindIn [.accessibilityModifier, .overrideModifier] || c.isToken "readonly"

def nameText (n : Node) : String := ((n.field? .name).map text).getD ""

def declarationKind? (n : Node) : Option SymbolKind :=
  match n.kind? with
  | none => none
  | some k =>
    match k with
    | .functionDeclaration | .generatorFunctionDeclaration | .functionSignature => some .function
    | .classDeclaration | .abstractClassDeclaration | .classExpression => some .classType
    | .interfaceDeclaration => some .interfaceType
    | .typeAliasDeclaration => some .typeAlias
    | .enumDeclaration => some .enumType
    | .enumAssignment => some .enumMember
    | .propertyIdentifier | .string =>
      if n.parentHasKind .enumBody then some .enumMember else none
    | .variableDeclarator => some .variableName
    | .requiredParameter | .optionalParameter =>
      if n.isParameterProperty then some .property else some .parameter
    | .importSpecifier | .namespaceImport | .importRequireClause => some .importName
    | .identifier => if n.parentHasKind .importClause then some .importName else none
    | .methodDefinition =>
      if n.nameText == "constructor" then some .constructor
      else if n.hasToken "get" || n.hasToken "set" then some .accessor
      else some .method
    | .methodSignature | .abstractMethodSignature =>
      if n.nameText == "constructor" then some .constructor else some .method
    | .fieldDefinition | .propertySignature => some .property
    | .internalModule | .moduleDeclaration => some .namespaceName
    | .typeParameter => some .typeParameter
    | _ => none

def declarationName? (n : Node) : Option Node :=
  match n.kind? with
  | some .propertyIdentifier | some .string | some .identifier => some n
  | some .importSpecifier => n.field? .alias <|> n.field? .name
  | some .namespaceImport | some .importRequireClause =>
    n.namedChildren.find? (·.hasKind .identifier)
  | some .requiredParameter | some .optionalParameter =>
    (n.field? .pattern).filter (·.hasKindIn [.identifier, .thisExpression])
  | some .variableDeclarator => (n.field? .name).filter (·.hasKind .identifier)
  | _ => n.field? .name

/-! ## Bindings -/

def bindingNamesUpTo : Nat → Node → List Node
  | 0, _ => []
  | fuel + 1, n =>
    match n.kind? with
    | some .identifier | some .shorthandPropertyIdentifierPattern => [n]
    | some .objectPattern | some .arrayPattern | some .restPattern =>
      n.namedChildren.flatMap (bindingNamesUpTo fuel)
    | some .pairPattern => ((n.field? .value).map (bindingNamesUpTo fuel)).getD []
    | some .assignmentPattern | some .objectAssignmentPattern =>
      ((n.field? .left).map (bindingNamesUpTo fuel)).getD []
    | _ => []

/-- The names that a pattern binds, in order; a pattern is no deeper than it has nodes. -/
def bindingNames (n : Node) : List Node := bindingNamesUpTo n.entry.size n

/-- What is inside `export` and `declare`, at most `fuel` levels deep. -/
def unwrapStatementUpTo : Nat → Node → Option Node
  | 0, n => some n
  | fuel + 1, n =>
    match n.kind? with
    | some .exportStatement => (n.field? .declaration).bind (unwrapStatementUpTo fuel)
    | some .ambientDeclaration => n.parts.head?.bind (unwrapStatementUpTo fuel)
    | some .expressionStatement =>
      (n.namedChildren.find? (·.hasKindIn [.internalModule, .moduleDeclaration])) <|> some n
    | _ => some n

def unwrapStatement? (n : Node) : Option Node := unwrapStatementUpTo n.entry.size n

def statementDeclarations (n : Node) : List (Node × Node) :=
  match n.unwrapStatement? with
  | none => []
  | some inner =>
    match inner.kind? with
    | some .functionDeclaration | some .generatorFunctionDeclaration | some .functionSignature
    | some .classDeclaration | some .abstractClassDeclaration | some .interfaceDeclaration
    | some .typeAliasDeclaration | some .enumDeclaration | some .internalModule
    | some .moduleDeclaration => (inner.declarationName?.map fun name => (inner, name)).toList
    | some .lexicalDeclaration | some .variableDeclaration =>
      (inner.namedChildren.filter (·.hasKind .variableDeclarator)).flatMap fun d =>
        match d.field? .name with
        | some name => name.bindingNames.map fun b => (d, b)
        | none => []
    | _ => []

def blockDeclarations (n : Node) : List (Node × Node) :=
  n.namedChildren.flatMap statementDeclarations

/-! ## Members and parameters -/

def typeBody? (n : Node) : Option Node :=
  n.field? .body
    <|> n.namedChildren.find? (·.hasKindIn [.classBody, .interfaceBody, .objectType])

def parameterProperties (n : Node) : List (Node × Node) :=
  match n.field? .parameters with
  | none => []
  | some list =>
    list.namedChildren.filterMap fun p =>
      if p.isParameterProperty then p.declarationName?.map fun name => (p, name) else none

def memberEntries (body n : Node) : List (Node × Node) :=
  match n.kind? with
  | some .methodDefinition =>
    ((n.field? .name).map fun name => (n, name)).toList ++ n.parameterProperties
  | some .methodSignature | some .abstractMethodSignature | some .fieldDefinition
  | some .propertySignature => ((n.field? .name).map fun name => (n, name)).toList
  | some .propertyIdentifier | some .string =>
    if body.hasKind .enumBody then [(n, n)] else []
  | some .enumAssignment => ((n.field? .name).map fun name => (n, name)).toList
  | _ => []

def typeMembers (n : Node) : List (Node × Node) :=
  match n.typeBody? with
  | none => []
  | some body => body.namedChildren.flatMap (memberEntries body)

def parameters (n : Node) : List Node :=
  match n.field? .parameters with
  | some list => list.namedChildren.filter (·.hasKindIn [.requiredParameter, .optionalParameter])
  | none => (n.field? .parameter).toList

def parameterName (n : Node) : String :=
  if n.hasKind .identifier then n.text
  else ((n.field? .pattern).map text).getD n.text

/-! ## Functions -/

def functionNode? (n : Node) : Option Node :=
  if n.kind?.any Kind.isFunctionLike then some n
  else if n.hasKindIn [.variableDeclarator, .fieldDefinition, .pair, .assignmentExpression] then
    (n.field? .value <|> n.field? .right).bind fun v =>
      let inner := v.unwrap
      if inner.kind?.any Kind.isFunctionExpression then some inner else none
  else none

def functionOwner? (n : Node) : Option (Node × Node) :=
  n.outermostWrapper.parent?.bind fun parent =>
    match parent.kind? with
    | some .variableDeclarator =>
      (parent.field? .name).bind fun name =>
        if name.hasKind .identifier then some (parent, name) else none
    | some .fieldDefinition | some .pair =>
      (parent.field? .name <|> parent.field? .key).map fun name => (parent, name)
    | _ => (n.field? .name).map fun name => (n, name)

/-- A node as a named callable: a named function or method, or a function value with an owner. -/
def asCallable? (n : Node) : Option (Node × Node) :=
  match n.kind? with
  | some .functionDeclaration | some .generatorFunctionDeclaration | some .methodDefinition =>
    (n.field? .name).map fun name => (n, name)
  | some k => if k.isFunctionExpression then n.functionOwner? else none
  | none => none

/-- The nearest named callable around a node. Functions without a name are seen through: a call in
a callback belongs to the function that passes the callback. -/
def enclosingCallable? (n : Node) : Option (Node × Node) := n.ancestors.findSome? asCallable?

/-! ## Modifiers -/

/-- The names that a file exports by clauses without a source and by a default of a name. -/
def localExportNames (n : Node) : List String :=
  (n.namedChildren.flatMap fun stmt =>
    if !stmt.hasKind .exportStatement || (stmt.field? .source).isSome then []
    else
      let clauses := (stmt.namedChildren.filter (·.hasKind .exportClause)).flatMap fun clause =>
        (clause.namedChildren.filter (·.hasKind .exportSpecifier)).filterMap fun spec =>
          (spec.field? .name).map text
      let default := if stmt.hasToken "default" then
          (((stmt.field? .value).filter (·.hasKind .identifier)).map text).toList
        else []
      clauses ++ default).eraseDups

def isDeclarationWrapper (n : Node) : Bool :=
  n.hasKindIn [.lexicalDeclaration, .variableDeclaration, .ambientDeclaration]

def hasExportModifier (n : Node) : Bool :=
  ((n.ancestors.dropWhile isDeclarationWrapper).head?).any (·.hasKind .exportStatement)

def modifierWords : List String :=
  ["export", "default", "declare", "abstract", "static", "async", "readonly", "const", "get",
   "set", "let", "var"]

def modifierText? (n : Node) : Option String :=
  match n.label with
  | .named .accessibilityModifier | .named .overrideModifier => some n.text
  | .named _ => none
  | .token t => if modifierWords.contains t then some t else none

/-- The modifiers of a declaration and of the statements around it, each once. -/
def modifiers (n : Node) : List String :=
  let holders := n :: n.ancestors.takeWhile fun a =>
    a.hasKindIn [.exportStatement, .ambientDeclaration, .lexicalDeclaration, .variableDeclaration]
  let found := (holders.flatMap fun h => h.children.filterMap modifierText?).eraseDups
  if n.hasKind .abstractClassDeclaration && !found.contains "abstract" then found ++ ["abstract"]
  else found

def isAbstract (n : Node) : Bool :=
  n.hasKindIn [.abstractClassDeclaration, .abstractMethodSignature] || n.hasToken "abstract"

end ScriptAtlas.Syntax.Node
