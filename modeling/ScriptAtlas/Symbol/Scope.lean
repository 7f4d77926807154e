import ScriptAtlas.Symbol.Declaration

/-!
# Scopes

What a plain name means at a place: the innermost construct around the place that declares the name
decides, and names that no construct declares are looked up among the declarations that all files
share. Imports are declarations like others here; nothing is followed into another module.
-/

namespace ScriptAtlas

open Project Syntax

inductive Meaning where
  | value | type | any
deriving DecidableEq, Repr, Inhabited

def Meaning.accepts : Meaning → SymbolKind → Bool
  | any, _ => true
  | type, k => match k with
    | .classType | .interfaceType | .typeAlias | .enumType | .namespaceName | .typeParameter
    | .importName => true
    | _ => false
  | value, k => match k with
    | .interfaceType | .typeAlias | .typeParameter => false
    | _ => true

namespace Scope

/-! ## Declarations of one construct -/

def clauseBindings (file : SourceFile) (clause : Node) : List Declaration :=
  let bind (node nameNode : Node) : Declaration := { file, kind := .importName, node, nameNode }
  match clause.kind? with
  | some .importClause =>
    clause.namedChildren.flatMap fun part =>
      match part.kind? with
      | some .identifier => [bind part part]
      | some .namedImports =>
        (part.namedChildren.filter (·.hasKind .importSpecifier)).filterMap fun spec =>
          (spec.field? .alias <|> spec.field? .name).map (bind spec)
      | some .namespaceImport =>
        ((part.namedChildren.find? (·.hasKind .identifier)).map (bind part)).toList
      | _ => []
  | some .importRequireClause =>
    ((clause.namedChildren.find? (·.hasKind .identifier)).map (bind clause)).toList
  | _ => []

def importBindings (file : SourceFile) (block : Node) : List Declaration :=
  (block.namedChildren.filter (·.hasKind .importStatement)).flatMap fun stmt =>
    stmt.namedChildren.flatMap (clauseBindings file)

def listDeclarations (file : SourceFile) (block : Node) (meaning : Meaning) : List Declaration :=
  let declared := block.blockDeclarations.filterMap fun (d, n) =>
    Declaration.make? file d n
  (declared ++ importBindings file block).filter (meaning.accepts ·.kind)

def loopVariables (file : SourceFile) (init : Node) : List Declaration :=
  (init.namedChildren.filter (·.hasKind .variableDeclarator)).flatMap fun d =>
    match d.field? .name with
    | some pattern => pattern.bindingNames.map fun n =>
        { file, kind := .variableName, node := d, nameNode := n }
    | none => []

def headBindings (file : SourceFile) (holder : Node) (pattern : Option Node) : List Declaration :=
  match pattern with
  | some p => p.bindingNames.map fun n =>
      { file, kind := .variableName, node := holder, nameNode := n }
  | none => []

def parameterBindings (file : SourceFile) (param : Node) : List Declaration :=
  let plain (nameNode : Node) : Declaration :=
    { file, kind := .parameter, node := param, nameNode }
  if param.hasKind .identifier then [plain param]
  else match param.field? .pattern with
    | some pattern => pattern.bindingNames.map fun n =>
        (Declaration.make? file param n).getD (plain n)
    | none => []

def functionBindings (file : SourceFile) (f : Node) : List Declaration :=
  if !f.kind?.any Kind.isFunctionLike then []
  else
    f.parameters.flatMap (parameterBindings file) ++
      (if f.hasKindIn [.functionExpression, .generatorFunction] then
        ((f.field? .name).map fun n =>
          { file, kind := .function, node := f, nameNode := n }).toList
      else [])

def typeParameters (file : SourceFile) (n : Node) : List Declaration :=
  match n.field? .typeParameters with
  | some list => list.namedChildren.filterMap fun p =>
      (p.field? .name).bind (Declaration.make? file p)
  | none => []

def declarations (file : SourceFile) (scope : Node) (meaning : Meaning) : List Declaration :=
  let body := match scope.kind? with
    | some .program | some .statementBlock | some .classStaticBlock | some .switchCase
    | some .switchDefault => listDeclarations file scope meaning
    | some .forStatement => ((scope.field? .initializer).map (loopVariables file)).getD []
    | some .forInStatement => headBindings file scope (scope.field? .left)
    | some .catchClause => headBindings file scope (scope.field? .parameter)
    | _ => []
  let types := if meaning == .value then [] else typeParameters file scope
  (body ++ functionBindings file scope ++ types).filter (meaning.accepts ·.kind)

def globalBlocks (root : Node) : List Node :=
  (root.namedChildren.filter fun s => s.hasKind .ambientDeclaration && s.hasToken "global").filterMap
    fun s => s.namedChildren.find? (·.hasKind .statementBlock)

/-! ## Looking up -/

def local_ (file : SourceFile) (place : Node) (name : String) (meaning : Meaning) :
    List Declaration :=
  ((place :: place.ancestors).findSome? fun scope =>
    let found := (declarations file scope meaning).filter (·.name == name)
    if found.isEmpty then none else some found).getD []

def shared (file : SourceFile) (name : String) (meaning : Meaning) : List Declaration :=
  let blocks := if file.isModule then globalBlocks file.root else [file.root]
  blocks.flatMap fun b => (listDeclarations file b meaning).filter (·.name == name)

/-- The declarations of a name that all files share, without those that the walk outwards from a
place in `file` has seen. -/
def global (idx : Index) (file : SourceFile) (name : String) (meaning : Meaning) :
    List Declaration :=
  (idx.filesWithToken name).flatMap fun f =>
    if f.id == file.id && !f.isModule then [] else shared f name meaning

end Scope

namespace Project.Index

def resolveName (idx : Index) (file : SourceFile) (place : Node) (name : String)
    (meaning : Meaning) : Option Symbol :=
  Symbol.ofList? (Scope.local_ file place name meaning)
    <|> Symbol.ofList? (Scope.global idx file name meaning)

def merged (idx : Index) (d : Declaration) : Symbol :=
  match d.owner? with
  | some owner =>
    ((Symbol.ofList? (owner.ownMembers d.name)).filter (·.contains d)).getD (Symbol.single d)
  | none =>
    match d.kind with
    | .parameter | .typeParameter | .importName => Symbol.single d
    | _ => ((idx.resolveName d.file d.node d.name .any).filter (·.contains d)).getD
        (Symbol.single d)

end Project.Index

namespace Declaration

def patternKinds : List Kind :=
  [.objectPattern, .arrayPattern, .pairPattern, .assignmentPattern, .objectAssignmentPattern,
   .restPattern]

def ofBinding? (file : SourceFile) (token : Node) : Option Declaration :=
  (token.ancestors.find? fun a => !a.hasKindIn patternKinds).bind fun holder =>
    let bound (pattern : Option Node) (kind : SymbolKind) : Option Declaration :=
      pattern.bind fun p =>
        if p.bindingNames.contains token then
          some { file, kind, node := holder, nameNode := token }
        else none
    match holder.kind? with
    | some .variableDeclarator => bound (holder.field? .name) .variableName
    | some .requiredParameter | some .optionalParameter =>
      bound (holder.field? .pattern) .parameter
    | _ => none

def ofName? (file : SourceFile) (token : Node) : Option Declaration :=
  make? file token token
    <|> (token.parent?.bind fun parent =>
      if parent.declarationName?.any (· == token) then make? file parent token else none)
    <|> ofBinding? file token

end Declaration

end ScriptAtlas
