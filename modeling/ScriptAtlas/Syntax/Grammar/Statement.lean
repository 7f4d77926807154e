import ScriptAtlas.Syntax.Grammar.Expression

/-!
# Statements and declarations

Words such as `type`, `namespace` or `declare` begin a declaration only where what follows them
fits; elsewhere they are names.
-/

namespace ScriptAtlas.Syntax.Grammar

open Reader

/-! ## Control flow -/

def blockStatement (recur : Recur) : Reader Shape := node .statementBlock do
  let o ← punct "\x7b"
  let body ← many (do return [← recur .statement])
  let c ← punct "\x7d"
  return o :: body ++ [c]

def ifStatement (recur : Recur) : Reader Shape := node .ifStatement do
  let kw ← keyword "if"
  let test ← parenthesized recur
  let yes ← recur .statement
  let no ← opt (node .elseClause do return [← keyword "else", ← recur .statement])
  return [kw, test.part .condition, yes.part .consequence] ++ no.map (·.part .alternative)

def switchCase (recur : Recur) : Reader Shape := firstOf [
  node .switchCase do
    let kw ← keyword "case"
    let v ← recur (.expression true)
    let colon ← punct ":"
    let body ← many (do return [(← recur .statement).part .body])
    return [kw, v.part .value, colon] ++ body,
  node .switchDefault do
    let kw ← keyword "default"
    let colon ← punct ":"
    let body ← many (do return [(← recur .statement).part .body])
    return [kw, colon] ++ body]

def switchStatement (recur : Recur) : Reader Shape := node .switchStatement do
  let kw ← keyword "switch"
  let v ← parenthesized recur
  let body ← node .switchBody do
    let o ← punct "\x7b"
    let cases ← many (do return [← switchCase recur])
    let c ← punct "\x7d"
    return o :: cases ++ [c]
  return [kw, v.part .value, body.part .body]

def emptyStatement : Reader Shape := node .emptyStatement do return [← punct ";"]

def variableDeclarator (recur : Recur) (allowIn : Bool) : Reader Shape :=
  node .variableDeclarator do
    let name ← recur .pattern
    let sure ← opt (do
      guardThat (!(← newlineAhead))
      punct "!")
    let t ← opt (annotatedType recur)
    let v ← optAll (initialValue recur allowIn)
    return [name.part .name] ++ sure ++ t.map (·.part .type) ++ v

def variableList (recur : Recur) (allowIn : Bool) : Reader (Kind × List Shape) := do
  let w ← peekWord
  guardThat (["var", "let", "const"].contains w)
  let kw ← keyword w
  let ds ← commaSep1 (do return [← variableDeclarator recur allowIn])
  if w == "var" then return (.variableDeclaration, kw :: ds)
  else return (.lexicalDeclaration, kw.part .kind :: ds)

def variableStatement (recur : Recur) : Reader Shape := do
  let start ← nextStart
  let (k, parts) ← variableList recur true
  return .branch k start (parts ++ (← semicolon))

def forInHead (recur : Recur) : Reader (List Shape) := do
  let o ← punct "("
  let left ← firstOf [
    do
      let kw ← keywordOf ["var", "let", "const"]
      let target ← recur .pattern
      let v ← optAll (initialValue recur false)
      return [kw.part .kind, target.part .left] ++ v,
    do return [(← recur .pattern).part .left],
    do return [(← recur .leftHand).part .left]]
  let op ← keywordOf ["in", "of"]
  let right ← recur (.expression true)
  let c ← punct ")"
  return [o] ++ left ++ [op.part .operator, right.part .right, c]

def forInStatement (recur : Recur) : Reader Shape := node .forInStatement do
  let kw ← keyword "for"
  let aw ← opt (keyword "await")
  let head ← forInHead recur
  let body ← recur .statement
  return [kw] ++ aw ++ head ++ [body.part .body]

def forStatement (recur : Recur) : Reader Shape := node .forStatement do
  let kw ← keyword "for"
  let o ← punct "("
  let start ← firstOf [
    do return [(← emptyStatement).part .initializer],
    do
      let at_ ← nextStart
      let (k, parts) ← variableList recur false
      return [(Shape.branch k at_ (parts ++ [← punct ";"])).part .initializer],
    do return [(← recur (.expression false)).part .initializer, ← punct ";"]]
  let test ← firstOf [
    do return [(← emptyStatement).part .condition],
    do return [(← recur (.expression true)).part .condition, ← punct ";"]]
  let step ← opt (recur (.expression true))
  let c ← punct ")"
  let body ← recur .statement
  return [kw, o] ++ start ++ test ++ step.map (·.part .increment) ++ [c, body.part .body]

def whileStatement (recur : Recur) : Reader Shape := node .whileStatement do
  let kw ← keyword "while"
  let test ← parenthesized recur
  let body ← recur .statement
  return [kw, test.part .condition, body.part .body]

def doStatement (recur : Recur) : Reader Shape := node .doStatement do
  let kw ← keyword "do"
  let body ← recur .statement
  let w ← keyword "while"
  let test ← parenthesized recur
  let s ← semicolon
  return [kw, body.part .body, w, test.part .condition] ++ s

def tryStatement (recur : Recur) : Reader Shape := node .tryStatement do
  let kw ← keyword "try"
  let body ← recur .block
  let handler ← opt (node .catchClause do
    let c ← keyword "catch"
    let parameter ← optAll (do
      let o ← punct "("
      let p ← recur .pattern
      let t ← opt (annotatedType recur)
      let z ← punct ")"
      return [o, p.part .parameter] ++ t.map (·.part .type) ++ [z])
    let b ← recur .block
    return [c] ++ parameter ++ [b.part .body])
  let final ← opt (node .finallyClause do
    let f ← keyword "finally"
    let b ← recur .block
    return [f, b.part .body])
  return [kw, body.part .body] ++ handler.map (·.part .handler) ++ final.map (·.part .finalizer)

def withStatement (recur : Recur) : Reader Shape := node .withStatement do
  let kw ← keyword "with"
  let o ← parenthesized recur
  let body ← recur .statement
  return [kw, o.part .object, body.part .body]

def jumpStatement (k : Kind) (w : String) : Reader Shape := node k do
  let kw ← keyword w
  let label ← if ← newlineAhead then pure [] else opt (nameAs .statementIdentifier)
  let s ← semicolon
  return [kw] ++ label.map (·.part .label) ++ s

def valueStatement (recur : Recur) (k : Kind) (w : String) : Reader Shape := node k do
  let kw ← keyword w
  let v ← if ← newlineAhead then pure [] else opt (recur (.expression true))
  let s ← semicolon
  return [kw] ++ v ++ s

def labeledStatement (recur : Recur) : Reader Shape := node .labeledStatement do
  let name ← nameAs .statementIdentifier
  let colon ← punct ":"
  let body ← recur .statement
  return [name.part .label, colon, body.part .body]

def expressionStatement (recur : Recur) : Reader Shape := node .expressionStatement do
  let e ← recur (.expression true)
  return e :: (← semicolon)

/-! ## Declarations -/

def functionDeclaration (recur : Recur) : Reader Shape := do
  let start ← nextStart
  let a ← opt asyncMark
  let f ← keyword "function"
  let star ← opt (punct "*")
  let name ← identifier
  let sig ← callSignature recur
  let head := a ++ [f] ++ star ++ [name.part .name] ++ sig
  firstOf [
    do
      let body ← recur .block
      let k := if star.isEmpty then Kind.functionDeclaration
        else Kind.generatorFunctionDeclaration
      return .branch k start (head ++ [body.part .body]),
    do return .branch .functionSignature start (head ++ (← semicolon))]

def classDeclarationWith (recur : Recur) (decs : List Shape) : Reader Shape := do
  let start ← nextStart
  let a ← opt (keyword "abstract")
  let parts ← classTail recur true
  let k := if a.isEmpty then Kind.classDeclaration else Kind.abstractClassDeclaration
  return .branch k start (decs ++ a ++ parts)

def interfaceDeclaration (recur : Recur) : Reader Shape := node .interfaceDeclaration do
  let kw ← keyword "interface"
  let name ← nameAs .typeIdentifier
  let tps ← opt (typeParameters recur)
  let ext ← opt (node .extendsTypeClause do
    let e ← keyword "extends"
    let types ← commaSep1 (do return [(← typeReference recur).part .type])
    return e :: types)
  let body ← objectTypeBody recur .interfaceBody
  return [kw, name.part .name] ++ tps.map (·.part .typeParameters) ++ ext ++ [body.part .body]

def typeAliasDeclaration (recur : Recur) : Reader Shape := node .typeAliasDeclaration do
  let kw ← keyword "type"
  let name ← nameAs .typeIdentifier
  let tps ← opt (typeParameters recur)
  let eq ← punct "="
  let v ← recur .type
  let s ← semicolon
  return [kw, name.part .name] ++ tps.map (·.part .typeParameters) ++ [eq, v.part .value] ++ s

def enumMember (recur : Recur) : Reader Shape := do
  let name ← propertyName recur
  firstOf [
    node .enumAssignment do
      return name.part .name :: (← initialValue recur true),
    pure (name.part .name)]

def enumDeclaration (recur : Recur) : Reader Shape := node .enumDeclaration do
  let c ← opt (keyword "const")
  let kw ← keyword "enum"
  let name ← identifier
  let body ← node .enumBody
    (bracketed "\x7b" "\x7d" (do return [← enumMember recur]))
  return c ++ [kw, name.part .name, body.part .body]

def moduleParts (recur : Recur) (w : String) : Reader (List Shape) := do
  let kw ← keyword w
  guardThat (!(← newlineAhead))
  let name ← firstOf [stringLiteral, do
    guardThat (!reservedWords.contains (← peekWord))
    entityName]
  let body ← opt (recur .block)
  guardThat (!body.isEmpty || name.hasKind .string)
  return [kw, name.part .name] ++ body.map (·.part .body)

def moduleDeclaration (recur : Recur) : Reader Shape :=
  node .moduleDeclaration (moduleParts recur "module")

def internalModule (recur : Recur) : Reader Shape :=
  node .internalModule (moduleParts recur "namespace")

def importAlias : Reader Shape := node .importAlias do
  let kw ← keyword "import"
  let name ← identifier
  let eq ← punct "="
  let target ← entityName
  -- a call would make it a required module
  guardThat ((← peekPunct) != "(")
  let s ← semicolon
  return [kw, name, eq, target] ++ s

/-- A declaration by its first word, as it stands in a statement list, under `export` or under
`declare`. -/
def declaration (recur : Recur) (ambient : Reader Shape) : Reader Shape := do
  match ← peekWord with
  | "function" => functionDeclaration recur
  | "async" => functionDeclaration recur
  | "class" => classDeclarationWith recur []
  | "abstract" => classDeclarationWith recur []
  | "interface" => interfaceDeclaration recur
  | "type" => typeAliasDeclaration recur
  | "enum" => enumDeclaration recur
  | "const" => firstOf [enumDeclaration recur, variableStatement recur]
  | "var" | "let" => variableStatement recur
  | "namespace" => internalModule recur
  | "module" => moduleDeclaration recur
  | "import" => importAlias
  | "declare" => ambient
  | _ => failure

/-- A declaration under `declare`; ambient declarations nest up to the given depth. -/
def ambientDeclaration (recur : Recur) : Reader Shape := node .ambientDeclaration do
  let kw ← keyword "declare"
  guardThat (!(← newlineAhead))
  firstOf [
    do
      let g ← keyword "global"
      return [kw, g, ← recur .block],
    do return [kw, ← declaration recur failure],
    do
      let m ← keyword "module"
      let dot ← punct "."
      let name ← anyWord .propertyIdentifier
      let colon ← punct ":"
      let t ← recur .type
      let s ← semicolon
      return [kw, m, dot, name, colon, t] ++ s]

/-- Any declaration but the plain namespace, which stands in an expression statement. -/
def statementDeclaration (recur : Recur) : Reader Shape := do
  if (← peekWord) == "namespace" then
    node .expressionStatement do
      return (← internalModule recur) :: (← semicolon)
  else declaration recur (ambientDeclaration recur)

/-! ## Modules -/

def fromClause : Reader (List Shape) := do
  let f ← keyword "from"
  let s ← stringLiteral
  return [f, s.part .source]

def importAttribute (recur : Recur) : Reader Shape := node .importAttribute do
  guardThat (!(← newlineAhead))
  return [← keywordOf ["with", "assert"], ← objectLiteral recur]

def exportedName : Reader Shape := firstOf [anyWord .identifier, stringLiteral]

def typeMark (follows : String → Bool) : Reader Shape := do
  let t ← keywordOf ["type", "typeof"]
  let w ← peekWord
  guardThat (follows w)
  return t

def specifier (k : Kind) : Reader Shape := node k do
  let renamed : Reader (List Shape) := do
    let name ← exportedName
    let more ← optAll (do return [← keyword "as", (← exportedName).part .alias])
    return name.part .name :: more
  firstOf [
    do
      let t ← typeMark (fun w => w != "")
      let rest ← renamed
      guardThat ([",", "\x7d"].contains (← peekPunct))
      return t :: rest,
    do
      let rest ← renamed
      guardThat ([",", "\x7d"].contains (← peekPunct))
      return rest]

def namedImports : Reader Shape := node .namedImports
  (bracketed "\x7b" "\x7d" (do return [← specifier .importSpecifier]))

def namespaceImport : Reader Shape := node .namespaceImport do
  return [← punct "*", ← keyword "as", ← identifier]

def importClause : Reader Shape := node .importClause do
  let whole : Reader (List Shape) := do return [← firstOf [namespaceImport, namedImports]]
  firstOf [
    whole,
    do
      let name ← identifier
      let more ← optAll (do
        let c ← punct ","
        return c :: (← whole))
      return name :: more]

def importRequireClause : Reader Shape := node .importRequireClause do
  let name ← identifier
  let eq ← punct "="
  let r ← keyword "require"
  let o ← punct "("
  let s ← stringLiteral
  let c ← punct ")"
  return [name, eq, r, o, s.part .source, c]

def importStatement (recur : Recur) : Reader Shape := node .importStatement do
  let kw ← keyword "import"
  let body (marked : List Shape) : Reader (List Shape) := do
    let rest ← firstOf [
      do
        let clause ← importClause
        return clause :: (← fromClause),
      do return [← importRequireClause],
      do return [(← stringLiteral).part .source]]
    return marked ++ rest
  let main ← firstOf [
    do
      let t ← keywordOf ["type", "typeof"]
      body [t],
    body []]
  let attrs ← opt (importAttribute recur)
  let s ← semicolon
  return [kw] ++ main ++ attrs ++ s

def exportClause : Reader Shape := node .exportClause
  (bracketed "\x7b" "\x7d" (do return [← specifier .exportSpecifier]))

def namespaceExport : Reader Shape := node .namespaceExport do
  return [← punct "*", ← keyword "as", ← exportedName]

def defaultExport (recur : Recur) (decs : List Shape) : Reader (List Shape) := do
  let kw ← keyword "default"
  firstOf [
    do
      guardThat (["function", "async", "class", "abstract", "interface"].contains (← peekWord)
        || (← peekPunct) == "@")
      let inner ← decorators recur
      let d ← if (← peekWord) == "class" || (← peekWord) == "abstract" then
          classDeclarationWith recur inner
        else declaration recur failure
      return decs ++ [kw, d.part .declaration],
    do
      let v ← recur (.assignment true true)
      let s ← semicolon
      return decs ++ [kw, v.part .value] ++ s]

def exportTail (recur : Recur) : Reader (List Shape) := firstOf [
  do
    let t ← opt (keyword "type")
    let star ← punct "*"
    let src ← fromClause
    let attrs ← opt (importAttribute recur)
    let s ← semicolon
    return t ++ [star] ++ src ++ attrs ++ s,
  do
    let t ← opt (keyword "type")
    let ns ← namespaceExport
    let src ← fromClause
    let attrs ← opt (importAttribute recur)
    let s ← semicolon
    return t ++ [ns] ++ src ++ attrs ++ s,
  do
    let t ← opt (keyword "type")
    let clause ← exportClause
    let src ← optAll fromClause
    let attrs ← opt (importAttribute recur)
    let s ← semicolon
    return t ++ [clause] ++ src ++ attrs ++ s,
  do
    let eq ← punct "="
    let v ← recur (.expression true)
    let s ← semicolon
    return [eq, v] ++ s,
  do
    let a ← keyword "as"
    let n ← keyword "namespace"
    let name ← identifier
    let s ← semicolon
    return [a, n, name] ++ s,
  defaultExport recur [],
  do
    let inner ← decorators recur
    let d ← if inner.isEmpty then declaration recur (ambientDeclaration recur)
      else classDeclarationWith recur inner
    return [d.part .declaration],
  do
    let kw ← keyword "import"
    let clause ← importRequireClause
    let s ← semicolon
    return [kw, clause] ++ s]

def exportStatementWith (recur : Recur) (decs : List Shape) : Reader Shape :=
  node .exportStatement do
    let kw ← keyword "export"
    return decs ++ [kw] ++ (← exportTail recur)

/-- Decorators belong to the class that follows, or to the `export` in front of it. -/
def decoratedStatement (recur : Recur) : Reader Shape := do
  let decs ← decorators recur
  guardThat (!decs.isEmpty)
  if (← peekWord) == "export" then exportStatementWith recur decs
  else classDeclarationWith recur decs

/-! ## Statements -/

def wordStatement (recur : Recur) (w : String) : Reader Shape :=
  match w with
  | "if" => ifStatement recur
  | "switch" => switchStatement recur
  | "for" => firstOf [forInStatement recur, forStatement recur]
  | "while" => whileStatement recur
  | "do" => doStatement recur
  | "try" => tryStatement recur
  | "with" => withStatement recur
  | "break" => jumpStatement .breakStatement "break"
  | "continue" => jumpStatement .continueStatement "continue"
  | "return" => valueStatement recur .returnStatement "return"
  | "throw" => valueStatement recur .throwStatement "throw"
  | "debugger" => node .debuggerStatement do
      return (← keyword "debugger") :: (← semicolon)
  | "import" => firstOf [importAlias, importStatement recur, expressionStatement recur]
  | "export" => exportStatementWith recur []
  | _ => firstOf [statementDeclaration recur, labeledStatement recur, expressionStatement recur]

def statement (recur : Recur) : Reader Shape := do
  let w ← peekWord
  if w != "" then wordStatement recur w
  else
    match ← peekPunct with
    | ";" => emptyStatement
    | "\x7b" => blockStatement recur
    | "@" => firstOf [decoratedStatement recur, expressionStatement recur]
    | _ => expressionStatement recur

end ScriptAtlas.Syntax.Grammar
