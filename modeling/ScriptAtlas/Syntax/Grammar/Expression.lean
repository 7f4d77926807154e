import ScriptAtlas.Syntax.Grammar.Type

/-!
# Expressions

Operands, member accesses and calls, prefix and postfix operators, binary operators by precedence,
conditionals, assignments and arrow functions.
-/

namespace ScriptAtlas.Syntax.Grammar

open Reader

/-! ## Functions -/

def asyncMark : Reader Shape := do
  let a ← keyword "async"
  guardThat (!(← newlineAhead))
  return a

def functionExpression (recur : Recur) : Reader Shape := do
  let start ← nextStart
  let a ← opt asyncMark
  let f ← keyword "function"
  let star ← opt (punct "*")
  let name ← opt identifier
  let sig ← callSignature recur
  let body ← recur .block
  let k := if star.isEmpty then Kind.functionExpression else Kind.generatorFunction
  return .branch k start (a ++ [f] ++ star ++ name.map (·.part .name) ++ sig
    ++ [body.part .body])

def arrowBody (recur : Recur) (allowIn arrowTypes : Bool) : Reader Shape := do
  if (← peekPunct) == "\x7b" then firstOf [recur .block, recur (.assignment allowIn arrowTypes)]
  else recur (.assignment allowIn arrowTypes)

def arrowFunction (recur : Recur) (allowIn arrowTypes : Bool) : Reader Shape := do
  let rest (front : List Shape) : Reader Shape := node .arrowFunction do
    guardThat (!(← newlineAhead))
    let arrow ← punct "=>"
    let body ← arrowBody recur allowIn arrowTypes
    return front ++ [arrow, body.part .body]
  let bare : Reader (List Shape) := do return [(← identifier).part .parameter]
  let listed : Reader (List Shape) := do
    let tps ← opt (typeParameters recur)
    let ps ← formalParameters recur
    let result ← if arrowTypes then opt (resultClause recur) else pure []
    return tps.map (·.part .typeParameters) ++ [ps.part .parameters]
      ++ result.map (·.part .returnType)
  firstOf [
    do rest (← bare),
    do rest (← listed),
    do
      let a ← asyncMark
      let ps ← firstOf [bare, listed]
      rest (a :: ps)]

def arrowAhead : Reader Bool := do
  let w ← peekWord
  if w != "" then
    if w == "async" then return true
    afterWord (do return (← peekPunct) == "=>")
  else
    let c ← peekChar
    return c == some '(' || c == some '<'

/-! ## Objects and arrays -/

def pair (recur : Recur) : Reader Shape := node .pair do
  let key ← propertyName recur
  let colon ← punct ":"
  let v ← recur (.assignment true true)
  return [key.part .key, colon, v.part .value]

def methodModifiers : Reader (List Shape) := many (do
  return [← firstOf [
    do
      let m ← accessibilityModifier
      guardThat (← propertyNameAhead)
      return m,
    modifier "static",
    do
      let m ← wordAs .overrideModifier "override"
      guardThat (← propertyNameAhead)
      return m,
    modifier "readonly", modifier "async", modifier "get", modifier "set", punct "*"]])

def methodDefinition (recur : Recur) : Reader Shape := node .methodDefinition do
  let mods ← methodModifiers
  let name ← propertyName recur
  let mark ← opt (punct "?")
  let sig ← callSignature recur
  let body ← recur .block
  return mods ++ [name.part .name] ++ mark ++ sig ++ [body.part .body]

def objectMember (recur : Recur) : Reader Shape := firstOf [
  spreadElement recur,
  pair recur,
  methodDefinition recur,
  nameAs .shorthandPropertyIdentifier]

def objectLiteral (recur : Recur) : Reader Shape := node .object
  (bracketed "\x7b" "\x7d" (do return [← objectMember recur]))

def arrayLiteral (recur : Recur) : Reader Shape := node .array
  (bracketed "[" "]" (do
    return [← firstOf [spreadElement recur, recur (.assignment true true)]]))

/-! ## Classes -/

def extendsClause (recur : Recur) : Reader Shape := node .extendsClause do
  let kw ← keyword "extends"
  let bases ← commaSep1 (do
    let v ← recur .leftHand
    let targs ← opt (typeArguments recur)
    return v.part .value :: targs.map (·.part .typeArguments))
  return kw :: bases

def implementsClause (recur : Recur) : Reader Shape := node .implementsClause do
  let kw ← keyword "implements"
  let types ← commaSep1 (do return [← recur .type])
  return kw :: types

def classHeritage (recur : Recur) : Reader Shape := node .classHeritage do
  let ext ← opt (extendsClause recur)
  let impl ← opt (implementsClause recur)
  guardThat (!(ext ++ impl).isEmpty)
  return ext ++ impl

def fieldModifiers : Reader (List Shape) := many (do
  return [← firstOf [
    do
      let m ← accessibilityModifier
      guardThat (← propertyNameAhead)
      return m,
    modifier "static",
    do
      let m ← wordAs .overrideModifier "override"
      guardThat (← propertyNameAhead)
      return m,
    modifier "declare", modifier "abstract", modifier "readonly", modifier "accessor"]])

def fieldDefinition (recur : Recur) : Reader Shape := node .fieldDefinition do
  let decs ← decorators recur
  let mods ← fieldModifiers
  let name ← propertyName recur
  let mark ← opt (punctOf ["?", "!"])
  let t ← opt (annotatedType recur)
  let v ← optAll (initialValue recur true)
  -- a parameter list would make it a method
  guardThat (!(["(", "<"].contains (← peekPunct)))
  return decs ++ mods ++ [name.part .name] ++ mark ++ t.map (·.part .type) ++ v

def abstractMethodSignature (recur : Recur) : Reader Shape := node .abstractMethodSignature do
  let access ← opt (do
    let m ← accessibilityModifier
    guardThat (← propertyNameAhead)
    return m)
  let a ← modifier "abstract"
  let mods ← methodModifiers
  let name ← propertyName recur
  let mark ← opt (punct "?")
  let sig ← callSignature recur
  return access ++ [a] ++ mods ++ [name.part .name] ++ mark ++ sig

def methodSignature (recur : Recur) : Reader Shape := node .methodSignature do
  let mods ← methodModifiers
  let name ← propertyName recur
  let mark ← opt (punct "?")
  let sig ← callSignature recur
  return mods ++ [name.part .name] ++ mark ++ sig

def classStaticBlock (recur : Recur) : Reader Shape := node .classStaticBlock do
  let s ← keyword "static"
  let b ← recur .block
  return [s, b.part .body]

/-- A member of a class body. A method's decorators stand beside it, a field's inside it. -/
def classMember (recur : Recur) : Reader (List Shape) := firstOf [
  do return [← firstOf [punct ";", punct ","]],
  do return [← classStaticBlock recur],
  do
    let decs ← many (do return [← decorator recur])
    let m ← firstOf [methodDefinition recur, abstractMethodSignature recur,
      methodSignature recur]
    return decs ++ [m],
  do return [← indexSignature recur],
  do return [← fieldDefinition recur]]

def classBody (recur : Recur) : Reader Shape := node .classBody do
  let o ← punct "\x7b"
  let members ← many (classMember recur)
  let c ← punct "\x7d"
  return o :: members ++ [c]

/-- A class from its `class` keyword on, with the words `implements` and `extends` kept out of its
name. -/
def classTail (recur : Recur) (nameRequired : Bool) : Reader (List Shape) := do
  let kw ← keyword "class"
  let w ← peekWord
  let name ← if w == "implements" || w == "extends" then pure []
    else opt (nameAs .typeIdentifier)
  guardThat (!nameRequired || !name.isEmpty)
  let tps ← opt (typeParameters recur)
  let heritage ← opt (classHeritage recur)
  let body ← classBody recur
  return [kw] ++ name.map (·.part .name) ++ tps.map (·.part .typeParameters) ++ heritage
    ++ [body.part .body]

def classExpression (recur : Recur) : Reader Shape := node .classExpression do
  let decs ← decorators recur
  return decs ++ (← classTail recur false)

/-! ## Operands -/

def metaProperty (first second : String) : Reader Shape := node .metaProperty do
  return [← keyword first, ← punct ".", ← keyword second]

/-- Whether what follows type arguments lets them stand alone behind an expression. -/
def instantiationEnds : Reader Bool := do
  if ← newlineAhead then return true
  if ← atEnd then return true
  return [";", ",", ")", "]", "\x7d", ":", ".", "?.", "=", "==", "===", "!=", "!==", "&&", "||",
    "??", "?"].contains (← peekPunct)

def optionalChain : Reader Shape := do
  let t ← punct "?."
  return (Shape.leaf .optionalChain t.start t.stop).part .optionalChain

def memberName : Reader Shape := firstOf [privateName, anyWord .propertyIdentifier]

def accessStep (recur : Recur) (left : Shape) : Reader Shape := do
  match ← peekPunct with
  | "." => node .memberExpression do
      return [left.part .object, ← punct ".", (← memberName).part .property]
  | "?." => firstOf [
      node .memberExpression do
        return [left.part .object, ← optionalChain, (← memberName).part .property],
      node .subscriptExpression do
        let chain ← optionalChain
        let o ← punct "["
        let i ← recur (.expression true)
        return [left.part .object, chain, o, i.part .index, ← punct "]"]]
  | "[" => node .subscriptExpression do
      let o ← punct "["
      let i ← recur (.expression true)
      return [left.part .object, o, i.part .index, ← punct "]"]
  | "!" =>
      guardThat (!(← newlineAhead))
      node .nonNullExpression do return [left, ← punct "!"]
  | _ => failure

def callStep (recur : Recur) (left : Shape) : Reader Shape := do
  match ← peekPunct with
  | "(" => node .callExpression do
      return [left.part .function, (← arguments recur).part .arguments]
  | "\x60" => node .callExpression do
      return [left.part .function, (← templateString recur).part .arguments]
  | "?." => node .callExpression do
      let chain ← punct "?."
      let targs ← opt (typeArguments recur)
      let args ← arguments recur
      return [left.part .function, chain] ++ targs.map (·.part .typeArguments)
        ++ [args.part .arguments]
  | "<" => firstOf [
      node .callExpression do
        let targs ← typeArguments recur
        let args ← firstOf [arguments recur, templateString recur]
        return [left.part .function, targs.part .typeArguments, args.part .arguments],
      node .instantiationExpression do
        let targs ← typeArguments recur
        guardThat (← instantiationEnds)
        return [left, targs.part .typeArguments]]
  | _ => failure

/-- The class of a `new` expression: an operand with accesses but without calls. -/
def newExpression (recur : Recur) : Reader Shape := node .newExpression do
  let n ← keyword "new"
  let first ← recur .operand
  let target ← grow (accessStep recur) first
  let tail ← firstOf [
    do
      let targs ← typeArguments recur
      let args ← opt (arguments recur)
      return targs.part .typeArguments :: args.map (·.part .arguments),
    do return (← opt (arguments recur)).map (·.part .arguments)]
  return [n, target.part .constructor] ++ tail

def wordOperand (recur : Recur) (w : String) : Reader Shape :=
  match w with
  | "function" => functionExpression recur
  | "async" => firstOf [
      do
        guardThat (← afterWord (do return !(← newlineAhead) && (← peekWord) == "function"))
        functionExpression recur,
      identifier]
  | "class" => classExpression recur
  | "new" => firstOf [metaProperty "new" "target", newExpression recur]
  | "this" => wordAs .thisExpression "this"
  | "super" => wordAs .superExpression "super"
  | "null" => wordAs .nullLiteral "null"
  | "true" => wordAs .trueLiteral "true"
  | "false" => wordAs .falseLiteral "false"
  | "undefined" => wordAs .undefinedLiteral "undefined"
  | "import" => firstOf [metaProperty "import" "meta", wordAs .importKeyword "import"]
  | _ => identifier

def operand (recur : Recur) : Reader Shape := do
  let w ← peekWord
  if w != "" then wordOperand recur w
  else
    match ← peekChar with
    | some '(' => parenthesized recur
    | some '[' => arrayLiteral recur
    | some '\x7b' => objectLiteral recur
    | some '\x60' => templateString recur
    | some '/' => regex
    | some '@' => classExpression recur
    | some '#' => privateName
    | some '<' => do
        guardThat (← read).markup
        recur .element
    | _ => firstOf [stringLiteral, number]

def leftHand (recur : Recur) : Reader Shape := do
  let first ← operand recur
  grow (fun left => firstOf [accessStep recur left, callStep recur left]) first

def assignmentTarget (recur : Recur) : Reader Shape := do
  let first ← firstOf [wordAs .thisExpression "this", wordAs .superExpression "super", identifier]
  grow (accessStep recur) first

/-! ## Operators -/

def assertionStep (recur : Recur) (left : Shape) : Reader Shape := do
  guardThat (!(← newlineAhead))
  match ← peekWord with
  | "as" => node .asExpression do
      let a ← keyword "as"
      let t ← firstOf [keyword "const", recur .type]
      return [left, a, t]
  | "satisfies" => node .satisfiesExpression do
      return [left, ← keyword "satisfies", ← recur .type]
  | _ => failure

def awaitExpression (recur : Recur) : Reader Shape := node .awaitExpression do
  let a ← keyword "await"
  let v ← recur .unary
  return [a, ← grow (assertionStep recur) v]

def typeAssertion (recur : Recur) : Reader Shape := node .typeAssertion do
  guardThat (!(← read).markup)
  return [← typeArguments recur, ← recur .unary]

def unaryExpression (recur : Recur) (op : Reader Shape) : Reader Shape :=
  node .unaryExpression do
    let o ← op
    let v ← recur .unary
    return [o.part .operator, v.part .argument]

def unary (recur : Recur) : Reader Shape := do
  let w ← peekWord
  if ["typeof", "void", "delete"].contains w then unaryExpression recur (keyword w)
  else if w == "await" then firstOf [awaitExpression recur, leftHand recur]
  else
    let p ← peekPunct
    if ["!", "~", "-", "+"].contains p then unaryExpression recur (punct p)
    else if p == "++" || p == "--" then
      node .updateExpression do
        let o ← punct p
        let v ← recur .unary
        return [o.part .operator, v.part .argument]
    else if p == "<" && !(← read).markup then typeAssertion recur
    else
      let v ← leftHand recur
      firstOf [
        node .updateExpression do
          guardThat (!(← newlineAhead))
          let o ← punctOf ["++", "--"]
          return [v.part .argument, o.part .operator],
        pure v]

/-- How tightly a binary operator binds; a larger level binds tighter. -/
def level? (allowIn : Bool) : String → Option Nat
  | "??" => some 1
  | "||" => some 2
  | "&&" => some 3
  | "|" => some 4
  | "^" => some 5
  | "&" => some 6
  | "==" | "!=" | "===" | "!==" => some 7
  | "<" | "<=" | ">" | ">=" | "instanceof" => some 8
  | "in" => if allowIn then some 8 else none
  | "<<" | ">>" | ">>>" => some 9
  | "+" | "-" => some 10
  | "*" | "/" | "%" => some 11
  | "**" => some 12
  | _ => none

def binaryStep (recur : Recur) (allowIn : Bool) (level : Nat) (left : Shape) : Reader Shape := do
  let w ← peekWord
  let op ← if w != "" then pure w else peekPunct
  match level? allowIn op with
  | none => if level == 0 then assertionStep recur left else failure
  | some l =>
    guardThat (level ≤ l)
    node .binaryExpression do
      let o ← if w != "" then keyword w else punct op
      -- powers group to the right, all other operators to the left
      let right ← recur (.binary allowIn (if op == "**" then l else l + 1))
      return [left.part .left, o.part .operator, right.part .right]

/-- Operands joined by operators of at least the given level; type assertions bind loosest. -/
def binary (recur : Recur) (allowIn : Bool) (level : Nat) : Reader Shape := do
  let first ← recur .unary
  grow (binaryStep recur allowIn level) first

/-- A conditional expression. Its middle part ends at a colon, which an arrow function in it must
not take for a result type unless another colon follows. -/
def conditional (recur : Recur) (allowIn arrowTypes : Bool) : Reader Shape := do
  let test ← recur (.binary allowIn 0)
  firstOf [
    node .ternaryExpression do
      let q ← punct "?"
      let middle (types : Bool) : Reader (List Shape) := do
        let yes ← recur (.assignment true types)
        let colon ← punct ":"
        let no ← recur (.assignment allowIn arrowTypes)
        return [yes.part .consequence, colon, no.part .alternative]
      let rest ← firstOf [middle true, middle false]
      return [test.part .condition, q] ++ rest,
    pure test]

/-! ## Assignments -/

def assignmentOperators : List String :=
  ["+=", "-=", "*=", "/=", "%=", "**=", "<<=", ">>=", ">>>=", "&=", "|=", "^=", "&&=", "||=",
   "??="]

def yieldExpression (recur : Recur) (allowIn : Bool) : Reader Shape := node .yieldExpression do
  let y ← keyword "yield"
  if ← newlineAhead then return [y]
  let star ← opt (punct "*")
  let v ← opt (recur (.assignment allowIn true))
  return y :: star ++ v

def patternAssignment (recur : Recur) (allowIn : Bool) : Reader Shape :=
  node .assignmentExpression do
    let left ← pattern recur
    let eq ← punct "="
    let v ← recur (.assignment allowIn true)
    return [left.part .left, eq, v.part .right]

def isBracketed (s : Shape) : Bool := [Label.named .array, .named .object].contains s.label

/-- An expression without a comma at its top, or an assignment to one. Literals cannot be assigned to:
what looks like one there is a pattern. -/
def plainAssignment (recur : Recur) (allowIn arrowTypes : Bool) : Reader Shape := do
  let left ← conditional recur allowIn arrowTypes
  match ← peekPunct with
  | "=" =>
    guardThat (!isBracketed left)
    node .assignmentExpression do
      let eq ← punct "="
      let v ← recur (.assignment allowIn arrowTypes)
      return [left.part .left, eq, v.part .right]
  | op =>
    if assignmentOperators.contains op then
      node .augmentedAssignmentExpression do
        let o ← punct op
        let v ← recur (.assignment allowIn arrowTypes)
        return [left.part .left, o.part .operator, v.part .right]
    else return left

def assignment (recur : Recur) (allowIn arrowTypes : Bool) : Reader Shape := do
  let plain := plainAssignment recur allowIn arrowTypes
  let w ← peekWord
  if w == "yield" then yieldExpression recur allowIn
  else if ← arrowAhead then firstOf [arrowFunction recur allowIn arrowTypes, plain]
  else
    let p ← peekPunct
    if p == "[" || p == "\x7b" then firstOf [plain, patternAssignment recur allowIn]
    else plain

def expression (recur : Recur) (allowIn : Bool) : Reader Shape := do
  let first ← recur (.assignment allowIn true)
  if (← peekPunct) == "," then
    firstOf [
      node .sequenceExpression do
        let rest ← many (do return [← punct ",", ← recur (.assignment allowIn true)])
        guardThat (!rest.isEmpty)
        return first :: rest,
      pure first]
  else return first

end ScriptAtlas.Syntax.Grammar
