import ScriptAtlas.Syntax.Grammar.Signature

/-!
# Types

From the loosest to the tightest: conditional types, unions, intersections, prefix operators, then
element and index accesses on a primary type. `readonly` reaches over everything to its right, while
`keyof` takes a single operand.
-/

namespace ScriptAtlas.Syntax.Grammar

open Reader

def predefinedTypes : List String :=
  ["any", "number", "boolean", "string", "symbol", "void", "unknown", "never", "object"]

def predefinedType : Reader Shape := node .predefinedType (firstOf [
  do
    let u ← keyword "unique"
    let s ← keyword "symbol"
    return [Shape.token "unique symbol" u.start s.stop],
  do return [← keywordOf predefinedTypes]])

/-! ## Names -/

/-- Dotted names in front of the last one: `a`, then `a.b`, then `a.b.c`. -/
def nestedName (words : List (Shape × Shape)) (left : Shape) : Shape :=
  match words with
  | [] => left
  | [(dot, w)] =>
    .branch .nestedIdentifier left.start
      [left.part .object, dot, (w.relabel .propertyIdentifier).part .property]
  | (dot, w) :: rest =>
    nestedName rest (.branch .memberExpression left.start
      [left.part .object, dot, (w.relabel .propertyIdentifier).part .property])

def dottedWords : Reader (List (Shape × Shape)) :=
  many (do
    let dot ← punct "."
    let w ← anyWord .identifier
    return [(dot, w)])

def entityName : Reader Shape := do
  let first ← anyWord .identifier
  return nestedName (← dottedWords) first

def typeName : Reader Shape := do
  let first ← anyWord .identifier
  let rest ← dottedWords
  match rest.reverse with
  | [] => return first.relabel .typeIdentifier
  | (dot, last) :: front =>
    let q := nestedName front.reverse first
    return .branch .nestedTypeIdentifier first.start
      [q.part .qualifier, dot, (last.relabel .typeIdentifier).part .name]

def typeReference (recur : Recur) : Reader Shape := do
  let name ← typeName
  firstOf [
    node .genericType do
      let args ← typeArguments recur
      return [name.part .name, args.part .typeArguments],
    pure name]

/-! ## Members of object types -/

/-- A member of a mapped type's head: `K in T as U`. -/
def mappedTypeClause (recur : Recur) : Reader Shape := node .mappedTypeClause do
  let name ← anyWord .typeIdentifier
  let kw ← keyword "in"
  let t ← recur .type
  let renamed ← optAll (do
    let a ← keyword "as"
    let u ← recur .type
    return [a, u.part .alias])
  return [name.part .name, kw, t.part .type] ++ renamed

/-- The type behind an index signature, which may add or remove optionality. -/
def indexedResult (recur : Recur) : Reader Shape := firstOf [
  node .omittingType do return [← symbol "-?:", ← recur .type],
  node .addingType do return [← symbol "+?:", ← recur .type],
  node .optingType do return [← symbol "?:", ← recur .type],
  annotatedType recur]

def indexSignature (recur : Recur) : Reader Shape := node .indexSignature do
  let head ← optAll (do
    let sign ← opt (punctOf ["-", "+"])
    let kw ← keyword "readonly"
    return sign.map (·.part .sign) ++ [kw])
  let o ← punct "["
  let key ← firstOf [
    do return [← mappedTypeClause recur],
    do
      let name ← anyWord .identifier
      let colon ← punct ":"
      let t ← recur .type
      return [name.part .name, colon, t.part .indexType]]
  let c ← punct "]"
  let t ← opt (indexedResult recur)
  return head ++ [o] ++ key ++ [c] ++ t.map (·.part .type)

def constructSignature (recur : Recur) : Reader Shape := node .constructSignature do
  let a ← opt (keyword "abstract")
  let n ← keyword "new"
  let tps ← opt (typeParameters recur)
  let ps ← formalParameters recur
  let t ← opt (annotatedType recur)
  return a ++ [n] ++ tps.map (·.part .typeParameters) ++ [ps.part .parameters]
    ++ t.map (·.part .type)

def namedTypeMember (recur : Recur) : Reader Shape := do
  let start ← nextStart
  let mods ← many (do
    return [← firstOf [
      do
        let m ← accessibilityModifier
        guardThat (← propertyNameAhead)
        return m,
      modifier "static",
      do
        let m ← wordAs .overrideModifier "override"
        guardThat (← propertyNameAhead)
        return m,
      modifier "readonly", modifier "async", modifier "get", modifier "set", punct "*"]])
  let name ← propertyName recur
  let mark ← opt (punct "?")
  firstOf [
    do
      let sig ← callSignature recur
      return .branch .methodSignature start (mods ++ [name.part .name] ++ mark ++ sig),
    do
      let t ← opt (annotatedType recur)
      return .branch .propertySignature start
        (mods ++ [name.part .name] ++ mark ++ t.map (·.part .type))]

def typeMember (recur : Recur) : Reader Shape := firstOf [
  node .callSignature (callSignature recur),
  constructSignature recur,
  indexSignature recur,
  namedTypeMember recur]

def objectTypeBody (recur : Recur) (k : Kind) : Reader Shape := node k do
  let o ← punct "\x7b"
  let members ← many (do
    return [← firstOf [punct ";", punct ",", typeMember recur]])
  let c ← punct "\x7d"
  return o :: members ++ [c]

/-! ## Primary types -/

def tupleMember (recur : Recur) : Reader Shape := firstOf [
  node .requiredParameter do
    let name ← firstOf [
      node .restPattern do return [← punct "...", ← anyWord .identifier],
      anyWord .identifier]
    let t ← annotatedType recur
    return [name.part .name, t.part .type],
  node .optionalParameter do
    let name ← anyWord .identifier
    let q ← punct "?"
    let t ← annotatedType recur
    return [name.part .name, q, t.part .type],
  node .restType do return [← punct "...", ← recur .type],
  do
    let t ← recur .type
    firstOf [
      node .optionalType do return [t, ← punct "?"],
      pure t]]

def functionType (recur : Recur) : Reader Shape := node .functionType do
  let tps ← opt (typeParameters recur)
  let ps ← formalParameters recur
  let arrow ← punct "=>"
  let result ← firstOf [assertsClause recur, typePredicate recur, recur .type]
  return tps.map (·.part .typeParameters)
    ++ [ps.part .parameters, arrow, result.part .returnType]

/-- A constructor type; unlike a function type's, its result ends before `|`, `&` and `extends`. -/
def constructorType (recur : Recur) : Reader Shape := node .constructorType do
  let a ← opt (keyword "abstract")
  let n ← keyword "new"
  let tps ← opt (typeParameters recur)
  let ps ← formalParameters recur
  let arrow ← punct "=>"
  let result ← recur .typeOperand
  return a ++ [n] ++ tps.map (·.part .typeParameters)
    ++ [ps.part .parameters, arrow, result.part .type]

/-- The subject of a type query: a name with member and index accesses, or an imported module. -/
def typeQuerySubject (recur : Recur) : Reader Shape := do
  let first ← firstOf [
    node .callExpression do
      let i ← wordAs .importKeyword "import"
      let args ← arguments recur
      return [i.part .function, args.part .arguments],
    wordAs .thisExpression "this",
    anyWord .identifier]
  let accessed ← grow (fun left => firstOf [
    node .memberExpression do
      let dot ← firstOf [punct ".", do
        let c ← punct "?."
        return (Shape.leaf .optionalChain c.start c.stop).part .optionalChain]
      let name ← firstOf [privateName, anyWord .propertyIdentifier]
      return [left.part .object, dot, name.part .property],
    node .subscriptExpression do
      guardThat (!(← newlineAhead))
      let o ← punct "["
      let i ← firstOf [predefinedType, stringLiteral, number]
      let c ← punct "]"
      return [left.part .object, o, i.part .index, c]]) first
  firstOf [
    node .instantiationExpression do
      let args ← typeArguments recur
      return [accessed, args.part .typeArguments],
    pure accessed]

def importedType (recur : Recur) : Reader Shape := do
  let first ← node .callExpression do
    let i ← wordAs .importKeyword "import"
    let args ← arguments recur
    return [i.part .function, args.part .arguments]
  let accessed ← grow (fun left => node .memberExpression do
    let dot ← punct "."
    let name ← anyWord .propertyIdentifier
    return [left.part .object, dot, name.part .property]) first
  firstOf [
    node .genericType do
      let args ← typeArguments recur
      return [accessed.part .name, args.part .typeArguments],
    pure accessed]

def inferType (recur : Recur) : Reader Shape := node .inferType do
  let kw ← keyword "infer"
  let name ← anyWord .typeIdentifier
  let bound ← optAll (do return [← keyword "extends", ← recur .type])
  return [kw, name] ++ bound

def literalType : Reader Shape := node .literalType do
  let v ← firstOf [
    wordAs .nullLiteral "null", wordAs .undefinedLiteral "undefined",
    wordAs .trueLiteral "true", wordAs .falseLiteral "false",
    stringLiteral, number,
    node .unaryExpression do
      let op ← punctOf ["-", "+"]
      let n ← number
      return [op.part .operator, n.part .argument]]
  return [v]

/-- A prefix word applies when an operand follows it and the word is no plain name here. -/
def prefixWord (w : String) : Reader Shape := do
  let t ← keyword w
  let next ← peekWord
  let c ← peekChar
  guardThat ((next != "" && !(["extends", "is", "as", "in"].contains next))
    || c.any (fun c => ['(', '[', '\x7b', '\x22', '\x27', '\x60', '<', '-'].contains c))
  return t

def wordType (recur : Recur) (w : String) : Reader Shape :=
  match w with
  | "typeof" => node .typeQuery do return [← keyword "typeof", ← typeQuerySubject recur]
  | "keyof" => firstOf [
      node .indexTypeQuery do return [← prefixWord "keyof", ← recur .typeOperand],
      typeReference recur]
  | "readonly" => firstOf [
      node .readonlyType do return [← prefixWord "readonly", ← recur .type],
      typeReference recur]
  | "infer" => firstOf [inferType recur, typeReference recur]
  | "new" => constructorType recur
  | "abstract" => firstOf [constructorType recur, typeReference recur]
  | "unique" => firstOf [predefinedType, typeReference recur]
  | "this" => wordAs .thisType "this"
  | "import" => importedType recur
  | "null" | "undefined" | "true" | "false" => literalType
  | _ => if predefinedTypes.contains w then predefinedType else typeReference recur

def primaryType (recur : Recur) : Reader Shape := do
  let w ← peekWord
  if w != "" then wordType recur w
  else
    match ← peekChar with
    | some '(' => firstOf [
        functionType recur,
        node .parenthesizedType do
          return [← punct "(", ← recur .type, ← punct ")"]]
    | some '<' => functionType recur
    | some '\x7b' => objectTypeBody recur .objectType
    | some '[' => node .tupleType (bracketed "[" "]" (do return [← tupleMember recur]))
    | some '\x60' => template .templateLiteralType .templateType (recur .type)
    | _ => literalType

def typeOperand (recur : Recur) : Reader Shape := do
  let first ← primaryType recur
  -- an arrow's result or a `readonly` operand has taken everything to its right
  grow (fun left => do
    guardThat (!(← newlineAhead))
    firstOf [
      node .arrayType do return [left, ← punct "[", ← punct "]"],
      node .lookupType do return [left, ← punct "[", ← recur .type, ← punct "]"]]) first

/-- Operands joined by `op`, nested to the left; the operator may also stand in front. -/
def joinedTypes (op : String) (k : Kind) (operand : Reader Shape) : Reader Shape := do
  let start ← nextStart
  let lead ← opt (punct op)
  let first ← operand
  let left := if lead.isEmpty then first else .branch k start (lead ++ [first])
  grow (fun left => node k do return [left, ← punct op, ← operand]) left

def unionType (recur : Recur) : Reader Shape :=
  joinedTypes "|" .unionType (joinedTypes "&" .intersectionType (typeOperand recur))

def typeExpression (recur : Recur) : Reader Shape := do
  let left ← unionType recur
  firstOf [
    node .conditionalType do
      let e ← keyword "extends"
      let right ← recur .type
      let q ← punct "?"
      let yes ← recur .type
      let colon ← punct ":"
      let no ← recur .type
      return [left.part .left, e, right.part .right, q, yes.part .consequence, colon,
        no.part .alternative],
    pure left]

end ScriptAtlas.Syntax.Grammar
