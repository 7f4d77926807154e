import ScriptAtlas.Syntax.Grammar.Literal

/-!
# Parameters, annotations and property names

The parts that functions, methods, types and class members share.
-/

namespace ScriptAtlas.Syntax.Grammar

open Reader

/-! ## Types in their places -/

def annotatedType (recur : Recur) : Reader Shape := node .annotatedType do
  return [← punct ":", ← recur .type]

def typeArguments (recur : Recur) : Reader Shape := node .typeArguments do
  let o ← symbol "<"
  let args ← commaSep1 (do return [← recur .type])
  let trailing ← opt (punct ",")
  let c ← symbol ">"
  return o :: args ++ trailing ++ [c]

def constraint (recur : Recur) : Reader Shape := node .constraint do
  return [← keyword "extends", ← recur .type]

def defaultType (recur : Recur) : Reader Shape := node .defaultType do
  return [← punct "=", ← recur .type]

def typeParameterModifier (w : String) : Reader Shape := do
  let t ← keyword w
  let next ← peekWord
  guardThat (next != "" && next != "extends")
  return t

def typeParameter (recur : Recur) : Reader Shape := node .typeParameter do
  let mods ← many (do
    return [← firstOf [typeParameterModifier "const", typeParameterModifier "in",
      typeParameterModifier "out"]])
  let name ← anyWord .typeIdentifier
  let bound ← opt (constraint recur)
  let fallback ← opt (defaultType recur)
  return mods ++ [name.part .name] ++ bound.map (·.part .constraint)
    ++ fallback.map (·.part .value)

def typeParameters (recur : Recur) : Reader Shape := node .typeParameters do
  let o ← symbol "<"
  let params ← commaSep1 (do return [← typeParameter recur])
  let trailing ← opt (punct ",")
  let c ← symbol ">"
  return o :: params ++ trailing ++ [c]

def predicateSubject : Reader Shape :=
  firstOf [wordAs .thisExpression "this", identifier]

def typePredicate (recur : Recur) : Reader Shape := node .typePredicate do
  let name ← predicateSubject
  guardThat (!(← newlineAhead))
  let is ← keyword "is"
  let t ← recur .type
  return [name.part .name, is, t.part .type]

def assertsClause (recur : Recur) : Reader Shape := node .asserts do
  let a ← keyword "asserts"
  guardThat (!(← newlineAhead))
  let subject ← firstOf [typePredicate recur, predicateSubject]
  return [a, subject]

/-- What a function says about its result: a type, a type predicate or an assertion. -/
def resultClause (recur : Recur) : Reader Shape := firstOf [
  node .annotatedAsserts do return [← punct ":", ← assertsClause recur],
  node .annotatedPredicate do return [← punct ":", ← typePredicate recur],
  annotatedType recur]

/-! ## Arguments, decorators and property names -/

def spreadElement (recur : Recur) : Reader Shape := node .spreadElement do
  return [← punct "...", ← recur (.assignment true true)]

def arguments (recur : Recur) : Reader Shape := node .arguments
  (bracketed "(" ")" (do
    return [← firstOf [spreadElement recur, recur (.assignment true true)]]))

def dottedName : Reader Shape := do
  let first ← anyWord .identifier
  grow (fun left => node .memberExpression do
    let dot ← punct "."
    let name ← anyWord .propertyIdentifier
    return [left.part .object, dot, name.part .property]) first

def parenthesized (recur : Recur) : Reader Shape := node .parenthesizedExpression do
  let o ← punct "("
  let e ← recur (.expression true)
  let t ← opt (annotatedType recur)
  let c ← punct ")"
  return [o, e] ++ t.map (·.part .type) ++ [c]

def decorator (recur : Recur) : Reader Shape := node .decorator do
  let a ← punct "@"
  let target ← firstOf [dottedName, parenthesized recur]
  let call ← firstOf [
    node .callExpression do
      let targs ← opt (typeArguments recur)
      let args ← arguments recur
      return [target.part .function] ++ targs.map (·.part .typeArguments)
        ++ [args.part .arguments],
    pure target]
  return [a, call]

def decorators (recur : Recur) : Reader (List Shape) :=
  many (do return [(← decorator recur).part .decorator])

def computedPropertyName (recur : Recur) : Reader Shape := node .computedPropertyName do
  return [← punct "[", ← recur (.expression true), ← punct "]"]

def propertyName (recur : Recur) : Reader Shape :=
  firstOf [anyWord .propertyIdentifier, privateName, stringLiteral, number,
    computedPropertyName recur]

def initialValue (recur : Recur) (allowIn : Bool) : Reader (List Shape) := do
  let eq ← punct "="
  let v ← recur (.assignment allowIn true)
  return [eq, v.part .value]

/-! ## Parameters -/

def accessibilityModifier : Reader Shape := node .accessibilityModifier do
  return [← keywordOf ["public", "private", "protected"]]

def beforePattern (p : Reader Shape) : Reader Shape := do
  let m ← p
  let w ← peekWord
  let c ← peekChar
  guardThat (w != "" || c == some '\x7b' || c == some '[' || c == some '.')
  return m

def parameter (recur : Recur) : Reader Shape := do
  let start ← nextStart
  let decs ← decorators recur
  let access ← opt (beforePattern accessibilityModifier)
  let overriding ← opt (beforePattern (wordAs .overrideModifier "override"))
  let fixed ← opt (beforePattern (keyword "readonly"))
  let target ← recur .pattern
  let mark ← opt (punct "?")
  let type ← opt (annotatedType recur)
  let value ← optAll (initialValue recur true)
  let k := if mark.isEmpty then Kind.requiredParameter else Kind.optionalParameter
  return .branch k start (decs ++ access ++ overriding ++ fixed ++ [target.part .pattern] ++ mark
    ++ type.map (·.part .type) ++ value)

def formalParameters (recur : Recur) : Reader Shape :=
  node .formalParameters (bracketed "(" ")" (do return [← parameter recur]))

def callSignature (recur : Recur) : Reader (List Shape) := do
  let tps ← opt (typeParameters recur)
  let ps ← formalParameters recur
  let result ← opt (resultClause recur)
  return tps.map (·.part .typeParameters) ++ [ps.part .parameters]
    ++ result.map (·.part .returnType)

/-! ## Binding patterns -/

/-- Whether an expression is a member, an element, or one of them that is asserted to be present. -/
def isAccess (s : Shape) : Bool :=
  [Label.named .memberExpression, .named .subscriptExpression, .named .nonNullExpression].contains
    s.label

/-- A target inside a pattern. Any access may stand there, also one that begins with a call. -/
def patternTarget (recur : Recur) : Reader Shape := do
  if ["\x7b", "[", "..."].contains (← peekPunct) then recur .pattern
  else firstOf [
    do
      let v ← recur .leftHand
      guardThat (isAccess v)
      return v,
    recur .pattern]

def restPattern (recur : Recur) : Reader Shape := node .restPattern do
  return [← punct "...", ← patternTarget recur]

def patternWithDefault (recur : Recur) : Reader Shape := do
  let target ← patternTarget recur
  firstOf [
    node .assignmentPattern do
      let eq ← punct "="
      let v ← recur (.assignment true true)
      return [target.part .left, eq, v.part .right],
    pure target]

def pairPattern (recur : Recur) : Reader Shape := node .pairPattern do
  let key ← propertyName recur
  let colon ← punct ":"
  let v ← patternWithDefault recur
  return [key.part .key, colon, v.part .value]

def shorthandPattern (recur : Recur) : Reader Shape := do
  let name ← nameAs .shorthandPropertyIdentifierPattern
  firstOf [
    node .objectAssignmentPattern do
      let eq ← punct "="
      let v ← recur (.assignment true true)
      return [name.part .left, eq, v.part .right],
    pure name]

def objectPattern (recur : Recur) : Reader Shape := node .objectPattern
  (bracketed "\x7b" "\x7d" (do
    return [← firstOf [restPattern recur, pairPattern recur, shorthandPattern recur]]))

def arrayPattern (recur : Recur) : Reader Shape := node .arrayPattern
  (bracketed "[" "]" (do return [← patternWithDefault recur]))

def pattern (recur : Recur) : Reader Shape := do
  match ← peekPunct with
  | "\x7b" => objectPattern recur
  | "[" => arrayPattern recur
  | "..." => restPattern recur
  | _ =>
    let access ← afterWord (do return [".", "[", "?."].contains (← peekPunct))
    if access then recur .target
    else firstOf [wordAs .thisExpression "this", wordAs .undefinedLiteral "undefined",
      identifier]

end ScriptAtlas.Syntax.Grammar
