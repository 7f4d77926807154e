import ScriptAtlas.Symbol.Declaration

/-!
# Static types

What is known about the type of a value: a small model of types that is read off annotations and
expressions, with the text that shows a type.
-/

namespace ScriptAtlas

open Project Syntax

/-- A type, as far as syntax tells. -/
inductive StaticType where
  | primitive (text : String)
  | literal (text : String)
  /-- A value of a class, an interface or an enum. -/
  | instanceOf (decl : Declaration) (args : List StaticType)
  /-- A type alias with the type that it stands for. -/
  | aliasOf (decl : Declaration) (target : StaticType) (args : List StaticType)
  | typeParameter (decl : Declaration)
  | enumLiteral (decl : Declaration)
  /-- A name that nothing in the project declares. -/
  | named (name : String) (args : List StaticType)
  | union (members : List StaticType)
  | intersection (members : List StaticType)
  | array (element : StaticType)
  | tuple (elements : List StaticType)
  | function (parameters : List (String × StaticType)) (result : StaticType)
  /-- An object type; its members stand in the node. -/
  | object (file : SourceFile) (node : Node)
  /-- The value that a class, an enum or a namespace is itself. -/
  | valueOf (decl : Declaration)
  | unknown
deriving Inhabited

structure Signature where
  parameters : List (String × StaticType)
  result : StaticType
deriving Inhabited

namespace StaticType

def ofSignature (s : Signature) : StaticType := .function s.parameters s.result

def isUnknown : StaticType → Bool
  | unknown => true
  | _ => false

mutual

def isFunctionLike : StaticType → Bool
  | function _ _ => true
  | aliasOf _ target _ => target.isFunctionLike
  | union members | intersection members => anyFunctionLike members
  | named name _ => name == "Function"
  | _ => false

def anyFunctionLike : List StaticType → Bool
  | [] => false
  | t :: ts => t.isFunctionLike || anyFunctionLike ts

end

def arguments : StaticType → List StaticType
  | instanceOf _ args | aliasOf _ _ args | named _ args => args
  | _ => []

/-! ## Text -/

def isCompound : StaticType → Bool
  | union _ | intersection _ | function _ _ => true
  | _ => false

def applied (name : String) (args : List String) : String :=
  if args.isEmpty then name else name ++ "<" ++ Text.join ", " args ++ ">"

mutual

def render : StaticType → String
  | primitive text | literal text => text
  | instanceOf decl args | aliasOf decl _ args => applied decl.name (renderAll args)
  | typeParameter decl => decl.name
  | enumLiteral decl => decl.displayName
  | named name args => applied name (renderAll args)
  | union members => Text.join " | " (renderAll members)
  | intersection members => Text.join " & " (renderAll members)
  | array element =>
    if element.isCompound then "(" ++ element.render ++ ")[]" else element.render ++ "[]"
  | tuple elements => "[" ++ Text.join ", " (renderAll elements) ++ "]"
  | function parameters result =>
    "(" ++ Text.join ", " (renderParameters parameters) ++ ") => " ++ result.render
  | object _ node => node.text
  | valueOf decl => "typeof " ++ decl.name
  | unknown => "unknown"

def renderAll : List StaticType → List String
  | [] => []
  | t :: ts => t.render :: renderAll ts

def renderParameters : List (String × StaticType) → List String
  | [] => []
  | (name, t) :: ps => (name ++ ": " ++ t.render) :: renderParameters ps

end

/-- One of several alternatives, as far as they are known. -/
def oneOf (alternatives : List StaticType) : StaticType :=
  match alternatives.filter (!·.isUnknown) with
  | [] => .unknown
  | [t] => t
  | ts => .union ts

def element : StaticType → StaticType
  | array t => t
  | _ => .unknown

end StaticType

end ScriptAtlas
