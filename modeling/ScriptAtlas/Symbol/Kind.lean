import ScriptAtlas.Text.Lower

/-!
# Kinds of symbols

What a declaration declares, with the word for each kind and the words that are understood for it.
-/

namespace ScriptAtlas

inductive SymbolKind where
  | function | method | classType | interfaceType | typeAlias | enumType | enumMember | variableName
  | parameter | importName | constructor | accessor | property | namespaceName | typeParameter
deriving DecidableEq, Repr, Inhabited

namespace SymbolKind

def text : SymbolKind → String
  | function => "function"
  | method => "method"
  | classType => "class"
  | interfaceType => "interface"
  | typeAlias => "typeAlias"
  | enumType => "enum"
  | enumMember => "enumMember"
  | variableName => "variable"
  | parameter => "parameter"
  | importName => "import"
  | constructor => "constructor"
  | accessor => "accessor"
  | property => "property"
  | namespaceName => "namespace"
  | typeParameter => "typeParameter"

def isCallable : SymbolKind → Bool
  | function | method | constructor | classType | accessor => true
  | _ => false

def isType : SymbolKind → Bool
  | classType | interfaceType | typeAlias | enumType | typeParameter => true
  | _ => false

def isMember : SymbolKind → Bool
  | method | property | accessor | constructor | enumMember => true
  | _ => false

def all : List SymbolKind :=
  [function, method, classType, interfaceType, typeAlias, enumType, enumMember, variableName,
   parameter, importName, constructor, accessor, property, namespaceName, typeParameter]

def ofWord? (word : String) : Option SymbolKind := all.find? (·.text == word)

/-- A word without case, dashes and underscores. -/
def foldWord (s : String) : String :=
  String.ofList ((Text.lower s).toList.filter fun c => c != '-' && c != '_')

def ofFolded? : String → Option SymbolKind
  | "function" => some function
  | "method" => some method
  | "class" => some classType
  | "interface" => some interfaceType
  | "typealias" | "type" => some typeAlias
  | "enum" => some enumType
  | "enummember" => some enumMember
  | "variable" | "var" | "const" => some variableName
  | "parameter" | "param" => some parameter
  | "import" => some importName
  | "constructor" => some constructor
  | "accessor" => some accessor
  | "property" | "field" => some property
  | "namespace" | "module" => some namespaceName
  | "typeparameter" => some typeParameter
  | _ => none

/-- The kind that a word stands for, or the message that it stands for none. -/
def ofText (s : String) : Except String SymbolKind :=
  match ofFolded? (foldWord s) with
  | some k => .ok k
  | none => .error ("unknown symbol kind '" ++ foldWord s ++ "'")

end SymbolKind

end ScriptAtlas
