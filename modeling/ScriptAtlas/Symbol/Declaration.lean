import ScriptAtlas.Project.Index

/-!
# Declarations and symbols

A declaration is a node that introduces a name, in its file. A symbol is what a name stands for: one
declaration or several that belong together, such as the overloads of a function, the parts of an
interface, or a class with a namespace of the same name.
-/

namespace ScriptAtlas

open Project Syntax

/-- What identifies a declaration: its file and the byte at which its name begins. -/
structure DeclarationKey where
  file : Nat
  start : Nat
deriving DecidableEq, Repr, Inhabited, Hashable

/-- A node that introduces a name. -/
structure Declaration where
  file : SourceFile
  kind : SymbolKind
  node : Node
  /-- The token that names it; a keyword when it has no name of its own. -/
  nameNode : Node
deriving Inhabited

namespace Declaration

def name (d : Declaration) : String := d.nameNode.bareText

def key (d : Declaration) : DeclarationKey := ⟨d.file.id, d.nameNode.startByte⟩

def line (d : Declaration) : Nat := d.nameNode.line

def isUser (d : Declaration) : Bool := d.file.isUser

def sameAs (d e : Declaration) : Bool := d.key == e.key

/-- Whether the declaration is an import that stands for one export of another module. -/
def isAlias (d : Declaration) : Bool :=
  d.kind == .importName && d.node.hasKindIn [.importSpecifier, .identifier]

/-- The kind, where a variable or a property that holds a function counts as a function or a
method. -/
def effectiveKind (d : Declaration) : SymbolKind :=
  match d.kind with
  | .variableName => if d.node.functionNode?.isSome then .function else .variableName
  | .property => if d.node.functionNode?.isSome then .method else .property
  | k => k

def make? (file : SourceFile) (node nameNode : Node) : Option Declaration :=
  node.declarationKind?.map fun kind => { file, kind, node, nameNode }

/-- The declaration that a node makes; one without a name goes by its first token. -/
def ofNode? (file : SourceFile) (node : Node) : Option Declaration :=
  node.declarationKind?.bind fun kind =>
    (node.declarationName? <|> node.children.head?).map fun nameNode =>
      { file, kind, node, nameNode }

/-! ## Members -/

def containerKinds : List Kind :=
  [.classDeclaration, .abstractClassDeclaration, .classExpression, .interfaceDeclaration,
   .enumDeclaration]

/-- The node of the class, interface or enum in whose body a node stands, without another body in
between. -/
def containerNode? (n : Node) : Option Node :=
  (n.findAncestor? (·.hasKindIn containerKinds)).bind fun owner =>
    (n.findAncestor? (·.hasKindIn [.classBody, .interfaceBody, .objectType, .enumBody])).bind
      fun body => if body.parent?.any (· == owner) then some owner else none

def container? (d : Declaration) : Option Declaration :=
  (containerNode? d.node).bind (ofNode? d.file)

def isMember (d : Declaration) : Bool := d.kind.isMember && d.container?.isSome

/-- The class, interface or enum that the declaration is a member of. -/
def owner? (d : Declaration) : Option Declaration :=
  if d.kind.isMember then d.container? else none

def displayName (d : Declaration) : String :=
  match d.owner? with
  | some owner => owner.name ++ "." ++ d.name
  | none => d.name

def ownMembers (d : Declaration) (name : String) : List Declaration :=
  (d.node.typeMembers.filter fun (_, n) => n.bareText == name).filterMap fun (m, n) =>
    make? d.file m n

end Declaration

/-- What a name stands for: declarations that belong together, in order. -/
structure Symbol where
  first : Declaration
  rest : List Declaration
deriving Inhabited

namespace Symbol

def declarations (s : Symbol) : List Declaration := s.first :: s.rest

def ofList? : List Declaration → Option Symbol
  | [] => none
  | d :: ds => some ⟨d, ds⟩

def single (d : Declaration) : Symbol := ⟨d, []⟩

def name (s : Symbol) : String := s.first.name

def keys (s : Symbol) : List DeclarationKey := s.declarations.map Declaration.key

def contains (s : Symbol) (d : Declaration) : Bool := s.declarations.any (·.sameAs d)

def filterKind? (p : SymbolKind → Bool) (s : Symbol) : Option Symbol :=
  ofList? (s.declarations.filter fun d => p d.kind)

@[simp] theorem declarations_single (d : Declaration) : (single d).declarations = [d] := rfl

theorem ofList?_eq_some_iff (ds : List Declaration) (s : Symbol) :
    ofList? ds = some s ↔ s.declarations = ds := by
  cases ds with
  | nil => simp [ofList?, declarations]
  | cons d ds =>
    cases s
    simp only [ofList?, declarations, Option.some.injEq, Symbol.mk.injEq, List.cons.injEq]
    exact ⟨fun h => ⟨h.1.symm, h.2.symm⟩, fun h => ⟨h.1.symm, h.2.symm⟩⟩

end Symbol

end ScriptAtlas
