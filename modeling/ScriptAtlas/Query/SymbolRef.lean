import ScriptAtlas.Symbol.Inference

/-!
# References to declarations

How answers point to declarations, and what they say about them: whether a declaration is exported,
and which of several that belong together carries the body.
-/

namespace ScriptAtlas

open Project Syntax

namespace Query

structure SymbolRef where
  name : String
  filePath : String
  line : Nat
  /-- Set for abstract classes. -/
  isAbstract : Bool
deriving DecidableEq, Repr, Inhabited

def locationLe (a b : String × Nat) : Bool :=
  if a.1 < b.1 then true else if b.1 < a.1 then false else a.2 ≤ b.2

def SymbolRef.location (r : SymbolRef) : String × Nat := (r.filePath, r.line)

/-- The references of a list, sorted by place; of several at one place the first counts. -/
def SymbolRef.sortedSet (rs : List SymbolRef) : List SymbolRef :=
  let kept := rs.foldl (fun acc r =>
    if acc.any (·.location == r.location) then acc else acc ++ [r]) []
  kept.mergeSort fun a b => locationLe a.location b.location

end Query

namespace Declaration

open Query

def ref (d : Declaration) : SymbolRef :=
  { name := d.displayName, filePath := d.file.relPath, line := d.line
    isAbstract := d.kind == .classType && d.node.isAbstract }

def isTopLevel (d : Declaration) : Bool :=
  d.node.parent?.any fun p =>
    p.hasKind .program
      || (p.hasKindIn [.lexicalDeclaration, .variableDeclaration] && p.parentHasKind .program)

def isExported (d : Declaration) : Bool :=
  d.node.hasExportModifier
    || (d.isTopLevel && d.file.root.localExportNames.contains d.name)

def hasBody (d : Declaration) : Bool := (d.node.functionNode?.bind (·.field? .body)).isSome

def constructorNode? (d : Declaration) : Option Node :=
  (d.node.typeMembers.find? fun (m, n) =>
    m.hasKind .methodDefinition && n.text == "constructor").map Prod.fst

end Declaration

/-- The declaration that carries the body, or else the first: signatures of an overloaded function go
before its implementation. -/
def Symbol.implementation (s : Symbol) : Declaration :=
  (s.declarations.find? (·.hasBody)).getD s.first

end ScriptAtlas
