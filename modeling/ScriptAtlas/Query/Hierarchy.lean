import ScriptAtlas.Query.References

/-!
# Type hierarchies

What a class or an interface builds on, what builds on it directly, and its type parameters.
-/

namespace ScriptAtlas.Query

open Project Syntax

namespace Hierarchy

structure TypeParameter where
  name : String
  bound : Option String
  default : Option String
deriving DecidableEq, Repr, Inhabited

structure Options where
  timeoutMs : Option Nat
deriving DecidableEq, Repr, Inhabited

def Options.default : Options := ⟨none⟩

structure Report where
  symbol : SymbolRef
  kind : SymbolKind
  extends_ : Option SymbolRef
  implements : List SymbolRef
  subtypes : List SymbolRef
  isAbstract : Bool
  typeParameters : List TypeParameter
  partly : Bool
deriving DecidableEq, Repr, Inhabited

structure Edge where
  child : Declaration
  parent : DeclarationKey
deriving Inhabited

def typeKinds : List Kind :=
  [.classDeclaration, .abstractClassDeclaration, .classExpression, .interfaceDeclaration]

def typesIn (file : SourceFile) : List Declaration :=
  (file.tree.nodes.filter (·.hasKindIn typeKinds)).filterMap (Declaration.ofNode? file)

def edgesFrom (idx : Index) (child : Declaration) : List Edge :=
  let parents := (idx.heritage child).symbols.flatMap Symbol.keys
  parents.eraseDups.map fun parent => { child, parent }

/-- The types that build directly on a declaration with the given key, the last one first. -/
def subtypesOf (edges : List Edge) (key : DeclarationKey) : List Declaration :=
  ((edges.filter (·.parent == key)).map (·.child)).reverse

def distinct (ds : List Declaration) : List Declaration :=
  ds.foldl (fun acc d => if acc.any (·.sameAs d) then acc else acc ++ [d]) []

def edges (idx : Index) (target : Symbol) : List Edge :=
  (((idx.filesWithAnyToken (References.searchNames idx target.name)).filter
    (·.isUser)).flatMap typesIn).flatMap (edgesFrom idx)

def typeParameters (d : Declaration) : List TypeParameter :=
  match d.node.field? .typeParameters with
  | none => []
  | some list =>
    (list.namedChildren.filter (·.hasKind .typeParameter)).filterMap fun p =>
      let inner (f : Field) : Option String :=
        (p.field? f).bind fun c => c.namedChildren.head?.map Node.text
      (p.field? .name).map fun name =>
        { name := name.text, bound := inner .constraint, default := inner .value }

def dropRepeats {α : Type} [BEq α] : List α → List α
  | [] => []
  | a :: rest =>
    match dropRepeats rest with
    | [] => [a]
    | b :: more => if a == b then b :: more else a :: b :: more

def report (idx : Index) (d : Declaration) (deadline : Deadline) : Report :=
  let heritage := idx.heritage d
  let target := idx.merged d
  let candidates := idx.filesWithAnyToken (References.searchNames idx target.name)
  let found := if deadline.expired then [] else edges idx target
  let children := distinct ((target.keys.flatMap (subtypesOf found)).filter (·.isUser))
  { symbol := d.ref
    kind := d.kind
    extends_ := heritage.extends_.map (·.first.ref)
    implements := dropRepeats (heritage.implements.map (·.first.ref))
    subtypes := (children.map Declaration.ref).mergeSort
      fun a b => locationLe a.location b.location
    isAbstract := d.kind == .classType && d.node.isAbstract
    typeParameters := typeParameters d
    partly := deadline.expired && !candidates.isEmpty }

end Hierarchy

def typeHierarchy (idx : Index) (q : SymbolQuery) (options : Hierarchy.Options) :
    Except Failure Hierarchy.Report :=
  (locateDeclaration idx q).bind fun d =>
    if d.kind == .classType || d.kind == .interfaceType then
      .ok (Hierarchy.report idx d ⟨options.timeoutMs.getD idx.settings.hierarchyTimeoutMs⟩)
    else .error (.notAHierarchy d.name d.kind)

end ScriptAtlas.Query
