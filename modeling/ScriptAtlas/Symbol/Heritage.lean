import ScriptAtlas.Symbol.Qualified
import ScriptAtlas.Symbol.Type

/-!
# Heritage and members

What a class or an interface extends and implements, and where a member comes from: a type's own
members go first, then those of the types it builds on, depth first. What `a.b` stands for as the base
of a class depends on the types of values and is a parameter here.
-/

namespace ScriptAtlas

open Project Syntax

abbrev MemberSymbols := SourceFile → Node → Option Symbol

/-! ## Clauses -/

structure HeritageNodes where
  /-- What a class extends. -/
  extends_ : List Node
  /-- What a class implements, or an interface extends. -/
  implements : List Node

def HeritageNodes.ofPart (part : Node) : HeritageNodes :=
  match part.kind? with
  | some .classHeritage =>
    { extends_ := (part.namedChildren.filter (·.hasKind .extendsClause)).filterMap fun clause =>
        clause.field? .value <|> clause.namedChildren.head?
      implements := (part.namedChildren.filter (·.hasKind .implementsClause)).flatMap
        Node.namedChildren }
  | some .extendsTypeClause => { extends_ := [], implements := part.namedChildren }
  | _ => { extends_ := [], implements := [] }

def HeritageNodes.of (declaration : Node) : HeritageNodes :=
  let parts := declaration.namedChildren.map HeritageNodes.ofPart
  { extends_ := parts.flatMap (·.extends_), implements := parts.flatMap (·.implements) }

structure Heritage where
  extends_ : Option Symbol
  implements : List Symbol

def Heritage.symbols (h : Heritage) : List Symbol := h.extends_.toList ++ h.implements

def isBaseKind (k : SymbolKind) : Bool :=
  k == .classType || k == .interfaceType || k == .typeAlias

/-- What one heritage expression stands for, with at most `fuel` layers of type arguments. -/
def heritageSymbolUpTo (idx : Index) (members : MemberSymbols) (file : SourceFile) :
    Nat → Node → Option Symbol
  | 0, _ => none
  | fuel + 1, node =>
    let resolved (s : Option Symbol) : Option Symbol :=
      s.bind fun s => (idx.resolveSymbol s).filterKind? isBaseKind
    match node.kind? with
    | some .identifier => resolved (idx.resolveName file node node.text .value)
    | some .typeIdentifier => resolved (idx.resolveName file node node.text .type)
    | some .genericType =>
      (node.field? .name).bind (heritageSymbolUpTo idx members file fuel)
    | some .memberExpression => resolved (members file node)
    | some .nestedTypeIdentifier | some .nestedIdentifier =>
      resolved (idx.resolveQualified file node)
    | _ => none

def heritageSymbol (idx : Index) (members : MemberSymbols) (file : SourceFile) (node : Node) :
    Option Symbol :=
  heritageSymbolUpTo idx members file node.entry.size node

def heritageOf (idx : Index) (members : MemberSymbols) (d : Declaration) : Heritage :=
  let nodes := HeritageNodes.of d.node
  { extends_ := nodes.extends_.head?.bind (heritageSymbol idx members d.file)
    implements := nodes.implements.filterMap (heritageSymbol idx members d.file) }

/-! ## Members through heritage -/

/-- The first `own` answer on a depth-first walk along `parents`, with the keys that the walk has
passed; none is passed twice. The walk goes at most `fuel` levels deep. -/
def firstInherited {α β κ : Type} [BEq κ] (key : α → κ) (own : α → List β) (parents : α → List α) :
    Nat → α → List κ → List β × List κ
  | 0, _, visited => ([], visited)
  | fuel + 1, a, visited =>
    if visited.contains (key a) then ([], visited)
    else if !(own a).isEmpty then (own a, key a :: visited)
    else
      (parents a).foldl (fun (found, visited) p =>
        if found.isEmpty then firstInherited key own parents fuel p visited else (found, visited))
        ([], key a :: visited)

/-- The declarations whose members a type has: all parts of an interface, or the declaration. -/
def memberHolders (idx : Index) (d : Declaration) : List Declaration :=
  if d.kind == .interfaceType then
    (idx.merged d).declarations.filter (·.kind == .interfaceType)
  else [d]

def declaredMembers (idx : Index) (name : String) (d : Declaration) : List Declaration :=
  (memberHolders idx d).flatMap (·.ownMembers name)

def parentTypes (idx : Index) (members : MemberSymbols) (d : Declaration) : List Declaration :=
  (memberHolders idx d).flatMap fun holder =>
    (heritageOf idx members holder).symbols.flatMap Symbol.declarations

def typeMember (idx : Index) (members : MemberSymbols) (d : Declaration) (name : String) :
    List Declaration :=
  (firstInherited Declaration.key (declaredMembers idx name) (parentTypes idx members)
    (idx.nodeCount + 1) d []).1

def enclosingClass? (file : SourceFile) (node : Node) : Option Declaration :=
  (node.findAncestor? (·.hasKindIn
    [.classDeclaration, .abstractClassDeclaration, .classExpression])).bind
      (Declaration.ofNode? file)

end ScriptAtlas
