import ScriptAtlas.Query.Failure
import ScriptAtlas.Query.SymbolRef

/-!
# Locating symbols

The declaration that a query by name means: `name`, or `Owner.member`, perhaps in a given file and at
a given line. Of several declarations with one name in a file the kind decides, in a fixed order of
preference, and then the order in the file. Imports and parameters count only where nothing else has
the name.
-/

namespace ScriptAtlas.Query

open Project Syntax

structure SymbolQuery where
  name : String
  file : Option String
  line : Option Nat
deriving DecidableEq, Repr, Inhabited

structure LocatedSymbol where
  symbol : SymbolRef
  kind : SymbolKind
  exported : Bool
  modifiers : List String
  merged : List SymbolRef
deriving DecidableEq, Repr, Inhabited

namespace Locate

def bindingPriority : Nat := 7

def priority : SymbolKind → Nat
  | .function => 0
  | .classType => 1
  | .interfaceType => 2
  | .typeAlias => 3
  | .enumType | .enumMember => 4
  | .variableName => 5
  | .method | .constructor | .accessor | .property => 6
  | _ => bindingPriority

def firstLeast {α : Type} (lt : α → α → Bool) : List α → Option α
  | [] => none
  | a :: rest => some (rest.foldl (fun best b => if lt b best then b else best) a)

def byteSize (n : Node) : Nat := n.stop.byte - n.start.byte

def isCloser (a b : Declaration) : Bool :=
  let (p, q) := (priority a.kind, priority b.kind)
  p < q || (p == q && byteSize a.node < byteSize b.node)

/-- The candidate that is meant: around the given line the closest one, otherwise the first of the
best kind. -/
def pick (candidates : List Declaration) (line : Option Nat) : Option Declaration :=
  let around := match line with
    | some l => candidates.filter fun d => d.node.line ≤ l && l ≤ d.node.endLine
    | none => []
  firstLeast isCloser around
    <|> firstLeast (fun a b => priority a.kind < priority b.kind) candidates

def declarations (file : SourceFile) (name : String) (primary : Bool) : List Declaration :=
  file.tree.nodes.filterMap fun node =>
    match node.declarationKind?, node.declarationName? with
    | some kind, some nameNode =>
      if (primary && bindingPriority ≤ priority kind) || nameNode.bareText != name then none
      else some { file, kind, node, nameNode }
    | _, _ => none

def bindings (file : SourceFile) (name : String) : List Declaration :=
  ((SourceFile.identifiers file.tree).filter (·.text == name)).filterMap
    (Declaration.ofName? file)

def throughImport (idx : Index) (d : Declaration) : Declaration :=
  if d.isAlias then (idx.resolveSymbol (Symbol.single d)).first else d

def inFile (idx : Index) (file : SourceFile) (name : String) (line : Option Nat) :
    Option Declaration :=
  let proper := declarations file name false
  (pick (if proper.isEmpty then bindings file name else proper) line).map (throughImport idx)

/-- The declaration that a name means in a project: a proper declaration in the first file that has
one, or else whatever has the name. -/
def anywhere (idx : Index) (name : String) : Option Declaration :=
  idx.files.toList.findSome? (fun f => pick (declarations f name true) none)
    <|> idx.files.toList.findSome? fun f => inFile idx f name none

def memberOf (idx : Index) (owner : Declaration) (member : String) : Option Declaration :=
  match owner.kind with
  | .classType | .interfaceType | .enumType =>
    (owner.ownMembers member).head? <|> (idx.typeMember owner member).head?
  | _ => (idx.namespaceMember owner member).head?

def notFound (idx : Index) (name : String) (file : Option String) : Failure :=
  .symbolNotFound name (if (file.bind idx.findFile?).isSome then 1 else idx.files.size)

/-- The declaration that a query means, through at most `fuel` owners. -/
def upTo (idx : Index) : Nat → SymbolQuery → Except Failure Declaration
  | 0, q => .error (notFound idx (Text.trim q.name) q.file)
  | fuel + 1, q =>
    let name := Text.trim q.name
    if name == "" then .error .emptyName
    else
      let dotted := (Text.splitLast? '.' name).filter fun (owner, member) =>
        owner != "" && member != ""
      let found := match dotted with
        | some (owner, member) =>
          match upTo idx fuel { name := owner, file := q.file, line := none } with
          | .ok d => memberOf idx d member
          | .error _ => none
        | none =>
          match q.file.bind idx.findFile? with
          | some file => inFile idx file name q.line
          | none => anywhere idx name
      match found with
      | some d => .ok d
      | none => .error (notFound idx name q.file)

end Locate

/-- The declaration that a query means; each owner is a shorter name. -/
def locateDeclaration (idx : Index) (q : SymbolQuery) : Except Failure Declaration :=
  Locate.upTo idx (q.name.length + 1) q

/-- The declaration that a query means, where overloads stand for their implementation. -/
def locateCallable (idx : Index) (q : SymbolQuery) : Except Failure Declaration :=
  (locateDeclaration idx q).map fun d => (idx.merged d).implementation

def locate (idx : Index) (q : SymbolQuery) : Except Failure LocatedSymbol :=
  (locateDeclaration idx q).map fun d =>
    { symbol := d.ref
      kind := d.effectiveKind
      exported := d.isExported
      modifiers := d.node.modifiers
      merged := ((idx.merged d).declarations.filter (!·.sameAs d)).map Declaration.ref }

end ScriptAtlas.Query
