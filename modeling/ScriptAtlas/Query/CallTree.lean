import ScriptAtlas.Query.References

/-!
# Call trees

What a callable calls and what calls it, as trees. The tree of a relation is its unfolding from a
root: a node whose declaration is already on the path from the root is marked and not unfolded again,
and so is a node at the limit of depth that would have children.
-/

namespace ScriptAtlas.Query

open Project Syntax

/-- Why a node of a call tree is not unfolded further. -/
inductive CallMark where
  /-- It is unfolded. -/
  | none
  /-- It is on the path from the root already. -/
  | cyclic
  /-- It is at the limit of depth and has children. -/
  | depthLimited
deriving DecidableEq, Repr, Inhabited

structure CallEdge (α : Type) where
  target : α
  lines : List Nat
deriving Inhabited

inductive CallTree (α : Type) where
  | node (target : α) (lines : List Nat) (mark : CallMark) (children : List (CallTree α))
deriving Inhabited

namespace CallTree

variable {α κ : Type} [BEq κ]

/-- The trees below a declaration, given what it calls, at most `fuel` levels deep. The budget is the
number of levels that may be unfolded, if there is a limit. -/
def unfold (key : α → κ) (edges : α → List (CallEdge α)) :
    Nat → Option Nat → List κ → α → List (CallTree α)
  | 0, _, _, _ => []
  | fuel + 1, budget, path, a =>
    (edges a).map fun e =>
      if path.contains (key e.target) then .node e.target e.lines .cyclic []
      else if budget == some 1 then
        .node e.target e.lines (if (edges e.target).isEmpty then .none else .depthLimited) []
      else
        .node e.target e.lines .none
          (unfold key edges fuel (budget.map (· - 1)) (key e.target :: path) e.target)

end CallTree

namespace Calls

/-! ## Edges -/

/-- The node that calls inside a body belong to, and the body: of a function, or of the constructor of
a class. -/
def bodyOf? (d : Declaration) : Option (Node × Node) :=
  if d.kind == .classType then
    d.constructorNode?.bind fun c => (c.field? .body).map fun body => (c, body)
  else
    (d.node.functionNode?.bind (·.field? .body)).map fun body => (d.node, body)

def calleeName? (callee : Node) : Option Node :=
  match callee.kind? with
  | some .identifier => some callee
  | some .memberExpression => callee.field? .property
  | _ => none

def calleeOf? (n : Node) : Option Node :=
  match n.kind? with
  | some .callExpression => n.field? .function
  | some .newExpression => n.field? .constructor
  | _ => none

/-- The declaration that a call in `owner` targets, with its line; calls inside other callables with
a name belong to those. -/
def target? (idx : Index) (file : SourceFile) (owner n : Node) : Option (Declaration × Nat) := do
  let callee ← calleeOf? n
  let (enclosing, _) ← n.enclosingCallable?
  if enclosing != owner then none
  let token ← calleeName? callee.unwrap
  let symbol ← idx.resolveAt? file token
  let d := symbol.implementation
  if d.isUser && d.effectiveKind.isCallable then some (d, token.line) else none

def addCall (edges : List (CallEdge Declaration)) (call : Declaration × Nat) :
    List (CallEdge Declaration) :=
  if edges.any (·.target.sameAs call.1) then
    edges.map fun e => if e.target.sameAs call.1 then { e with lines := e.lines ++ [call.2] } else e
  else edges ++ [{ target := call.1, lines := [call.2] }]

def callees (idx : Index) (d : Declaration) : List (CallEdge Declaration) :=
  match bodyOf? d with
  | none => []
  | some (owner, body) =>
    let calls := body.descendants.filterMap (target? idx d.file owner)
    (calls.foldl addCall []).map fun e => { e with lines := References.sortedLines e.lines }

def callerAt? (site : ReferenceSite) : Option Declaration :=
  site.node.enclosingCallable?.map fun (owner, name) =>
    ((Declaration.ofName? site.file name).filter (·.node == owner)).getD
      { file := site.file, kind := .function, node := owner, nameNode := name }

def callerLe (a b : Declaration) : Bool :=
  if a.file.relPath < b.file.relPath then true
  else if b.file.relPath < a.file.relPath then false
  else if a.key.file == b.key.file then a.key.start ≤ b.key.start else a.key.file < b.key.file

/-- The callables that call a declaration, in the order of their places. Calls outside of all
callables have no caller. -/
def callers (idx : Index) (d : Declaration) : List (CallEdge Declaration) :=
  let found := References.find idx (idx.merged d)
    (SearchOptions.within idx.settings.referenceTimeoutMs)
  let calls := (found.sites.filter (·.kind == .called)).filterMap fun site =>
    (callerAt? site).map fun caller => (caller, site.line)
  ((calls.foldl addCall []).map fun e =>
    { e with lines := References.sortedLines e.lines }).mergeSort
      fun a b => callerLe a.target b.target

/-! ## Trees -/

inductive Direction where
  | outgoing | incoming | both
deriving DecidableEq, Repr, Inhabited

/-- How call trees are asked for; a negative depth is no limit. -/
structure Options where
  depth : Int
  direction : Direction
deriving DecidableEq, Repr, Inhabited

def Options.default : Options := ⟨1, .both⟩

/-- The number of levels to unfold; a depth of 0 counts as 1. -/
def Options.budget (o : Options) : Option Nat :=
  if o.depth < 0 then none else some (max 1 o.depth.toNat)

structure Hierarchy where
  symbol : SymbolRef
  depth : Int
  outgoing : List (CallTree Declaration)
  incoming : List (CallTree Declaration)
deriving Inhabited

/-- A bound on the keys of the declarations of a project: their names are nodes of its files, or
stand at the start of one. -/
def keyBound (idx : Index) : Nat := idx.nodeCount + idx.files.size

/-- The tree of a relation between declarations; no path without repetition is longer than there are
keys. -/
def tree (idx : Index) (edges : Declaration → List (CallEdge Declaration)) (budget : Option Nat)
    (d : Declaration) : List (CallTree Declaration) :=
  CallTree.unfold Declaration.key edges (keyBound idx + 1) budget [d.key] d

def hierarchy (idx : Index) (d : Declaration) (options : Options) : Hierarchy :=
  { symbol := d.ref
    depth := options.depth
    outgoing := if options.direction == .incoming then []
      else tree idx (callees idx) options.budget d
    incoming := if options.direction == .outgoing then []
      else tree idx (callers idx) options.budget d }

end Calls

def callHierarchy (idx : Index) (q : SymbolQuery) (options : Calls.Options) :
    Except Failure Calls.Hierarchy :=
  (locateCallable idx q).map fun d => Calls.hierarchy idx d options

end ScriptAtlas.Query
