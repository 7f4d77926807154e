import ScriptAtlas.Syntax.Source
import ScriptAtlas.Syntax.Grammar

/-!
# Syntax trees

A parsed file as a table of nodes, numbered in the order in which they begin; the root is number 0.
Each entry knows the numbers of its ancestors, nearest first, and of its children, so walking up and
down is a matter of lists. A `Node` is a number together with its tree.
-/

namespace ScriptAtlas.Syntax

/-- One node of a syntax tree. Positions count characters. -/
structure Entry where
  label : Label
  field : Option Field
  start : Nat
  stop : Nat
  ancestors : List Nat
  children : List Nat
  /-- The number of nodes in the subtree, this one included. -/
  size : Nat
deriving Inhabited

structure Tree where
  source : Source
  entries : Array Entry
deriving Inhabited

/-! ## Comments -/

def commentShapes (cs : Array Char) (a b : Nat) : List Shape :=
  (commentsBetween cs b (b - a + 1) a).map fun (s, e) => Shape.leaf .comment s e

mutual

/-- The same node with each comment in the smallest node around it. -/
def Shape.withComments (cs : Array Char) : Shape → Shape
  | .mk l f a b [] => .mk l f a b []
  | .mk l f a b (c :: rest) =>
    .mk l f a b (c.withComments cs :: Shape.withCommentsFrom cs c.stop rest)

/-- The parts behind a part that ends at `pos`, with the comments in the gaps. -/
def Shape.withCommentsFrom (cs : Array Char) (pos : Nat) : List Shape → List Shape
  | [] => []
  | c :: rest =>
    commentShapes cs pos c.start ++
      (c.withComments cs :: Shape.withCommentsFrom cs c.stop rest)

end

/-- The root with all comments of the file, those before and behind all statements included. -/
def Shape.withAllComments (cs : Array Char) : Shape → Shape
  | .mk l f _ b parts =>
    let inner := Shape.withCommentsFrom cs 0 parts
    let last := (parts.getLast?.map Shape.stop).getD 0
    let all := inner ++ commentShapes cs last cs.size
    .mk l f ((all.head?.map Shape.start).getD b) b all

/-! ## Numbering -/

mutual

def Shape.enter (ancestors : List Nat) : Shape → Array Entry → Array Entry
  | .mk l f a b parts, table =>
    let id := table.size
    let placed := table.push
      { label := l, field := f, start := a, stop := b, ancestors, children := [], size := 1 }
    let (filled, ids) := Shape.enterAll (id :: ancestors) parts placed
    filled.modify id fun e => { e with children := ids, size := filled.size - id }

def Shape.enterAll (ancestors : List Nat) : List Shape → Array Entry → Array Entry × List Nat
  | [], table => (table, [])
  | p :: ps, table =>
    let id := table.size
    let (rest, ids) := Shape.enterAll ancestors ps (p.enter ancestors table)
    (rest, id :: ids)

end

/-- Parses a text; `markup` says whether markup elements may stand in expressions. -/
def Tree.parse (text : String) (markup : Bool) : Tree :=
  let source := Source.ofString text
  let shape := Grammar.parse { chars := source.chars, markup }
  { source, entries := (shape.withAllComments source.chars).enter [] #[] }

structure Node where
  tree : Tree
  id : Nat
deriving Inhabited

namespace Tree

def size (t : Tree) : Nat := t.entries.size

def node (t : Tree) (id : Nat) : Node := ⟨t, id⟩

def root (t : Tree) : Node := ⟨t, 0⟩

def nodes (t : Tree) : List Node := (List.range t.size).map t.node

end Tree

namespace Node

/-- Two nodes of one tree are the same when their numbers are. -/
instance : BEq Node := ⟨fun m n => m.id == n.id⟩

def entry (n : Node) : Entry := (n.tree.entries[n.id]?).getD default

def label (n : Node) : Label := n.entry.label

def isNamed (n : Node) : Bool := n.label.isNamed

def kind? (n : Node) : Option Kind := n.label.kind?

def hasKind (n : Node) (k : Kind) : Bool := n.kind? == some k

def hasKindIn (n : Node) (ks : List Kind) : Bool := n.kind?.any ks.contains

def isToken (n : Node) (text : String) : Bool := n.label == .token text

def start (n : Node) : Mark := n.tree.source.mark n.entry.start

def stop (n : Node) : Mark := n.tree.source.mark n.entry.stop

def startByte (n : Node) : Nat := n.start.byte

def line (n : Node) : Nat := n.start.line

def endLine (n : Node) : Nat := n.stop.line

def column (n : Node) : Nat := n.start.column

def text (n : Node) : String := n.tree.source.slice n.entry.start n.entry.stop

def ancestors (n : Node) : List Node := n.entry.ancestors.map n.tree.node

def parent? (n : Node) : Option Node := n.entry.ancestors.head?.map n.tree.node

def parentHasKind (n : Node) (k : Kind) : Bool := n.parent?.any (·.hasKind k)

def children (n : Node) : List Node := n.entry.children.map n.tree.node

def namedChildren (n : Node) : List Node := n.children.filter isNamed

def parts (n : Node) : List Node := n.namedChildren.filter (!·.hasKind .comment)

def field? (n : Node) (f : Field) : Option Node := n.children.find? (·.entry.field == some f)

def isFieldOf (n : Node) (f : Field) (parent : Node) : Bool := (parent.field? f).any (· == n)

def hasToken (n : Node) (text : String) : Bool := n.children.any (·.isToken text)

def descendants (n : Node) : List Node :=
  (List.range' n.id n.entry.size).map n.tree.node

def findAncestor? (n : Node) (p : Node → Bool) : Option Node := n.ancestors.find? p

def wrappedExpression? (n : Node) : Option Node :=
  n.namedChildren.find? fun c => !c.hasKind .typeArguments && !c.hasKind .comment

def unwrapUpTo : Nat → Node → Node
  | 0, n => n
  | fuel + 1, n =>
    if n.kind?.any Kind.isTransparentWrapper then
      match n.wrappedExpression? with
      | some inner => unwrapUpTo fuel inner
      | none => n
    else n

/-- The expression inside all transparent wrappers; an expression has no more wrappers than
nodes. -/
def unwrap (n : Node) : Node := unwrapUpTo n.entry.size n

/-- The outermost transparent wrapper around an expression, or the expression itself. -/
def outermostWrapper (n : Node) : Node :=
  ((n.ancestors.takeWhile fun a => a.kind?.any Kind.isTransparentWrapper).getLast?).getD n

def stringValue (n : Node) : String :=
  let isQuote (c : Char) : Bool := c == '\x22' || c == '\x27' || c == '\x60'
  String.ofList (((n.text.toList.dropWhile isQuote).reverse.dropWhile isQuote).reverse)

/-- The text of a name without single and double quotes around it. -/
def bareText (n : Node) : String :=
  let isQuote (c : Char) : Bool := c == '\x22' || c == '\x27'
  String.ofList (((n.text.toList.dropWhile isQuote).reverse.dropWhile isQuote).reverse)

def containsPlace (n : Node) (line column : Nat) : Bool :=
  n.start.isAtOrBefore line column && !n.stop.isAtOrBefore line column

end Node

/-- The innermost node at a place, or the root where there is none. Of the nodes that contain a place
the innermost comes last. -/
def Tree.nodeAt (t : Tree) (line column : Nat) : Node :=
  (t.nodes.reverse.find? (·.containsPlace line column)).getD t.root

end ScriptAtlas.Syntax
