import ScriptAtlas.Syntax.Kind

/-!
# Concrete syntax before numbering

What the grammar builds: a tree of labelled spans of the source, given in characters. Numbering the
nodes and inserting the comments comes afterwards.
-/

namespace ScriptAtlas.Syntax

/-- A labelled span of the source with its parts in order. -/
inductive Shape where
  | mk (label : Label) (field : Option Field) (start stop : Nat) (children : List Shape)
deriving Inhabited

namespace Shape

def label : Shape → Label
  | mk l _ _ _ _ => l

def field : Shape → Option Field
  | mk _ f _ _ _ => f

def start : Shape → Nat
  | mk _ _ a _ _ => a

def stop : Shape → Nat
  | mk _ _ _ b _ => b

def children : Shape → List Shape
  | mk _ _ _ _ cs => cs

def part (s : Shape) (f : Field) : Shape :=
  mk s.label (some f) s.start s.stop s.children

def relabel (s : Shape) (k : Kind) : Shape :=
  mk (.named k) s.field s.start s.stop s.children

def hasKind (s : Shape) (k : Kind) : Bool :=
  s.label == .named k

def token (text : String) (start stop : Nat) : Shape :=
  mk (.token text) none start stop []

def leaf (k : Kind) (start stop : Nat) : Shape :=
  mk (.named k) none start stop []

/-- A named node that spans its parts; without parts it stands at `at_`. -/
def branch (k : Kind) (at_ : Nat) (children : List Shape) : Shape :=
  let first := (children.head?.map start).getD at_
  let last := (children.getLast?.map stop).getD at_
  mk (.named k) none first last children

end Shape

end ScriptAtlas.Syntax
