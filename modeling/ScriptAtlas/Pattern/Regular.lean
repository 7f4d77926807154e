/-!
# Regular patterns

Regular expressions over any alphabet, with assertions about the symbols on either side of a
position. Matching computes, for a start, the positions at which a match may end; repetition adds
positions until none is new, so it stops after as many rounds as the word has positions.
-/

namespace ScriptAtlas.Pattern

inductive Regular (σ : Type) where
  | empty
  | one (p : σ → Bool)
  | seq (a b : Regular σ)
  | alt (a b : Regular σ)
  | many (a : Regular σ)
  /-- Matches the empty word where `p` holds of the symbols before and behind the position. -/
  | between (p : Option σ → Option σ → Bool)

namespace Regular

variable {σ : Type}

def addNew (seen more : List Nat) : List Nat :=
  more.foldl (fun s i => if s.contains i then s else s ++ [i]) seen

/-- The positions reachable by repeated steps; `fuel` bounds the rounds. -/
def closure (step : Nat → List Nat) : Nat → List Nat → List Nat
  | 0, seen => seen
  | fuel + 1, seen =>
    let wider := addNew seen (seen.flatMap step)
    if wider.length = seen.length then seen else closure step fuel wider

def before (w : Array σ) (i : Nat) : Option σ := if i = 0 then none else w[i - 1]?

/-- The ends of the matches that begin at `i`. -/
def ends (w : Array σ) : Regular σ → Nat → List Nat
  | empty, i => [i]
  | one p, i => if (w[i]?).any p then [i + 1] else []
  | seq a b, i => addNew [] ((ends w a i).flatMap (ends w b))
  | alt a b, i => addNew (ends w a i) (ends w b i)
  | many a, i => closure (ends w a) (w.size + 1) [i]
  | between p, i => if p (before w i) w[i]? then [i] else []

def accepts (r : Regular σ) (w : Array σ) : Bool := (ends w r 0).contains w.size

def occursIn (r : Regular σ) (w : Array σ) : Bool :=
  (List.range (w.size + 1)).any fun i => !(ends w r i).isEmpty

def inOrder (rs : List (Regular σ)) : Regular σ := rs.foldr seq empty

def optional (r : Regular σ) : Regular σ := alt r empty

def times (r : Regular σ) : Nat → Regular σ
  | 0 => empty
  | n + 1 => seq r (times r n)

def upTo (r : Regular σ) : Nat → Regular σ
  | 0 => empty
  | n + 1 => optional (seq r (upTo r n))

def word [BEq σ] (xs : List σ) : Regular σ := inOrder (xs.map fun x => one (· == x))

end Regular

end ScriptAtlas.Pattern
