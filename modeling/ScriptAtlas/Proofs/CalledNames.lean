import ScriptAtlas.Proofs.TypeParts

/-!
# Called names

An identifier counts as called if going up from it, through whatever wrappers there are, leads to what
a call calls. A call finds the name of what it calls by going down, through what each wrapper wraps.
Going up undoes going down, but it also starts from what stands beside a wrapped expression, the type
of an assertion, and then counts that as called.

* `Node.WrapsExpression`, `Node.isBeside`: the two kinds of parts of a wrapper;
* `Node.unwrap_outermostWrapper_iff`: when going down leads back to where going up started;
* `Usage.IsCalledName`: the name that a call finds;
* `Usage.classify_eq_called_iff`: which identifiers count as called.
-/

namespace ScriptAtlas

open List Syntax Query

namespace Syntax.Node

variable {n m c w : Node}

/-! ## Up and down through wrappers -/

/-- A transparent wrapper and the expression in it. -/
structure WrapsExpression (w c : Node) : Prop where
  wrapper : w.kind?.any Kind.isTransparentWrapper = true
  wrapped : w.wrappedExpression? = some c

/-- Whether the node is a part of a transparent wrapper, but not the expression in it. -/
def isBeside (n : Node) : Bool :=
  n.parent?.any fun w =>
    w.kind?.any Kind.isTransparentWrapper && !w.wrappedExpression?.any (· == n)

/-- The transparent wrappers around a node, up to the first node that is none. -/
def wrappers (n : Node) : List Node :=
  n.ancestors.takeWhile fun a => a.kind?.any Kind.isTransparentWrapper

/-- Whether the node or a wrapper around it stands beside a wrapped expression. -/
def standsBeside (n : Node) : Bool := (n :: n.wrappers).any isBeside

theorem isBeside_iff : n.isBeside = true ↔
    ∃ w, n.parent? = some w ∧ w.kind?.any Kind.isTransparentWrapper = true ∧ ¬ w.WrapsExpression n := by
  rw [isBeside, Option.any_eq_true]
  refine exists_congr fun w => and_congr_right fun hparent => ?_
  rw [Bool.and_eq_true, Bool.not_eq_true']
  refine and_congr_right fun hwrapper => ?_
  constructor
  · intro h hwraps
    rw [hwraps.wrapped, Option.any_some] at h
    exact Bool.eq_false_iff.1 h (beq_self_eq_true n.id)
  · intro h
    rw [Bool.eq_false_iff]
    intro hany
    obtain ⟨x, hx, hbeq⟩ := (Option.any_eq_true _ _).1 hany
    have htree : x.tree = n.tree :=
      (tree_of_mem_children (mem_of_mem_filter (mem_of_find?_eq_some hx))).trans
        (tree_of_parent? hparent)
    exact h ⟨hwrapper, Node.eq_of_beq hbeq htree ▸ hx⟩

theorem WrapsExpression.mem_children (h : w.WrapsExpression c) : c ∈ w.children :=
  mem_of_mem_filter (mem_of_find?_eq_some h.wrapped)

theorem wraps_unwrapUpTo (fuel : Nat) (n : Node) :
    Relation.ReflTransGen WrapsExpression n (unwrapUpTo fuel n) := by
  induction fuel generalizing n with
  | zero => exact .refl
  | succ fuel ih =>
    unfold unwrapUpTo
    split
    · next hwrapper =>
      split
      · next inner hinner => exact .head ⟨hwrapper, hinner⟩ (ih inner)
      · exact .refl
    · exact .refl

theorem unwrapUpTo_of_not_wraps (fuel : Nat) (h : ∀ c, ¬ n.WrapsExpression c) :
    unwrapUpTo fuel n = n := by
  rcases (wraps_unwrapUpTo fuel n).cases_head with heq | ⟨c, hc, -⟩
  · exact heq.symm
  · exact absurd hc (h c)

theorem unwrap_of_not_wraps (h : ∀ c, ¬ n.WrapsExpression c) : n.unwrap = n :=
  unwrapUpTo_of_not_wraps _ h

/-- Unwrapping goes all the way down: there are fewer wrappers than nodes in the outermost one. -/
theorem unwrap_of_wraps (ht : m.tree.IsParsed) (hn : ∀ c, ¬ n.WrapsExpression c)
    (h : Relation.ReflTransGen WrapsExpression m n) : m.unwrap = n := by
  suffices hfuel : ∀ fuel, m.entry.size ≤ fuel → unwrapUpTo fuel m = n from hfuel _ (Nat.le_refl _)
  induction h using Relation.ReflTransGen.head_induction_on with
  | refl => exact fun fuel _ => unwrapUpTo_of_not_wraps fuel hn
  | @head w c hwraps _ ih =>
    intro fuel hfuel
    have hlt := size_lt_of_mem_children ht hwraps.mem_children
    obtain ⟨fuel, rfl⟩ : ∃ k, fuel = k + 1 := ⟨fuel - 1, by omega⟩
    simp only [unwrapUpTo, hwraps.wrapper, hwraps.wrapped, if_true]
    exact ih (tree_of_mem_children hwraps.mem_children ▸ ht) fuel (by omega)

theorem size_le_of_wraps (ht : m.tree.IsParsed) (h : Relation.ReflTransGen WrapsExpression m n) :
    n.entry.size ≤ m.entry.size := by
  induction h using Relation.ReflTransGen.head_induction_on with
  | refl => exact Nat.le_refl _
  | head hwraps _ ih =>
    have hbelow := below_of_mem_children ht hwraps.mem_children
    exact (ih (hbelow.tree ▸ ht)).trans (Nat.le_of_lt hbelow.size)

theorem wrappers_of_wraps (ht : w.tree.IsParsed) (h : w.WrapsExpression c) : c.wrappers = w :: w.wrappers := by
  rw [wrappers, ancestors_of_mem_children ht h.mem_children, takeWhile_cons, h.wrapper]
  rfl

theorem outermostWrapper_of_wrappers (h : n.wrappers = []) : n.outermostWrapper = n := by
  change n.wrappers.getLast?.getD n = n
  rw [h]
  rfl

/-- The innermost wrapper around a node is its parent, and the others are around that. -/
theorem of_wrappers_eq_cons (ht : n.tree.IsParsed) {l : List Node} (h : n.wrappers = w :: l) :
    n.parent? = some w ∧ w.kind?.any Kind.isTransparentWrapper = true ∧ w.tree = n.tree ∧
      w.wrappers = l ∧ n.outermostWrapper = w.outermostWrapper := by
  have houter : n.outermostWrapper = n.wrappers.getLast?.getD n := rfl
  rw [houter, h]
  rw [wrappers] at h
  cases hancestors : n.ancestors with
  | nil =>
    rw [hancestors] at h
    cases h
  | cons a rest =>
    rw [hancestors, takeWhile_cons] at h
    split at h
    · next hwrapper =>
      obtain ⟨rfl, hl⟩ := List.cons.inj h
      have hfront : n.ancestors = [] ++ a :: rest := hancestors
      have hrest : a.ancestors = rest := ancestors_of_append ht hfront
      have hwrappers : a.wrappers = l := by rw [wrappers, hrest, hl]
      refine ⟨?_, hwrapper, ?_, hwrappers, ?_⟩
      · rw [parent?_eq_head?, hancestors]
        rfl
      · exact tree_of_mem_ancestors (hancestors ▸ mem_cons_self)
      · change _ = a.wrappers.getLast?.getD a
        rw [hwrappers, getLast?_cons, Option.getD_some]
    · cases h

theorem wrappers_outermostWrapper (ht : n.tree.IsParsed) : n.outermostWrapper.wrappers = [] := by
  generalize hl : n.wrappers = l
  induction l generalizing n with
  | nil => rw [outermostWrapper_of_wrappers hl, hl]
  | cons w l ih =>
    obtain ⟨-, -, htree, hwrappers, houter⟩ := of_wrappers_eq_cons ht hl
    rw [houter]
    exact ih (htree ▸ ht) hwrappers

theorem isBeside_of_wrappers (h : n.wrappers = []) : n.isBeside = false := by
  rw [Bool.eq_false_iff]
  intro hbeside
  obtain ⟨w, hparent, hwrapper, -⟩ := isBeside_iff.1 hbeside
  rw [parent?_eq_head?] at hparent
  obtain ⟨rest, hancestors⟩ := head?_eq_some_iff.1 hparent
  rw [wrappers, hancestors, takeWhile_cons, hwrapper] at h
  cases h

theorem isBeside_of_wraps (ht : w.tree.IsParsed) (h : w.WrapsExpression c) : c.isBeside = false := by
  rw [Bool.eq_false_iff]
  intro hbeside
  obtain ⟨w', hparent, -, hnot⟩ := isBeside_iff.1 hbeside
  rw [parent?_of_mem_children ht h.mem_children] at hparent
  cases hparent
  exact hnot h

/-- Going up and never from beside a wrapped expression, one can go down again. -/
theorem wraps_outermostWrapper (ht : n.tree.IsParsed) (h : n.standsBeside = false) :
    Relation.ReflTransGen WrapsExpression n.outermostWrapper n := by
  generalize hl : n.wrappers = l
  induction l generalizing n with
  | nil => rw [outermostWrapper_of_wrappers hl]
  | cons w l ih =>
    obtain ⟨hparent, hwrapper, htree, hwrappers, houter⟩ := of_wrappers_eq_cons ht hl
    rw [standsBeside, hl, any_cons, Bool.or_eq_false_iff] at h
    have hwraps : w.WrapsExpression n := by
      by_contra hnot
      exact Bool.eq_false_iff.1 h.1 (isBeside_iff.2 ⟨w, hparent, hwrapper, hnot⟩)
    rw [houter]
    refine .tail (ih (htree ▸ ht) ?_ hwrappers) hwraps
    rw [standsBeside, hwrappers]
    exact h.2

/-- Going down from a node with no wrapper around it, one is never beside a wrapped expression. -/
theorem standsBeside_of_wraps (ht : m.tree.IsParsed) (hm : m.wrappers = [])
    (h : Relation.ReflTransGen WrapsExpression m n) : n.tree = m.tree ∧ n.standsBeside = false := by
  induction h with
  | refl =>
    rw [standsBeside, hm, any_cons, isBeside_of_wrappers hm]
    exact ⟨rfl, rfl⟩
  | @tail w c _ hwraps ih =>
    obtain ⟨htree, hnot⟩ := ih
    have hw : w.tree.IsParsed := htree ▸ ht
    refine ⟨(tree_of_mem_children hwraps.mem_children).trans htree, ?_⟩
    rw [standsBeside, wrappers_of_wraps hw hwraps, any_cons, isBeside_of_wraps hw hwraps]
    exact hnot

/-- Going up through wrappers and down again leads back, unless it started beside a wrapped
expression. -/
theorem unwrap_outermostWrapper_iff (ht : n.tree.IsParsed)
    (hn : n.kind?.any Kind.isTransparentWrapper = false) :
    n.outermostWrapper.unwrap = n ↔ n.standsBeside = false := by
  have houter : n.outermostWrapper.tree.IsParsed := (tree_outermostWrapper n).symm ▸ ht
  constructor
  · intro h
    have hwraps : Relation.ReflTransGen WrapsExpression n.outermostWrapper n.outermostWrapper.unwrap :=
      wraps_unwrapUpTo _ _
    rw [h] at hwraps
    exact (standsBeside_of_wraps houter (wrappers_outermostWrapper ht) hwraps).2
  · exact fun h => unwrap_of_wraps houter (fun _ hc => Bool.eq_false_iff.1 hn hc.wrapper)
      (wraps_outermostWrapper ht h)

theorem field?_of_isFieldOf {f : Field} {p : Node} (hp : n.parent? = some p)
    (h : n.isFieldOf f p = true) : p.field? f = some n := by
  obtain ⟨x, hx, hbeq⟩ := (Option.any_eq_true _ _).1 h
  have htree : x.tree = n.tree :=
    (tree_of_mem_children (mem_of_find?_eq_some hx)).trans (tree_of_parent? hp)
  rw [hx, Node.eq_of_beq hbeq htree]

end Syntax.Node

namespace Query.Usage

open Syntax.Node Calls

variable {token : Node}

/-! ## Identifiers that count as called -/

/-- The identifier is the name of what some call or construction calls, wrappers apart. -/
def IsCalledName (token : Node) : Prop :=
  ∃ call callee, calleeOf? call = some callee ∧ IsNamedBy callee.unwrap token

theorem isNamedBy_expressionOf (hk : token.kind?.any Kind.isIdentifier = true) :
    IsNamedBy (expressionOf token) token := by
  unfold expressionOf
  split
  · next p hp =>
    split
    · next hproperty =>
      obtain ⟨hmember, hfield⟩ := Bool.and_eq_true_iff.1 hproperty
      exact .property (beq_iff_eq.1 hmember) (field?_of_isFieldOf hp hfield)
    · exact .self hk rfl
  · exact .self hk rfl

theorem tree_expressionOf (hk : token.kind?.any Kind.isIdentifier = true) :
    (expressionOf token).tree = token.tree :=
  (isNamedBy_expressionOf hk).tree.symm

theorem not_wrapper_expressionOf (hk : token.kind?.any Kind.isIdentifier = true) :
    (expressionOf token).kind?.any Kind.isTransparentWrapper = false := by
  rcases isNamedBy_expressionOf hk with ⟨hk, h⟩ | ⟨hk, -⟩
  · rw [h]
    exact any_kind_eq hk fun k => by cases k <;> decide
  · rw [hk]
    rfl

theorem calleeOf?_of_isCallee {outer : Node} (h : isCallee outer = true) :
    ∃ call, calleeOf? call = some outer := by
  obtain ⟨p, hp, hcalls⟩ := (Option.any_eq_true _ _).1 h
  rcases Bool.or_eq_true_iff.1 hcalls with hcall | hnew
  · obtain ⟨hk, hfield⟩ := Bool.and_eq_true_iff.1 hcall
    refine ⟨p, ?_⟩
    rw [calleeOf?, beq_iff_eq.1 hk]
    exact field?_of_isFieldOf hp hfield
  · obtain ⟨hk, hfield⟩ := Bool.and_eq_true_iff.1 hnew
    refine ⟨p, ?_⟩
    rw [calleeOf?, beq_iff_eq.1 hk]
    exact field?_of_isFieldOf hp hfield

/-- Outside lists of imports and exports, being called is decided by going up. -/
theorem classify_eq_called_iff_isCallee (himport : inImport token = false) :
    classify token = .called ↔ isCallee (expressionOf token).outermostWrapper = true := by
  unfold classify
  simp only [himport, Bool.false_eq_true, if_false]
  split
  · next h => simp [h]
  · next h =>
    refine iff_of_false ?_ h
    split
    · nofun
    · split <;> nofun

section Parsed

variable (ht : token.tree.IsParsed) (hk : token.kind?.any Kind.isIdentifier = true)

include ht hk

theorem standsBeside_of_isCalledName (h : IsCalledName token) :
    (expressionOf token).standsBeside = false := by
  obtain ⟨call, callee, hcallee, hnamed⟩ := h
  have hcall : call.tree.IsParsed := tree_of_isNamedBy hcallee hnamed ▸ ht
  refine (unwrap_outermostWrapper_iff (tree_expressionOf hk ▸ ht) (not_wrapper_expressionOf hk)).1 ?_
  rw [outermostWrapper_of_isNamedBy hcall hcallee hnamed,
    expressionOf_of_isNamedBy hcall hcallee hnamed]

/-- What is reached going up from an identifier, but not from beside a wrapped expression, is reached
from its call going down. -/
theorem isCalledName_of_isCallee (h : isCallee (expressionOf token).outermostWrapper = true)
    (hbeside : (expressionOf token).standsBeside = false) : IsCalledName token := by
  obtain ⟨call, hcall⟩ := calleeOf?_of_isCallee h
  refine ⟨call, _, hcall, ?_⟩
  rw [(unwrap_outermostWrapper_iff (tree_expressionOf hk ▸ ht) (not_wrapper_expressionOf hk)).2 hbeside]
  exact isNamedBy_expressionOf hk

end Parsed

/-- An identifier of a parsed text that stands in no list of imports or exports counts as called if it is
the name of what some call or construction calls, wrappers apart, and in one more case: it stands beside
the expression in a wrapper, and the wrapper is what is called. It is no called name then. So counting as
called and being a called name are the same exactly where this is not the case. -/
theorem classify_eq_called_iff (token : Node) (ht : token.tree.IsParsed)
    (hk : token.kind?.any Kind.isIdentifier = true) (himport : inImport token = false) :
    ((classify token = .called ↔ IsCalledName token) ↔
      ¬ (isCallee (expressionOf token).outermostWrapper = true ∧
        (expressionOf token).standsBeside = true)) ∧
    (classify token = .called ↔ IsCalledName token ∨
      (isCallee (expressionOf token).outermostWrapper = true ∧
        (expressionOf token).standsBeside = true)) ∧
    ((expressionOf token).standsBeside = true → ¬ IsCalledName token) := by
  have hup := classify_eq_called_iff_isCallee himport
  have hcalled : IsCalledName token → classify token = .called := by
    rintro ⟨call, callee, hcallee, hnamed⟩
    exact classify_of_isNamedBy (tree_of_isNamedBy hcallee hnamed ▸ ht) hcallee hnamed
  cases hbeside : (expressionOf token).standsBeside with
  | true =>
    have hnot : ¬ IsCalledName token := fun h => by
      simp [standsBeside_of_isCalledName ht hk h] at hbeside
    simp [hup, hnot]
  | false =>
    have hdown := fun h => isCalledName_of_isCallee ht hk h hbeside
    simp only [Bool.false_eq_true, and_false, not_false_eq_true, iff_true, or_false, false_imp_iff,
      and_true, and_self]
    exact ⟨fun h => hdown (hup.1 h), hcalled⟩

/-- A call of a value with a type asserted of it. -/
def assertedCall : Tree := Tree.parse "(f as Foo)();" false

/-- The value is called, and counts as that. -/
theorem assertedCall_value : (assertedCall.node 6).text = "f" ∧
    classify (assertedCall.node 6) = .called ∧ IsCalledName (assertedCall.node 6) := by
  obtain ⟨htext, hk, himport, hcalled, hbeside⟩ : (assertedCall.node 6).text = "f" ∧
      (assertedCall.node 6).kind?.any Kind.isIdentifier = true ∧
      inImport (assertedCall.node 6) = false ∧ classify (assertedCall.node 6) = .called ∧
      (expressionOf (assertedCall.node 6)).standsBeside = false := by
    decide +kernel
  obtain ⟨hsame, -⟩ := classify_eq_called_iff (assertedCall.node 6) ⟨_, _, rfl⟩ hk himport
  refine ⟨htext, hcalled, (hsame.2 ?_).1 hcalled⟩
  simp [hbeside]

/-- Its type is not called, but counts as that too. -/
theorem assertedCall_type : (assertedCall.node 8).text = "Foo" ∧
    (assertedCall.node 8).kind?.any Kind.isIdentifier = true ∧
    inImport (assertedCall.node 8) = false ∧ classify (assertedCall.node 8) = .called ∧
    ¬ IsCalledName (assertedCall.node 8) := by
  obtain ⟨htext, hk, himport, hcalled, hbeside⟩ : (assertedCall.node 8).text = "Foo" ∧
      (assertedCall.node 8).kind?.any Kind.isIdentifier = true ∧
      inImport (assertedCall.node 8) = false ∧ classify (assertedCall.node 8) = .called ∧
      (expressionOf (assertedCall.node 8)).standsBeside = true := by
    decide +kernel
  refine ⟨htext, hk, himport, hcalled, fun h => ?_⟩
  simp [standsBeside_of_isCalledName ⟨_, _, rfl⟩ hk h] at hbeside

end Query.Usage

end ScriptAtlas
