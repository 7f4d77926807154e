import ScriptAtlas.Proofs.CalledNames

/-!
# Assignment targets

What an assignment, a step, a loop, a declaration or a destructuring pattern assigns to, and which of
these targets count as written. A name is looked at with its accesses and wrappers in an assignment, but
alone in a pattern, and the head of a loop is not looked at.

* `Node.InPattern`: the places of a destructuring pattern that are assigned to, at any depth;
* `Node.IsTarget`: all places that are assigned to, wrappers included;
* `Usage.isWritten_iff`: which names count as written;
* `Usage.classify_eq_written_iff`: where that differs from being a target.
-/

namespace ScriptAtlas

open List Syntax Query

namespace Syntax.Node

variable {n m p : Node}

/-! ## Targets -/

/-- The node is what an assignment assigns to, what a step counts up or down, or what a declarator
declares. -/
inductive IsAssigned (n : Node) : Prop
  | left {p : Node}
      (hk : p.kind? = some .assignmentExpression ∨ p.kind? = some .augmentedAssignmentExpression)
      (h : p.field? .left = some n)
  | stepped {p : Node} (hk : p.kind? = some .updateExpression) (h : n ∈ p.parts)
  | declared {p : Node} (hk : p.kind? = some .variableDeclarator) (h : p.field? .name = some n)

/-- The node is what a loop over the keys or values of something assigns to. -/
def IsLoopTarget (n : Node) : Prop :=
  ∃ p : Node, p.kind? = some .forInStatement ∧ p.field? .left = some n

/-- The node stands at a place of a destructuring pattern that is assigned to: it is an element, what
remains, the value under a key, or what has a default. -/
inductive InPattern : Node → Prop
  | element {p n : Node} (hk : p.kind? = some .objectPattern ∨ p.kind? = some .arrayPattern)
      (h : n ∈ p.parts) : InPattern n
  | rest {p n : Node} (hk : p.kind? = some .restPattern) (h : n ∈ p.parts) (hp : InPattern p) :
      InPattern n
  | value {p n : Node} (hk : p.kind? = some .pairPattern) (h : p.field? .value = some n)
      (hp : InPattern p) : InPattern n
  | defaulted {p n : Node}
      (hk : p.kind? = some .objectAssignmentPattern ∨ p.kind? = some .assignmentPattern)
      (h : p.field? .left = some n) (hp : InPattern p) : InPattern n

/-- The node, or a wrapper around it, is assigned to. -/
inductive IsTarget : Node → Prop
  | assigned {n : Node} (h : n.IsAssigned) : IsTarget n
  | looped {n : Node} (h : n.IsLoopTarget) : IsTarget n
  | matched {n : Node} (h : n.InPattern) : IsTarget n
  | wrapped {w n : Node} (hw : w.WrapsExpression n) (h : IsTarget w) : IsTarget n

/-- The node is a default value in a pattern, or a computed key. -/
inductive IsDefaultOrKey (n : Node) : Prop
  | default {p : Node}
      (hk : p.kind? = some .objectAssignmentPattern ∨ p.kind? = some .assignmentPattern)
      (h : p.field? .right = some n)
  | key {p : Node} (hk : p.kind? = some .computedPropertyName) (h : n ∈ p.parts)

/-! ## Targets and what stands around them -/

theorem parent?_of_field? (ht : n.tree.IsParsed) {f : Field} (h : p.field? f = some n) :
    n.parent? = some p :=
  parent?_of_mem_children (tree_of_field? h ▸ ht) (mem_of_find?_eq_some h)

theorem parent?_of_mem_parts (ht : n.tree.IsParsed) (h : n ∈ p.parts) : n.parent? = some p :=
  parent?_of_mem_children (tree_of_mem_parts h ▸ ht)
    (mem_of_mem_filter (mem_of_mem_filter h))

theorem mem_parts_of_parent? (ht : n.tree.IsParsed) (hp : n.parent? = some p) {k : Kind}
    (hk : n.kind? = some k) (hplain : k ≠ .comment) : n ∈ p.parts := by
  have hnamed : n.isNamed = true := isNamed_of_kind?_any (f := fun _ => true) (by rw [hk]; rfl)
  refine mem_parts_iff.2 ⟨mem_filter.2 ⟨mem_children_of_parent? ht hp, hnamed⟩, ?_⟩
  rw [hk]
  exact fun h => hplain (Option.some.inj h)

theorem field_of_field? {f : Field} (h : p.field? f = some n) : n.entry.field = some f := by
  have hfield := find?_some h
  exact beq_iff_eq.1 hfield

theorem isFieldOf_iff {f : Field} (hp : n.parent? = some p) :
    n.isFieldOf f p = true ↔ p.field? f = some n :=
  ⟨field?_of_isFieldOf hp, isFieldOf_of_field?⟩

section Parent

variable (ht : n.tree.IsParsed) (hp : n.parent? = some p)

include ht hp

theorem isAssigned_iff : n.IsAssigned ↔
    ((p.kind? = some .assignmentExpression ∨ p.kind? = some .augmentedAssignmentExpression) ∧
        p.field? .left = some n) ∨
      (p.kind? = some .updateExpression ∧ n ∈ p.parts) ∨
      (p.kind? = some .variableDeclarator ∧ p.field? .name = some n) := by
  constructor
  · rintro (⟨hk, h⟩ | ⟨hk, h⟩ | ⟨hk, h⟩)
    · cases hp.symm.trans (parent?_of_field? ht h)
      exact .inl ⟨hk, h⟩
    · cases hp.symm.trans (parent?_of_mem_parts ht h)
      exact .inr (.inl ⟨hk, h⟩)
    · cases hp.symm.trans (parent?_of_field? ht h)
      exact .inr (.inr ⟨hk, h⟩)
  · rintro (⟨hk, h⟩ | ⟨hk, h⟩ | ⟨hk, h⟩)
    · exact .left hk h
    · exact .stepped hk h
    · exact .declared hk h

theorem isLoopTarget_iff :
    n.IsLoopTarget ↔ p.kind? = some .forInStatement ∧ p.field? .left = some n := by
  constructor
  · rintro ⟨q, hk, h⟩
    cases hp.symm.trans (parent?_of_field? ht h)
    exact ⟨hk, h⟩
  · exact fun h => ⟨p, h⟩

theorem inPattern_iff : n.InPattern ↔
    ((p.kind? = some .objectPattern ∨ p.kind? = some .arrayPattern) ∧ n ∈ p.parts) ∨
      (p.kind? = some .restPattern ∧ n ∈ p.parts ∧ p.InPattern) ∨
      (p.kind? = some .pairPattern ∧ p.field? .value = some n ∧ p.InPattern) ∨
      ((p.kind? = some .objectAssignmentPattern ∨ p.kind? = some .assignmentPattern) ∧
        p.field? .left = some n ∧ p.InPattern) := by
  constructor
  · rintro (⟨hk, h⟩ | ⟨hk, h, hin⟩ | ⟨hk, h, hin⟩ | ⟨hk, h, hin⟩)
    · cases hp.symm.trans (parent?_of_mem_parts ht h)
      exact .inl ⟨hk, h⟩
    · cases hp.symm.trans (parent?_of_mem_parts ht h)
      exact .inr (.inl ⟨hk, h, hin⟩)
    · cases hp.symm.trans (parent?_of_field? ht h)
      exact .inr (.inr (.inl ⟨hk, h, hin⟩))
    · cases hp.symm.trans (parent?_of_field? ht h)
      exact .inr (.inr (.inr ⟨hk, h, hin⟩))
  · rintro (⟨hk, h⟩ | ⟨hk, h, hin⟩ | ⟨hk, h, hin⟩ | ⟨hk, h, hin⟩)
    · exact .element hk h
    · exact .rest hk h hin
    · exact .value hk h hin
    · exact .defaulted hk h hin

end Parent

theorem kind?_ne_of_wrapper (h : p.kind?.any Kind.isTransparentWrapper = true) {k : Kind}
    (hk : k.isTransparentWrapper = false) : p.kind? ≠ some k := by
  intro hkind
  rw [hkind, Option.any_some, hk] at h
  cases h

theorem isTarget_iff_of_wraps {w : Node} (ht : w.tree.IsParsed) (hw : w.WrapsExpression n) :
    n.IsTarget ↔ w.IsTarget := by
  have hp := parent?_of_mem_children ht hw.mem_children
  have hn : n.tree.IsParsed := tree_of_mem_children hw.mem_children ▸ ht
  have hne {k : Kind} (hk : k.isTransparentWrapper = false) : w.kind? ≠ some k :=
    kind?_ne_of_wrapper hw.wrapper hk
  constructor
  · intro h
    cases h with
    | assigned h =>
      rcases (isAssigned_iff hn hp).1 h with ⟨hk | hk, -⟩ | ⟨hk, -⟩ | ⟨hk, -⟩ <;>
        exact absurd hk (hne rfl)
    | looped h => exact absurd ((isLoopTarget_iff hn hp).1 h).1 (hne rfl)
    | matched h =>
      rcases (inPattern_iff hn hp).1 h with ⟨hk | hk, -⟩ | ⟨hk, -⟩ | ⟨hk, -⟩ | ⟨hk | hk, -⟩ <;>
        exact absurd hk (hne rfl)
    | wrapped hw' h =>
      cases hp.symm.trans (parent?_of_mem_children (tree_of_mem_children hw'.mem_children ▸ hn)
        hw'.mem_children)
      exact h
  · exact .wrapped hw

/-- Any number of wrappers does not change whether an expression is a target. -/
theorem isTarget_iff_of_reflTransGen (ht : m.tree.IsParsed)
    (h : Relation.ReflTransGen WrapsExpression m n) :
    n.tree = m.tree ∧ (n.IsTarget ↔ m.IsTarget) := by
  induction h with
  | refl => exact ⟨rfl, Iff.rfl⟩
  | tail _ hwraps ih =>
    obtain ⟨htree, hiff⟩ := ih
    exact ⟨(tree_of_mem_children hwraps.mem_children).trans htree,
      (isTarget_iff_of_wraps (htree ▸ ht) hwraps).trans hiff⟩

theorem isTarget_iff_of_wrappers (ht : n.tree.IsParsed) (h : n.wrappers = []) :
    n.IsTarget ↔ n.IsAssigned ∨ n.IsLoopTarget ∨ n.InPattern := by
  constructor
  · intro htarget
    cases htarget with
    | assigned h => exact .inl h
    | looped h => exact .inr (.inl h)
    | matched h => exact .inr (.inr h)
    | wrapped hw _ =>
      rw [wrappers_of_wraps (tree_of_mem_children hw.mem_children ▸ ht) hw] at h
      cases h
  · rintro (h | h | h)
    · exact .assigned h
    · exact .looped h
    · exact .matched h

theorem exists_parent_of_isTarget (ht : n.tree.IsParsed) (h : n.IsTarget) :
    ∃ p, n.parent? = some p := by
  cases h with
  | assigned h =>
    rcases h with ⟨-, h⟩ | ⟨-, h⟩ | ⟨-, h⟩
    · exact ⟨_, parent?_of_field? ht h⟩
    · exact ⟨_, parent?_of_mem_parts ht h⟩
    · exact ⟨_, parent?_of_field? ht h⟩
  | looped h =>
    obtain ⟨p, -, h⟩ := h
    exact ⟨p, parent?_of_field? ht h⟩
  | matched h =>
    rcases h with ⟨-, h⟩ | ⟨-, h, -⟩ | ⟨-, h, -⟩ | ⟨-, h, -⟩
    iterate 2 exact ⟨_, parent?_of_mem_parts ht h⟩
    iterate 2 exact ⟨_, parent?_of_field? ht h⟩
  | wrapped hw _ =>
    exact ⟨_, parent?_of_mem_children (tree_of_mem_children hw.mem_children ▸ ht) hw.mem_children⟩

end Syntax.Node

namespace Query.Usage

open Syntax.Node

variable {token n : Node}

/-! ## Names that count as written -/

/-- Going up from a name finds the places of patterns that are assigned to. -/
theorem boundByPattern_iff (ht : n.tree.IsParsed) {k : Kind} (hk : n.kind? = some k)
    (hplain : k ≠ .comment) : boundByPattern n n.ancestors = true ↔ n.InPattern := by
  generalize hl : n.ancestors = l
  induction l generalizing n k with
  | nil =>
    refine iff_of_false nofun fun h => ?_
    obtain ⟨p, hp⟩ := exists_parent_of_isTarget ht (.matched h)
    rw [parent?_eq_head?, hl] at hp
    cases hp
  | cons p above ih =>
    have hp : n.parent? = some p := by
      rw [parent?_eq_head?, hl]
      rfl
    have hfront : n.ancestors = [] ++ p :: above := hl
    have habove := ancestors_of_append ht hfront
    have hparts := mem_parts_of_parent? ht hp hk hplain
    have htree : p.tree.IsParsed := tree_of_parent? hp ▸ ht
    rw [inPattern_iff ht hp]
    unfold boundByPattern
    split
    iterate 2 next hkind => simp [hkind, hparts]
    · next hkind =>
      rw [ih htree hkind (by decide) habove]
      simp [hkind, hparts]
    · next hkind =>
      -- a name under a name: identifiers have no parts
      have hmem := mem_children_of_parent? ht hp
      rw [children_eq_nil_of_isIdentifier htree (by rw [hkind]; rfl)] at hmem
      cases hmem
    iterate 3
      next hkind =>
      rw [Bool.and_eq_true, isFieldOf_iff hp, ih htree hkind (by decide) habove]
      simp [hkind]
    · simp_all

theorem exists_kind?_outermostWrapper (hk : token.kind?.any Kind.isIdentifier = true) :
    ∃ k, (expressionOf token).outermostWrapper.kind? = some k ∧ k ≠ .comment := by
  change ∃ k, ((expressionOf token).wrappers.getLast?.getD (expressionOf token)).kind? = some k ∧ _
  cases hlast : (expressionOf token).wrappers.getLast? with
  | none =>
    rcases isNamedBy_expressionOf hk with ⟨hk, h⟩ | ⟨hk, -⟩
    · obtain ⟨k, hkind, hident⟩ := (Option.any_eq_true _ _).1 hk
      refine ⟨k, by rw [Option.getD_none, h, hkind], ?_⟩
      rintro rfl
      cases hident
    · exact ⟨_, hk, nofun⟩
  | some w =>
    obtain ⟨k, hkind, hwrapper⟩ := (Option.any_eq_true _ _).1
      (all_eq_true.1 all_takeWhile w (mem_of_getLast? hlast))
    refine ⟨k, hkind, ?_⟩
    rintro rfl
    cases hwrapper

theorem outermostWrapper_of_inPattern (ht : token.tree.IsParsed) (h : token.InPattern) :
    (expressionOf token).outermostWrapper = token := by
  obtain ⟨p, hp⟩ := exists_parent_of_isTarget ht (.matched h)
  have hkinds : p.hasKind .memberExpression = false ∧
      p.kind?.any Kind.isTransparentWrapper = false := by
    rcases (inPattern_iff ht hp).1 h with ⟨hk | hk, -⟩ | ⟨hk, -⟩ | ⟨hk, -⟩ | ⟨hk | hk, -⟩ <;>
      rw [hasKind, hk] <;> exact ⟨rfl, rfl⟩
  have hexpression : expressionOf token = token := by
    rw [expressionOf, hp]
    simp [hkinds.1]
  have hwrappers : token.wrappers = [] := by
    rw [parent?_eq_head?] at hp
    obtain ⟨above, hancestors⟩ := head?_eq_some_iff.1 hp
    rw [wrappers, hancestors, takeWhile_cons, hkinds.2]
    rfl
  rw [hexpression, outermostWrapper_of_wrappers hwrappers]

section Written

variable (ht : token.tree.IsParsed) (hk : token.kind?.any Kind.isIdentifier = true)

include ht hk

theorem isParsed_outermostWrapper : (expressionOf token).outermostWrapper.tree.IsParsed := by
  rw [tree_outermostWrapper, tree_expressionOf hk]
  exact ht

/-- A name counts as written if it is assigned to, with its accesses and wrappers, or stands in a
pattern, without them. -/
theorem isWritten_iff : isWritten token (expressionOf token).outermostWrapper = true ↔
    (expressionOf token).outermostWrapper.IsAssigned ∨ token.InPattern := by
  have htree := isParsed_outermostWrapper ht hk
  obtain ⟨k, hkind, hplain⟩ := exists_kind?_outermostWrapper hk
  obtain ⟨k', hkind', hident⟩ := (Option.any_eq_true _ _).1 hk
  have hplain' : k' ≠ .comment := by
    rintro rfl
    cases hident
  have hbound := boundByPattern_iff ht hkind' hplain'
  have hsame := fun h => outermostWrapper_of_inPattern ht h
  generalize (expressionOf token).outermostWrapper = outer at *
  cases hp : outer.parent? with
  | none =>
    have hnot : ¬ outer.IsTarget := fun h => by
      obtain ⟨p, hparent⟩ := exists_parent_of_isTarget htree h
      cases hp.symm.trans hparent
    rw [isWritten, hp]
    refine iff_of_false nofun ?_
    rintro (h | h)
    · exact hnot (.assigned h)
    · exact hnot (hsame h ▸ .matched h)
  | some p =>
    have hpattern : token.InPattern → outer.InPattern := fun h => hsame h ▸ h
    rw [inPattern_iff htree hp] at hpattern
    rw [isWritten, hp, Option.any_some, isAssigned_iff htree hp]
    split
    iterate 2
      next h =>
      have hnot : ¬ token.InPattern := fun hin => by simpa [h] using hpattern hin
      simp [h, hnot, isFieldOf_iff hp]
    · next h => simp [h, mem_parts_of_parent? htree hp hkind hplain]
    · next h =>
      have hnot : ¬ token.InPattern := fun hin => by simpa [h] using hpattern hin
      simp [h, hnot, isFieldOf_iff hp]
    · rw [hbound]
      simp_all

/-- A target is assigned to, or it is the target of a loop or of a pattern, with its accesses and
wrappers. -/
theorem isTarget_expressionOf_iff (hbeside : (expressionOf token).standsBeside = false) :
    (expressionOf token).IsTarget ↔ (expressionOf token).outermostWrapper.IsAssigned ∨
      (expressionOf token).outermostWrapper.IsLoopTarget ∨
      (expressionOf token).outermostWrapper.InPattern := by
  have htree : (expressionOf token).tree.IsParsed := (tree_expressionOf hk).symm ▸ ht
  have houter := isParsed_outermostWrapper ht hk
  rw [← isTarget_iff_of_wrappers houter (wrappers_outermostWrapper htree)]
  exact (isTarget_iff_of_reflTransGen houter (wraps_outermostWrapper htree hbeside)).2

end Written

/-- A node is assigned to in one way only. -/
theorem not_isLoopTarget_or_inPattern (ht : n.tree.IsParsed) (h : n.IsAssigned) :
    ¬ (n.IsLoopTarget ∨ n.InPattern) := by
  obtain ⟨p, hp⟩ := exists_parent_of_isTarget ht (.assigned h)
  rw [isLoopTarget_iff ht hp, inPattern_iff ht hp]
  rcases (isAssigned_iff ht hp).1 h with ⟨hk | hk, -⟩ | ⟨hk, -⟩ | ⟨hk, -⟩ <;> simp [hk]

theorem not_inPattern_of_isLoopTarget (ht : n.tree.IsParsed) (h : n.IsLoopTarget) :
    ¬ n.InPattern := by
  obtain ⟨p, hp⟩ := exists_parent_of_isTarget ht (.looped h)
  rw [inPattern_iff ht hp]
  simp [((isLoopTarget_iff ht hp).1 h).1]

theorem not_isTarget_of_isDefaultOrKey (ht : n.tree.IsParsed) (h : n.IsDefaultOrKey) :
    ¬ (n.IsAssigned ∨ n.IsLoopTarget ∨ n.InPattern) := by
  cases h with
  | @default p hk h =>
    have hp := parent?_of_field? ht h
    have hleft : p.field? .left ≠ some n := fun hleft => by
      cases (field_of_field? h).symm.trans (field_of_field? hleft)
    rw [isAssigned_iff ht hp, isLoopTarget_iff ht hp, inPattern_iff ht hp]
    rcases hk with hk | hk <;> simp [hk, hleft]
  | key hk h =>
    have hp := parent?_of_mem_parts ht h
    rw [isAssigned_iff ht hp, isLoopTarget_iff ht hp, inPattern_iff ht hp]
    simp [hk]

/-- Whether an identifier stands for a value: neither in a list of imports or exports, nor called, nor
where a type is expected. -/
def isValueUse (token : Node) : Bool :=
  !inImport token && !isCallee (expressionOf token).outermostWrapper
    && !(token.hasKind .typeIdentifier || inTypeContext token || inHeritage token)
    && !(expressionOf token).standsBeside

theorem classify_of_isValueUse (h : isValueUse token = true) :
    (expressionOf token).standsBeside = false ∧ classify token =
      if isWritten token (expressionOf token).outermostWrapper then .written else .read := by
  simp only [isValueUse, Bool.and_eq_true, Bool.not_eq_true'] at h
  obtain ⟨⟨⟨himport, hcallee⟩, htype⟩, hbeside⟩ := h
  refine ⟨hbeside, ?_⟩
  simp only [classify, himport, hcallee, htype, Bool.false_eq_true, if_false]

/-- An identifier of a parsed text that stands for a value counts as written exactly if its expression,
the identifier or what accesses it, is a target, with two exceptions: targets of loops, and targets in
patterns that are more than a name. These count as read. Default values and computed keys in patterns
count as read. -/
theorem classify_eq_written_iff (token : Node) (ht : token.tree.IsParsed)
    (hk : token.kind?.any Kind.isIdentifier = true) (huse : isValueUse token = true) :
    ((classify token = .written ↔ (expressionOf token).IsTarget) ↔
      ¬ ((expressionOf token).outermostWrapper.IsLoopTarget ∨
        ((expressionOf token).outermostWrapper.InPattern ∧
          (expressionOf token).outermostWrapper ≠ token))) ∧
    (classify token = .written ↔ (expressionOf token).IsTarget ∧
      ¬ ((expressionOf token).outermostWrapper.IsLoopTarget ∨
        ((expressionOf token).outermostWrapper.InPattern ∧
          (expressionOf token).outermostWrapper ≠ token))) ∧
    (classify token ≠ .written → classify token = .read) ∧
    ((expressionOf token).outermostWrapper.IsDefaultOrKey → classify token = .read) := by
  obtain ⟨hbeside, hclassify⟩ := classify_of_isValueUse huse
  have htree := isParsed_outermostWrapper ht hk
  have hwritten : classify token = .written ↔
      (expressionOf token).outermostWrapper.IsAssigned ∨ token.InPattern := by
    rw [hclassify, ← isWritten_iff ht hk]
    split <;> simp_all
  have hread : classify token ≠ .written → classify token = .read := by
    rw [hclassify]
    split <;> simp
  have htarget := isTarget_expressionOf_iff ht hk hbeside
  -- a name alone in a pattern is all that is seen there
  have hname : token.InPattern ↔ (expressionOf token).outermostWrapper.InPattern ∧
      (expressionOf token).outermostWrapper = token := by
    constructor
    · intro h
      rw [outermostWrapper_of_inPattern ht h]
      exact ⟨h, rfl⟩
    · rintro ⟨h, hsame⟩
      rwa [hsame] at h
  rw [hname] at hwritten
  refine and_assoc.1 ⟨?_, hread, fun hdefault => hread fun h => ?_⟩
  · rw [hwritten, htarget]
    by_cases ha : (expressionOf token).outermostWrapper.IsAssigned
    · obtain ⟨hl, hp⟩ := not_or.1 (not_isLoopTarget_or_inPattern htree ha)
      simp [ha, hl, hp]
    by_cases hl : (expressionOf token).outermostWrapper.IsLoopTarget
    · simp [ha, hl, not_inPattern_of_isLoopTarget htree hl]
    by_cases hp : (expressionOf token).outermostWrapper.InPattern
    · simp [ha, hl, hp]
    · simp [ha, hl, hp]
  · refine not_isTarget_of_isDefaultOrKey htree hdefault ?_
    exact (hwritten.1 h).imp_right fun h => .inr h.1

/-- An assignment to a pattern in a pattern. -/
def nestedPattern : Tree := Tree.parse "({ k: [a = b] } = xs);" false

/-- The name in the pattern is a target and counts as written. -/
theorem nestedPattern_written : (nestedPattern.node 13).text = "a" ∧
    classify (nestedPattern.node 13) = .written ∧ (expressionOf (nestedPattern.node 13)).IsTarget := by
  obtain ⟨htext, hk, huse, hwritten⟩ : (nestedPattern.node 13).text = "a" ∧
      (nestedPattern.node 13).kind?.any Kind.isIdentifier = true ∧
      isValueUse (nestedPattern.node 13) = true ∧ classify (nestedPattern.node 13) = .written := by
    decide +kernel
  obtain ⟨-, hiff, -⟩ := classify_eq_written_iff (nestedPattern.node 13) ⟨_, _, rfl⟩ hk huse
  exact ⟨htext, hwritten, (hiff.1 hwritten).1⟩

/-- A loop that assigns to a variable, and an assignment to a member in a pattern. -/
def loopOverPattern : Tree := Tree.parse "for (k of xs) [o.p] = k;" false

/-- The variable of the loop is a target, and so is the member in the pattern, but both count as read. -/
theorem loopOverPattern_read :
    ((loopOverPattern.node 4).text = "k" ∧ isValueUse (loopOverPattern.node 4) = true ∧
      classify (loopOverPattern.node 4) = .read ∧
      (expressionOf (loopOverPattern.node 4)).IsTarget) ∧
    ((loopOverPattern.node 15).text = "p" ∧ isValueUse (loopOverPattern.node 15) = true ∧
      classify (loopOverPattern.node 15) = .read ∧
      (expressionOf (loopOverPattern.node 15)).IsTarget) := by
  have hparsed : loopOverPattern.IsParsed := ⟨_, _, rfl⟩
  constructor
  · obtain ⟨htext, hk, huse, hread, hleft⟩ : (loopOverPattern.node 4).text = "k" ∧
        (loopOverPattern.node 4).kind?.any Kind.isIdentifier = true ∧
        isValueUse (loopOverPattern.node 4) = true ∧ classify (loopOverPattern.node 4) = .read ∧
        ((expressionOf (loopOverPattern.node 4)).outermostWrapper.parent?.any fun p =>
          p.hasKind .forInStatement &&
            (expressionOf (loopOverPattern.node 4)).outermostWrapper.isFieldOf .left p) = true := by
      decide +kernel
    obtain ⟨p, hp, hleft⟩ := (Option.any_eq_true _ _).1 hleft
    obtain ⟨hkind, hfield⟩ := Bool.and_eq_true_iff.1 hleft
    have hloop : (expressionOf (loopOverPattern.node 4)).outermostWrapper.IsLoopTarget :=
      ⟨p, kind?_of_hasKind hkind, field?_of_isFieldOf hp hfield⟩
    exact ⟨htext, huse, hread,
      (isTarget_expressionOf_iff hparsed hk (classify_of_isValueUse huse).1).2 (.inr (.inl hloop))⟩
  · obtain ⟨htext, hk, huse, hread, hkind⟩ : (loopOverPattern.node 15).text = "p" ∧
        (loopOverPattern.node 15).kind?.any Kind.isIdentifier = true ∧
        isValueUse (loopOverPattern.node 15) = true ∧ classify (loopOverPattern.node 15) = .read ∧
        ((expressionOf (loopOverPattern.node 15)).outermostWrapper.parent?.any
          (·.hasKind .arrayPattern)) = true := by
      decide +kernel
    obtain ⟨p, hp, hkind⟩ := (Option.any_eq_true _ _).1 hkind
    obtain ⟨k, houter, hplain⟩ := exists_kind?_outermostWrapper hk
    have htree : (expressionOf (loopOverPattern.node 15)).outermostWrapper.tree.IsParsed :=
      isParsed_outermostWrapper hparsed hk
    have hin : (expressionOf (loopOverPattern.node 15)).outermostWrapper.InPattern :=
      .element (.inr (kind?_of_hasKind hkind)) (mem_parts_of_parent? htree hp houter hplain)
    exact ⟨htext, huse, hread,
      (isTarget_expressionOf_iff hparsed hk (classify_of_isValueUse huse).1).2 (.inr (.inr hin))⟩

end Query.Usage

end ScriptAtlas
