import ScriptAtlas.Proofs.CalledNames
import ScriptAtlas.Query.Narrowing

/-!
# Combined conditions

A condition may be built from others by negation, conjunction and disjunction, with wrappers in
between. What it narrows depends on the conditions at the bottom alone: on how many of them narrow
something, and on which of those comes first.

* `Narrowing.Combines`: a condition and the atoms that it is built from;
* `Narrowing.Summarizes`: what is reported in place of several guards;
* `Narrowing.condition_combined`: what is reported of every condition.
-/

namespace ScriptAtlas.Query.Narrowing

open List Project Syntax Syntax.Node

variable {e a l r c : Node} {atoms : List Node} {idx : Index} {file : SourceFile} {g : GuardEntry}

/-! ## Atoms -/

/-- A condition and what it denies. -/
structure Negates (e a : Node) : Prop where
  kind : e.kind? = some .unaryExpression
  operator : operator e = "!"
  argument : e.field? .argument = some a

/-- A conjunction or disjunction and its two sides. -/
structure Connects (e l r : Node) : Prop where
  kind : e.kind? = some .binaryExpression
  operator : operator e = "&&" ∨ operator e = "||"
  left : e.field? .left = some l
  right : e.field? .right = some r

/-- A condition that is not made of others. -/
structure IsAtom (e : Node) : Prop where
  wraps : ∀ c, ¬ e.WrapsExpression c
  negates : ∀ a, ¬ Negates e a
  connects : ∀ l r, ¬ Connects e l r

/-- The condition is built from the atoms, which are listed from left to right. -/
inductive Combines : Node → List Node → Prop
  | atom {e : Node} (h : IsAtom e) : Combines e [e]
  | wrapper {e c : Node} {atoms : List Node} (h : e.WrapsExpression c) (hc : Combines c atoms) :
      Combines e atoms
  | negation {e a : Node} {atoms : List Node} (h : Negates e a) (ha : Combines a atoms) :
      Combines e atoms
  | connective {e l r : Node} {ls rs : List Node} (h : Connects e l r) (hl : Combines l ls)
      (hr : Combines r rs) : Combines e (ls ++ rs)

theorem exists_combines (e : Node) (ht : e.tree.IsParsed) : ∃ atoms, Combines e atoms := by
  by_contra hnone
  refine hnone ⟨[e], .atom ⟨fun c hc => ?_, fun a ha => ?_, fun l r h => ?_⟩⟩
  · have hbelow := below_of_mem_children ht hc.mem_children
    have := hbelow.size
    obtain ⟨atoms, hatoms⟩ := exists_combines c (hbelow.tree ▸ ht)
    exact hnone ⟨atoms, .wrapper hc hatoms⟩
  · have hbelow := below_of_field? ht ha.argument
    have := hbelow.size
    obtain ⟨atoms, hatoms⟩ := exists_combines a (hbelow.tree ▸ ht)
    exact hnone ⟨atoms, .negation ha hatoms⟩
  · have hleft := below_of_field? ht h.left
    have hright := below_of_field? ht h.right
    have := hleft.size
    have := hright.size
    obtain ⟨ls, hls⟩ := exists_combines l (hleft.tree ▸ ht)
    obtain ⟨rs, hrs⟩ := exists_combines r (hright.tree ▸ ht)
    exact hnone ⟨ls ++ rs, .connective h hls hrs⟩
termination_by e.entry.size

theorem not_wraps_of_kind {k : Kind} (hk : e.kind? = some k) (h : k.isTransparentWrapper = false)
    (c : Node) : ¬ e.WrapsExpression c := by
  intro hc
  have hwrapper := hc.wrapper
  rw [hk, Option.any_some, h] at hwrapper
  cases hwrapper

theorem Combines.exists_core (h : Combines e atoms) :
    ∃ n, Relation.ReflTransGen WrapsExpression e n ∧ ∀ c, ¬ n.WrapsExpression c := by
  induction h with
  | atom h => exact ⟨_, .refl, h.wraps⟩
  | wrapper h _ ih =>
    obtain ⟨n, hn, hnot⟩ := ih
    exact ⟨n, .head h hn, hnot⟩
  | negation h _ _ => exact ⟨_, .refl, not_wraps_of_kind h.kind rfl⟩
  | connective h _ _ _ _ => exact ⟨_, .refl, not_wraps_of_kind h.kind rfl⟩

theorem Combines.unwrap_of_wraps (hc : Combines c atoms) (ht : e.tree.IsParsed)
    (h : e.WrapsExpression c) : e.unwrap = c.unwrap := by
  obtain ⟨n, hn, hnot⟩ := hc.exists_core
  rw [Node.unwrap_of_wraps ht hnot (.head h hn),
    Node.unwrap_of_wraps (tree_of_mem_children h.mem_children ▸ ht) hnot hn]

/-! ## One step down -/

theorem conditionUpTo_negation (h : Negates e a) (fuel : Nat) :
    conditionUpTo idx file (fuel + 1) e = (conditionUpTo idx file fuel a.unwrap).map fun g =>
      { g with line := e.line, text := flatten e.text } := by
  simp only [conditionUpTo, h.kind, h.operator, h.argument, beq_self_eq_true, if_true,
    Option.bind_some]

theorem conditionUpTo_connective (h : Connects e l r) (fuel : Nat) :
    conditionUpTo idx file (fuel + 1) e =
      joinGuards e (conditionUpTo idx file fuel l.unwrap) (conditionUpTo idx file fuel r.unwrap) := by
  simp only [conditionUpTo, h.kind, h.left, h.right, Option.map_some]
  rcases h.operator with hop | hop <;> simp only [hop]

theorem conditionUpTo_empty (hkind : e.kind? = some .parenthesizedExpression)
    (h : ∀ c, ¬ e.WrapsExpression c) (fuel : Nat) : conditionUpTo idx file fuel e = none := by
  induction fuel with
  | zero => rfl
  | succ fuel ih =>
    simp only [conditionUpTo, hkind, unwrap_of_not_wraps h]
    exact ih

theorem conditionUpTo_atom (h : IsAtom e) (fuel : Nat) :
    conditionUpTo idx file (fuel + 1) e = condition idx file e := by
  unfold condition conditionUpTo
  split
  · next hkind =>
    rw [unwrap_of_not_wraps h.wraps, conditionUpTo_empty hkind h.wraps,
      conditionUpTo_empty hkind h.wraps]
  · next hkind =>
    split
    · next hop =>
      cases hargument : e.field? .argument with
      | none => rfl
      | some a => exact absurd ⟨hkind, eq_of_beq hop, hargument⟩ (h.negates a)
    · rfl
  · next hkind =>
    split
    · next hleft hright =>
      obtain ⟨l, hl, rfl⟩ := Option.map_eq_some_iff.1 hleft
      obtain ⟨r, hr, rfl⟩ := Option.map_eq_some_iff.1 hright
      split
      · next hop => exact absurd ⟨hkind, .inl hop, hl, hr⟩ (h.connects l r)
      · next hop => exact absurd ⟨hkind, .inr hop, hl, hr⟩ (h.connects l r)
      all_goals rfl
    · rfl
  · rfl
  · rfl

theorem equalityGuard_kind (h : equalityGuard e l r = some g) : g.kind ≠ .compound := by
  unfold equalityGuard at h
  generalize (if (isLiteral l && !isLiteral r) = true then (r, l) else (l, r)) = p at h
  grind [entryAt, Option.map_eq_some_iff]

theorem callGuard_kind (h : callGuard idx file e = some g) : g.kind ≠ .compound := by
  obtain ⟨f, -, h⟩ := Option.bind_eq_some_iff.1 h
  grind [entryAt]

/-- Nothing compound is found without looking into the parts of a condition. -/
theorem kind_of_conditionUpTo_one (h : conditionUpTo idx file 1 e = some g) : g.kind ≠ .compound := by
  unfold conditionUpTo at h
  split at h
  · cases h
  · split at h
    · obtain ⟨g', hg, -⟩ := Option.map_eq_some_iff.1 h
      obtain ⟨a, -, hnone⟩ := Option.bind_eq_some_iff.1 hg
      cases hnone
    · cases h
  · split at h
    · split at h
      iterate 2 cases h
      iterate 2 grind [entryAt]
      iterate 4 exact equalityGuard_kind h
      cases h
    · cases h
  · exact callGuard_kind h
  · cases h

/-! ## Whole conditions -/

/-- What is reported in place of several guards, in their order: nothing if there are none, a single one
as it is, and from two guards on a compound entry about what the first one is about. -/
inductive Summarizes : List GuardEntry → Option GuardEntry → Prop
  | none : Summarizes [] none
  | one {g g' : GuardEntry} (plain : g.kind ≠ .compound) (kind : g'.kind = g.kind)
      (subject : g'.subject = g.subject) (narrowedTo : g'.narrowedTo = g.narrowedTo) :
      Summarizes [g] (some g')
  | many {g first second : GuardEntry} {rest : List GuardEntry} (kind : g.kind = .compound)
      (subject : g.subject = first.subject) : Summarizes (first :: second :: rest) (some g)

namespace Summarizes

variable {gs hs : List GuardEntry} {o p : Option GuardEntry}

theorem exists_first (h : Summarizes gs (some g)) :
    ∃ first rest, gs = first :: rest ∧ g.subject = first.subject := by
  cases h with
  | one _ _ subject _ => exact ⟨_, _, rfl, subject⟩
  | many _ subject => exact ⟨_, _, rfl, subject⟩

theorem relocate (h : Summarizes gs o) (line : Nat) (text : String) :
    Summarizes gs (o.map fun g => { g with line, text }) := by
  cases h with
  | none => exact .none
  | one plain kind subject narrowedTo => exact .one plain kind subject narrowedTo
  | many kind subject => exact .many kind subject

theorem join (hl : Summarizes gs o) (hr : Summarizes hs p) (e : Node) :
    Summarizes (gs ++ hs) (joinGuards e o p) := by
  cases o with
  | none =>
    cases hl
    exact hr
  | some l =>
    cases p with
    | none =>
      cases hr
      rwa [append_nil]
    | some r =>
      obtain ⟨first, rest, rfl, hsubject⟩ := hl.exists_first
      obtain ⟨next, more, rfl, -⟩ := hr.exists_first
      cases rest with
      | nil => exact .many rfl hsubject
      | cons second rest => exact .many rfl hsubject

end Summarizes

/-- What is reported of a condition summarizes what is reported of its atoms. -/
theorem summarizes_conditionUpTo (idx : Index) (file : SourceFile) (h : Combines e atoms)
    (ht : e.tree.IsParsed) {fuel : Nat} (hfuel : e.unwrap.entry.size ≤ fuel) :
    Summarizes (atoms.filterMap (condition idx file)) (conditionUpTo idx file (fuel + 1) e.unwrap) := by
  -- a side of a condition is smaller than the condition, and what it wraps is no larger
  have hpart : ∀ {n m : Node} {fuel : Nat}, n.tree.IsParsed → m.Below n → n.entry.size ≤ fuel →
      m.tree.IsParsed ∧ ∃ k, fuel = k + 1 ∧ m.unwrap.entry.size ≤ k := by
    intro n m fuel hn hbelow hfuel
    have hm : m.tree.IsParsed := hbelow.tree ▸ hn
    have hle := size_le_of_wraps hm (wraps_unwrapUpTo m.entry.size m)
    have hlt := hbelow.size
    exact ⟨hm, fuel - 1, by omega, by rw [unwrap]; omega⟩
  induction h generalizing fuel with
  | @atom e h =>
    rw [unwrap_of_not_wraps h.wraps, conditionUpTo_atom h, filterMap_cons]
    cases hg : condition idx file e with
    | none => exact .none
    | some g =>
      rw [← conditionUpTo_atom h 0] at hg
      exact .one (kind_of_conditionUpTo_one hg) rfl rfl rfl
  | wrapper h hc ih =>
    have hunwrap := hc.unwrap_of_wraps ht h
    rw [hunwrap] at hfuel ⊢
    exact ih (tree_of_mem_children h.mem_children ▸ ht) hfuel
  | negation h _ ih =>
    rw [unwrap_of_not_wraps (not_wraps_of_kind h.kind rfl)] at hfuel ⊢
    obtain ⟨hparsed, k, rfl, hk⟩ := hpart ht (below_of_field? ht h.argument) hfuel
    rw [conditionUpTo_negation h]
    exact (ih hparsed hk).relocate _ _
  | @connective e l r ls rs h _ _ ihl ihr =>
    rw [unwrap_of_not_wraps (not_wraps_of_kind h.kind rfl)] at hfuel ⊢
    obtain ⟨hleft, k, rfl, hl⟩ := hpart ht (below_of_field? ht h.left) hfuel
    obtain ⟨hright, k', hk, hr⟩ := hpart ht (below_of_field? ht h.right) hfuel
    cases Nat.succ.inj hk
    rw [conditionUpTo_connective h, filterMap_append]
    exact (ihl hleft hl).join (ihr hright hr) e

/-- Every condition of a parsed text is built from atoms by negations, connectives and wrappers, and
however it is, something is reported of it exactly if one of the atoms narrows something. The entry is
compound exactly if two atoms or more do, and is about what the first of those is about; if one atom
does, the entry has its kind, and is about the same value and the same type. -/
theorem condition_combined (idx : Index) (file : SourceFile) {e : Node} (ht : e.tree.IsParsed) :
    (∃ atoms, Combines e atoms) ∧ ∀ atoms, Combines e atoms →
      ((condition idx file e.unwrap).isSome = true ↔
        ∃ a ∈ atoms, (condition idx file a).isSome = true) ∧
      ∀ g, condition idx file e.unwrap = some g →
        (g.kind = .compound ↔ 2 ≤ (atoms.filterMap (condition idx file)).length) ∧
        (∀ g', atoms.filterMap (condition idx file) = [g'] →
          g.kind = g'.kind ∧ g.subject = g'.subject ∧ g.narrowedTo = g'.narrowedTo) ∧
        (g.kind = .compound → (atoms.filterMap (condition idx file)).head?.map GuardEntry.subject =
          some g.subject) := by
  refine ⟨exists_combines e ht, fun atoms h => ?_⟩
  have hsum := summarizes_conditionUpTo idx file h ht (Nat.le_refl _)
  have hsome : (∃ a ∈ atoms, (condition idx file a).isSome = true) ↔
      atoms.filterMap (condition idx file) ≠ [] := by
    simp [filterMap_eq_nil_iff, Option.isSome_iff_ne_none]
  rw [hsome]
  change Summarizes _ (condition idx file e.unwrap) at hsum
  generalize condition idx file e.unwrap = o, atoms.filterMap (condition idx file) = gs at hsum ⊢
  cases hsum with
  | none => simp
  | one plain kind subject narrowedTo => simp [plain, kind, subject, narrowedTo]
  | many kind subject => simp [kind, subject]

/-- A condition with a negation in a wrapper and an atom that narrows nothing. -/
def mixedCondition : Node :=
  (Tree.parse "(!(a in b) as any) || c && typeof d === 'e';" false).node 2

/-- Two of its atoms narrow something, of which the first is about the value `b`. -/
theorem mixedCondition_compound : ∃ atoms, Combines mixedCondition atoms ∧
    2 ≤ (atoms.filterMap (condition default default)).length ∧
    (atoms.filterMap (condition default default)).head?.map GuardEntry.subject = some (some "b") := by
  have heval : (condition default default mixedCondition.unwrap).map
      (fun g => (g.kind, g.subject)) = some (.compound, some "b") := by decide +kernel
  obtain ⟨g, hg, heq⟩ := Option.map_eq_some_iff.1 heval
  obtain ⟨hkind, hsubject⟩ := Prod.mk.inj heq
  have ht : mixedCondition.tree.IsParsed := ⟨_, _, rfl⟩
  obtain ⟨⟨atoms, hatoms⟩, hall⟩ := condition_combined default default ht
  obtain ⟨hcompound, -, hfirst⟩ := (hall atoms hatoms).2 g hg
  exact ⟨atoms, hatoms, hcompound.1 hkind, hsubject ▸ hfirst hkind⟩

end ScriptAtlas.Query.Narrowing
