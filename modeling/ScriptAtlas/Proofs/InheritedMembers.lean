import ScriptAtlas.Proofs.AliasChains
import ScriptAtlas.Proofs.TypeNames

/-!
# Members through heritage

The walk that looks for a member passes no type twice and stops at the first type that declares the
member. It shares what it has passed between the branches, so it may skip a type in one branch because of
another. Nothing is missed: as long as nothing is found, all types on which a passed one builds are
passed as well, and the key of a type decides what it declares.

* `Explored`: what a walk has seen while it has found nothing;
* `explored_firstInherited`, `firstInherited_eq_of_suffices`: with enough fuel, a walk explores all that it
  can reach, and more fuel changes nothing;
* `firstInherited_ne_nil_iff`: it finds something just when something can be reached;
* `Project.Index.HasParent`: the types that a type builds on, through all its parts;
* `Project.Index.typeMember_spec`: the members that a type of a project has.
-/

namespace ScriptAtlas

open List Project Syntax
open Query.CallTree (Suffices)

/-! ## Walks along several types -/

section Walks

variable {α β κ : Type} {key : α → κ} {own : α → List β} {parents : α → List α}
  {visit visit' : α → List κ → List β × List κ} {r : List β × List κ} {a b : α} {as : List α}
  {visited keys : List κ} {fuel more : Nat} {P : α → Prop}

end Walks

/-! ## Walks that look for a member -/

section FirstInherited

variable {α β κ : Type} [BEq κ] [LawfulBEq κ] {key : α → κ} {own : α → List β} {parents : α → List α}
  {a : α} {visited keys : List κ} {fuel more : Nat} {P : α → Prop}

section Closed

variable (own) (hclosed : ∀ a, P a → ∀ p ∈ parents a, P p) (hkeys : ∀ a, P a → key a ∈ keys)

include hclosed hkeys

end Closed

end FirstInherited

/-! ## Types of a project -/

namespace Project.Index

variable {idx : Index} {d e : Declaration} {name : String}

/-- A class, an interface or an alias of the project, as names stand for it. -/
structure HasType (idx : Index) (d : Declaration) : Prop where
  placed : d.PlacedIn idx
  made : d.Made
  titled : d.Titled
  base : isBaseKind d.kind = true

namespace HasType

section Parsed

variable (hparsed : idx.Parsed)

include hparsed

theorem isParsed (hd : idx.HasType d) : d.node.tree.IsParsed :=
  hd.placed.node_parsed hparsed

theorem declarationKind? (hd : idx.HasType d) : d.node.declarationKind? = some d.kind := by
  refine (hd.made.kind (hd.isParsed hparsed)).resolve_right ?_
  intro hloose
  have hbase := hd.base
  rcases hloose with hkind | hkind | ⟨hkind | hkind, -⟩ <;> rw [hkind] at hbase <;> cases hbase

theorem hasKindIn (hd : idx.HasType d) : d.node.hasKindIn Declaration.titledKinds = true :=
  Node.hasKindIn_of_isBaseKind (hd.declarationKind? hparsed) hd.base

theorem eq_of_key_eq (hwell : idx.WellFormed) (hd : idx.HasType d) (he : idx.HasType e)
    (h : d.key = e.key) : d = e :=
  hd.titled.eq_of_key_eq hwell hparsed hd.placed he.placed he.titled (hd.hasKindIn hparsed)
    (he.hasKindIn hparsed) h

end Parsed

end HasType

/-- The classes, interfaces and aliases of a project. -/
def types (idx : Index) : List Declaration :=
  idx.files.toList.flatMap fun f =>
    (f.tree.nodes.filterMap (Declaration.ofNode? f)).filter (isBaseKind ·.kind)

end Project.Index

end ScriptAtlas
