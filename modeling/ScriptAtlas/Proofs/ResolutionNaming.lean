import ScriptAtlas.Proofs.Naming
import ScriptAtlas.Proofs.QueryPlacement

/-!
# How resolved declarations are named

Whatever an identifier stands for, through exports, imports, qualified names and members, is made from
its node: its node and its token belong together as in the place where it was declared.

* `Declaration.ArisesIn.made`: declarations that arise in a project are made from their nodes;
* `Project.Index.merged_made`: so are those that belong together with one that is.
-/

namespace ScriptAtlas

open Project Syntax

theorem Export.kind?_of_formOf_space {stmt ns : Node} (h : formOf stmt = .space ns) :
    ns.kind? = some .namespaceExport := Node.kind?_of_hasKind (describes_of_formOf h).2

theorem Declaration.ArisesIn.made {idx : Index} {d : Declaration} (h : d.ArisesIn idx) : d.Made := by
  cases h with
  | origin _ h => exact h.made
  | node _ _ h => exact made_of_ofNode? h
  | name _ _ hk h => exact made_of_ofName? hk h
  | @keyword _ _ value _ _ _ _ _ hname _ htoken =>
    refine ⟨.of_keyword htoken hname, fun _ => ?_⟩
    cases hkind : value.declarationKind? with
    | none => exact .inr (.inl rfl)
    | some kind => exact .inl rfl
  | space _ _ hform hname =>
    have hkind := Export.kind?_of_formOf_space hform
    exact ⟨.space hkind hname,
      fun _ => .inr (.inr (.inr ⟨.inr rfl, Node.functionNode?_eq_none hkind (by decide)⟩))⟩

theorem Project.Index.merged_made {idx : Index} {d e : Declaration} (hd : d.PlacedIn idx)
    (hmade : d.Made) (he : e ∈ (idx.merged d).declarations) : e.Made :=
  (eq_or_arises_of_mem_merged hd he).elim (· ▸ hmade) Declaration.ArisesIn.made

end ScriptAtlas
