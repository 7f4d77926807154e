import ScriptAtlas.Proofs.CallSymmetry

/-!
# What stands for a callable

A query about calls means a declaration, and what is asked about is the declaration that carries the
body among those that belong with it, or the first of them. It can be called if one of them has a body
or if the first one can be called. A class has no body in this sense, so behind an interface or a
namespace of the same name it is lost.

* `Declaration.Made.isCallable_of_functionNode?`: what has parameters can be called;
* `Symbol.isCallable_implementation_iff`: when what stands for a symbol can be called;
* `Query.isCallable_locateCallable_iff`: what a query about calls is answered with.
-/

namespace ScriptAtlas

open List Project Syntax

/-! ## Functions -/

theorem Syntax.Node.kind_of_functionNode? {n : Node} (h : n.functionNode?.isSome = true) :
    ∃ k, n.kind? = some k ∧ (k.isFunctionLike = true ∨
      k ∈ [Kind.variableDeclarator, .fieldDefinition, .pair, .assignmentExpression]) := by
  unfold functionNode? at h
  split at h
  · next hlike =>
    obtain ⟨k, hk, hlike⟩ := (Option.any_eq_true _ _).1 hlike
    exact ⟨k, hk, .inl hlike⟩
  · split at h
    · next hin =>
      obtain ⟨k, hk, hmem⟩ := (Option.any_eq_true _ _).1 hin
      exact ⟨k, hk, .inr (contains_iff_mem.1 hmem)⟩
    · cases h

theorem Syntax.Node.isCallable_of_isFunctionLike {n : Node} {k : Kind} {kind : SymbolKind}
    (hk : n.kind? = some k) (hlike : k.isFunctionLike = true) (h : n.declarationKind? = some kind) :
    kind.isCallable = true := by
  rw [declarationKind?, hk] at h
  cases k <;> first
    | (cases h; rfl)
    | (dsimp only at h; split at h <;> first
        | (cases h; rfl)
        | (split at h <;> (cases h; rfl)))
    | (cases h; done)
    | cases hlike

namespace Declaration

variable {d : Declaration}

theorem isCallable_effectiveKind (h : d.kind.isCallable = true) :
    d.effectiveKind.isCallable = true := by
  unfold effectiveKind
  split
  iterate 2
    next hkind =>
    rw [hkind] at h
    cases h
  · exact h

theorem isCallable_of_declarationKind? (hkind : d.node.declarationKind? = some d.kind)
    (h : d.node.functionNode?.isSome = true) : d.effectiveKind.isCallable = true := by
  obtain ⟨k, hk, hlike | hmem⟩ := Node.kind_of_functionNode? h
  · exact isCallable_effectiveKind (Node.isCallable_of_isFunctionLike hk hlike hkind)
  · rw [Node.declarationKind?, hk] at hkind
    simp only [mem_cons, not_mem_nil, or_false] at hmem
    rcases hmem with rfl | rfl | rfl | rfl
    iterate 2 simp [effectiveKind, ← Option.some.inj hkind, h, SymbolKind.isCallable]
    all_goals cases hkind

theorem Made.isCallable_of_functionNode? (hmade : d.Made) (ht : d.node.tree.IsParsed)
    (h : d.node.functionNode?.isSome = true) : d.effectiveKind.isCallable = true := by
  rcases hmade.kind ht with hown | hvariable | hfunction | ⟨-, hnone⟩
  · exact isCallable_of_declarationKind? hown h
  · simp [effectiveKind, hvariable, h, SymbolKind.isCallable]
  · simp [effectiveKind, hfunction, SymbolKind.isCallable]
  · rw [hnone] at h
    cases h

theorem functionNode?_isSome_of_hasBody (h : d.hasBody = true) :
    d.node.functionNode?.isSome = true := by
  obtain ⟨body, hbody⟩ := Option.isSome_iff_exists.1 h
  obtain ⟨function, hfunction, -⟩ := Option.bind_eq_some_iff.1 hbody
  exact Option.isSome_of_eq_some hfunction

end Declaration

/-- What stands for a symbol has a body if a declaration of the symbol has one, and is the first
declaration otherwise. -/
theorem Symbol.implementation_cases (s : Symbol) :
    (s.implementation ∈ s.declarations ∧ s.implementation.hasBody = true) ∨
      ((∀ d ∈ s.declarations, d.hasBody = false) ∧ s.implementation = s.first) := by
  unfold implementation
  cases h : s.declarations.find? (·.hasBody) with
  | none =>
    refine .inr ⟨fun d hd => ?_, rfl⟩
    simpa using find?_eq_none.1 h d hd
  | some d => exact .inl ⟨mem_of_find?_eq_some h, find?_some h⟩

/-- What stands for a symbol can be called if a declaration of the symbol has a body, or if the first one
can be called. -/
theorem Symbol.isCallable_implementation_iff {s : Symbol}
    (h : ∀ d ∈ s.declarations, d.Made ∧ d.node.tree.IsParsed) :
    s.implementation.effectiveKind.isCallable = true ↔
      (∃ d ∈ s.declarations, d.hasBody = true) ∨ s.first.effectiveKind.isCallable = true := by
  rcases s.implementation_cases with ⟨hmem, hbody⟩ | ⟨hnone, heq⟩
  · obtain ⟨hmade, ht⟩ := h _ hmem
    have hcallable := hmade.isCallable_of_functionNode? ht
      (Declaration.functionNode?_isSome_of_hasBody hbody)
    exact iff_of_true hcallable (.inl ⟨_, hmem, hbody⟩)
  · rw [heq]
    refine ⟨.inr, ?_⟩
    rintro (⟨d, hd, hbody⟩ | hfirst)
    · cases (hnone d hd).symm.trans hbody
    · exact hfirst

namespace Query

/-- A query about calls is answered with a declaration that belongs with the one that is meant. It can be
called just when one of those has a body or the first of them can be called. -/
theorem isCallable_locateCallable_iff {idx : Index} (hparsed : idx.Parsed) {q : SymbolQuery}
    {d : Declaration} (h : locateDeclaration idx q = .ok d) :
    ∃ t, locateCallable idx q = .ok t ∧ t ∈ (idx.merged d).declarations ∧
      (t.effectiveKind.isCallable = true ↔
        (∃ e ∈ (idx.merged d).declarations, e.hasBody = true) ∨
          (idx.merged d).first.effectiveKind.isCallable = true) := by
  have harises := locateDeclaration_arises h
  refine ⟨(idx.merged d).implementation, by rw [locateCallable, h]; rfl,
    Symbol.implementation_mem _, Symbol.isCallable_implementation_iff fun e he => ⟨?_, ?_⟩⟩
  · exact Index.merged_made harises.placed harises.made he
  · have hplaced := Index.merged_placed harises.placed e he
    exact hplaced.2.node_tree ▸ hparsed _ hplaced.1

/-- A project with a function behind a namespace and a signature. -/
def overloadBehindNamespace : Index :=
  .ofTexts [("a.ts", "namespace f \x7b\x7d\nfunction f(): void;\nfunction f() \x7b\x7d")] []

/-- The query is answered with the function that has a body. -/
theorem overloadBehindNamespace_callable : ∃ d t,
    locateDeclaration overloadBehindNamespace ⟨"f", none, none⟩ = .ok d ∧
    d.effectiveKind.isCallable = true ∧ d.hasBody = false ∧
    locateCallable overloadBehindNamespace ⟨"f", none, none⟩ = .ok t ∧
    t ∈ (overloadBehindNamespace.merged d).declarations ∧ t.effectiveKind.isCallable = true := by
  have heval : (locateDeclaration overloadBehindNamespace ⟨"f", none, none⟩).toOption.any (fun d =>
      d.effectiveKind.isCallable && !d.hasBody &&
        (overloadBehindNamespace.merged d).declarations.any (·.hasBody)) = true := by
    decide +kernel
  obtain ⟨d, hd, hcheck⟩ := Calls.exists_ok_of_any heval
  simp only [Bool.and_eq_true, Bool.not_eq_true', any_eq_true] at hcheck
  obtain ⟨t, ht, hmem, hiff⟩ := isCallable_locateCallable_iff (Index.parsed_ofTexts _ _) hd
  exact ⟨d, t, hd, hcheck.1.1, hcheck.1.2, ht, hmem, hiff.2 (.inl hcheck.2)⟩

/-- A project with a class behind an interface of the same name. -/
def classBehindInterface : Index :=
  .ofTexts [("a.ts", "interface Foo \x7b\x7d\nclass Foo \x7b\x7d")] []

/-- The query means the class and is answered with the interface. -/
theorem classBehindInterface_not_callable : ∃ d t,
    locateDeclaration classBehindInterface ⟨"Foo", none, none⟩ = .ok d ∧
    d.effectiveKind.isCallable = true ∧
    locateCallable classBehindInterface ⟨"Foo", none, none⟩ = .ok t ∧
    t.effectiveKind.isCallable = false := by
  have heval : (locateDeclaration classBehindInterface ⟨"Foo", none, none⟩).toOption.any (fun d =>
      d.effectiveKind.isCallable &&
        !(classBehindInterface.merged d).implementation.effectiveKind.isCallable) = true := by
    decide +kernel
  obtain ⟨d, hd, hcheck⟩ := Calls.exists_ok_of_any heval
  simp only [Bool.and_eq_true, Bool.not_eq_true'] at hcheck
  exact ⟨d, _, hd, hcheck.1, by rw [locateCallable, hd]; rfl, hcheck.2⟩

end Query

end ScriptAtlas
