import ScriptAtlas.Proofs.CallSymmetry

/-!
# Declarations directly in a file

Between a declaration and the list of statements in which it stands there are only `export`, `declare`,
a plain statement around a namespace, or a list of variables. The walk outwards from the declaration
passes these and ends at the file.

* `Node.Wraps`, `Node.Makes`: a statement, what it stands around, and what it declares;
* `SourceFile.topDeclarations`: the declarations directly in a file;
* `SourceFile.ancestors_of_mem_topDeclarations`: the nodes around one of them.
-/

namespace ScriptAtlas

open List Project Syntax

variable {ks : List Kind} {inner n stmt : Node} {t : Tree}

namespace Syntax.Node

/-! ## Statements and what they declare -/

/-- A statement and what stands in it, behind `export` and `declare`. -/
inductive Wraps : Node → Node → Prop
  | itself (n : Node) : Wraps n n
  | exported {n c inner : Node} (hkind : n.kind? = some .exportStatement)
      (hc : n.field? .declaration = some c) (h : Wraps c inner) : Wraps n inner
  | declared {n c inner : Node} (hkind : n.kind? = some .ambientDeclaration)
      (hc : n.parts.head? = some c) (h : Wraps c inner) : Wraps n inner
  | stated {n c : Node} (hkind : n.kind? = some .expressionStatement) (hc : c ∈ n.namedChildren) :
      Wraps n c

/-- The kinds of constructs that declare one name. -/
def singleKinds : List Kind :=
  [.functionDeclaration, .generatorFunctionDeclaration, .functionSignature, .classDeclaration,
   .abstractClassDeclaration, .interfaceDeclaration, .typeAliasDeclaration, .enumDeclaration,
   .internalModule, .moduleDeclaration]

/-- A statement, a node in it that declares something, and the token that names it. -/
inductive Makes (stmt : Node) : Node → Node → Prop
  /-- A construct with a name of its own. -/
  | single {inner name : Node} (hwraps : Wraps stmt inner) (hkind : inner.hasKindIn singleKinds = true)
      (hname : inner.declarationName? = some name) : Makes stmt inner name
  /-- A variable of a list. -/
  | listed {list d pattern name : Node} (hwraps : Wraps stmt list)
      (hlist : list.hasKindIn [.lexicalDeclaration, .variableDeclaration] = true)
      (hd : d ∈ list.namedChildren) (hkind : d.kind? = some .variableDeclarator)
      (hpattern : d.field? .name = some pattern) (hname : name ∈ pattern.bindingNames) :
      Makes stmt d name

theorem wraps_of_unwrapStatementUpTo {fuel : Nat}
    (h : unwrapStatementUpTo fuel n = some inner) : n.Wraps inner := by
  induction fuel generalizing n with
  | zero =>
    obtain rfl := Option.some.inj h
    exact .itself _
  | succ fuel ih =>
    unfold unwrapStatementUpTo at h
    split at h
    · next hkind =>
      obtain ⟨c, hc, h⟩ := Option.bind_eq_some_iff.1 h
      exact .exported hkind hc (ih h)
    · next hkind =>
      obtain ⟨c, hc, h⟩ := Option.bind_eq_some_iff.1 h
      exact .declared hkind hc (ih h)
    · next hkind =>
      rcases eq_or_eq_of_orElse h with h | h
      · exact .stated hkind (mem_of_find?_eq_some h)
      · obtain rfl := Option.some.inj h
        exact .itself _
    · obtain rfl := Option.some.inj h
      exact .itself _

theorem hasKindIn_of_kind? {k : Kind} (hk : n.kind? = some k)
    (hmem : k ∈ ks) : n.hasKindIn ks = true := by
  rw [hasKindIn, hk, Option.any_some]
  exact contains_iff_mem.2 hmem

theorem hasKind_of_hasKindIn {k : Kind} (h : n.hasKindIn ks = true)
    (hk : k ∉ ks) : n.hasKind k = false := by
  obtain ⟨k', hk', hmem⟩ := (Option.any_eq_true _ _).1 h
  have hne : k' ≠ k := by
    rintro rfl
    exact hk (contains_iff_mem.1 hmem)
  rw [hasKind, hk']
  exact beq_eq_false_iff_ne.2 fun heq => hne (Option.some.inj heq)

theorem hasKindIn_mono {ks' : List Kind} (h : n.hasKindIn ks = true)
    (hsub : ks ⊆ ks') : n.hasKindIn ks' = true := by
  obtain ⟨k, hk, hmem⟩ := (Option.any_eq_true _ _).1 h
  exact hasKindIn_of_kind? hk (hsub (contains_iff_mem.1 hmem))

theorem Makes.hasKindIn {d name : Node} (h : stmt.Makes d name) :
    d.hasKindIn (.variableDeclarator :: singleKinds) = true := by
  cases h with
  | single _ hkind => exact hasKindIn_mono hkind (subset_cons_self _ _)
  | listed _ _ _ hkind => exact hasKindIn_of_kind? hkind mem_cons_self

theorem makes_of_mem_statementDeclarations {p : Node × Node}
    (h : p ∈ stmt.statementDeclarations) : stmt.Makes p.1 p.2 := by
  unfold statementDeclarations at h
  split at h
  · cases h
  · next inner hinner =>
    have hwraps := wraps_of_unwrapStatementUpTo hinner
    have hsingle {k : Kind} (hk : inner.kind? = some k) (hmem : k ∈ singleKinds)
        (h : p ∈ (inner.declarationName?.map fun name => (inner, name)).toList) :
        stmt.Makes p.1 p.2 := by
      obtain ⟨name, hname, rfl⟩ := Option.map_eq_some_iff.1 (Option.mem_toList.1 h)
      exact .single hwraps (hasKindIn_of_kind? hk hmem) hname
    have hlisted {k : Kind} (hk : inner.kind? = some k)
        (hmem : k ∈ [.lexicalDeclaration, .variableDeclaration]) {d pattern : Node}
        (hd : d ∈ inner.namedChildren.filter (·.hasKind .variableDeclarator))
        (hpattern : d.field? .name = some pattern)
        (h : p ∈ pattern.bindingNames.map fun b => (d, b)) : stmt.Makes p.1 p.2 := by
      obtain ⟨hd, hkind⟩ := mem_filter.1 hd
      obtain ⟨b, hb, rfl⟩ := mem_map.1 h
      exact .listed hwraps (hasKindIn_of_kind? hk hmem) hd (kind?_of_hasKind hkind) hpattern hb
    split at h
    iterate 10
      next hk => exact hsingle hk (by decide) h
    iterate 2
      next hk =>
        obtain ⟨d, hd, h⟩ := mem_flatMap.1 h
        split at h
        · next pattern hpattern => exact hlisted hk (by decide) hd hpattern h
        · cases h
    · cases h

/-! ## The way out to the statement -/

/-- The kinds of nodes between a declaration and the list in which its statement stands. -/
def wrapperKinds : List Kind :=
  [.exportStatement, .ambientDeclaration, .expressionStatement, .lexicalDeclaration,
   .variableDeclaration]

theorem Wraps.tree (h : n.Wraps inner) : inner.tree = n.tree := by
  induction h with
  | itself n => rfl
  | exported _ hc _ ih => exact ih.trans (tree_of_field? hc)
  | declared _ hc _ ih => exact ih.trans (tree_of_head?_parts hc)
  | stated _ hc => exact tree_of_mem_namedChildren hc

theorem Wraps.ancestors (ht : n.tree.IsParsed) (h : n.Wraps inner) :
    ∃ wrappers, inner.ancestors = wrappers ++ n.ancestors ∧
      ∀ w ∈ wrappers, w.hasKindIn wrapperKinds = true := by
  have hstep {n c inner : Node} {k : Kind} (ht : n.tree.IsParsed) (hk : n.kind? = some k)
      (hmem : k ∈ wrapperKinds) (hc : c ∈ n.children)
      (h : ∃ wrappers, inner.ancestors = wrappers ++ c.ancestors ∧
        ∀ w ∈ wrappers, w.hasKindIn wrapperKinds = true) :
      ∃ wrappers, inner.ancestors = wrappers ++ n.ancestors ∧
        ∀ w ∈ wrappers, w.hasKindIn wrapperKinds = true := by
    obtain ⟨wrappers, hpath, hkinds⟩ := h
    refine ⟨wrappers ++ [n], ?_, ?_⟩
    · rw [hpath, ancestors_of_mem_children ht hc, append_assoc, singleton_append]
    · exact forall_mem_append.2
        ⟨hkinds, forall_mem_singleton.2 (hasKindIn_of_kind? hk hmem)⟩
  induction h with
  | itself n => exact ⟨[], rfl, nofun⟩
  | exported hkind hc _ ih =>
    exact hstep ht hkind (by decide) (mem_of_find?_eq_some hc) (ih (tree_of_field? hc ▸ ht))
  | declared hkind hc _ ih =>
    have hmem := mem_of_mem_filter (mem_of_mem_filter (mem_of_head? hc))
    exact hstep ht hkind (by decide) hmem (ih (tree_of_head?_parts hc ▸ ht))
  | stated hkind hc =>
    exact hstep ht hkind (by decide) (mem_of_mem_filter hc) ⟨[], rfl, nofun⟩

theorem Makes.ancestors {d name : Node} (ht : stmt.tree.IsParsed) (h : stmt.Makes d name) :
    ∃ wrappers, d.ancestors = wrappers ++ stmt.ancestors ∧
      ∀ w ∈ wrappers, w.hasKindIn wrapperKinds = true := by
  cases h with
  | single hwraps => exact hwraps.ancestors ht
  | @listed list _ _ _ hwraps hlist hd =>
    obtain ⟨wrappers, hpath, hkinds⟩ := hwraps.ancestors ht
    have hlt : list.tree.IsParsed := hwraps.tree ▸ ht
    refine ⟨list :: wrappers, ?_, forall_mem_cons.2 ⟨?_, hkinds⟩⟩
    · rw [ancestors_of_mem_children hlt (mem_of_mem_filter hd), hpath, cons_append]
    · exact hasKindIn_mono hlist (by decide)

end Syntax.Node

/-! ## Files -/

namespace Syntax

theorem Tree.IsParsed.exists_at_root (h : t.IsParsed) :
    ∃ root, t.root.At root ⟨0, root⟩ [] := by
  obtain ⟨root, hg⟩ := h.grown
  exact ⟨root, hg, .root, rfl⟩

theorem Tree.IsParsed.kind?_root (h : t.IsParsed) : t.root.kind? = some .program := by
  obtain ⟨root, hroot⟩ := h.exists_at_root
  rw [hroot.kind?, hroot.grown.rooted.label]
  rfl

theorem Tree.IsParsed.ancestors_root (h : t.IsParsed) : t.root.ancestors = [] := by
  obtain ⟨root, hroot⟩ := h.exists_at_root
  exact hroot.ancestors

end Syntax

namespace Project.SourceFile

def topDeclarations (f : SourceFile) : List Declaration :=
  f.root.blockDeclarations.filterMap fun (node, name) => Declaration.make? f node name

variable {f : SourceFile} {d : Declaration}

theorem file_of_mem_topDeclarations (h : d ∈ f.topDeclarations) : d.file = f := by
  obtain ⟨⟨node, name⟩, -, hmake⟩ := mem_filterMap.1 h
  obtain ⟨kind, -, rfl⟩ := Option.map_eq_some_iff.1 hmake
  rfl

theorem exists_statement_of_mem_topDeclarations (h : d ∈ f.topDeclarations) :
    ∃ stmt ∈ f.root.namedChildren, (d.node, d.nameNode) ∈ stmt.statementDeclarations ∧
      d.node.declarationKind? = some d.kind := by
  obtain ⟨⟨node, name⟩, hentry, hmake⟩ := mem_filterMap.1 h
  obtain ⟨kind, hkind, rfl⟩ := Option.map_eq_some_iff.1 hmake
  obtain ⟨stmt, hstmt, hentry⟩ := mem_flatMap.1 hentry
  exact ⟨stmt, hstmt, hentry, hkind⟩

theorem exists_makes_of_mem_topDeclarations (h : d ∈ f.topDeclarations) :
    ∃ stmt ∈ f.root.namedChildren, stmt.Makes d.node d.nameNode := by
  obtain ⟨stmt, hstmt, hentry, -⟩ := exists_statement_of_mem_topDeclarations h
  exact ⟨stmt, hstmt, Node.makes_of_mem_statementDeclarations hentry⟩

theorem ancestors_of_mem_topDeclarations (ht : f.tree.IsParsed) (h : d ∈ f.topDeclarations) :
    ∃ wrappers, d.node.ancestors = wrappers ++ [f.root] ∧
      ∀ w ∈ wrappers, w.hasKindIn Node.wrapperKinds = true := by
  obtain ⟨stmt, hstmt, hmakes⟩ := exists_makes_of_mem_topDeclarations h
  obtain ⟨wrappers, hpath, hkinds⟩ := hmakes.ancestors (Node.tree_of_mem_namedChildren hstmt ▸ ht)
  refine ⟨wrappers, ?_, hkinds⟩
  rw [hpath, Node.ancestors_of_mem_children ht (mem_of_mem_filter hstmt), root,
    ht.ancestors_root]

end Project.SourceFile

end ScriptAtlas
