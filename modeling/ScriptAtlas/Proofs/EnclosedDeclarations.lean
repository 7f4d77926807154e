import ScriptAtlas.Proofs.ExportStatements

/-!
# Declarations inside other constructs

The body of a namespace or of a declared module, a class, an interface, an enum and a block of global
declarations enclose what they declare: on the way out from there one meets a construct that never
stands around a declaration directly in a file. Imports are set apart by their kind.

* `Project.Index.Declared`: the declared modules of an index are those of its files;
* `Declaration.IsEnclosed`: imports, and what stands in another construct;
* `SourceFile.not_isEnclosed_of_mem_topDeclarations`: declarations directly in a file are neither.
-/

namespace ScriptAtlas

open List Project Syntax Syntax.Node

/-! ## Declared modules -/

namespace Project.Index

def Declared (idx : Index) : Prop :=
  idx.ambientModules = idx.files.toList.flatMap ambientModulesOf

theorem declared_of_build_ {fs : Storage.FileSystem} {root : Storage.Path} {settings : Settings}
    {idx : Index} (h : build_ fs root settings = .ok idx) : idx.Declared := by
  rw [eq_ofPaths_of_build_ h]
  rfl

theorem declared_ofTexts (texts : List (String × String)) (links : List Link) :
    (ofTexts texts links).Declared := rfl

end Project.Index

theorem exists_node_of_mem_ambientModulesOf {f : SourceFile} {m : AmbientModule}
    (h : m ∈ ambientModulesOf f) :
    m.file = f.id ∧ (f.tree.node m.node).kind? = some .moduleDeclaration := by
  obtain ⟨stmt, hstmt, h⟩ := mem_flatMap.1 h
  obtain ⟨n, hn, h⟩ := mem_filterMap.1 h
  obtain ⟨name, -, rfl⟩ := Option.map_eq_some_iff.1 h
  obtain ⟨hn, hkind⟩ := mem_filter.1 hn
  have htree : n.tree = f.tree := (tree_of_mem_namedChildren hn).trans
    (tree_of_mem_namedChildren (mem_of_mem_filter hstmt))
  refine ⟨rfl, ?_⟩
  rw [← htree]
  exact kind?_of_hasKind hkind

theorem Export.exists_module_of_mem_ambientBlocks {idx : Index} (hwell : idx.WellFormed)
    (hdeclared : idx.Declared) {specifier : String} {file : SourceFile} {body : Node}
    (h : (file, body) ∈ ambientBlocks idx specifier) :
    ∃ n : Node, n.kind? = some .moduleDeclaration ∧ n.field? .body = some body := by
  obtain ⟨m, hm, h⟩ := mem_filterMap.1 h
  obtain ⟨⟨g, node⟩, hnode, h⟩ := Option.bind_eq_some_iff.1 h
  obtain ⟨b, hbody, heq⟩ := Option.map_eq_some_iff.1 h
  cases heq
  have hm := mem_of_mem_filter hm
  rw [hdeclared] at hm
  obtain ⟨f, hf, hm⟩ := mem_flatMap.1 hm
  obtain ⟨hid, hkind⟩ := exists_node_of_mem_ambientModulesOf hm
  rw [Index.ambientNode?, hid, hwell.file?_id hf] at hnode
  cases hnode
  exact ⟨_, hkind, hbody⟩

/-! ## The way out -/

namespace Syntax.Node

variable {p : Node × Node}

/-- The kinds of nodes around a declaration directly in a file. -/
def outerKinds : List Kind := .program :: wrapperKinds

variable {n c a : Node}

theorem mem_ancestors_of_mem_children (ht : n.tree.IsParsed) (hc : c ∈ n.children) :
    n ∈ c.ancestors := by
  rw [ancestors_of_mem_children ht hc]
  exact mem_cons_self

theorem mem_ancestors_of_child (ht : n.tree.IsParsed) (hc : c ∈ n.children) (ha : a ∈ n.ancestors) :
    a ∈ c.ancestors := by
  rw [ancestors_of_mem_children ht hc]
  exact mem_cons_of_mem _ ha

theorem Makes.mem_ancestors {stmt d name : Node} (ht : stmt.tree.IsParsed) (h : stmt.Makes d name)
    (ha : a ∈ stmt.ancestors) : a ∈ d.ancestors := by
  obtain ⟨wrappers, hpath, -⟩ := h.ancestors ht
  rw [hpath]
  exact mem_append_right _ ha

theorem mem_ancestors_of_mem_blockDeclarations (ht : n.tree.IsParsed)
    (h : p ∈ n.blockDeclarations) : n ∈ p.1.ancestors := by
  obtain ⟨stmt, hstmt, h⟩ := mem_flatMap.1 h
  exact (makes_of_mem_statementDeclarations h).mem_ancestors (tree_of_mem_namedChildren hstmt ▸ ht)
    (mem_ancestors_of_mem_children ht (mem_of_mem_filter hstmt))

theorem mem_ancestors_of_mem_memberEntries (ht : n.tree.IsParsed) {body : Node}
    (h : p ∈ memberEntries body n) (ha : a ∈ n.ancestors) : a ∈ p.1.ancestors := by
  cases mem_memberEntries_iff.1 h with
  | named => exact ha
  | itself => exact ha
  | parameter _ hlist hparam =>
    exact mem_ancestors_of_child (tree_of_field? hlist ▸ ht) (mem_of_mem_filter hparam)
      (mem_ancestors_of_child ht (mem_of_find?_eq_some hlist) ha)

theorem mem_ancestors_of_mem_typeMembers (ht : n.tree.IsParsed) (h : p ∈ n.typeMembers) :
    n ∈ p.1.ancestors := by
  unfold typeMembers at h
  split at h
  · cases h
  · next body hbody =>
    obtain ⟨member, hmember, h⟩ := mem_flatMap.1 h
    have hbt : body.tree.IsParsed := tree_of_typeBody? hbody ▸ ht
    have hchild : body ∈ n.children := by
      rcases eq_or_eq_of_orElse hbody with hbody | hbody
      · exact mem_of_find?_eq_some hbody
      · exact mem_of_mem_filter (mem_of_find?_eq_some hbody)
    exact mem_ancestors_of_mem_memberEntries (tree_of_mem_namedChildren hmember ▸ hbt) h
      (mem_ancestors_of_child hbt (mem_of_mem_filter hmember)
        (mem_ancestors_of_mem_children ht hchild))

end Syntax.Node

/-! ## Enclosed declarations -/

namespace Declaration

/-- The declaration is an import, or stands in a construct that never stands around a declaration
directly in a file. -/
def IsEnclosed (d : Declaration) : Prop :=
  d.kind = .importName ∨ ∃ a ∈ d.node.ancestors, a.hasKindIn Node.outerKinds = false

variable {f : SourceFile} {d e : Declaration} {n : Node}

theorem isEnclosed_of_mem_filterMap_make? {ps : List (Node × Node)}
    (hn : n.hasKindIn Node.outerKinds = false) (hps : ∀ p ∈ ps, n ∈ p.1.ancestors)
    (h : d ∈ ps.filterMap fun (m, name) => make? f m name) : d.IsEnclosed := by
  obtain ⟨p, hp, h⟩ := mem_filterMap.1 h
  obtain ⟨kind, -, rfl⟩ := Option.map_eq_some_iff.1 h
  exact .inr ⟨n, hps p hp, hn⟩

end Declaration

namespace Scope

variable {f : SourceFile} {d : Declaration}

theorem kind_of_mem_clauseBindings {clause : Node} (h : d ∈ clauseBindings f clause) :
    d.kind = .importName := by
  have hbound {o : Option Node} {n : Node} (h : d ∈ (o.map fun name =>
      ({ file := f, kind := .importName, node := n, nameNode := name } : Declaration)).toList) :
      d.kind = .importName := by
    obtain ⟨name, -, rfl⟩ := Option.map_eq_some_iff.1 (Option.mem_toList.1 h)
    rfl
  unfold clauseBindings at h
  dsimp only at h
  split at h
  · obtain ⟨part, -, h⟩ := mem_flatMap.1 h
    split at h
    · rw [mem_singleton.1 h]
    · obtain ⟨spec, -, h⟩ := mem_filterMap.1 h
      obtain ⟨name, -, rfl⟩ := Option.map_eq_some_iff.1 h
      rfl
    · exact hbound h
    · cases h
  · exact hbound h
  · cases h

theorem isEnclosed_of_mem_importBindings {block : Node} (h : d ∈ importBindings f block) :
    d.IsEnclosed := by
  obtain ⟨stmt, -, h⟩ := mem_flatMap.1 h
  obtain ⟨clause, -, h⟩ := mem_flatMap.1 h
  exact .inl (kind_of_mem_clauseBindings h)

theorem isEnclosed_of_mem_listDeclarations {block : Node} (ht : block.tree.IsParsed)
    (hblock : block.hasKindIn Node.outerKinds = false) {meaning : Meaning}
    (h : d ∈ listDeclarations f block meaning) : d.IsEnclosed := by
  rcases mem_append.1 (mem_of_mem_filter h) with h | h
  · exact Declaration.isEnclosed_of_mem_filterMap_make? hblock
      (fun p => mem_ancestors_of_mem_blockDeclarations ht) h
  · exact isEnclosed_of_mem_importBindings h

/-- What a module shares with all files stands in a block of global declarations. -/
theorem isEnclosed_of_mem_shared (ht : f.tree.IsParsed) (hmodule : f.isModule = true) {name : String}
    {meaning : Meaning} (h : d ∈ shared f name meaning) : d.IsEnclosed := by
  obtain ⟨block, hblock, h⟩ := mem_flatMap.1 h
  rw [if_pos hmodule] at hblock
  have hbt : block.tree.IsParsed := tree_of_mem_globalBlocks hblock ▸ ht
  obtain ⟨stmt, -, hblock⟩ := mem_filterMap.1 hblock
  have hkind := find?_some hblock
  refine isEnclosed_of_mem_listDeclarations hbt ?_ (mem_of_mem_filter h)
  rw [Node.hasKindIn, kind?_of_hasKind hkind]
  rfl

end Scope

namespace Export

variable {f : SourceFile} {d e : Declaration} {name : String}

theorem isEnclosed_of_mem_namedDeclarations {stmt a : Node} (ht : stmt.tree.IsParsed)
    (ha : a ∈ stmt.ancestors) (houter : a.hasKindIn Node.outerKinds = false)
    (h : d ∈ namedDeclarations f stmt name) : d.IsEnclosed :=
  Declaration.isEnclosed_of_mem_filterMap_make? houter
    (fun _ hp => (makes_of_mem_statementDeclarations (mem_of_mem_filter hp)).mem_ancestors ht
      ha) h

theorem isEnclosed_of_mem_blockPartsNamed {n body : Node} (ht : n.tree.IsParsed)
    (houter : n.hasKindIn Node.outerKinds = false) (hbody : n.field? .body = some body)
    (h : e ∈ blockPartsNamed f body name) : e.IsEnclosed := by
  have hbt : body.tree.IsParsed := tree_of_field? hbody ▸ ht
  unfold blockPartsNamed at h
  dsimp only at h
  split at h
  · exact Scope.isEnclosed_of_mem_importBindings (mem_of_mem_filter h)
  · refine Declaration.isEnclosed_of_mem_filterMap_make? houter (fun p hp => ?_) h
    obtain ⟨stmt, hstmt, hp⟩ := mem_flatMap.1 (mem_of_mem_filter hp)
    exact (makes_of_mem_statementDeclarations hp).mem_ancestors
      (tree_of_mem_namedChildren hstmt ▸ hbt)
      (mem_ancestors_of_child hbt (mem_of_mem_filter hstmt)
        (mem_ancestors_of_mem_children ht (mem_of_find?_eq_some hbody)))

theorem isEnclosed_of_mem_partsNamed (ht : d.node.tree.IsParsed) (h : e ∈ partsNamed d name) :
    e.IsEnclosed := by
  have houter {k : Kind} (hk : d.node.kind? = some k) (hkind : Node.outerKinds.contains k = false) :
      d.node.hasKindIn Node.outerKinds = false := by
    rw [Node.hasKindIn, hk, Option.any_some, hkind]
  have hmember {k : Kind} (hk : d.node.kind? = some k) (hkind : Node.outerKinds.contains k = false)
      (h : e ∈ d.ownMembers name) : e.IsEnclosed :=
    Declaration.isEnclosed_of_mem_filterMap_make? (houter hk hkind)
      (fun _ hp => mem_ancestors_of_mem_typeMembers ht (mem_of_mem_filter hp)) h
  unfold partsNamed at h
  split at h
  iterate 2
    next hk =>
      split at h
      · next body hbody => exact isEnclosed_of_mem_blockPartsNamed ht (houter hk rfl) hbody h
      · cases h
  iterate 5
    next hk => exact hmember hk rfl h
  · cases h

end Export

theorem Project.SourceFile.not_isEnclosed_of_mem_topDeclarations {f : SourceFile} {d : Declaration}
    (ht : f.tree.IsParsed) (h : d ∈ f.topDeclarations) : ¬ d.IsEnclosed := by
  rintro (hkind | ⟨a, ha, houter⟩)
  · obtain ⟨stmt, -, hentry, hdeclares⟩ := exists_statement_of_mem_topDeclarations h
    have hmakes := makes_of_mem_statementDeclarations hentry
    obtain ⟨k, hk, hmem⟩ := (Option.any_eq_true _ _).1 hmakes.hasKindIn
    rw [hkind, Node.declarationKind?, hk] at hdeclares
    have hmem := contains_iff_mem.1 hmem
    simp only [Node.singleKinds, mem_cons, not_mem_nil, or_false] at hmem
    rcases hmem with rfl | rfl | rfl | rfl | rfl | rfl | rfl | rfl | rfl | rfl | rfl <;>
      cases hdeclares
  · obtain ⟨wrappers, hpath, hkinds⟩ := ancestors_of_mem_topDeclarations ht h
    rw [hpath] at ha
    have hin : a.hasKindIn Node.outerKinds = true := by
      rcases mem_append.1 ha with ha | ha
      · exact hasKindIn_mono (hkinds a ha) (subset_cons_self _ _)
      · rw [mem_singleton.1 ha]
        exact hasKindIn_of_kind? ht.kind?_root mem_cons_self
    rw [houter] at hin
    cases hin

end ScriptAtlas
