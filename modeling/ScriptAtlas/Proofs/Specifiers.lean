import ScriptAtlas.Proofs.Linking
import ScriptAtlas.Proofs.TopLevel

/-!
# Specifiers and lookups

Which modules a file refers to is gathered in two places: linking goes through the statements directly
in the file and through calls, and a lookup takes the specifier of the statement at which it stands,
wherever that is. For one statement the two agree, so what is looked up for a statement directly in a
file has been linked; what is looked up for a statement in the body of a namespace or of a module that
is declared by name has a link only if the file names the same module in one of the other ways too.

* `Export.LooksUp`: the specifiers that are looked up for a statement;
* `Export.LooksUp.mem_statementSpecifiers`: they are those of the statement;
* `Index.lookup_linked_iff`: which of them have links.
-/

namespace ScriptAtlas

open List Project Syntax Syntax.Node

variable {stmt : Node} {specifier : String}

namespace Syntax.Node

theorem findAncestor?_of_ancestors {n : Node} {inner outer : List Node} {k : Kind}
    (hpath : n.ancestors = inner ++ stmt :: outer) (hinner : ∀ m ∈ inner, m.hasKind k = false)
    (hstmt : stmt.hasKind k = true) : n.findAncestor? (·.hasKind k) = some stmt := by
  have hnone : inner.find? (·.hasKind k) = none :=
    find?_eq_none.2 fun m hm => by simp [hinner m hm]
  rw [findAncestor?, hpath, find?_append, hnone, Option.none_or, find?_cons, hstmt]

theorem hasKind_eq_false {n : Node} {k k' : Kind} (hk : n.kind? = some k) (hne : k ≠ k') :
    n.hasKind k' = false := by
  rw [hasKind, hk]
  exact beq_eq_false_iff_ne.2 fun heq => hne (Option.some.inj heq)

end Syntax.Node

namespace Export

open Scope SourceFile

/-! ## Lookups -/

/-- The specifiers by which modules are looked up for a statement: for a name that it imports, for
names that it hands on, for all names that it hands on, and for a module that it exports under a
name. -/
inductive LooksUp (file : SourceFile) (stmt : Node) : String → Prop
  | imported {clause : Node} {d : Declaration} {specifier : String}
      (hkind : stmt.hasKind .importStatement = true) (hclause : clause ∈ stmt.namedChildren)
      (hd : d ∈ clauseBindings file clause) (hsource : bindingSource? d.node = some specifier) :
      LooksUp file stmt specifier
  | names {clause src : Node} {specifier : String} (hkind : stmt.hasKind .exportStatement = true)
      (hform : formOf stmt = .names clause (some src)) (hsource : src.stringValue = specifier) :
      LooksUp file stmt specifier
  | star {name specifier : String} (hsource : starSource? name stmt = some specifier) :
      LooksUp file stmt specifier
  | space {ns n : Node} {specifier : String} (hkind : stmt.hasKind .exportStatement = true)
      (hform : formOf stmt = .space ns)
      (hsource : moduleBehind? ⟨file, .namespaceName, ns, n⟩ = some specifier) :
      LooksUp file stmt specifier

/-- A binding of an import statement is its clause, or stands in its clause and is none that requires
a module; the nearest import statement around it is that one. -/
theorem findAncestor?_of_mem_clauseBindings {file : SourceFile} {clause : Node}
    {d : Declaration} (ht : stmt.tree.IsParsed) (hkind : stmt.hasKind .importStatement = true)
    (hclause : clause ∈ stmt.namedChildren) (hd : d ∈ clauseBindings file clause) :
    d.node.findAncestor? (·.hasKind .importStatement) = some stmt ∧
      (d.node = clause ∨ d.node.hasKind .importRequireClause = false) := by
  have hct : clause.tree.IsParsed := tree_of_mem_namedChildren hclause ▸ ht
  have hup := ancestors_of_mem_children ht (mem_of_mem_filter hclause)
  unfold clauseBindings at hd
  dsimp only at hd
  split at hd
  · next hck =>
    have hnot : clause.hasKind .importStatement = false := hasKind_eq_false hck (by decide)
    obtain ⟨part, hpart, hd⟩ := mem_flatMap.1 hd
    have hpartUp := ancestors_of_mem_children hct (mem_of_mem_filter hpart)
    -- a part of the clause is two steps below the statement
    have hfound {k : Kind} (hk : part.kind? = some k) (hne : k ≠ .importRequireClause) :
        part.findAncestor? (·.hasKind .importStatement) = some stmt ∧
          (part = clause ∨ part.hasKind .importRequireClause = false) := by
      refine ⟨?_, .inr (hasKind_eq_false hk hne)⟩
      have hway : part.ancestors = [clause] ++ stmt :: stmt.ancestors := by
        rw [hpartUp, hup]
        rfl
      exact findAncestor?_of_ancestors hway (forall_mem_singleton.2 hnot) hkind
    split at hd
    · next hk =>
      rw [mem_singleton.1 hd]
      exact hfound hk (by decide)
    · next hk =>
      obtain ⟨spec, hspec, hd⟩ := mem_filterMap.1 hd
      obtain ⟨hspec, hsk⟩ := mem_filter.1 hspec
      obtain ⟨name, -, rfl⟩ := Option.map_eq_some_iff.1 hd
      have hpt : part.tree.IsParsed := tree_of_mem_namedChildren hpart ▸ hct
      have hspecUp := ancestors_of_mem_children hpt (mem_of_mem_filter hspec)
      have hway : spec.ancestors = [part, clause] ++ stmt :: stmt.ancestors := by
        rw [hspecUp, hpartUp, hup]
        rfl
      refine ⟨findAncestor?_of_ancestors hway ?_ hkind,
        .inr (hasKind_eq_false (kind?_of_hasKind hsk) (by decide))⟩
      exact forall_mem_cons.2
        ⟨hasKind_eq_false hk (by decide), forall_mem_singleton.2 hnot⟩
    · next hk =>
      obtain ⟨name, -, rfl⟩ := Option.map_eq_some_iff.1 (Option.mem_toList.1 hd)
      exact hfound hk (by decide)
    · cases hd
  · obtain ⟨name, -, rfl⟩ := Option.map_eq_some_iff.1 (Option.mem_toList.1 hd)
    have hway : clause.ancestors = [] ++ stmt :: stmt.ancestors := hup
    exact ⟨findAncestor?_of_ancestors hway nofun hkind, .inl rfl⟩
  · cases hd

/-- An import statement, or an export statement, with a source of its own has one specifier. -/
theorem mem_statementSpecifiers_of_source {src : Node}
    (hkind : stmt.hasKindIn [.importStatement, .exportStatement] = true)
    (hsrc : stmt.field? .source = some src) : src.stringValue ∈ statementSpecifiers stmt := by
  rw [statementSpecifiers, hkind, hsrc]
  exact mem_singleton_self _

/-- What is looked up for a statement is a specifier of the statement. -/
theorem LooksUp.mem_statementSpecifiers {file : SourceFile}
    (ht : stmt.tree.IsParsed) (h : LooksUp file stmt specifier) :
    specifier ∈ statementSpecifiers stmt := by
  have hexport (hkind : stmt.hasKind .exportStatement = true) :
      stmt.hasKindIn [.importStatement, .exportStatement] = true :=
    hasKindIn_of_kind? (kind?_of_hasKind hkind) (by decide)
  cases h with
  | @imported clause d _ hkind hclause hd hsource =>
    have hin : stmt.hasKindIn [.importStatement, .exportStatement] = true :=
      hasKindIn_of_kind? (kind?_of_hasKind hkind) (by decide)
    obtain ⟨hfind, hnode⟩ := findAncestor?_of_mem_clauseBindings ht hkind hclause hd
    rw [bindingSource?, hfind, Option.bind_some] at hsource
    unfold importSource? at hsource
    split at hsource
    · next src hsrc =>
      rw [← Option.some.inj hsource]
      exact mem_statementSpecifiers_of_source hin hsrc
    · next hnone =>
      obtain ⟨src, hsrc, hvalue⟩ := Option.map_eq_some_iff.1 hsource
      obtain ⟨required, hrequired, hsrc⟩ := Option.bind_eq_some_iff.1 hsrc
      have hmem : required ∈ stmt.namedChildren.filter (·.hasKind .importRequireClause) := by
        split at hrequired
        · next hreq =>
          obtain rfl := Option.some.inj hrequired
          rcases hnode with heq | hnot
          · exact mem_filter.2 ⟨heq ▸ hclause, hreq⟩
          · rw [hnot] at hreq
            cases hreq
        · have hreq := find?_some hrequired
          exact mem_filter.2 ⟨mem_of_find?_eq_some hrequired, hreq⟩
      rw [statementSpecifiers, hin, hnone]
      exact mem_filterMap.2 ⟨required, hmem, by rw [hsrc, Option.map_some, hvalue]⟩
  | names hkind hform hsource =>
    rw [← hsource]
    exact mem_statementSpecifiers_of_source (hexport hkind) (describes_of_formOf hform).2.2
  | star hsource =>
    obtain ⟨hkind, -, src, hform, hvalue⟩ := starSource?_eq_some_iff.1 hsource
    rw [← hvalue]
    exact mem_statementSpecifiers_of_source (hexport hkind) (describes_of_formOf hform)
  | space hkind hform hsource =>
    have hparent := parent?_of_mem_children ht
      (mem_of_mem_filter (describes_of_formOf hform).1)
    rw [moduleBehind?, kind?_of_formOf_space hform] at hsource
    obtain ⟨src, hsrc, hvalue⟩ := Option.map_eq_some_iff.1 hsource
    rw [hparent, Option.bind_some] at hsrc
    rw [← hvalue]
    exact mem_statementSpecifiers_of_source (hexport hkind) hsrc

end Export

namespace Project

/-- The statements directly in a file name a module, or a call anywhere in it does. -/
def SourceFile.Names (f : SourceFile) (specifier : String) : Prop :=
  (∃ stmt ∈ f.root.namedChildren, specifier ∈ statementSpecifiers stmt) ∨
    ∃ call ∈ f.tree.nodes, callSpecifier? call = some specifier

theorem SourceFile.mem_moduleSpecifiers_iff {f : SourceFile} :
    specifier ∈ moduleSpecifiers f.tree ↔ f.Names specifier ∧ specifier ≠ "" := by
  rw [moduleSpecifiers, mem_eraseDups, mem_filter, mem_append, mem_flatMap,
    mem_filterMap, bne_iff_ne]
  rfl

namespace Index

variable {fs : Storage.FileSystem} {root : Storage.Path} {settings : Settings} {idx : Index}

theorem keys_links_of_build_ (h : build_ fs root settings = .ok idx) :
    idx.links.map Link.key = requests idx.files.toList := by
  obtain ⟨st, hrun, hfiles, hlinks⟩ := drains_of_build_ h
  have hlinked := hrun.linkedBelow
    ⟨filesAgree_scannedFiles fs root.normalize settings, rfl, nofun⟩
  rw [← hlinks, ← hfiles, hlinked.keys, ← Array.length_toList, take_length]

/-- A specifier of a file has a link, which a lookup then finds, exactly when it has been gathered. -/
theorem mem_moduleSpecifiers_iff_link (h : build_ fs root settings = .ok idx) {f : SourceFile}
    (hf : f ∈ idx.files) (specifier : String) :
    specifier ∈ SourceFile.moduleSpecifiers f.tree ↔
      ∃ l ∈ idx.links, l.from_ = f.id ∧ l.specifier = specifier := by
  have hkey : (∃ l ∈ idx.links, l.from_ = f.id ∧ l.specifier = specifier) ↔
      (f.id, specifier) ∈ idx.links.map Link.key := by
    simp only [mem_map, Link.key, Prod.mk.injEq]
  rw [hkey, keys_links_of_build_ h]
  constructor
  · intro hmem
    exact mem_flatMap.2 ⟨f, Array.mem_toList_iff.2 hf, mem_map_of_mem hmem⟩
  · intro hrequest
    obtain ⟨g, hg, hrequest⟩ := mem_flatMap.1 hrequest
    obtain ⟨s, hs, heq⟩ := mem_map.1 hrequest
    obtain ⟨hid, rfl⟩ := Prod.mk.inj heq
    rwa [(wellFormed_of_build_ h).eq_of_id_eq hg (Array.mem_toList_iff.2 hf) hid] at hs

theorem linked_of_link {id : Nat}
    (hlink : ∃ l ∈ idx.links, l.from_ = id ∧ l.specifier = specifier) :
    ∃ l ∈ idx.links, (l.from_ = id ∧ l.specifier = specifier) ∧
      idx.linked id specifier = l.targets.filterMap idx.file? := by
  obtain ⟨l, hl, hfrom, hspecifier⟩ := hlink
  have hsome : (idx.links.find? fun l => l.from_ == id && l.specifier == specifier).isSome = true :=
    find?_isSome.2 ⟨l, hl, by simp [hfrom, hspecifier]⟩
  obtain ⟨found, hfound⟩ := Option.isSome_iff_exists.1 hsome
  have hkey := find?_some hfound
  simp only [Bool.and_eq_true, beq_iff_eq] at hkey
  exact ⟨found, mem_of_find?_eq_some hfound, hkey, by rw [linked, hfound]⟩

theorem linked_eq_nil {id : Nat}
    (hnone : ¬ ∃ l ∈ idx.links, l.from_ = id ∧ l.specifier = specifier) :
    idx.linked id specifier = [] := by
  have hfind : (idx.links.find? fun l => l.from_ == id && l.specifier == specifier) = none := by
    refine find?_eq_none.2 fun l hl hkey => hnone ⟨l, hl, ?_⟩
    simpa using hkey
  rw [linked, hfind]

/-- Which lookups find a link. In every index that is built, and for every statement anywhere in a
file, what is looked up for the statement is a specifier of the statement. If the statement stands
directly in the file, its specifiers have been gathered. A specifier that has been gathered has a link,
which gives the lookup its files; for one that has not been gathered the lookup gives no files. And
those gathered are the ones that statements directly in the file name, or calls anywhere in it. -/
theorem lookup_linked_iff (h : build_ fs root settings = .ok idx) {f : SourceFile}
    (hf : f ∈ idx.files) {stmt : Node} (hstmt : stmt ∈ f.tree.nodes) :
    (∀ specifier, Export.LooksUp f stmt specifier →
      specifier ∈ SourceFile.statementSpecifiers stmt) ∧
    ∀ specifier ∈ SourceFile.statementSpecifiers stmt, specifier ≠ "" →
      (stmt ∈ f.root.namedChildren → specifier ∈ SourceFile.moduleSpecifiers f.tree) ∧
      (specifier ∈ SourceFile.moduleSpecifiers f.tree →
        ∃ l ∈ idx.links, (l.from_ = f.id ∧ l.specifier = specifier) ∧
          idx.linked f.id specifier = l.targets.filterMap idx.file?) ∧
      (specifier ∉ SourceFile.moduleSpecifiers f.tree → idx.linked f.id specifier = []) ∧
      (specifier ∈ SourceFile.moduleSpecifiers f.tree ↔ f.Names specifier) := by
  have ht : stmt.tree.IsParsed := by
    rw [tree_of_mem_nodes hstmt]
    exact parsed_of_build_ h f (Array.mem_toList_iff.2 hf)
  refine ⟨fun _ hlook => hlook.mem_statementSpecifiers ht, fun specifier hspecifier hne => ?_⟩
  have hlink := mem_moduleSpecifiers_iff_link h hf specifier
  have hnames : specifier ∈ SourceFile.moduleSpecifiers f.tree ↔ f.Names specifier :=
    SourceFile.mem_moduleSpecifiers_iff.trans (and_iff_left hne)
  refine ⟨fun htop => ?_, fun hmem => linked_of_link (hlink.1 hmem),
    fun hnot => linked_eq_nil (mt hlink.2 hnot), hnames⟩
  exact hnames.2 (.inl ⟨stmt, htop, hspecifier⟩)

/-- Whether a file of the index imports something from a module, by a statement directly in it. -/
def importsFrom (specifier : String) (idx : Index) : Bool :=
  idx.files.toList.any fun f => f.root.namedChildren.any fun stmt =>
    stmt.id < f.tree.size && stmt.hasKind .importStatement && stmt.namedChildren.any fun clause =>
      (Scope.clauseBindings f clause).any fun d => Export.bindingSource? d.node == some specifier

/-- In the project of one file the import directly in the file has been linked. -/
theorem loneModule_import_linked : build_ loneModule ⟨["app"]⟩ .default = .ok loneIndex ∧
    ∃ f ∈ loneIndex.files, ∃ stmt ∈ f.root.namedChildren, Export.LooksUp f stmt "./b" ∧
      ∃ l ∈ loneIndex.links, (l.from_ = f.id ∧ l.specifier = "./b") ∧
        loneIndex.linked f.id "./b" = l.targets.filterMap loneIndex.file? := by
  have hidx : importsFrom "./b" loneIndex = true := by decide +kernel
  obtain ⟨f, hf, hidx⟩ := any_eq_true.1 hidx
  obtain ⟨stmt, hstmt, hidx⟩ := any_eq_true.1 hidx
  simp only [Bool.and_eq_true, decide_eq_true_eq] at hidx
  obtain ⟨⟨hid, hkind⟩, hidx⟩ := hidx
  obtain ⟨clause, hclause, hidx⟩ := any_eq_true.1 hidx
  obtain ⟨d, hd, hsource⟩ := any_eq_true.1 hidx
  have hlook : Export.LooksUp f stmt "./b" := .imported hkind hclause hd (eq_of_beq hsource)
  have hf := Array.mem_toList_iff.1 hf
  have htree : stmt.tree = f.tree := tree_of_mem_namedChildren hstmt
  have hnode : stmt ∈ stmt.tree.nodes := mem_nodes_of_lt (by rwa [htree])
  rw [htree] at hnode
  obtain ⟨hmem, hlinked⟩ := lookup_linked_iff build_loneModule hf hnode
  obtain ⟨htop, hlink, -⟩ := hlinked "./b" (hmem "./b" hlook) (by decide)
  exact ⟨build_loneModule, f, hf, stmt, hstmt, hlook, hlink (htop hstmt)⟩

/-- Whether a statement of a file of the index hands on all of a module that has not been gathered. -/
def handsOnUnlinked (specifier : String) (idx : Index) : Bool :=
  idx.files.toList.any fun f => f.tree.nodes.any fun stmt =>
    Export.starSource? "a" stmt == some specifier
      && (SourceFile.statementSpecifiers stmt).contains specifier
      && !(SourceFile.moduleSpecifiers f.tree).contains specifier
      && (idx.linked f.id specifier).isEmpty
      && ((Resolver.new loneModule idx.root idx.build).resolve specifier f.path).contains f.path

/-- In the project of one file the module that the block hands on has not been linked, so that the
lookup gives no files, though the specifier leads to the file itself. -/
theorem loneModule_star_unlinked : build_ loneModule ⟨["app"]⟩ .default = .ok loneIndex ∧
    ∃ f ∈ loneIndex.files, ∃ stmt ∈ f.tree.nodes, Export.LooksUp f stmt "./a" ∧
      "./a" ∈ SourceFile.statementSpecifiers stmt ∧
      "./a" ∉ SourceFile.moduleSpecifiers f.tree ∧ loneIndex.linked f.id "./a" = [] ∧
      f.path ∈ (Resolver.new loneModule loneIndex.root loneIndex.build).resolve "./a" f.path := by
  have hidx : handsOnUnlinked "./a" loneIndex = true := by decide +kernel
  obtain ⟨f, hf, hidx⟩ := any_eq_true.1 hidx
  obtain ⟨stmt, hstmt, hidx⟩ := any_eq_true.1 hidx
  simp only [Bool.and_eq_true, Bool.not_eq_true', beq_iff_eq, contains_iff_mem,
    List.isEmpty_iff, ← Bool.not_eq_true] at hidx
  obtain ⟨⟨⟨⟨hstar, hspecifier⟩, hnot⟩, hnone⟩, hpath⟩ := hidx
  exact ⟨build_loneModule, f, Array.mem_toList_iff.1 hf, stmt, hstmt, .star hstar, hspecifier, hnot,
    hnone, hpath⟩

end Index

end Project

end ScriptAtlas
