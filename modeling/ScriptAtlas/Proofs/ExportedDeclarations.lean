import ScriptAtlas.Proofs.Barrels
import ScriptAtlas.Proofs.DeadSymbols
import ScriptAtlas.Proofs.EnclosedDeclarations

/-!
# The export flag and export resolution

A declaration carries a flag that says whether it is exported: it stands directly under `export`, or it
stands directly in its file and an export list or a default export of the file names it. What a file
exports under a name is found by a search. Here the two are compared, for the declarations directly in
a module.

* `Node.listedNames`, `Node.releasedNames`: the names that the export statements of a block list, and
  all that they let out;
* `Export.isReleased_of_mem_answer`: what a search finds stands under `export` or is let out by name;
* `Export.exists_mem_moduleExport_of_modifier`, `Export.exists_mem_moduleExport_of_released`: and the
  other way around;
* `Index.moduleExport_iff_flag`: so a declaration with the flag is found, and one that is found has the
  flag, unless it is let out by name and `declare` stands before it or only `export =` names it.
-/

namespace ScriptAtlas

open List Project Syntax Syntax.Node

variable {ambientBlock : Bool} {es : List Declaration} {block : Node}

/-! ## Names that are let out -/

namespace Export

/-- The names of its own block that an export statement lists, or has as the default. -/
def Form.listedNames : Form → List String
  | .value v true => if v.hasKind .identifier then [v.text] else []
  | .names clause .none => (renamings clause).map (·.inner)
  | _ => []

/-- The name that an export statement puts in place of the module. -/
def Form.wholeNames : Form → List String
  | .whole (some target) => if target.hasKind .identifier then [target.text] else []
  | _ => []

theorem inner_mem_renamings {clause spec inner : Node}
    (hspec : spec ∈ clause.namedChildren.filter (·.hasKind .exportSpecifier))
    (hinner : spec.field? .name = some inner) :
    inner.stringValue ∈ (renamings clause).map (·.inner) := by
  rw [renamings, map_filterMap]
  refine mem_filterMap.2 ⟨spec, hspec, ?_⟩
  simp only [hinner, Option.map_some]

/-- The names of its own block that an export statement lets out. -/
def Form.releasedNames (form : Form) : List String := form.listedNames ++ form.wholeNames

end Export

namespace Syntax.Node

/-- The export statements of a block. -/
def exportStatements (block : Node) : List Node :=
  block.namedChildren.filter (·.hasKind .exportStatement)

/-- The names that the export statements of a block list, or have as the default. -/
def listedNames (block : Node) : List String :=
  block.exportStatements.flatMap fun stmt => (Export.formOf stmt).listedNames

/-- The names that the export statements of a block let out. -/
def releasedNames (block : Node) : List String :=
  block.exportStatements.flatMap fun stmt => (Export.formOf stmt).releasedNames

theorem listedNames_subset_releasedNames (block : Node) : block.listedNames ⊆ block.releasedNames := by
  intro name h
  obtain ⟨stmt, hstmt, h⟩ := mem_flatMap.1 h
  exact mem_flatMap.2 ⟨stmt, hstmt, mem_append_left _ h⟩

end Syntax.Node

namespace Project.SourceFile

/-- Whether the declarations that the file exports as its default declare something themselves. -/
def defaultsDeclare (f : SourceFile) : Bool :=
  f.root.exportStatements.all fun stmt =>
    !stmt.hasToken "default" || (stmt.field? .declaration).all (·.declarationKind?.isSome)

/-- Whether no name in the export lists of the file is quoted. -/
def listsUnquoted (f : SourceFile) : Bool :=
  f.root.exportStatements.all fun stmt =>
    (stmt.namedChildren.filter (·.hasKind .exportClause)).all fun clause =>
      (clause.namedChildren.filter (·.hasKind .exportSpecifier)).all fun spec =>
        (spec.field? .name).all fun name => name.stringValue == name.text

end Project.SourceFile

/-! ## What a search finds -/

namespace Export

variable {idx : Index} {f file : SourceFile} {d : Declaration} {stmt : Node} {name : String}

section

variable (hparsed : idx.Parsed) (hf : f ∈ idx.files.toList) (hmodule : f.isModule = true)
  (hd : d ∈ f.topDeclarations)

include hparsed hf hmodule hd

/-- A plain name that means a declaration directly in a module stands in that module, and is its
name. -/
theorem eq_of_mem_resolveName {text : String} (hstmt : stmt.tree = file.tree)
    (h : d ∈ ((idx.resolveName file stmt text .any).map Symbol.declarations).getD []) :
    file = f ∧ d.name = text := by
  have hfile : d.file = f := SourceFile.file_of_mem_topDeclarations hd
  cases hs : idx.resolveName file stmt text .any with
  | none =>
    rw [hs] at h
    cases h
  | some s =>
    rw [hs] at h
    rcases eq_or_eq_of_orElse hs with hs | hs
    · have hlocal : d ∈ Scope.local_ file stmt text .any :=
        (Symbol.ofList?_eq_some_iff _ _).1 hs ▸ h
      obtain ⟨-, -, -, hname⟩ := Scope.mem_local hlocal
      exact ⟨((Scope.origin_of_mem_local hlocal).liesIn hstmt).file_eq.symm.trans hfile, hname⟩
    · -- what all files share either is enclosed or lies in a file that is no module
      have hglobal : d ∈ Scope.global idx file text .any :=
        (Symbol.ofList?_eq_some_iff _ _).1 hs ▸ h
      obtain ⟨g, -, hshared⟩ := mem_flatMap.1 hglobal
      split at hshared
      · cases hshared
      · have hg : g = f := ((Scope.origin_of_mem_shared hshared).liesIn rfl).file_eq.symm.trans hfile
        rw [hg] at hshared
        exact absurd (Scope.isEnclosed_of_mem_shared (hparsed f hf) hmodule hshared)
          (SourceFile.not_isEnclosed_of_mem_topDeclarations (hparsed f hf) hd)

variable (hfile : file ∈ idx.files.toList) (hstmt : stmt.tree = file.tree)
  (hk : stmt.kind? = some .exportStatement)

include hfile hstmt hk

/-- A value that is exported is part of its statement, or a name of its file. -/
theorem exported_of_mem_valueDeclarations {v : Node} (hv : v ∈ stmt.children)
    (h : d ∈ valueDeclarations idx file stmt v) :
    d.node.hasExportModifier = true ∨ file = f ∧ v.hasKind .identifier = true ∧ d.name = v.text := by
  have hpart : v.hasExportModifier = true :=
    hasExportModifier_of_export (hstmt ▸ hparsed file hfile) hk hv
  unfold valueDeclarations at h
  split at h
  · next hidentifier =>
    obtain ⟨hfile, hname⟩ := eq_of_mem_resolveName hparsed hf hmodule hd hstmt h
    exact .inr ⟨hfile, hidentifier, hname⟩
  · left
    split at h
    · next e he =>
      rw [mem_singleton.1 h]
      split at he
      · obtain ⟨kind, -, he⟩ := Option.bind_eq_some_iff.1 he
        obtain ⟨name, -, rfl⟩ := Option.map_eq_some_iff.1 he
        exact hpart
      · cases he
    · split at h
      · rw [mem_singleton.1 h]
        exact hpart
      · cases h

/-- What an export statement contributes under a name stands in it, or has a name that it lists. -/
theorem exported_of_mem_ownDeclarations
    (h : d ∈ ownDeclarations idx file stmt (formOf stmt) name) :
    d.node.hasExportModifier = true ∨ file = f ∧ d.name ∈ (formOf stmt).releasedNames := by
  have ht : stmt.tree.IsParsed := hstmt ▸ hparsed file hfile
  have hdescribes := formOf_describes stmt
  unfold ownDeclarations at h
  split at h
  · next c isDefault hform =>
    rw [hform] at hdescribes
    left
    split at h
    · obtain ⟨⟨node, nameNode⟩, hentry, hmake⟩ := mem_filterMap.1 h
      obtain ⟨kind, -, rfl⟩ := Option.map_eq_some_iff.1 hmake
      exact (makes_of_mem_statementDeclarations (mem_of_mem_filter hentry)).hasExportModifier
        ht hk
    · split at h
      · obtain ⟨kind, -, h⟩ := Option.bind_eq_some_iff.1 (Option.mem_toList.1 h)
        obtain ⟨nameNode, -, rfl⟩ := Option.map_eq_some_iff.1 h
        exact hasExportModifier_of_export ht hk (mem_of_find?_eq_some hdescribes.1)
      · cases h
  · next v isDefault hform =>
    rw [hform] at hdescribes
    split at h
    · next hcond =>
      refine (exported_of_mem_valueDeclarations hparsed hf hmodule hd hfile hstmt hk
        (mem_of_find?_eq_some hdescribes.1) h).imp_right fun ⟨hfile, hidentifier, hname⟩ => ?_
      obtain rfl : isDefault = true := (Bool.and_eq_true_iff.1 hcond).1
      refine ⟨hfile, ?_⟩
      simp [hform, Form.releasedNames, Form.listedNames, hidentifier, hname]
    · cases h
  · next clause hform =>
    obtain ⟨r, hr, h⟩ := mem_flatMap.1 h
    obtain ⟨hfile, hname⟩ := eq_of_mem_resolveName hparsed hf hmodule hd hstmt h
    refine .inr ⟨hfile, ?_⟩
    rw [hform, hname]
    exact mem_append_left _ (mem_map_of_mem (mem_of_mem_filter hr))
  · next ns hform =>
    rw [hform] at hdescribes
    left
    split at h
    · split at h
      · rw [mem_singleton.1 h]
        exact hasExportModifier_of_export ht hk (mem_of_mem_filter hdescribes.1)
      · cases h
    · cases h
  · cases h

theorem exported_of_mem_wholeDeclarations {target : Node} (hform : formOf stmt = .whole (some target))
    (h : d ∈ valueDeclarations idx file stmt target) :
    d.node.hasExportModifier = true ∨ file = f ∧ d.name ∈ (formOf stmt).releasedNames := by
  have htarget : target ∈ stmt.children := mem_of_mem_filter
    (mem_of_mem_filter (mem_of_head? (describes_of_formOf hform)))
  refine (exported_of_mem_valueDeclarations hparsed hf hmodule hd hfile hstmt hk htarget h).imp_right
    fun ⟨hfile, hidentifier, hname⟩ => ⟨hfile, ?_⟩
  simp [hform, Form.releasedNames, Form.wholeNames, hidentifier, hname]

end

/-- The declaration stands under `export`, or its file lets its name out. -/
def IsReleased (f : SourceFile) (d : Declaration) : Prop :=
  d.node.hasExportModifier = true ∨ d.name ∈ f.root.releasedNames

section

variable (hwell : idx.WellFormed) (hparsed : idx.Parsed) (hdeclared : idx.Declared)
  (hf : f ∈ idx.files.toList) (hmodule : f.isModule = true) (hd : d ∈ f.topDeclarations)
  (hambient : ∀ specifier body, (f, body) ∈ ambientBlocks idx specifier → d.name ∉ body.releasedNames)

/-- A file, or a block in it that declares a module and exports all it declares. -/
def IsBlock (idx : Index) (file : SourceFile) (block : Node) (ambientBlock : Bool) : Prop :=
  file ∈ idx.files.toList ∧ ambientBlock = false ∧ block = file.root ∨
    ambientBlock = true ∧ ∃ specifier, (file, block) ∈ ambientBlocks idx specifier

theorem IsBlock.mem_files (h : IsBlock idx file block ambientBlock) :
    file ∈ idx.files.toList ∧ block.tree = file.tree := by
  obtain ⟨hfile, -, rfl⟩ | ⟨-, specifier, hblock⟩ := h
  · exact ⟨hfile, rfl⟩
  · exact mem_files_of_mem_ambientBlocks hblock

include hambient in
theorem IsBlock.isReleased
    (h : IsBlock idx file block ambientBlock) (hstmt : stmt ∈ block.namedChildren)
    (hexport : stmt.hasKind .exportStatement = true)
    (hd : d.node.hasExportModifier = true ∨ file = f ∧ d.name ∈ (formOf stmt).releasedNames) :
    IsReleased f d := by
  refine hd.imp_right fun ⟨hfile, hname⟩ => ?_
  have hblock : d.name ∈ block.releasedNames :=
    mem_flatMap.2 ⟨stmt, mem_filter.2 ⟨hstmt, hexport⟩, hname⟩
  rw [hfile] at h
  obtain ⟨-, -, rfl⟩ | ⟨-, specifier, hmem⟩ := h
  · exact hblock
  · exact absurd hblock (hambient specifier block hmem)

/-- Searches all over a project, in which a certain declaration is found only if it is released. -/
def Region.releasing : Region idx where
  asks _ := True
  opens _ _ _ := True
  visits file block _ ambientBlock := IsBlock idx file block ambientBlock
  finds e := e.PlacedIn idx ∧ (e = d → IsReleased f d)
  asks_of_opens _ := trivial
  visits_of_opens _ h := .inl ⟨Index.mem_files_of_mem_linked h, rfl, rfl⟩
  opens_of_names _ _ _ _ := trivial
  opens_of_star _ _ _ := trivial
  asks_of_whole _ _ _ _ _ _ := trivial
  finds_own := by
    intro file block name _ stmt e hvisits hstmt hexport he
    obtain ⟨hfile, hblock⟩ := hvisits.mem_files
    have htree := (tree_of_mem_namedChildren hstmt).trans hblock
    refine ⟨(arises_of_mem_ownDeclarations hfile htree hexport he).placed, ?_⟩
    rintro rfl
    exact hvisits.isReleased hambient hstmt hexport (exported_of_mem_ownDeclarations hparsed hf hmodule
      hd hfile htree (kind?_of_hasKind hexport) he)
  finds_named := by
    intro file block name stmt e hvisits hstmt he
    obtain ⟨hfile, hblock⟩ := hvisits.mem_files
    have htree := (tree_of_mem_namedChildren hstmt).trans hblock
    have hbt : block.tree.IsParsed := hblock ▸ hparsed file hfile
    refine ⟨((origin_of_mem_namedDeclarations he).liesIn htree).placed hfile, ?_⟩
    rintro rfl
    obtain ⟨-, hflag, -⟩ | ⟨-, specifier, hmem⟩ := hvisits
    · cases hflag
    · obtain ⟨n, hn, hbody⟩ := exists_module_of_mem_ambientBlocks hwell hdeclared hmem
      have hnt : n.tree.IsParsed := tree_of_field? hbody ▸ hbt
      have houter : n.hasKindIn Node.outerKinds = false := by
        rw [Node.hasKindIn, hn]
        rfl
      have henclosed := isEnclosed_of_mem_namedDeclarations
        (tree_of_mem_namedChildren hstmt ▸ hbt)
        (mem_ancestors_of_child hbt (mem_of_mem_filter hstmt)
          (mem_ancestors_of_mem_children hnt (mem_of_find?_eq_some hbody))) houter he
      exact absurd henclosed (SourceFile.not_isEnclosed_of_mem_topDeclarations (hparsed f hf) hd)
  finds_value := by
    intro file block name _ stmt target e hvisits hstmt hexport hform he
    obtain ⟨hfile, hblock⟩ := hvisits.mem_files
    have htree := (tree_of_mem_namedChildren hstmt).trans hblock
    refine ⟨(arises_of_mem_valueDeclarations hfile htree hexport (.inr hform) he).placed, ?_⟩
    rintro rfl
    exact hvisits.isReleased hambient hstmt hexport (exported_of_mem_wholeDeclarations hparsed hf
      hmodule hd hfile htree (kind?_of_hasKind hexport) hform he)
  finds_part := by
    intro c e name hc he
    refine ⟨(arises_of_mem_partsNamed hc.1 he).placed, ?_⟩
    rintro rfl
    exact absurd (isEnclosed_of_mem_partsNamed (hc.1.node_parsed hparsed) he)
      (SourceFile.not_isEnclosed_of_mem_topDeclarations (hparsed f hf) hd)

include hwell hparsed hdeclared hf hmodule hd hambient

/-- A declaration directly in a module that some search finds is released by the module. -/
theorem isReleased_of_mem_answer {q : Question} (h : d ∈ (idx.answer? q).getD []) :
    IsReleased f d := by
  cases hds : idx.answer? q with
  | none =>
    rw [hds] at h
    cases h
  | some ds =>
    rw [hds] at h
    exact (answerUpTo_finds
      (G := Region.releasing hwell hparsed hdeclared hf hmodule hd hambient) (fun _ _ _ => trivial)
      (fun file hfile _ => .inl ⟨hfile, rfl, rfl⟩)
      (fun specifier _ _ hmem _ => .inr ⟨rfl, specifier, hmem⟩) hds d h).2 rfl

end

/-! ## Finding what is released -/

theorem mem_of_run_all {ss : List (Search Option)} {v w : List Goal} {ds : List Declaration}
    (h : Search.all ss v = some (ds, w)) (hes : pure es ∈ ss) (hd : d ∈ es) : d ∈ ds := by
  induction ss generalizing v ds with
  | nil => cases hes
  | cons s ss ih =>
    obtain ⟨found, u, more, hs, hrest, rfl⟩ := run_all_cons h
    rcases mem_cons.1 hes with rfl | hes
    · obtain ⟨rfl, -⟩ := run_pure_eq_some_iff.1 hs
      exact mem_append_left _ hd
    · exact mem_append_right _ (ih hrest hes)

theorem mem_of_run_ofBlock {ask : Question → Option (List Declaration)}
    {search : BlockSearch Option} {v w : List Goal}
    {ds : List Declaration} (hstmt : stmt ∈ block.namedChildren)
    (hexport : stmt.hasKind .exportStatement = true)
    (hes : ofStatement idx ask search file stmt name = pure es) (hd : d ∈ es)
    (h : ofBlock idx ask search file block name ambientBlock v = some (ds, w)) : d ∈ ds := by
  obtain ⟨found, u, hown, hrest⟩ := run_bind_eq_some_iff.1 h
  have hmem : d ∈ found := by
    refine mem_of_run_all hown (mem_map.2 ⟨stmt, hstmt, ?_⟩) hd
    rw [ofBlockStatement, if_pos hexport, hes]
  rw [isEmpty_eq_false_iff.2 (ne_nil_of_mem hmem)] at hrest
  obtain ⟨rfl, -⟩ := run_pure_eq_some_iff.1 hrest
  exact hmem

theorem mem_moduleExport_of_statement (hwell : idx.WellFormed) (hf : f ∈ idx.files.toList)
    (hends : Ends idx (.file f.id name)) (hstmt : stmt ∈ f.root.namedChildren)
    (hexport : stmt.hasKind .exportStatement = true)
    (hes : ∀ ask (search : BlockSearch Option), ofStatement idx ask search f stmt name = pure es)
    (hd : d ∈ es) : d ∈ idx.moduleExport f name := by
  obtain ⟨ds, hds⟩ := answerUpTo_of_ends hends
  have hanswer := hds _ (Nat.le_refl _)
  obtain ⟨w, hrun⟩ := exists_run_of_answerUpTo (hwell.file?_id hf) hanswer
  have hmem : d ∈ ds := mem_of_run_ofBlock hstmt hexport (hes _ _) hd hrun
  rw [Index.moduleExport, Index.answer?, hanswer]
  exact hmem

section

variable (hwell : idx.WellFormed) (ht : f.tree.IsParsed) (hf : f ∈ idx.files.toList)
  (hends : ∀ name, Ends idx (.file f.id name)) (hd : d ∈ f.topDeclarations)

include ht hd in
/-- At an export statement of a module a name means what the module declares under it. -/
theorem mem_resolveName_of_export (hstmt : stmt ∈ f.root.namedChildren)
    (hk : stmt.kind? = some .exportStatement) :
    d ∈ ((idx.resolveName f stmt d.name .any).map Symbol.declarations).getD [] := by
  have hst : stmt.tree.IsParsed := tree_of_mem_namedChildren hstmt ▸ ht
  have hnone : Scope.declarations f stmt .any = [] := by
    have hbound : Scope.functionBindings f stmt = [] := by
      rw [Scope.functionBindings, hk]
      rfl
    have htypes : Scope.typeParameters f stmt = [] := by
      rw [Scope.typeParameters, field?_typeParameters_of_export hst hk]
    simp [Scope.declarations, hk, hbound, htypes]
  have hmem := SourceFile.mem_namesakes_of_mem_topDeclarations ht hd
  have hpath : stmt :: stmt.ancestors = [stmt] ++ f.root :: [] := by
    rw [ancestors_of_mem_children ht (mem_of_mem_filter hstmt), SourceFile.root,
      ht.ancestors_root]
    rfl
  have hlocal : Scope.local_ f stmt d.name .any = f.namesakes d.name := by
    refine Scope.local_of_path hpath (forall_mem_singleton.2 ?_) (ne_nil_of_mem hmem)
    rw [hnone]
    rfl
  rw [Index.resolveName, hlocal]
  cases hlist : f.namesakes d.name with
  | nil =>
    rw [hlist] at hmem
    cases hmem
  | cons e es =>
    rw [hlist] at hmem
    exact hmem

include hwell ht hf hends hd

theorem exists_mem_moduleExport_of_released (h : d.name ∈ f.root.releasedNames) :
    ∃ name, d ∈ idx.moduleExport f name := by
  obtain ⟨stmt, hstmt, hname⟩ := mem_flatMap.1 h
  obtain ⟨hstmt, hexport⟩ := mem_filter.1 hstmt
  have hmem : d ∈ ((idx.resolveName f stmt d.name .any).map Symbol.declarations).getD [] :=
    mem_resolveName_of_export ht hd hstmt (kind?_of_hasKind hexport)
  have hvalue {v : Node} (hv : d.name ∈ if v.hasKind .identifier then [v.text] else []) :
      d ∈ valueDeclarations idx f stmt v := by
    split at hv
    · next hidentifier =>
      rw [valueDeclarations, if_pos hidentifier, ← mem_singleton.1 hv]
      exact hmem
    · cases hv
  rcases mem_append.1 hname with hname | hname
  · unfold Form.listedNames at hname
    split at hname
    · next v hform =>
      refine ⟨"default", mem_moduleExport_of_statement hwell hf (hends _) hstmt hexport
        (fun ask search => ?_) (hvalue hname)⟩
      simp only [ofStatement, hform]
      rfl
    · next clause hform =>
      obtain ⟨r, hr, hinner⟩ := mem_map.1 hname
      rw [← hinner] at hmem
      have hown : d ∈ ownDeclarations idx f stmt (.names clause none) r.outer :=
        mem_flatMap.2 ⟨r, mem_filter.2 ⟨hr, beq_self_eq_true _⟩, hmem⟩
      refine ⟨r.outer, mem_moduleExport_of_statement hwell hf (hends _) hstmt hexport
        (fun ask search => ?_) hown⟩
      simp only [ofStatement, hform]
    · cases hname
  · unfold Form.wholeNames at hname
    split at hname
    · next target hform =>
      refine ⟨"default", mem_moduleExport_of_statement hwell hf (hends _) hstmt hexport
        (fun ask search => ?_) (hvalue hname)⟩
      simp only [ofStatement, hform]
      rfl
    · cases hname

theorem exists_mem_moduleExport_of_modifier (hdefault : f.defaultsDeclare = true)
    (h : d.node.hasExportModifier = true) : ∃ name, d ∈ idx.moduleExport f name := by
  obtain ⟨stmt, hstmt, hentry, hkind⟩ := SourceFile.exists_statement_of_mem_topDeclarations hd
  have hmake : Declaration.make? f d.node d.nameNode = some d := by
    rw [Declaration.make?, hkind, ← SourceFile.file_of_mem_topDeclarations hd]
    rfl
  have hmakes : stmt.Makes d.node d.nameNode := makes_of_mem_statementDeclarations hentry
  have hst : stmt.tree.IsParsed := tree_of_mem_namedChildren hstmt ▸ ht
  have hroot : f.root.kind? = some .program := ht.kind?_root
  have hplain : stmt.hasExportModifier = false := by
    rw [hasExportModifier_of_mem_children ht (mem_of_mem_filter hstmt),
      isDeclarationWrapper_of_kind? hroot, Node.hasKind, hroot]
    rfl
  have hk := (hmakes.hasExportModifier_iff hst hplain).1 h
  have hexport : stmt.hasKind .exportStatement = true := by
    rw [Node.hasKind, hk]
    rfl
  obtain ⟨c, hc, hmakes⟩ := hmakes.of_export hk
  have hform : formOf stmt = .declaration c (stmt.hasToken "default") := by
    simp only [formOf, hc]
  cases htoken : stmt.hasToken "default" with
  | false =>
    rw [htoken] at hform
    have hown : d ∈ namedDeclarations f stmt d.nameNode.text :=
      mem_filterMap.2 ⟨_, mem_filter.2 ⟨hentry, beq_self_eq_true _⟩, hmake⟩
    refine ⟨d.nameNode.text, mem_moduleExport_of_statement hwell hf (hends _) hstmt hexport
      (fun ask search => ?_) hown⟩
    simp only [ofStatement, hform]
    rfl
  | true =>
    rw [htoken] at hform
    have hsome : c.declarationKind?.isSome = true := by
      have hstmt := all_eq_true.1 hdefault stmt (mem_filter.2 ⟨hstmt, hexport⟩)
      simpa [htoken, hc] using hstmt
    obtain ⟨rfl, hname⟩ := hmakes.eq_of_declarationKind? hsome
    have hown : d ∈ (Declaration.ofNode? f d.node).toList := by
      rw [Option.mem_toList, Declaration.ofNode?, hkind, hname,
        ← SourceFile.file_of_mem_topDeclarations hd]
      rfl
    refine ⟨"default", mem_moduleExport_of_statement hwell hf (hends _) hstmt hexport
      (fun ask search => ?_) hown⟩
    simp only [ofStatement, hform]
    rfl

end

end Export

/-! ## The flag -/

namespace Project.SourceFile

variable {f : SourceFile} {name : String}

theorem stringValue_of_listsUnquoted (h : f.listsUnquoted = true) {stmt clause spec inner : Node}
    (hstmt : stmt ∈ f.root.exportStatements)
    (hclause : clause ∈ stmt.namedChildren.filter (·.hasKind .exportClause))
    (hspec : spec ∈ clause.namedChildren.filter (·.hasKind .exportSpecifier))
    (hinner : spec.field? .name = some inner) : inner.stringValue = inner.text := by
  have hclauses := all_eq_true.1 h stmt hstmt
  have hspecs := all_eq_true.1 hclauses clause hclause
  have hname := all_eq_true.1 hspecs spec hspec
  rw [hinner] at hname
  exact beq_iff_eq.1 hname

variable (ht : f.tree.IsParsed) (hquotes : f.listsUnquoted = true)

include ht hquotes

theorem mem_listedNames_of_localExportNames (h : name ∈ f.root.localExportNames) :
    name ∈ f.root.listedNames := by
  unfold Node.localExportNames at h
  obtain ⟨stmt, hstmt, h⟩ := mem_flatMap.1 (mem_eraseDups.1 h)
  split at h
  · cases h
  · next hcond =>
    simp only [Bool.or_eq_true, Bool.not_eq_true', not_or, Bool.not_eq_false,
      Option.not_isSome_iff_eq_none] at hcond
    obtain ⟨hexport, hsource⟩ := hcond
    have hst : stmt.tree.IsParsed := tree_of_mem_namedChildren hstmt ▸ ht
    have hk := kind?_of_hasKind hexport
    have hmem : stmt ∈ f.root.exportStatements := mem_filter.2 ⟨hstmt, hexport⟩
    refine mem_flatMap.2 ⟨stmt, hmem, ?_⟩
    rcases mem_append.1 h with h | h
    · obtain ⟨clause, hclause, h⟩ := mem_flatMap.1 h
      obtain ⟨spec, hspec, h⟩ := mem_filterMap.1 h
      obtain ⟨inner, hinner, rfl⟩ := Option.map_eq_some_iff.1 h
      obtain ⟨hchild, hkind⟩ := mem_filter.1 hclause
      rw [Export.formOf_of_clause hst hk hchild (kind?_of_hasKind hkind), hsource,
        ← stringValue_of_listsUnquoted hquotes hmem hclause hspec hinner]
      exact Export.inner_mem_renamings hspec hinner
    · split at h
      · next htoken =>
        obtain ⟨v, hv, rfl⟩ := Option.map_eq_some_iff.1 (Option.mem_toList.1 h)
        obtain ⟨hv, hidentifier⟩ := Option.filter_eq_some_iff.1 hv
        rw [(Export.formOf_of_value hst hk hv).1, htoken, Export.Form.listedNames, if_pos hidentifier]
        exact mem_singleton_self _
      · cases h

theorem mem_localExportNames_of_listedNames (h : name ∈ f.root.listedNames) :
    name ∈ f.root.localExportNames := by
  obtain ⟨stmt, hmem, h⟩ := mem_flatMap.1 h
  obtain ⟨hstmt, hexport⟩ := mem_filter.1 hmem
  have hst : stmt.tree.IsParsed := tree_of_mem_namedChildren hstmt ▸ ht
  have hdescribes := Export.formOf_describes stmt
  unfold Node.localExportNames
  refine mem_eraseDups.2 (mem_flatMap.2 ⟨stmt, hstmt, ?_⟩)
  unfold Export.Form.listedNames at h
  split at h
  · next v hform =>
    rw [hform] at hdescribes
    obtain ⟨hv, htoken⟩ := hdescribes
    have hsource := (Export.formOf_of_value hst (kind?_of_hasKind hexport) hv).2
    split at h
    · next hidentifier =>
      rw [mem_singleton.1 h]
      simp [hexport, hsource, htoken, hv, hidentifier]
    · cases h
  · next clause hform =>
    rw [hform] at hdescribes
    obtain ⟨hclause, hkind, hsource⟩ := hdescribes
    have hclause : clause ∈ stmt.namedChildren.filter (·.hasKind .exportClause) :=
      mem_filter.2 ⟨hclause, hkind⟩
    obtain ⟨r, hr, hname⟩ := mem_map.1 h
    obtain ⟨spec, hspec, hr⟩ := mem_filterMap.1 hr
    obtain ⟨inner, hinner, rfl⟩ := Option.map_eq_some_iff.1 hr
    rw [if_neg (by simp [hexport, hsource])]
    refine mem_append_left _ (mem_flatMap.2
      ⟨clause, hclause, mem_filterMap.2 ⟨spec, hspec, ?_⟩⟩)
    rw [hinner, Option.map_some, ← hname,
      ← stringValue_of_listsUnquoted hquotes hmem hclause hspec hinner]
  · cases h

theorem mem_localExportNames_iff : name ∈ f.root.localExportNames ↔ name ∈ f.root.listedNames :=
  ⟨mem_listedNames_of_localExportNames ht hquotes, mem_localExportNames_of_listedNames ht hquotes⟩

end Project.SourceFile

namespace Project.Index

open Export

/-- The export flag of a declaration directly in a module and what searches find. A module exports such
a declaration under some name exactly when the declaration stands under `export` or an export statement
of the module lets its name out. In a module without quoted names in its export lists, whatever has the
flag is therefore exported. The two agree exactly when the declaration stands under `export`, or no
export statement lets its name out, or it is a child of the file that a list or a default export names;
they disagree on what stands behind `declare` or is named by `export =` only.

The searches for the exports of the module have to end, its default exports must not be lists of
variables, and no declared module in the same file may let the name out. -/
theorem moduleExport_iff_flag {idx : Index} (hwell : idx.WellFormed) (hparsed : idx.Parsed)
    (hdeclared : idx.Declared) {f : SourceFile} (hf : f ∈ idx.files.toList)
    (hmodule : f.isModule = true) (hends : ∀ name, Ends idx (.file f.id name))
    (hdefault : f.defaultsDeclare = true) {d : Declaration} (hd : d ∈ f.topDeclarations)
    (hambient : ∀ specifier body, (f, body) ∈ ambientBlocks idx specifier →
      d.name ∉ body.releasedNames) :
    ((∃ name, d ∈ idx.moduleExport f name) ↔
      d.node.hasExportModifier = true ∨ d.name ∈ f.root.releasedNames) ∧
    (f.listsUnquoted = true →
      (d.isExported = true → ∃ name, d ∈ idx.moduleExport f name) ∧
      (((∃ name, d ∈ idx.moduleExport f name) ↔ d.isExported = true) ↔
        d.node.hasExportModifier = true ∨ d.name ∉ f.root.releasedNames ∨
          d.isTopLevel = true ∧ d.name ∈ f.root.listedNames)) := by
  have ht : f.tree.IsParsed := hparsed f hf
  have hfound : (∃ name, d ∈ idx.moduleExport f name) ↔
      d.node.hasExportModifier = true ∨ d.name ∈ f.root.releasedNames := by
    constructor
    · rintro ⟨name, hmem⟩
      exact isReleased_of_mem_answer hwell hparsed hdeclared hf hmodule hd hambient hmem
    · rintro (hmodifier | hname)
      · exact exists_mem_moduleExport_of_modifier hwell ht hf hends hd hdefault hmodifier
      · exact exists_mem_moduleExport_of_released hwell ht hf hends hd hname
  have hflag : d.isExported = true ↔ d.node.hasExportModifier = true ∨
      d.isTopLevel = true ∧ d.name ∈ f.root.localExportNames := by
    rw [Declaration.isExported, SourceFile.file_of_mem_topDeclarations hd, Bool.or_eq_true,
      Bool.and_eq_true, contains_iff_mem]
  refine ⟨hfound, fun hquotes => ?_⟩
  have hlisted := f.root.listedNames_subset_releasedNames
  rw [hfound, hflag, SourceFile.mem_localExportNames_iff ht hquotes]
  refine ⟨fun h => h.imp_right fun hdirect => hlisted hdirect.2, fun hagree => ?_, ?_⟩
  · by_cases hname : d.name ∈ f.root.releasedNames
    · exact (hagree.1 (.inr hname)).imp_right .inr
    · exact .inr (.inl hname)
  · rintro (hmodifier | hname | hdirect)
    · exact iff_of_true (.inl hmodifier) (.inl hmodifier)
    · exact or_congr_right (iff_of_false hname fun hdirect => hname (hlisted hdirect.2))
    · exact iff_of_true (.inr (hlisted hdirect.2)) (.inr hdirect)

/-- A module with a constant under `export`, one in an export list, one that is the default, and a
variable that it keeps. -/
def mixedExports : Index :=
  .ofTexts [("a.ts",
    "export const a = 1;\nconst b = 2, c = 3;\nexport \x7b b as x \x7d;\nexport default c;\nlet e;")] []

/-- All but the variable are exported, and have the flag. -/
theorem mixedExports_agree : ∃ f ∈ mixedExports.files.toList,
    f.topDeclarations.map (·.isExported) = [true, true, true, false] ∧
    ∀ d ∈ f.topDeclarations, (∃ name, d ∈ mixedExports.moduleExport f name) ↔ d.isExported = true := by
  have hproject : Plain mixedExports ∧ ∃ f ∈ mixedExports.files.toList,
      f.topDeclarations.map (·.isExported) = [true, true, true, false] ∧ f.isModule = true ∧
      f.defaultsDeclare = true ∧ f.listsUnquoted = true ∧
      ∀ d ∈ f.topDeclarations, d.node.hasExportModifier = true ∨ d.name ∉ f.root.releasedNames ∨
        d.isTopLevel = true ∧ d.name ∈ f.root.listedNames := by decide +kernel
  obtain ⟨hplain, f, hf, hflags, hmodule, hdefault, hquotes, hdirect⟩ := hproject
  refine ⟨f, hf, hflags, fun d hd => ?_⟩
  have hambient : ∀ specifier body, (f, body) ∈ ambientBlocks mixedExports specifier →
      d.name ∉ body.releasedNames := by
    intro specifier body hbody
    rw [hplain.ambientBlocks_eq_nil] at hbody
    cases hbody
  exact ((moduleExport_iff_flag (wellFormed_ofTexts _ _) (parsed_ofTexts _ _) (declared_ofTexts _ _) hf
    hmodule (fun _ => hplain.ends _) hdefault hd hambient).2 hquotes).2.2 (hdirect d hd)

/-- A module that lists a function behind `declare`. -/
def listedSignature : Index :=
  .ofTexts [("a.ts", "declare function f(): void;\nexport \x7b f \x7d;")] []

/-- The module exports the function, which does not have the flag. -/
theorem listedSignature_unflagged : ∃ f ∈ listedSignature.files.toList, f.isModule = true ∧
    ∃ d ∈ f.topDeclarations, (∃ name, d ∈ listedSignature.moduleExport f name) ∧
      d.isExported = false := by
  have hproject : Plain listedSignature ∧ ∃ f ∈ listedSignature.files.toList, f.isModule = true ∧
      ∃ d ∈ f.topDeclarations, d.name ∈ f.root.releasedNames ∧ d.isExported = false := by
    decide +kernel
  obtain ⟨hplain, f, hf, hmodule, d, hd, hname, hflag⟩ := hproject
  exact ⟨f, hf, hmodule, d, hd, exists_mem_moduleExport_of_released (wellFormed_ofTexts _ _)
    (parsed_ofTexts _ _ f hf) hf (fun _ => hplain.ends _) hd hname, hflag⟩

end Project.Index

end ScriptAtlas
