import ScriptAtlas.Proofs.Correspondence

/-!
# Where exported declarations lie

An export search that stays inside a project finds declarations of that project only.

* `Export.Form.Describes`: what the form of an export statement says about the parts of the statement.
* `Declaration.ArisesIn`: where the declarations of a project come from that names stand for.
* `Project.Index.arises_of_mem_answer?_getD`: the answer to a question consists of declarations of the
  project.
-/

namespace ScriptAtlas

open List Project Syntax Syntax.Node

namespace Export

variable {stmt : Node} {specifier : String} {d : Declaration} {body : Node}

/-! ## Forms -/

/-- What a form says about the parts of its statement. -/
def Form.Describes (stmt : Node) : Form → Prop
  | .declaration d isDefault =>
    stmt.field? .declaration = some d ∧ stmt.hasToken "default" = isDefault
  | .value v isDefault => stmt.field? .value = some v ∧ stmt.hasToken "default" = isDefault
  | .whole target => stmt.parts.head? = target
  | .names clause source =>
    clause ∈ stmt.namedChildren ∧ clause.hasKind .exportClause = true ∧ stmt.field? .source = source
  | .space ns => ns ∈ stmt.namedChildren ∧ ns.hasKind .namespaceExport = true
  | .star src => stmt.field? .source = some src
  | .none => True

theorem formOf_describes (stmt : Node) : (formOf stmt).Describes stmt := by
  unfold formOf
  dsimp only
  split
  · next hd => exact ⟨hd, rfl⟩
  · next hv _ => exact ⟨hv, rfl⟩
  · split
    · rfl
    · split
      · next hclause =>
        have hkind := find?_some hclause
        exact ⟨mem_of_find?_eq_some hclause, hkind, rfl⟩
      · next hns _ =>
        have hkind := find?_some hns
        exact ⟨mem_of_find?_eq_some hns, hkind⟩
      · next hsrc _ _ => exact hsrc
      · trivial

theorem describes_of_formOf {form : Form} (h : formOf stmt = form) :
    form.Describes stmt := h ▸ formOf_describes stmt

/-- All nodes of the form lie in a tree. -/
def Form.InTree (t : Tree) : Form → Prop
  | .declaration n _ | .value n _ | .space n | .star n => n.tree = t
  | .whole target => ∀ n ∈ target, n.tree = t
  | .names clause source => clause.tree = t ∧ ∀ n ∈ source, n.tree = t
  | .none => True

theorem Form.Describes.inTree {form : Form} (h : form.Describes stmt) :
    form.InTree stmt.tree := by
  cases form with
  | declaration d isDefault => exact tree_of_field? h.1
  | value v isDefault => exact tree_of_field? h.1
  | whole target => exact fun n hn => tree_of_head?_parts (h.trans hn)
  | names clause source =>
    exact ⟨tree_of_mem_namedChildren h.1, fun n hn => tree_of_field? (h.2.2.trans hn)⟩
  | space ns => exact tree_of_mem_namedChildren h.1
  | star src => exact tree_of_field? h
  | none => trivial

theorem formOf_inTree (stmt : Node) : (formOf stmt).InTree stmt.tree := (formOf_describes stmt).inTree

theorem exists_node_of_mem_renamings {clause : Node} {r : Renaming} (h : r ∈ renamings clause) :
    ∃ n : Node, n.tree = clause.tree ∧ r.inner = n.stringValue := by
  obtain ⟨spec, hspec, hr⟩ := mem_filterMap.1 h
  obtain ⟨inner, hinner, rfl⟩ := Option.map_eq_some_iff.1 hr
  have hspec' := tree_of_mem_namedChildren (mem_of_mem_filter hspec)
  exact ⟨inner, (tree_of_field? hinner).trans hspec', rfl⟩

theorem starSource?_eq_some_iff {name specifier : String} :
    starSource? name stmt = some specifier ↔ stmt.hasKind .exportStatement = true ∧
      name ≠ "default" ∧ ∃ src, formOf stmt = .star src ∧ src.stringValue = specifier := by
  unfold starSource?
  constructor
  · intro h
    split at h
    · next hcond =>
      simp only [Bool.and_eq_true, bne_iff_ne] at hcond
      split at h
      · next src hform => exact ⟨hcond.1, hcond.2, src, hform, Option.some.inj h⟩
      · cases h
    · cases h
  · rintro ⟨hexport, hname, src, hform, rfl⟩
    simp [hexport, hname, hform]

theorem exists_node_of_starSource? {name specifier : String}
    (h : starSource? name stmt = some specifier) :
    ∃ n : Node, n.tree = stmt.tree ∧ specifier = n.stringValue := by
  obtain ⟨-, -, src, hform, rfl⟩ := starSource?_eq_some_iff.1 h
  have hsrc := formOf_inTree stmt
  rw [hform] at hsrc
  exact ⟨src, hsrc, rfl⟩

theorem exists_node_of_importSource? {stmt binding : Node} (hb : binding.tree = stmt.tree)
    (h : importSource? stmt binding = some specifier) :
    ∃ n : Node, n.tree = stmt.tree ∧ specifier = n.stringValue := by
  unfold importSource? at h
  split at h
  · next src hsrc => exact ⟨src, tree_of_field? hsrc, (Option.some.inj h).symm⟩
  · obtain ⟨n, hn, rfl⟩ := Option.map_eq_some_iff.1 h
    obtain ⟨clause, hclause, hn⟩ := Option.bind_eq_some_iff.1 hn
    have hct : clause.tree = stmt.tree := by
      split at hclause
      · exact (Option.some.inj hclause) ▸ hb
      · exact tree_of_find?_namedChildren hclause
    refine ⟨n, ?_, rfl⟩
    rcases eq_or_eq_of_orElse hn with hn | hn
    · exact (tree_of_field? hn).trans hct
    · exact (tree_of_find?_namedChildren hn).trans hct

theorem exists_node_of_bindingSource? {binding : Node}
    (h : bindingSource? binding = some specifier) :
    ∃ n : Node, n.tree = binding.tree ∧ specifier = n.stringValue := by
  obtain ⟨stmt, hstmt, h⟩ := Option.bind_eq_some_iff.1 h
  have htree := tree_of_findAncestor? hstmt
  obtain ⟨n, hn, heq⟩ := exists_node_of_importSource? htree.symm h
  exact ⟨n, hn.trans htree, heq⟩

theorem exists_node_of_moduleBehind? (h : moduleBehind? d = some specifier) :
    ∃ n : Node, n.tree = d.node.tree ∧ specifier = n.stringValue := by
  unfold moduleBehind? at h
  split at h
  iterate 2 exact exists_node_of_bindingSource? h
  · obtain ⟨src, hsrc, rfl⟩ := Option.map_eq_some_iff.1 h
    obtain ⟨stmt, hstmt, hsrc⟩ := Option.bind_eq_some_iff.1 hsrc
    exact ⟨src, (tree_of_field? hsrc).trans (tree_of_parent? hstmt), rfl⟩
  · cases h

/-! ## Declarations of statements -/

variable {idx : Index} {file : SourceFile} {stmt : Node} {name : String}

theorem origin_of_mem_namedDeclarations (h : d ∈ namedDeclarations file stmt name) :
    Declaration.Origin file stmt.tree d :=
  Declaration.origin_of_mem_filterMap_make?
    (fun _ hp => listed_statementDeclarations (mem_of_mem_filter hp)) h

theorem origin_of_mem_blockPartsNamed {e : Declaration} (h : e ∈ blockPartsNamed file body name) :
    Declaration.Origin file body.tree e := by
  unfold blockPartsNamed at h
  dsimp only at h
  split at h
  · exact Scope.origin_of_mem_importBindings (mem_of_mem_filter h)
  · exact Declaration.origin_of_mem_filterMap_make?
      (fun _ hp => listed_blockDeclarations (mem_of_mem_filter hp)) h

theorem origin_of_mem_partsNamed {d e : Declaration} (h : e ∈ partsNamed d name) :
    Declaration.Origin d.file d.node.tree e := by
  unfold partsNamed at h
  split at h
  iterate 2
    split at h
    · next hbody => exact tree_of_field? hbody ▸ origin_of_mem_blockPartsNamed h
    · cases h
  iterate 5 exact Declaration.origin_of_mem_ownMembers h
  cases h

end Export

/-! ## Where declarations arise -/

/-- The node is the value that the statement exports. -/
def Syntax.Node.ExportedBy (n stmt : Node) : Prop :=
  (∃ isDefault, Export.formOf stmt = .value n isDefault) ∨ Export.formOf stmt = .whole (some n)

theorem Syntax.Node.ExportedBy.tree_eq {n stmt : Node} (h : n.ExportedBy stmt) :
    n.tree = stmt.tree := by
  have hin := Export.formOf_inTree stmt
  rcases h with ⟨_, h⟩ | h
  · rw [h] at hin
    exact hin
  · rw [h] at hin
    exact hin n rfl

namespace Declaration

/-- Where a declaration of the project comes from that a name stands for: it has its origin in a scope or
a body, it is made by a node or named by a token, or an export statement makes it. -/
inductive ArisesIn (idx : Index) : Declaration → Prop
  | origin {file : SourceFile} {d : Declaration} (hf : file ∈ idx.files.toList)
      (h : Origin file file.tree d) : ArisesIn idx d
  | node {file : SourceFile} {n : Node} {d : Declaration} (hf : file ∈ idx.files.toList)
      (hn : n.tree = file.tree) (h : ofNode? file n = some d) : ArisesIn idx d
  | name {file : SourceFile} {token : Node} {d : Declaration} (hf : file ∈ idx.files.toList)
      (ht : token.tree = file.tree) (hk : token.kind?.any Kind.isIdentifier = true)
      (h : ofName? file token = some d) : ArisesIn idx d
  /-- A value that is exported without a name of its own goes by the keyword before it. -/
  | keyword {file : SourceFile} {stmt value token : Node} (hf : file ∈ idx.files.toList)
      (hstmt : stmt.tree = file.tree) (hexport : stmt.hasKind .exportStatement = true)
      (hvalue : value.ExportedBy stmt)
      (hname : value.declarationKind?.isSome = true → value.declarationName? = none)
      (hmem : token ∈ stmt.children) (htoken : token.isNamed = false) :
      ArisesIn idx ⟨file, value.declarationKind?.getD .variableName, value, token⟩
  | space {file : SourceFile} {stmt ns name : Node} (hf : file ∈ idx.files.toList)
      (hstmt : stmt.tree = file.tree) (hform : Export.formOf stmt = .space ns)
      (hname : ns.parts.head? = some name) : ArisesIn idx ⟨file, .namespaceName, ns, name⟩

variable {idx : Index} {d e : Declaration} {name : String}

theorem ArisesIn.placed (h : d.ArisesIn idx) : d.PlacedIn idx := by
  cases h with
  | origin hf h => exact (h.liesIn rfl).placed hf
  | node hf hn h => exact (liesIn_of_ofNode? h hn).placed hf
  | name hf ht _ h => exact (liesIn_of_ofName? h ht).placed hf
  | keyword hf hstmt _ hvalue _ hmem =>
    exact LiesIn.placed ⟨rfl, hvalue.tree_eq.trans hstmt, (tree_of_mem_children hmem).trans hstmt⟩ hf
  | @space _ stmt _ _ hf hstmt hform hname =>
    have hin := Export.formOf_inTree stmt
    rw [hform] at hin
    have hns := hin.trans hstmt
    exact LiesIn.placed ⟨rfl, hns, (tree_of_head?_parts hname).trans hns⟩ hf

theorem arises_of_mem_ownMembers (hd : d.PlacedIn idx) (h : e ∈ d.ownMembers name) : e.ArisesIn idx :=
  .origin hd.1 (hd.2.node_tree ▸ origin_of_mem_ownMembers h)

end Declaration

/-- All declarations of the symbol arise in the project. -/
def Symbol.ArisesIn (s : Symbol) (idx : Index) : Prop := ∀ d ∈ s.declarations, d.ArisesIn idx

theorem Symbol.ArisesIn.first {s : Symbol} {idx : Index} (h : s.ArisesIn idx) : s.first.ArisesIn idx :=
  h _ mem_cons_self

theorem Symbol.ArisesIn.placed {s : Symbol} {idx : Index} (h : s.ArisesIn idx) : s.PlacedIn idx :=
  fun d hd => (h d hd).placed

namespace Project.Index

variable {idx : Index} {file : SourceFile} {place : Node} {name : String} {meaning : Meaning}
  {s : Symbol} {d e : Declaration}

theorem resolveName_arises (hf : file ∈ idx.files.toList) (hp : place.tree = file.tree)
    (h : idx.resolveName file place name meaning = some s) : s.ArisesIn idx := by
  intro d hd
  obtain ⟨f, hf, horigin⟩ := exists_origin_of_resolveName hf hp h hd
  exact .origin hf horigin

theorem eq_or_arises_of_mem_merged (hd : d.PlacedIn idx) (he : e ∈ (idx.merged d).declarations) :
    e = d ∨ e.ArisesIn idx := by
  rcases idx.merged_cases d with h | ⟨-, ⟨owner, howner, h⟩ | h⟩
  · rw [h] at he
    exact .inl (mem_singleton.1 he)
  · have howner := (Declaration.liesIn_of_owner? hd.2 howner).placed hd.1
    rw [(Symbol.ofList?_eq_some_iff _ _).1 h] at he
    exact .inr (Declaration.arises_of_mem_ownMembers howner he)
  · exact .inr (resolveName_arises hd.1 hd.2.node_tree h e he)

theorem merged_placed (hd : d.PlacedIn idx) : (idx.merged d).PlacedIn idx := fun _ he =>
  (eq_or_arises_of_mem_merged hd he).elim (· ▸ hd) Declaration.ArisesIn.placed

end Project.Index

namespace Export

variable {idx : Index} {file : SourceFile} {stmt body : Node} {name specifier : String} {d e : Declaration}

theorem arises_of_mem_resolveName_getD {place : Node} {text : String} {meaning : Meaning}
    (hf : file ∈ idx.files.toList) (hplace : place.tree = file.tree)
    (h : d ∈ ((idx.resolveName file place text meaning).map Symbol.declarations).getD []) :
    d.ArisesIn idx := by
  cases hs : idx.resolveName file place text meaning with
  | none => simp [hs] at h
  | some s => exact Index.resolveName_arises hf hplace hs d (by simpa [hs] using h)

theorem arises_of_mem_namedDeclarations (hf : file ∈ idx.files.toList) (hstmt : stmt.tree = file.tree)
    (h : d ∈ namedDeclarations file stmt name) : d.ArisesIn idx :=
  .origin hf (hstmt ▸ origin_of_mem_namedDeclarations h)

theorem arises_of_mem_partsNamed (hd : d.PlacedIn idx) (h : e ∈ partsNamed d name) : e.ArisesIn idx :=
  .origin hd.1 (hd.2.node_tree ▸ origin_of_mem_partsNamed h)

section Statement

variable (hf : file ∈ idx.files.toList) (hstmt : stmt.tree = file.tree)
  (hexport : stmt.hasKind .exportStatement = true)

include hf hstmt hexport

theorem arises_of_mem_valueDeclarations {value : Node} (hvalue : value.ExportedBy stmt)
    (h : d ∈ valueDeclarations idx file stmt value) : d.ArisesIn idx := by
  unfold valueDeclarations at h
  split at h
  · exact arises_of_mem_resolveName_getD hf hstmt h
  · split at h
    · next e he =>
      rw [mem_singleton.1 h]
      split at he
      · exact .node hf (hvalue.tree_eq.trans hstmt) he
      · cases he
    · next hnone =>
      split at h
      · next token hfind =>
        rw [mem_singleton.1 h]
        have htoken := find?_some hfind
        simp only [Node.isToken, Bool.or_eq_true, beq_iff_eq] at htoken
        refine .keyword hf hstmt hexport hvalue (fun hkind => ?_) (mem_of_find?_eq_some hfind) ?_
        · -- a value with a name would go by it
          obtain ⟨kind, hkind⟩ := Option.isSome_iff_exists.1 hkind
          cases hname : value.declarationName? with
          | none => rfl
          | some name => simp [hname, Declaration.ofNode?, hkind] at hnone
        · rcases htoken with hlabel | hlabel <;> rw [Node.isNamed, hlabel] <;> rfl
      · cases h

theorem arises_of_mem_ownDeclarations (h : d ∈ ownDeclarations idx file stmt (formOf stmt) name) :
    d.ArisesIn idx := by
  have hform := formOf_inTree stmt
  unfold ownDeclarations at h
  split at h
  · next n isDefault heq =>
    rw [heq] at hform
    split at h
    · exact arises_of_mem_namedDeclarations hf hstmt h
    · split at h
      · exact .node hf (hform.trans hstmt) (Option.mem_toList.1 h)
      · cases h
  · next v isDefault heq =>
    split at h
    · exact arises_of_mem_valueDeclarations hf hstmt hexport (.inl ⟨_, heq⟩) h
    · cases h
  · obtain ⟨r, -, hr⟩ := mem_flatMap.1 h
    exact arises_of_mem_resolveName_getD hf hstmt hr
  · next ns heq =>
    split at h
    · next n hn =>
      split at h
      · rw [mem_singleton.1 h]
        exact .space hf hstmt heq hn
      · cases h
    · cases h
  · cases h

end Statement

/-! ## Searches inside a project -/

theorem mem_files_of_ambientBody {m : AmbientModule}
    (h : ((idx.ambientNode? m).bind fun (f, node) => (node.field? .body).map fun b => (f, b)) =
      some (file, body)) :
    file ∈ idx.files.toList ∧ body.tree = file.tree := by
  obtain ⟨⟨f, node⟩, hnode, h⟩ := Option.bind_eq_some_iff.1 h
  obtain ⟨b, hb, heq⟩ := Option.map_eq_some_iff.1 h
  obtain ⟨f', hf', heq'⟩ := Option.map_eq_some_iff.1 hnode
  cases heq
  cases heq'
  exact ⟨Index.mem_files_of_file? hf', tree_of_field? hb⟩

theorem mem_files_of_mem_ambientBlocks (h : (file, body) ∈ ambientBlocks idx specifier) :
    file ∈ idx.files.toList ∧ body.tree = file.tree := by
  obtain ⟨m, -, h⟩ := mem_filterMap.1 h
  exact mem_files_of_ambientBody h

/-- The files of a project and the blocks in them. -/
def Region.within (idx : Index) : Region idx where
  asks _ := True
  opens _ _ _ := True
  visits file block _ _ := file ∈ idx.files.toList ∧ block.tree = file.tree
  finds d := d.ArisesIn idx
  asks_of_opens _ := trivial
  visits_of_opens _ h := ⟨Index.mem_files_of_mem_linked h, rfl⟩
  opens_of_names _ _ _ _ := trivial
  opens_of_star _ _ _ := trivial
  asks_of_whole _ _ _ _ _ _ := trivial
  finds_own hv hs hexport :=
    arises_of_mem_ownDeclarations hv.1 ((tree_of_mem_namedChildren hs).trans hv.2) hexport
  finds_named hv hs :=
    arises_of_mem_namedDeclarations hv.1 ((tree_of_mem_namedChildren hs).trans hv.2)
  finds_value hv hs hexport hform :=
    arises_of_mem_valueDeclarations hv.1 ((tree_of_mem_namedChildren hs).trans hv.2) hexport
      (.inr hform)
  finds_part hd := arises_of_mem_partsNamed hd.placed

/-- What holds of a result if there is one. -/
def ofResults : Correspondence Option Option where
  rel R x _ := ∀ a, x = some a → ∃ b, R a b
  rel_pure {_ _ _ b} h _ ha := ⟨b, Option.some.inj ha ▸ h⟩
  rel_bind hx hf c hc := by
    obtain ⟨a, ha, hc⟩ := Option.bind_eq_some_iff.1 hc
    obtain ⟨b, hb⟩ := hx a ha
    exact hf a b hb c hc
  states := Eq

theorem answers_ofResults_iff {G : Region idx} {x y : Option (List Declaration)} :
    ofResults.Answers G x y ↔ ∀ ds, x = some ds → ∀ d ∈ ds, G.finds d := by
  constructor
  · intro h ds hds
    obtain ⟨-, -, hfinds⟩ := h ds hds
    exact hfinds
  · exact fun h ds hds => ⟨ds, rfl, h ds hds⟩

/-- In a region that contains all files of a project and all blocks that declare modules, answers are
made of what the region finds. -/
theorem answerUpTo_finds {G : Region idx}
    (hopens : ∀ file specifier name, G.opens file specifier name)
    (hroots : ∀ file ∈ idx.files.toList, ∀ name, G.visits file file.root name false)
    (hambient : ∀ specifier file body, (file, body) ∈ ambientBlocks idx specifier →
      ∀ name, G.visits file body name true)
    {n : Nat} {q : Question} {ds : List Declaration} (h : answerUpTo idx n q = some ds) :
    ∀ d ∈ ds, G.finds d := by
  induction n generalizing q ds with
  | zero => cases h
  | succ n ih =>
    have hask : ∀ q, G.asks q →
        ofResults.Answers G (answerUpTo idx n q) (answerUpTo idx n q) :=
      fun q _ => answers_ofResults_iff.2 fun ds => ih
    have hhalt : ∀ R, ofResults.rel R (none : Option (List Declaration × List Goal)) none :=
      fun R a ha => nomatch ha
    have hq : G.Begins q := by
      cases q with
      | file => exact fun file hfile => hroots file (Index.mem_files_of_file? hfile) _
      | specifier => exact hopens _ _ _
      | ambient => exact fun file body hmem => hambient _ file body hmem _
    have hsearch := Correspondence.searches_searchFor hask
      (fun file block name ambientBlock =>
        Correspondence.searches_upTo hask rfl hhalt n) hq
    exact answers_ofResults_iff.1 (Correspondence.answers_start hsearch rfl) ds h

end Export

theorem Project.Index.arises_of_mem_answer?_getD {idx : Index} {q : Export.Question} {d : Declaration}
    (h : d ∈ (idx.answer? q).getD []) : d.ArisesIn idx := by
  cases hds : idx.answer? q with
  | none => simp [hds] at h
  | some ds =>
    exact Export.answerUpTo_finds (G := .within idx) (fun _ _ _ => trivial) (fun _ hfile _ => ⟨hfile, rfl⟩)
      (fun _ _ _ hmem _ => Export.mem_files_of_mem_ambientBlocks hmem) hds d (by simpa [hds] using h)

end ScriptAtlas
