import ScriptAtlas.Proofs.TypeParts

/-!
# Types and the places of their names

A class, an interface, an enum or an alias goes by its name or by what stands first in it, unless it is
exported as a value without a name: then it goes by the keyword of the export statement. In each case the
place of the name tells which type it is.

* `Node.Titles`: a type and what it goes by;
* `Declaration.Titled`: what this says of a declaration; it holds of all that names and members stand for
  (`Declaration.ArisesIn.titled`);
* `Declaration.Titled.eq_of_key_eq`: types with the same key are the same;
* `Project.Index.mem_merged_self`: an interface is among the declarations that belong together with it.
-/

namespace ScriptAtlas

open List Project Syntax Syntax.Node

/-- Kinds of node that declare a type. -/
def Declaration.titledKinds : List Kind := .typeAliasDeclaration :: containerKinds

namespace Syntax.Node

open Declaration (titledKinds)

variable {n m name : Node} {p : Node × Node}

/-! ## Types and names -/

theorem declarationName?_of_titledKinds (hk : n.hasKindIn titledKinds = true) :
    n.declarationName? = n.field? .name := by
  obtain ⟨k, hmem, hk⟩ := kind_of_hasKindIn hk
  rw [declarationName?, hk]
  simp only [titledKinds, Declaration.containerKinds, mem_cons, not_mem_nil, or_false] at hmem
  rcases hmem with rfl | rfl | rfl | rfl | rfl | rfl <;> rfl

theorem declarationKind?_of_titledKinds (hk : n.hasKindIn titledKinds = true) :
    ∃ kind, n.declarationKind? = some kind := by
  obtain ⟨k, hmem, hk⟩ := kind_of_hasKindIn hk
  rw [declarationKind?, hk]
  simp only [titledKinds, Declaration.containerKinds, mem_cons, not_mem_nil, or_false] at hmem
  rcases hmem with rfl | rfl | rfl | rfl | rfl | rfl <;> exact ⟨_, rfl⟩

theorem hasKindIn_titledKinds_eq_false {ks : List Kind} (hk : n.hasKindIn ks = true)
    (hks : ∀ k ∈ ks, k ∉ titledKinds) : n.hasKindIn titledKinds = false := by
  obtain ⟨k, hmem, hk⟩ := kind_of_hasKindIn hk
  rw [hasKindIn, hk, Option.any_some]
  exact Bool.eq_false_iff.2 fun h => hks k hmem (contains_iff_mem.1 h)

theorem hasKindIn_of_isBaseKind {k : SymbolKind} (h : n.declarationKind? = some k)
    (hk : isBaseKind k = true) : n.hasKindIn titledKinds = true := by
  cases hkind : n.kind? with
  | none =>
    rw [declarationKind?, hkind] at h
    cases h
  | some kind =>
    rw [hasKindIn, hkind, Option.any_some]
    rw [declarationKind?, hkind] at h
    cases kind <;> dsimp only at h <;> first
      | rfl
      | (cases h; cases hk)
      | cases h
      | (split at h <;> first
          | (cases h; cases hk)
          | cases h
          | (split at h <;> cases h <;> cases hk))

theorem foundBy_of_titledKinds (ht : n.tree.IsParsed) (hk : n.hasKindIn titledKinds = true)
    (h : (n.declarationName? <|> n.children.head?) = some name) : n.FoundBy name := by
  obtain ⟨k, hmem, hkind⟩ := kind_of_hasKindIn hk
  rcases mem_cons.1 hmem with rfl | hmem
  · rw [declarationName?_of_titledKinds hk] at h
    cases hname : n.field? .name with
    | none =>
      -- an alias without a name is empty
      rw [hname, children_of_nameless ht hkind hname] at h
      cases h
    | some title =>
      rw [hname] at h
      cases h
      have hchild := mem_of_find?_eq_some hname
      have hword : name.IsWord :=
        isWord_of_isIdentifier (tree_of_mem_children hchild ▸ ht)
          (by rw [kind?_of_field?_name ht hkind hname]; rfl)
      exact .part hchild (.itself hword) (by rw [hasKindIn, hkind]; rfl)
  · exact foundBy_of_container ht (hasKindIn_of_kind? hkind hmem) h

theorem ExportedBy.unique {stmt : Node} (hm : m.ExportedBy stmt) (hn : n.ExportedBy stmt) : m = n := by
  rcases hm with ⟨_, hm⟩ | hm <;> rcases hn with ⟨_, hn⟩ | hn <;>
    cases hm.symm.trans hn <;> rfl

/-- What a type goes by. -/
inductive Titles (n name : Node) : Prop
  /-- Its name, or what stands first in it. -/
  | inside (h : (n.declarationName? <|> n.children.head?) = some name)
  /-- The keyword of the statement that exports it. -/
  | outside {stmt : Node} (hstmt : stmt.hasKind .exportStatement = true) (hvalue : n.ExportedBy stmt)
      (hname : name ∈ stmt.children) (htoken : name.isNamed = false)

/-- The name is found in the type, or in the statement that exports it. -/
theorem Titles.exists_foundBy (h : n.Titles name) (hk : n.hasKindIn titledKinds = true)
    (ht : n.tree.IsParsed) (hname : name.tree.IsParsed) : ∃ holder : Node, holder.FoundBy name ∧
      (holder = n ∨ holder.hasKind .exportStatement = true ∧ n.ExportedBy holder) := by
  cases h with
  | inside h => exact ⟨n, foundBy_of_titledKinds ht hk h, .inl rfl⟩
  | @outside stmt hstmt hvalue hmem htoken =>
    refine ⟨stmt, .part hmem (.itself (isWord_of_token hname htoken)) ?_, .inr ⟨hstmt, hvalue⟩⟩
    rw [hasKindIn, kind?_of_hasKind hstmt]
    rfl

theorem Titles.eq_of_startByte_eq {x y : Node} (hm : m.Titles x) (hn : n.Titles y)
    (hmk : m.hasKindIn titledKinds = true) (hnk : n.hasKindIn titledKinds = true)
    (hmt : m.tree.IsParsed) (hnt : n.tree.IsParsed) (hyt : y.tree.IsParsed)
    (hxy : x.tree = y.tree) (h : x.startByte = y.startByte) : m = n ∧ x = y := by
  have hapart {type : Node} (hk : type.hasKindIn titledKinds = true)
      (hstmt : type.hasKind .exportStatement = true) : False := by
    rw [hasKindIn, kind?_of_hasKind hstmt] at hk
    cases hk
  obtain ⟨a, ha, hma⟩ := hm.exists_foundBy hmk hmt (hxy ▸ hyt)
  obtain ⟨b, hb, hnb⟩ := hn.exists_foundBy hnk hnt hyt
  obtain ⟨rfl, rfl⟩ := ha.eq_of_startByte_eq hb (hb.tree_eq ▸ hyt)
    (by rw [← ha.tree_eq, hxy, hb.tree_eq]) h
  refine ⟨?_, rfl⟩
  rcases hma with rfl | ⟨hstmt, hm⟩ <;> rcases hnb with rfl | ⟨hstmt', hn⟩
  · rfl
  · exact (hapart hmk hstmt').elim
  · exact (hapart hnk hstmt).elim
  · exact hm.unique hn

end Syntax.Node

/-! ## Titled declarations -/

namespace Declaration

variable {idx : Index} {file : SourceFile} {a b d : Declaration}

/-- If the node of the declaration is a type, then the declaration is of its kind, and its name is what the
type goes by. -/
def Titled (d : Declaration) : Prop :=
  d.node.tree.IsParsed → d.node.hasKindIn titledKinds = true →
    d.node.Titles d.nameNode ∧ d.node.declarationKind? = some d.kind

theorem Titled.eq_of_key_eq (hwell : idx.WellFormed) (hparsed : idx.Parsed) (ha : a.PlacedIn idx)
    (hb : b.PlacedIn idx) (hatitled : a.Titled) (hbtitled : b.Titled)
    (hak : a.node.hasKindIn titledKinds = true) (hbk : b.node.hasKindIn titledKinds = true)
    (hkey : a.key = b.key) : a = b := by
  obtain ⟨hfile, htree, hstart⟩ := ha.of_key_eq hb hwell hkey
  have hat := ha.node_parsed hparsed
  have hbt := hb.node_parsed hparsed
  obtain ⟨hatitle, hakind⟩ := hatitled hat hak
  obtain ⟨hbtitle, hbkind⟩ := hbtitled hbt hbk
  obtain ⟨hnode, hname⟩ := hatitle.eq_of_startByte_eq hbtitle hak hbk hat hbt
    (hb.name_parsed hparsed) htree hstart
  have hkind : a.kind = b.kind := by
    rw [hnode, hbkind] at hakind
    exact (Option.some.inj hakind).symm
  exact Declaration.ext hfile hkind hnode hname

theorem titled_of_hasKindIn {ks : List Kind} (hk : d.node.hasKindIn ks = true)
    (hks : ∀ k ∈ ks, k ∉ titledKinds) : d.Titled := by
  intro _ htype
  rw [hasKindIn_titledKinds_eq_false hk hks] at htype
  cases htype

theorem titled_of_kind? {k : Kind} (hk : d.node.kind? = some k) (hne : k ∉ titledKinds) : d.Titled :=
  titled_of_hasKindIn (hasKindIn_of_kind? hk (mem_singleton_self k))
    (forall_mem_singleton.2 hne)

theorem titled_of_make? {n name : Node} (h : make? file n name = some d)
    (hname : n.hasKindIn titledKinds = true → n.declarationName? = some name) : d.Titled := by
  obtain ⟨-, rfl, rfl, hkind⟩ := make?_eq_some h
  intro _ htype
  refine ⟨.inside ?_, hkind⟩
  rw [hname htype]
  rfl

theorem titled_of_ofNode? {n : Node} (h : ofNode? file n = some d) : d.Titled := by
  obtain ⟨kind, hkind, h⟩ := Option.bind_eq_some_iff.1 h
  obtain ⟨name, hname, rfl⟩ := Option.map_eq_some_iff.1 h
  exact fun _ _ => ⟨.inside hname, hkind⟩

end Declaration

/-! ## Scopes -/

theorem Syntax.Node.DeclaredAs.declarationName?_eq {n name : Node} (h : n.DeclaredAs name)
    (htype : n.hasKindIn Declaration.titledKinds = true) : n.declarationName? = some name := by
  cases h with
  | own h => exact h
  | part h => exact (declarationName?_of_titledKinds htype).trans h
  | bound hk =>
    rw [hasKindIn, hk] at htype
    cases htype

theorem Syntax.Node.ImportsAs.hasKindIn {n name : Node} (h : n.ImportsAs name) :
    n.hasKindIn [.identifier, .importSpecifier, .namespaceImport, .importRequireClause] = true := by
  rcases h with ⟨-, -, hk⟩ | ⟨hk, -⟩ | ⟨hk | hk, -⟩ <;> exact hasKindIn_of_kind? hk (by decide)

theorem Syntax.Node.hasKindIn_of_bindingField? {n : Node} {f : Field}
    (h : n.kind?.bind bindingField? = some f) :
    n.hasKindIn [.variableDeclarator, .requiredParameter, .optionalParameter, .forInStatement,
      .catchClause] = true := by
  obtain ⟨k, hk, h⟩ := Option.bind_eq_some_iff.1 h
  refine hasKindIn_of_kind? hk ?_
  unfold bindingField? at h
  split at h <;> first | decide | cases h

/-- What a scope or a body declares is titled: imports, variables and parameters are no types. -/
theorem Declaration.Origin.titled {file : SourceFile} {t : Tree} {d : Declaration}
    (h : Origin file t d) : d.Titled := by
  cases h with
  | listed _ hname h => exact titled_of_make? h hname.declarationName?_eq
  | imported _ h => exact titled_of_hasKindIn h.hasKindIn (by decide)
  | bound _ hkind => exact titled_of_hasKindIn (hasKindIn_of_bindingField? hkind) (by decide)
  | parameter _ _ _ hk => exact titled_of_kind? hk (by decide)
  | @pattern _ n _ name _ hfunction hparam hpattern _ =>
    have hnode : ((make? file n name).getD
        { file, kind := .parameter, node := n, nameNode := name }).node = n := by
      cases hmake : make? file n name with
      | none => rfl
      | some e => exact (make?_eq_some hmake).2.1
    intro ht
    have hkind := kind_of_pattern (hnode ▸ ht) hfunction hparam hpattern
    rw [← hnode] at hkind
    exact titled_of_hasKindIn hkind (by decide) ht
  | function _ hk => exact titled_of_hasKindIn hk (by decide)

namespace Declaration

theorem titled_of_ofName? {file : SourceFile} {token : Node} {d : Declaration}
    (hk : token.kind?.any Kind.isIdentifier = true) (h : ofName? file token = some d) : d.Titled := by
  cases namedBy_of_ofName? h with
  | itself _ =>
    obtain ⟨k, hkind, hk⟩ := (Option.any_eq_true _ _).1 hk
    refine titled_of_kind? hkind ?_
    rintro hmem
    have hnone : ∀ k ∈ titledKinds, k.isIdentifier = false := by decide
    cases hk.symm.trans (hnone k hmem)
  | parent _ hname hkind => exact fun _ _ => ⟨.inside (by rw [hname]; rfl), hkind⟩
  | bound _ hk hfield =>
    exact titled_of_hasKindIn (hasKindIn_of_bindingField? (by rw [hk]; exact hfield)) (by decide)

/-- A type that is exported as a value without a name goes by the keyword of the statement. -/
theorem ArisesIn.titled {idx : Index} {d : Declaration} (h : d.ArisesIn idx) : d.Titled := by
  cases h with
  | origin _ h => exact h.titled
  | node _ _ h => exact titled_of_ofNode? h
  | name _ _ hk h => exact titled_of_ofName? hk h
  | keyword _ _ hexport hvalue _ hmem htoken =>
    intro _ htype
    refine ⟨.outside hexport hvalue hmem htoken, ?_⟩
    obtain ⟨kind, hkind⟩ := declarationKind?_of_titledKinds htype
    rw [hkind]
    rfl
  | space _ _ hform _ => exact titled_of_kind? (Export.kind?_of_formOf_space hform) (by decide)

end Declaration

/-! ## Interfaces among their parts -/

namespace Syntax.Node

open Declaration (titledKinds)

variable {n m q name : Node}

end Syntax.Node

namespace Project.Index

variable {idx : Index} {d e : Declaration}

end Project.Index

end ScriptAtlas
