import ScriptAtlas.Proofs.TreeNodes

/-!
# How declarations are named

A declaration is a node together with the token it goes by. There are few ways in which the two belong
together, whatever looks the declaration up.

* `Node.NamedBy`: these ways;
* `Node.NamedBy.isName`: in a parsed tree the token is a name;
* `Node.NamedBy.eq_of_isCallableAs`: a callable that does not go by a keyword goes by the name to which
  the calls in it are attributed;
* `Node.Bears`: the same, and an alias goes by no keyword unless it has no name;
* `Declaration.Formed`: a declaration whose node is named by its token;
* `Declaration.Made`: a formed declaration of which, if it is an alias, the node is one; what a scope
  declares is made so.
-/

namespace ScriptAtlas

open List Project

namespace Syntax.Node

variable {n m c name : Node}
variable {k : Kind}

/-! ## Ways to have a name -/

/-- How a node that declares something and the token it goes by belong together. -/
inductive NamedBy : Node → Node → Prop
  /-- It has a name of its own. -/
  | own {n name : Node} (hkind : n.declarationKind?.isSome = true)
      (h : n.declarationName? = some name) : NamedBy n name
  /-- A part of it is its name. -/
  | part {n name : Node} (hkind : n.declarationKind?.isSome = true ∨
      n.hasKindIn [.functionExpression, .generatorFunction] = true)
      (h : n.field? .name = some name) : NamedBy n name
  /-- It has no name and goes by its first token. -/
  | first {n name : Node} (hkind : n.declarationKind?.isSome = true)
      (hnone : n.declarationName? = none) (h : n.children.head? = some name) : NamedBy n name
  /-- A pattern in it binds the name. -/
  | bound {n pattern name : Node} {f : Field} (hkind : n.kind?.bind bindingField? = some f)
      (hpattern : n.field? f = some pattern) (h : name ∈ pattern.bindingNames) : NamedBy n name
  /-- The pattern of a parameter binds the name. -/
  | pattern {function n pattern name : Node} (hfunction : function.kind?.any Kind.isFunctionLike = true)
      (hparameter : n ∈ function.parameters) (hpattern : n.field? .pattern = some pattern)
      (h : name ∈ pattern.bindingNames) : NamedBy n name
  /-- It is a bare parameter, its own name. -/
  | parameter {function n : Node} (hfunction : function.kind?.any Kind.isFunctionLike = true)
      (hparameter : n ∈ function.parameters) (h : n.kind? = some .identifier) : NamedBy n n
  /-- It is a name in an import clause. -/
  | imported {clause n : Node} (hclause : clause.kind? = some .importClause) (hn : n ∈ clause.children)
      (h : n.kind? = some .identifier) : NamedBy n n
  /-- It is another module under a name. -/
  | space {n name : Node} (hkind : n.kind? = some .namespaceExport) (h : n.parts.head? = some name) :
      NamedBy n name
  /-- It goes by the keyword in front of it. -/
  | keyword {n name : Node} (h : name.isNamed = false) : NamedBy n name

/-! ## Kinds of nodes with names -/

theorem kind?_of_hasKind (h : n.hasKind k = true) : n.kind? = some k := beq_iff_eq.1 h

theorem kind_of_pair {l : Kind} (h : n.hasKindIn [k, l] = true) :
    n.kind? = some k ∨ n.kind? = some l := by
  obtain ⟨k', hk, hmem⟩ := (Option.any_eq_true _ _).1 h
  simp only [contains_iff_mem, mem_cons, not_mem_nil, or_false] at hmem
  rcases hmem with rfl | rfl
  · exact .inl hk
  · exact .inr hk

theorem any_kind_eq {p q : Kind → Bool} {b : Bool} (h : n.kind?.any p = true)
    (hpq : ∀ k, p k = true → q k = b) : n.kind?.any q = b := by
  obtain ⟨k, hk, hp⟩ := (Option.any_eq_true _ _).1 h
  rw [hk, Option.any_some, hpq k hp]

theorem role_of_declarationKind? (h : n.declarationKind?.isSome = true) :
    ∃ k, n.kind? = some k ∧ (k.role.IsNaming ∨ k = .propertyIdentifier ∨ k = .identifier) := by
  cases hk : n.kind? with
  | none =>
    rw [declarationKind?, hk] at h
    cases h
  | some k =>
    refine ⟨k, rfl, ?_⟩
    cases k <;> first
      | exact .inl .declaring
      | exact .inl .function
      | exact .inl .property
      | exact .inl .titled
      | exact .inl .quiet
      | exact .inl .entry
      | exact .inl .text
      | exact .inl .housing
      | exact .inl .method
      | exact .inr (.inl rfl)
      | exact .inr (.inr rfl)
      | (rw [declarationKind?, hk] at h; cases h)

theorem kind_of_parent_of_own_name (hkind : n.declarationKind?.isSome = true)
    (hk : n.kind? = some .propertyIdentifier ∨ n.kind? = some .string ∨ n.kind? = some .identifier)
    {q : Node} (hq : n.parent? = some q) : q.kind? = some .enumBody ∨ q.kind? = some .importClause := by
  have hof {k : Kind} {s : SymbolKind}
      (h : (if n.parentHasKind k then some s else none).isSome = true) : q.kind? = some k := by
    split at h
    · next hin =>
      rw [parentHasKind, hq, Option.any_some] at hin
      exact kind?_of_hasKind hin
    · cases h
  rcases hk with hk | hk | hk <;> rw [declarationKind?, hk] at hkind
  · exact .inl (hof hkind)
  · exact .inl (hof hkind)
  · exact .inr (hof hkind)

theorem outside_of_own_name (hkind : n.declarationKind?.isSome = true)
    (hk : n.kind? = some .propertyIdentifier ∨ n.kind? = some .string ∨ n.kind? = some .identifier)
    {q : Node} (hq : n.parent? = some q) :
    q.label.isCall = false ∧ q.kind?.any Kind.leadsOn = false := by
  rcases kind_of_parent_of_own_name hkind hk hq with hq | hq <;> rw [isCall_of_kind? hq, hq] <;>
    exact ⟨rfl, rfl⟩

theorem outside_of_bindingField? {f : Field} (h : n.kind?.bind bindingField? = some f) :
    n.label.isCall = false ∧ n.kind?.any Kind.leadsOn = false := by
  obtain ⟨k, hk, hf⟩ := Option.bind_eq_some_iff.1 h
  have hbinds : (bindingField? k).isSome = true := by rw [hf, Option.isSome_some]
  rw [isCall_of_kind? hk, hk]
  clear hk hf
  revert hbinds
  cases k <;> decide

theorem outside_of_isFunctionLike (h : n.kind?.any Kind.isFunctionLike = true) :
    n.label.isCall = false ∧ n.kind?.any Kind.leadsOn = false := by
  obtain ⟨k, hk, hlike⟩ := (Option.any_eq_true _ _).1 h
  rw [isCall_of_kind? hk, hk]
  rcases Kind.role_of_isFunctionLike hlike with hrole | hrole | hrole <;>
    exact Kind.outside_of_role (by simp [hrole]) (by simp [hrole])

theorem functionNode?_eq_none (hk : n.kind? = some k)
    (hmem : k ∈ [Kind.identifier, .requiredParameter, .optionalParameter, .namespaceExport]) :
    n.functionNode? = none := by
  simp only [mem_cons, not_mem_nil, or_false] at hmem
  rw [functionNode?, hasKindIn, hk]
  rcases hmem with rfl | rfl | rfl | rfl <;> rfl

theorem declarationKind?_ne_none_of_parameter
    (h : n.hasKindIn [.requiredParameter, .optionalParameter] = true) :
    n.declarationKind? ≠ none := by
  rcases kind_of_pair h with hk | hk <;> rw [declarationKind?, hk] <;> dsimp only <;> split <;>
    exact nofun

/-! ## Patterns -/

/-- An identifier that is a pattern, or part of a pattern in the same tree. -/
structure IsBinding (m n : Node) : Prop where
  kind : m.kind? = some .identifier ∨ m.kind? = some .shorthandPropertyIdentifierPattern
  place : m = n ∨ ∃ q : Node, m ∈ q.children ∧ q.tree = n.tree ∧
    q.hasKindIn Declaration.patternKinds = true

theorem isBinding_of_mem_bindingNamesUpTo {fuel : Nat} (h : m ∈ bindingNamesUpTo fuel n) :
    m.IsBinding n := by
  induction fuel generalizing n with
  | zero => cases h
  | succ fuel ih =>
    have hinner {c : Node} {k : Kind} (hk : n.kind? = some k) (hmem : k ∈ Declaration.patternKinds)
        (hc : c ∈ n.children) (h : m ∈ bindingNamesUpTo fuel c) : m.IsBinding n := by
      obtain ⟨hkind, rfl | ⟨q, hq, htree, hpattern⟩⟩ := ih h
      · refine ⟨hkind, .inr ⟨n, hc, rfl, ?_⟩⟩
        rw [hasKindIn, hk, Option.any_some]
        exact contains_iff_mem.2 hmem
      · exact ⟨hkind, .inr ⟨q, hq, htree.trans (tree_of_mem_children hc), hpattern⟩⟩
    have hfield {f : Field} {k : Kind} (hk : n.kind? = some k) (hmem : k ∈ Declaration.patternKinds)
        (h : m ∈ ((n.field? f).map (bindingNamesUpTo fuel)).getD []) : m.IsBinding n := by
      cases hc : n.field? f with
      | none =>
        rw [hc] at h
        cases h
      | some c =>
        rw [hc] at h
        exact hinner hk hmem (mem_of_find?_eq_some hc) h
    unfold bindingNamesUpTo at h
    split at h
    · next hk =>
      cases mem_singleton.1 h
      exact ⟨.inl hk, .inl rfl⟩
    · next hk =>
      cases mem_singleton.1 h
      exact ⟨.inr hk, .inl rfl⟩
    iterate 3
      next hk =>
        obtain ⟨c, hc, h⟩ := mem_flatMap.1 h
        exact hinner hk (by decide) (mem_of_mem_filter hc) h
    iterate 3
      next hk => exact hfield hk (by decide) h
    · cases h

theorem outside_of_patternKinds (h : n.hasKindIn Declaration.patternKinds = true) :
    n.label.isCall = false ∧ n.kind?.any Kind.leadsOn = false := by
  obtain ⟨k, hk, hmem⟩ := (Option.any_eq_true _ _).1 h
  rw [isCall_of_kind? hk, hk]
  clear hk
  revert hmem
  cases k <;> decide

theorem isName_of_identifier (ht : n.tree.IsParsed) (hc : c ∈ n.children)
    (hk : c.kind? = some .identifier ∨ c.kind? = some .shorthandPropertyIdentifierPattern ∨
      c.kind? = some .thisExpression)
    (hn : n.label.isCall = false ∧ n.kind?.any Kind.leadsOn = false) : c.IsName := by
  have hct : c.tree.IsParsed := tree_of_mem_children hc ▸ ht
  have houtside : ∀ q, c.parent? = some q →
      q.label.isCall = false ∧ q.kind?.any Kind.leadsOn = false := by
    intro q hq
    cases hq.symm.trans (parent?_of_mem_children ht hc)
    exact hn
  rcases hk with hk | hk | hk <;> exact isName_of_kind? hct hk (.inl rfl) nofun houtside

theorem isName_of_mem_bindingNames {pattern : Node} (ht : n.tree.IsParsed)
    (hpattern : pattern ∈ n.children)
    (hn : n.label.isCall = false ∧ n.kind?.any Kind.leadsOn = false)
    (h : m ∈ pattern.bindingNames) : m.IsName := by
  obtain ⟨hk, hplace⟩ := isBinding_of_mem_bindingNamesUpTo h
  have hk' : m.kind? = some .identifier ∨ m.kind? = some .shorthandPropertyIdentifierPattern ∨
      m.kind? = some .thisExpression := hk.elim .inl (.inr ∘ .inl)
  rcases hplace with rfl | ⟨q, hq, htree, hkind⟩
  · exact isName_of_identifier ht hpattern hk' hn
  · have hqt : q.tree.IsParsed := (htree.trans (tree_of_mem_children hpattern)) ▸ ht
    exact isName_of_identifier hqt hq hk' (outside_of_patternKinds hkind)

theorem kind_of_mem_parameters {function : Node} (ht : m.tree.IsParsed)
    (hfunction : function.kind?.any Kind.isFunctionLike = true) (h : m ∈ function.parameters) :
    m.hasKindIn [.requiredParameter, .optionalParameter] = true ∨
      m.kind? = some .identifier ∧ m ∈ function.children := by
  rw [tree_of_mem_parameters h] at ht
  unfold parameters at h
  split at h
  · exact .inl (mem_filter.1 h).2
  · next hlist =>
    have hm := Option.mem_toList.1 h
    obtain ⟨k, hk, hlike⟩ := (Option.any_eq_true _ _).1 hfunction
    have hprogram : k ≠ .program := by
      rintro rfl
      cases hlike
    obtain ⟨root, p, up, hn, -⟩ := exists_at_of_kind? ht hk hprogram
    have hparts : Parametrized p.shape.children := by
      have hfits := hn.fits hk
      rcases Kind.role_of_isFunctionLike hlike with hrole | hrole | hrole <;> rw [hrole] at hfits
      · exact hfits.2
      · exact hfits.parametrized
      · exact hfits
    obtain ⟨j, s, hs, hcat, hfield, -⟩ := hn.exists_of_field? hm
    rcases hparts with hlisted | hbare
    · have hsome := hn.isSome_field? hlisted
      rw [hlist] at hsome
      cases hsome
    · refine .inr ⟨?_, mem_of_find?_eq_some hm⟩
      rw [hcat.kind?]
      exact congrArg Label.kind? (hbare s hs hfield)

/-! ## Tokens that name something are names -/

theorem children_eq_nil_of_isIdentifier (ht : n.tree.IsParsed)
    (h : n.kind?.any Kind.isIdentifier = true) : n.children = [] := by
  obtain ⟨k, hk, hidentifier⟩ := (Option.any_eq_true _ _).1 h
  have hprogram : k ≠ .program := by
    rintro rfl
    cases hidentifier
  obtain ⟨root, p, up, hn, -⟩ := exists_at_of_kind? ht hk hprogram
  have hfits := hn.fits hk
  rw [Kind.role_of_isIdentifier hidentifier] at hfits
  have hnone : p.shape.children = [] := hfits
  refine eq_nil_iff_forall_not_mem.2 fun c hc => ?_
  obtain ⟨j, s, hs, -⟩ := hn.exists_of_mem_children hc
  rw [hnone] at hs
  cases hs

theorem kind_of_pattern {function pattern : Node} (ht : n.tree.IsParsed)
    (hfunction : function.kind?.any Kind.isFunctionLike = true) (hparameter : n ∈ function.parameters)
    (hpattern : n.field? .pattern = some pattern) :
    n.hasKindIn [.requiredParameter, .optionalParameter] = true := by
  refine (kind_of_mem_parameters ht hfunction hparameter).resolve_right fun h => ?_
  rw [field?, children_eq_nil_of_isIdentifier ht (by rw [h.1]; rfl)] at hpattern
  cases hpattern

theorem isName_of_part (ht : n.tree.IsParsed)
    (hkind : n.declarationKind?.isSome = true ∨
      n.hasKindIn [.functionExpression, .generatorFunction] = true)
    (h : n.field? .name = some name) : name.IsName := by
  rcases hkind with hkind | hkind
  · obtain ⟨k, hk, hrole | rfl | rfl⟩ := role_of_declarationKind? hkind
    · exact isName_of_field?_name ht hk hrole h
    all_goals
      have hnone : n.children = [] := children_eq_nil_of_isIdentifier ht (by rw [hk]; rfl)
      rw [field?, hnone] at h
      cases h
  · rcases kind_of_pair hkind with hk | hk <;> exact isName_of_field?_name ht hk .function h

theorem isName_of_declarationName? (ht : n.tree.IsParsed)
    (hkind : n.declarationKind?.isSome = true) (h : n.declarationName? = some name) :
    name.IsName := by
  have hleaf {ks : List Kind} {pattern : Option Node} (hpattern : ∀ p ∈ pattern, p ∈ n.children)
      (hks : ks ⊆ [.identifier, .thisExpression])
      (hn : n.label.isCall = false ∧ n.kind?.any Kind.leadsOn = false)
      (h : pattern.filter (·.hasKindIn ks) = some name) : name.IsName := by
    obtain ⟨hp, hin⟩ := Option.filter_eq_some_iff.1 h
    obtain ⟨k, hk, hmem⟩ := (Option.any_eq_true _ _).1 hin
    refine isName_of_identifier ht (hpattern name hp) ?_ hn
    have hk' := hks (contains_iff_mem.1 hmem)
    simp only [mem_cons, not_mem_nil, or_false] at hk'
    rcases hk' with rfl | rfl
    · exact .inl hk
    · exact .inr (.inr hk)
  unfold declarationName? at h
  split at h
  · next hk =>
    cases h
    exact isName_of_kind? ht hk (.inl rfl) nofun fun q => outside_of_own_name hkind (.inl hk)
  · next hk =>
    cases h
    exact isName_of_kind? ht hk (.inr rfl) nofun fun q => outside_of_own_name hkind (.inr (.inl hk))
  · next hk =>
    cases h
    exact isName_of_kind? ht hk (.inl rfl) nofun fun q => outside_of_own_name hkind (.inr (.inr hk))
  · next hk =>
    have hpart {f : Field} (h : n.field? f = some name) : name.IsName :=
      isName_of_quiet ht hk rfl (mem_of_find?_eq_some h) (kind?_ne_comment_of_field? ht h)
    exact (eq_or_eq_of_orElse h).elim hpart hpart
  iterate 2
    next hk =>
      refine isName_of_quiet ht hk rfl (mem_of_mem_filter (mem_of_find?_eq_some h)) ?_
      have hident := find?_some h
      rw [kind?_of_hasKind hident]
      exact nofun
  iterate 2
    next hk =>
      refine hleaf (fun p hp => mem_of_find?_eq_some hp) (List.Subset.refl _) ?_ h
      rw [isCall_of_kind? hk, hk]
      exact ⟨rfl, rfl⟩
  · next hk =>
    refine isName_of_part ht (.inl hkind) (Option.filter_eq_some_iff.1 h).1
  · exact isName_of_part ht (.inl hkind) h

theorem NamedBy.isName (ht : n.tree.IsParsed) (hname : name.tree.IsParsed) (h : n.NamedBy name) :
    name.IsName := by
  cases h with
  | own hkind h => exact isName_of_declarationName? ht hkind h
  | part hkind h => exact isName_of_part ht hkind h
  | first hkind _ h =>
    obtain ⟨k, hk, hrole | rfl | rfl⟩ := role_of_declarationKind? hkind
    · exact isName_of_head?_children ht hk hrole h
    all_goals
      rw [children_eq_nil_of_isIdentifier ht (by rw [hk]; rfl)] at h
      cases h
  | bound hkind hpattern h =>
    exact isName_of_mem_bindingNames ht (mem_of_find?_eq_some hpattern)
      (outside_of_bindingField? hkind) h
  | @pattern function _ _ _ hfunction hparameter hpattern h =>
    refine isName_of_mem_bindingNames ht (mem_of_find?_eq_some hpattern) ?_ h
    rcases kind_of_mem_parameters ht hfunction hparameter with hkind | ⟨hk, -⟩
    · rcases kind_of_pair hkind with hk | hk <;> rw [isCall_of_kind? hk, hk] <;> exact ⟨rfl, rfl⟩
    · rw [isCall_of_kind? hk, hk]
      exact ⟨rfl, rfl⟩
  | @parameter function _ hfunction hparameter hk =>
    have hft : function.tree.IsParsed := tree_of_mem_parameters hparameter ▸ ht
    rcases kind_of_mem_parameters ht hfunction hparameter with hkind | ⟨-, hmem⟩
    · rw [hasKindIn, hk] at hkind
      cases hkind
    · exact isName_of_identifier hft hmem (.inl hk) (outside_of_isFunctionLike hfunction)
  | @imported clause _ hclause hn hk =>
    have hct : clause.tree.IsParsed := tree_of_mem_children hn ▸ ht
    refine isName_of_identifier hct hn (.inl hk) ?_
    rw [isCall_of_kind? hclause, hclause]
    exact ⟨rfl, rfl⟩
  | space hkind h =>
    have hmem := mem_of_head? h
    refine isName_of_quiet ht hkind rfl (mem_of_mem_filter (mem_of_mem_filter hmem)) ?_
    intro hk
    have hplain := (mem_filter.1 hmem).2
    rw [hasKind, hk] at hplain
    cases hplain
  | keyword h => exact isName_of_token hname h

/-! ## Callables -/

/-- Kinds of node to which calls are attributed. -/
def callableKinds : List Kind :=
  [.functionDeclaration, .generatorFunctionDeclaration, .methodDefinition, .functionExpression,
   .generatorFunction, .arrowFunction, .variableDeclarator, .fieldDefinition, .pair]

/-- A callable has the name to which its calls are attributed as a part, or it is a property that has
a key instead. -/
structure IsCallableAs (n name : Node) : Prop where
  kind : ∃ k ∈ callableKinds, n.kind? = some k
  name_eq : n.field? .name = some name ∨ n.field? .name = none ∧ n.field? .key = some name ∧
    (n.kind? = some .fieldDefinition ∨ n.kind? = some .pair)
  plain : n.kind? = some .variableDeclarator → name.kind? = some .identifier

theorem IsCallableAs.unique {title : Node} (h : n.IsCallableAs title) (h' : n.IsCallableAs name) :
    title = name := by
  rcases h.name_eq with hname | ⟨hnone, hkey, -⟩ <;> rcases h'.name_eq with hname' | ⟨hnone', hkey', -⟩
  · exact Option.some.inj (hname.symm.trans hname')
  · cases hname.symm.trans hnone'
  · cases hname'.symm.trans hnone
  · exact Option.some.inj (hkey.symm.trans hkey')

theorem isCallableAs_of_functionOwner? {function : Node} (hk : function.kind? = some k)
    (hlike : k.isFunctionExpression = true) (h : function.functionOwner? = some (n, name)) :
    n.IsCallableAs name := by
  obtain ⟨parent, -, h⟩ := Option.bind_eq_some_iff.1 h
  have hproperty {k : Kind} (hmem : k = .fieldDefinition ∨ k = .pair) (hk : parent.kind? = some k)
      (h : (parent.field? .name <|> parent.field? .key).map (parent, ·) = some (n, name)) :
      n.IsCallableAs name := by
    obtain ⟨x, hx, heq⟩ := Option.map_eq_some_iff.1 h
    cases heq
    refine ⟨⟨k, ?_, hk⟩, ?_, fun hvariable => ?_⟩
    · rcases hmem with rfl | rfl <;> decide
    · cases hname : n.field? .name with
      | none =>
        rw [hname] at hx
        exact .inr ⟨rfl, hx, hk ▸ hmem.imp (congrArg some) (congrArg some)⟩
      | some y =>
        rw [hname] at hx
        exact .inl hx
    · rw [hk] at hvariable
      rcases hmem with rfl | rfl <;> cases hvariable
  split at h
  · next hparent =>
    obtain ⟨x, hx, h⟩ := Option.bind_eq_some_iff.1 h
    split at h
    · next hident =>
      cases h
      exact ⟨⟨_, by decide, hparent⟩, .inl hx, fun _ => kind?_of_hasKind hident⟩
    · cases h
  · next hparent => exact hproperty (.inl rfl) hparent h
  · next hparent => exact hproperty (.inr rfl) hparent h
  · obtain ⟨x, hx, heq⟩ := Option.map_eq_some_iff.1 h
    cases heq
    refine ⟨⟨k, ?_, hk⟩, .inl hx, fun hvariable => ?_⟩
    · clear hk
      revert hlike
      cases k <;> decide
    · cases hk.symm.trans hvariable
      cases hlike

theorem isCallableAs_of_asCallable? {function : Node} (h : function.asCallable? = some (n, name)) :
    n.IsCallableAs name := by
  have hnamed {k : Kind} (hmem : k ∈ callableKinds) (hne : k ≠ .variableDeclarator)
      (hk : function.kind? = some k)
      (h : (function.field? .name).map (function, ·) = some (n, name)) : n.IsCallableAs name := by
    obtain ⟨x, hx, heq⟩ := Option.map_eq_some_iff.1 h
    cases heq
    refine ⟨⟨k, hmem, hk⟩, .inl hx, fun hvariable => absurd ?_ hne⟩
    exact Option.some.inj (hk.symm.trans hvariable)
  unfold asCallable? at h
  split at h
  iterate 3
    next hk => exact hnamed (by decide) (by decide) hk h
  · next k _ _ _ hk =>
    split at h
    · next hlike => exact isCallableAs_of_functionOwner? hk hlike h
    · cases h
  · cases h

theorem isSome_field?_name (ht : n.tree.IsParsed) (hk : n.kind? = some k)
    (hrole : k.role = .property ∨ k.role = .method) : (n.field? .name).isSome = true := by
  have hprogram : k ≠ .program := by
    rintro rfl
    rcases hrole with h | h <;> cases h
  obtain ⟨root, p, up, hn, -⟩ := exists_at_of_kind? ht hk hprogram
  have hfits := hn.fits hk
  rcases hrole with hrole | hrole <;> rw [hrole] at hfits
  · exact hn.isSome_field? hfits.2
  · exact hn.isSome_field? hfits.named

theorem field?_name_of_declarationName? (hmem : k ∈ callableKinds) (hk : n.kind? = some k)
    (h : n.declarationName? = some name) : n.field? .name = some name := by
  rw [declarationName?, hk] at h
  simp only [callableKinds, mem_cons, not_mem_nil, or_false] at hmem
  rcases hmem with rfl | rfl | rfl | rfl | rfl | rfl | rfl | rfl | rfl
  iterate 6 exact h
  · exact (Option.filter_eq_some_iff.1 h).1
  iterate 2 exact h

theorem eq_of_mem_bindingNames (hk : n.kind? = some .identifier) (h : m ∈ n.bindingNames) :
    m = n := by
  unfold bindingNames at h
  cases hsize : n.entry.size with
  | zero =>
    rw [hsize] at h
    cases h
  | succ fuel =>
    rw [hsize, bindingNamesUpTo, hk] at h
    exact mem_singleton.1 h

/-- A callable that does not go by a keyword goes by the name to which its calls are attributed. -/
theorem NamedBy.eq_of_isCallableAs (ht : n.tree.IsParsed) {title : Node} (h : n.NamedBy title)
    (htitle : title.isNamed = true) (hcallable : n.IsCallableAs name) : title = name := by
  obtain ⟨⟨k, hmem, hk⟩, hname, hplain⟩ := hcallable
  have hpart (h : n.field? .name = some title) : title = name := by
    rw [h] at hname
    rcases hname with hname | ⟨hnone, -⟩
    · exact Option.some.inj hname
    · cases hnone
  have hidentifier (h : n.kind? = some .identifier) : False := by
    cases hk.symm.trans h
    revert hmem
    decide
  cases h with
  | own hkind h => exact hpart (field?_name_of_declarationName? hmem hk h)
  | part hkind h => exact hpart h
  | first hkind hnone h =>
    exfalso
    rw [declarationName?, hk] at hnone
    rw [declarationKind?, hk] at hkind
    simp only [callableKinds, mem_cons, not_mem_nil, or_false] at hmem
    rcases hname with hname | ⟨hname, -, hproperty⟩
    · rw [hname] at hnone
      rcases hmem with rfl | rfl | rfl | rfl | rfl | rfl | rfl | rfl | rfl
      iterate 3 cases hnone
      iterate 3 cases hkind
      · have hident : name.hasKind .identifier = true := beq_iff_eq.2 (hplain hk)
        simp [Option.filter, hident] at hnone
      · cases hnone
      · cases hkind
    · rcases hproperty with hproperty | hproperty
      · have hsome := isSome_field?_name ht hproperty (.inl rfl)
        rw [hname] at hsome
        cases hsome
      · cases hk.symm.trans hproperty
        cases hkind
  | @bound _ pattern _ f hkind hpattern h =>
    rw [hk, Option.bind_some] at hkind
    simp only [callableKinds, mem_cons, not_mem_nil, or_false] at hmem
    rcases hmem with rfl | rfl | rfl | rfl | rfl | rfl | rfl | rfl | rfl
    all_goals cases hkind
    rcases hname with hname | ⟨hnone, -⟩
    · cases hname.symm.trans hpattern
      exact eq_of_mem_bindingNames (hplain hk) h
    · cases hnone.symm.trans hpattern
  | @pattern function _ _ _ hfunction hparameter hpattern h =>
    exfalso
    rcases kind_of_mem_parameters ht hfunction hparameter with hkind | ⟨hident, -⟩
    · rw [hasKindIn, hk, Option.any_some, contains_iff_mem] at hkind
      simp only [mem_cons, not_mem_nil, or_false] at hkind
      rcases hkind with rfl | rfl <;> revert hmem <;> decide
    · exact hidentifier hident
  | parameter _ _ h => exact absurd h hidentifier
  | imported _ _ h => exact absurd h hidentifier
  | space hkind _ =>
    exfalso
    cases hk.symm.trans hkind
    revert hmem
    decide
  | keyword h =>
    rw [h] at htitle
    cases htitle

/-! ## Names of aliases -/

section Bears

variable {function clause pattern : Node} {f : Field}

/-- The token that an import of one export goes by: the import itself, or a part of it. -/
inductive EntryName (n : Node) : Node → Prop
  | itself (hk : n.kind? = some .identifier) : EntryName n n
  | part {f : Field} {name : Node} (hk : n.kind? = some .importSpecifier)
      (h : n.field? f = some name) : EntryName n name

theorem declarationName?_ne_none_of_entry (ht : n.tree.IsParsed)
    (h : n.hasKindIn [.importSpecifier, .identifier] = true) : n.declarationName? ≠ none := by
  intro hnone
  rcases kind_of_pair h with hk | hk <;> rw [declarationName?, hk] at hnone
  · obtain ⟨root, p, up, hn, -⟩ := exists_at_of_kind? ht hk (by decide)
    have hname := hn.isSome_field? (hn.fits hk).2
    rw [Option.orElse_eq_orElse, Option.orElse_eq_or] at hnone
    rw [(Option.or_eq_none_iff.1 hnone).2] at hname
    cases hname
  · cases hnone

/-- A node and the token it goes by, where an alias goes by its name if it has one, and an import of one
export by itself or a part. -/
structure Bears (n name : Node) : Prop where
  named : n.NamedBy name
  title : n.tree.IsParsed → n.kind? = some .typeAliasDeclaration →
    n.field? .name = some name ∨ n.field? .name = none
  entry : n.tree.IsParsed → n.declarationKind? = some .importName →
    n.hasKindIn [.importSpecifier, .identifier] = true → n.EntryName name

namespace Bears

theorem own (hkind : n.declarationKind?.isSome = true) (h : n.declarationName? = some name) :
    n.Bears name where
  named := .own hkind h
  title _ hk := by
    rw [declarationName?, hk] at h
    exact .inl h
  entry _ _ hentry := by
    rcases kind_of_pair hentry with hk | hk <;> rw [declarationName?, hk] at h
    · exact (eq_or_eq_of_orElse h).elim (.part hk) (.part hk)
    · cases h
      exact .itself hk

theorem part (hkind : n.declarationKind?.isSome = true ∨
      n.hasKindIn [.functionExpression, .generatorFunction] = true)
    (h : n.field? .name = some name) : n.Bears name where
  named := .part hkind h
  title _ _ := .inl h
  entry ht _ hentry := by
    rcases kind_of_pair hentry with hk | hk
    · exact .part hk h
    · rw [field?, children_eq_nil_of_isIdentifier ht (by rw [hk]; rfl)] at h
      cases h

theorem of_keyword (h : name.isNamed = false)
    (hnone : n.declarationKind?.isSome = true → n.declarationName? = none) : n.Bears name where
  named := .keyword h
  title _ hk := by
    have hname := hnone (by rw [declarationKind?, hk]; rfl)
    rw [declarationName?, hk] at hname
    exact .inr hname
  entry ht hkind hentry :=
    absurd (hnone (Option.isSome_of_eq_some hkind)) (declarationName?_ne_none_of_entry ht hentry)

theorem of_nameless (hnamed : n.NamedBy name) (hnone : n.declarationName? = none) :
    n.Bears name where
  named := hnamed
  title _ hk := by
    rw [declarationName?, hk] at hnone
    exact .inr hnone
  entry ht _ hentry := absurd hnone (declarationName?_ne_none_of_entry ht hentry)

theorem of_identifier (hnamed : n.NamedBy n) (hk : n.kind? = some .identifier) : n.Bears n where
  named := hnamed
  title _ halias := by cases hk.symm.trans halias
  entry _ _ _ := .itself hk

theorem space (hk : n.kind? = some .namespaceExport) (h : n.parts.head? = some name) :
    n.Bears name where
  named := .space hk h
  title _ halias := by cases hk.symm.trans halias
  entry _ _ hentry := by
    rw [hasKindIn, hk] at hentry
    cases hentry

theorem bound (hkind : n.kind?.bind bindingField? = some f) (hpattern : n.field? f = some pattern)
    (h : name ∈ pattern.bindingNames) : n.Bears name := by
  refine ⟨.bound hkind hpattern h, fun _ halias => ?_, fun _ _ hentry => ?_⟩
  · rw [halias] at hkind
    cases hkind
  · rcases kind_of_pair hentry with hk | hk <;> rw [hk] at hkind <;> cases hkind

theorem ofPattern (hfunction : function.kind?.any Kind.isFunctionLike = true)
    (hparameter : n ∈ function.parameters) (hpattern : n.field? .pattern = some m)
    (h : name ∈ m.bindingNames) : n.Bears name := by
  refine ⟨.pattern hfunction hparameter hpattern h, fun ht halias => ?_, fun ht _ hentry => ?_⟩
  · have hkind := kind_of_pattern ht hfunction hparameter hpattern
    rw [hasKindIn, halias] at hkind
    cases hkind
  · have hkind := kind_of_pattern ht hfunction hparameter hpattern
    rcases kind_of_pair hentry with hk | hk <;> rw [hasKindIn, hk] at hkind <;> cases hkind

end Bears

end Bears

end Syntax.Node

open Syntax

namespace Syntax.Node

/-! ## Declarations of statements and members -/

theorem DeclaredAs.bears {n name : Node} (h : n.DeclaredAs name)
    (hkind : n.declarationKind?.isSome = true) : n.Bears name := by
  cases h with
  | own h => exact .own hkind h
  | part h => exact .part (.inl hkind) h
  | bound hk hpattern h => exact .bound (f := .name) (by rw [hk]; rfl) hpattern h

theorem ImportsAs.bears {n name : Node} (h : n.ImportsAs name) : n.Bears name ∧
    (n.tree.IsParsed → n.declarationKind? = some .importName) := by
  have own (hkind : n.declarationKind? = some .importName) (h : n.declarationName? = some name) :
      n.Bears name ∧ (n.tree.IsParsed → n.declarationKind? = some .importName) :=
    ⟨.own (Option.isSome_of_eq_some hkind) h, fun _ => hkind⟩
  cases h with
  | @whole clause n hclause hmem hk =>
    refine ⟨.of_identifier (.imported hclause hmem hk) hk, fun ht => ?_⟩
    rw [tree_of_mem_children hmem] at ht
    have hparent : n.parentHasKind .importClause = true := by
      rw [parentHasKind, parent?_of_mem_children ht hmem, Option.any_some, hasKind, hclause]
      rfl
    rw [declarationKind?, hk]
    exact if_pos hparent
  | entry hk h => exact own (by rw [declarationKind?, hk]) (by rw [declarationName?, hk]; exact h)
  | space hk h =>
    rcases hk with hk | hk <;>
      exact own (by rw [declarationKind?, hk]) (by rw [declarationName?, hk]; exact h)

end Syntax.Node

namespace Declaration

variable {token : Node}

/-- The node of the declaration is named by its token. -/
def Formed (d : Declaration) : Prop := d.node.NamedBy d.nameNode

/-- A declaration as searches and call trees know it: one that is formed, or a function value under the
name to which its calls are attributed. -/
def Known (d : Declaration) : Prop :=
  d.Formed ∨ ∃ function : Node, function.asCallable? = some (d.node, d.nameNode)

/-- A known declaration that does not go by a keyword goes by the name to which its calls are
attributed. -/
theorem Known.nameNode_eq {d : Declaration} (h : d.Known) (ht : d.node.tree.IsParsed)
    (hnamed : d.nameNode.isNamed = true) {name : Node} (hcallable : d.node.IsCallableAs name) :
    d.nameNode = name := by
  rcases h with hformed | ⟨function, hfunction⟩
  · exact hformed.eq_of_isCallableAs ht hnamed hcallable
  · exact (Node.isCallableAs_of_asCallable? hfunction).unique hcallable

/-- A declaration that a construct makes of a node with another kind or with none: a variable, a
function, or something without a body. -/
def Loose (d : Declaration) : Prop :=
  d.kind = .variableName ∨ d.kind = .function ∨
    (d.kind = .parameter ∨ d.kind = .namespaceName) ∧ d.node.functionNode? = none

/-- A declaration as it is made from its node: it goes by a token of the node, and it is of the kind of
its node unless the construct around it makes it. -/
structure Made (d : Declaration) : Prop where
  bears : d.node.Bears d.nameNode
  kind : d.node.tree.IsParsed → d.node.declarationKind? = some d.kind ∨ d.Loose

theorem Made.formed {d : Declaration} (h : d.Made) : d.Formed := h.bears.named

theorem kind_of_container? {d o : Declaration} (h : d.container? = some o) :
    o.kind = .classType ∨ o.kind = .interfaceType ∨ o.kind = .enumType := by
  obtain ⟨n, hn, h⟩ := Option.bind_eq_some_iff.1 h
  obtain ⟨kind, hkind, h⟩ := Option.bind_eq_some_iff.1 h
  obtain ⟨nameNode, -, rfl⟩ := Option.map_eq_some_iff.1 h
  obtain ⟨c, hc, hn⟩ := Option.bind_eq_some_iff.1 hn
  obtain ⟨body, -, hn⟩ := Option.bind_eq_some_iff.1 hn
  split at hn
  · obtain rfl := Option.some.inj hn
    have hcontainer := find?_some (p := fun a : Node => a.hasKindIn containerKinds) hc
    obtain ⟨k, hk, hmem⟩ := (Option.any_eq_true _ _).1 hcontainer
    simp only [containerKinds, contains_iff_mem, mem_cons, not_mem_nil, or_false]
      at hmem
    rw [Node.declarationKind?, hk] at hkind
    rcases hmem with rfl | rfl | rfl | rfl | rfl <;> cases hkind <;> simp
  · cases hn

theorem kind?_of_declarationKind? {n : Node} (h : n.declarationKind? = some .typeAlias) :
    n.kind? = some .typeAliasDeclaration := by
  cases hk : n.kind? with
  | none =>
    rw [Node.declarationKind?, hk] at h
    cases h
  | some k =>
    rw [Node.declarationKind?, hk] at h
    cases k <;> dsimp only at h <;> first
      | rfl
      | cases h
      | (split at h <;> first
          | cases h
          | (split at h <;> cases h))

variable {file : SourceFile} {d : Declaration}

theorem Made.kind?_of_typeAlias (h : d.Made) (ht : d.node.tree.IsParsed) (halias : d.kind = .typeAlias) :
    d.node.kind? = some .typeAliasDeclaration := by
  rcases h.kind ht with hkind | hloose
  · exact kind?_of_declarationKind? (hkind.trans (congrArg some halias))
  · simp [Loose, halias] at hloose

theorem make?_eq_some {n name : Node} (h : make? file n name = some d) :
    d.file = file ∧ d.node = n ∧ d.nameNode = name ∧ n.declarationKind? = some d.kind := by
  obtain ⟨kind, hkind, rfl⟩ := Option.map_eq_some_iff.1 h
  exact ⟨rfl, rfl, rfl, hkind⟩

theorem made_of_make? {n name : Node} (h : make? file n name = some d)
    (hname : n.declarationKind?.isSome = true → n.Bears name) : d.Made := by
  obtain ⟨-, rfl, rfl, hkind⟩ := make?_eq_some h
  exact ⟨hname (Option.isSome_of_eq_some hkind), fun _ => .inl hkind⟩

theorem Origin.made {t : Tree} (h : Origin file t d) : d.Made := by
  cases h with
  | listed _ hname h => exact made_of_make? h hname.bears
  | imported _ h => exact ⟨h.bears.1, fun ht => .inl (h.bears.2 ht)⟩
  | bound _ hkind hpattern h => exact ⟨.bound hkind hpattern h, fun _ => .inr (.inl rfl)⟩
  | parameter _ hfunction hparam hk =>
    have hnone := Node.functionNode?_eq_none hk (by decide)
    exact ⟨.of_identifier (.parameter hfunction hparam hk) hk,
      fun _ => .inr (.inr (.inr ⟨.inl rfl, hnone⟩))⟩
  | @pattern _ n _ name _ hfunction hparam hpattern h =>
    have hbears : n.Bears name := .ofPattern hfunction hparam hpattern h
    cases hmake : make? file n name with
    | none =>
      refine ⟨hbears, fun ht => absurd (Option.map_eq_none_iff.1 hmake) ?_⟩
      exact Node.declarationKind?_ne_none_of_parameter
        (Node.kind_of_pattern ht hfunction hparam hpattern)
    | some e => exact made_of_make? hmake fun _ => hbears
  | function _ hk h => exact ⟨.part (.inr hk) h, fun _ => .inr (.inr (.inl rfl))⟩

theorem made_of_ofNode? {n : Node} (h : ofNode? file n = some d) : d.Made := by
  obtain ⟨kind, hkind, h⟩ := Option.bind_eq_some_iff.1 h
  obtain ⟨name, hname, rfl⟩ := Option.map_eq_some_iff.1 h
  have hsome : n.declarationKind?.isSome = true := Option.isSome_of_eq_some hkind
  refine ⟨?_, fun _ => .inl hkind⟩
  cases hown : n.declarationName? with
  | none =>
    rw [hown] at hname
    exact .of_nameless (.first hsome hown hname) hown
  | some token =>
    rw [hown] at hname
    cases hname
    exact .own hsome hown

theorem made_of_ofName? (ht : token.kind?.any Kind.isIdentifier = true)
    (h : ofName? file token = some d) : d.Made := by
  cases namedBy_of_ofName? h with
  | itself hkind =>
    have hsome := Option.isSome_of_eq_some hkind
    refine ⟨.own hsome ?_, fun _ => .inl hkind⟩
    obtain ⟨k, hk, hrole | rfl | rfl⟩ := Node.role_of_declarationKind? hsome
    · rw [hk, Option.any_some] at ht
      rw [Kind.role_of_isIdentifier ht] at hrole
      cases hrole
    all_goals rw [Node.declarationName?, hk]
  | parent _ hname hkind => exact ⟨.own (Option.isSome_of_eq_some hkind) hname, fun _ => .inl hkind⟩
  | bound _ hk hfield hpattern hmem hkind =>
    refine ⟨.bound (by rw [hk]; exact hfield) hpattern hmem, fun _ => .inr ?_⟩
    rcases hkind with rfl | ⟨rfl, hparameter⟩
    · exact .inl rfl
    · have hnone := Node.functionNode?_eq_none hk
        (mem_cons_of_mem _ (mem_append_left [Kind.namespaceExport] hparameter))
      exact .inr (.inr ⟨.inl rfl, hnone⟩)

end Declaration

end ScriptAtlas
