import Mathlib.Data.List.Basic
import ScriptAtlas.Symbol.Scope

/-!
# Where nodes and declarations lie

Walking up and down a syntax tree never leaves it, and what a scope declares lies in the file whose
tree was asked. So every declaration that a name stands for lies in a file of the project.

* `Node.tree_of_mem_children` and its companions: each way to get from a node to another one stays
  in the tree.
* `Declaration.Origin`: the construct that a declaration of a scope or of a body comes from.
* `Declaration.LiesIn`: a declaration of a file, with its nodes in the tree of the file.
* `Declaration.PlacedIn`: a declaration of some file of a project.
* `resolveName_placed`, `merged_placed`: what a plain name stands for, and what belongs with a
  declaration, is placed in the project.
-/

namespace ScriptAtlas

open List Project Syntax

variable {f : Field} {b body c m n place token : Node} {s : Symbol}
variable {idx : Index}

theorem eq_or_eq_of_orElse {α : Type} {o p : Option α} {a : α} (h : (o <|> p) = some a) :
    o = some a ∨ p = some a := by
  cases o with
  | none => exact Or.inr h
  | some b => exact Or.inl h

theorem mem_findSome?_getD {α β : Type} {f : α → Option (List β)} {l : List α} {b : β}
    (h : b ∈ (l.findSome? f).getD []) : ∃ a ∈ l, ∃ found, f a = some found ∧ b ∈ found := by
  cases hf : l.findSome? f with
  | none => simp [hf] at h
  | some found =>
    obtain ⟨a, ha, hfa⟩ := exists_of_findSome?_eq_some hf
    exact ⟨a, ha, found, hfa, by simpa [hf] using h⟩

namespace Syntax.Node

variable {p : Node × Node}

/-! ## Walking inside a tree -/

theorem tree_of_mem_children (h : c ∈ n.children) : c.tree = n.tree := by
  obtain ⟨i, -, rfl⟩ := mem_map.1 h
  rfl

theorem tree_of_mem_namedChildren (h : c ∈ n.namedChildren) : c.tree = n.tree :=
  tree_of_mem_children (mem_of_mem_filter h)

theorem mem_parts_iff :
    c ∈ n.parts ↔ c ∈ n.namedChildren ∧ c.kind? ≠ some .comment := by
  simp [parts, hasKind]

theorem tree_of_mem_parts (h : c ∈ n.parts) : c.tree = n.tree :=
  tree_of_mem_namedChildren (mem_of_mem_filter h)

theorem tree_of_mem_ancestors (h : c ∈ n.ancestors) : c.tree = n.tree := by
  obtain ⟨i, -, rfl⟩ := mem_map.1 h
  rfl

theorem tree_of_mem_descendants (h : c ∈ n.descendants) : c.tree = n.tree := by
  obtain ⟨i, -, rfl⟩ := mem_map.1 h
  rfl

theorem tree_of_mem_nodes {t : Tree} (h : c ∈ t.nodes) : c.tree = t := by
  obtain ⟨i, -, rfl⟩ := mem_map.1 h
  rfl

theorem tree_of_parent? {n p : Node} (h : n.parent? = some p) : p.tree = n.tree := by
  obtain ⟨i, -, rfl⟩ := Option.map_eq_some_iff.1 h
  rfl

theorem tree_of_field? (h : n.field? f = some c) : c.tree = n.tree :=
  tree_of_mem_children (mem_of_find?_eq_some h)

theorem tree_of_findAncestor? {n a : Node} {p : Node → Bool} (h : n.findAncestor? p = some a) :
    a.tree = n.tree :=
  tree_of_mem_ancestors (mem_of_find?_eq_some h)

theorem tree_of_find?_namedChildren {p : Node → Bool}
    (h : n.namedChildren.find? p = some c) : c.tree = n.tree :=
  tree_of_mem_namedChildren (mem_of_find?_eq_some h)

theorem tree_of_head?_namedChildren (h : n.namedChildren.head? = some c) :
    c.tree = n.tree :=
  tree_of_mem_namedChildren (mem_of_head? h)

theorem tree_of_head?_parts (h : n.parts.head? = some c) : c.tree = n.tree :=
  tree_of_mem_parts (mem_of_head? h)

theorem tree_of_field?_orElse {g : Field}
    (h : (n.field? f <|> n.field? g) = some c) : c.tree = n.tree := by
  rcases eq_or_eq_of_orElse h with h | h <;> exact tree_of_field? h

theorem tree_unwrapUpTo (fuel : Nat) (n : Node) : (unwrapUpTo fuel n).tree = n.tree := by
  induction fuel generalizing n with
  | zero => rfl
  | succ fuel ih =>
    unfold unwrapUpTo
    split
    · split
      · rename_i inner h
        exact (ih inner).trans (tree_of_find?_namedChildren h)
      · rfl
    · rfl

@[simp] theorem tree_unwrap (n : Node) : n.unwrap.tree = n.tree := tree_unwrapUpTo _ n

@[simp] theorem tree_outermostWrapper (n : Node) : n.outermostWrapper.tree = n.tree := by
  unfold outermostWrapper
  cases h : (n.ancestors.takeWhile fun a => a.kind?.any Kind.isTransparentWrapper).getLast? with
  | none => rfl
  | some a => exact tree_of_mem_ancestors (takeWhile_subset _ (mem_of_getLast? h))

/-! ## Names and declarations in a tree -/

theorem eq_or_mem_children_of_declarationName? {n name : Node} (h : n.declarationName? = some name) :
    name = n ∧ (n.kind? = some .propertyIdentifier ∨ n.kind? = some .string ∨
      n.kind? = some .identifier) ∨ name ∈ n.children := by
  have hfield {f : Field} {c : Node} (hc : n.field? f = some c) : c ∈ n.children :=
    mem_of_find?_eq_some hc
  unfold declarationName? at h
  split at h
  · next hk => exact .inl ⟨(Option.some.inj h).symm, .inl hk⟩
  · next hk => exact .inl ⟨(Option.some.inj h).symm, .inr (.inl hk)⟩
  · next hk => exact .inl ⟨(Option.some.inj h).symm, .inr (.inr hk)⟩
  · exact .inr ((eq_or_eq_of_orElse h).elim hfield hfield)
  iterate 2 exact .inr (mem_of_mem_filter (mem_of_find?_eq_some h))
  iterate 3 exact .inr (hfield (Option.filter_eq_some_iff.1 h).1)
  · exact .inr (hfield h)

theorem tree_of_declarationName? {n name : Node} (h : n.declarationName? = some name) :
    name.tree = n.tree := by
  rcases eq_or_mem_children_of_declarationName? h with ⟨rfl, -⟩ | hmem
  · rfl
  · exact tree_of_mem_children hmem

theorem tree_of_mem_bindingNamesUpTo {fuel : Nat}
    (h : b ∈ bindingNamesUpTo fuel n) : b.tree = n.tree := by
  induction fuel generalizing n with
  | zero => simp [bindingNamesUpTo] at h
  | succ fuel ih =>
    have part : ∀ (f : Field), b ∈ ((n.field? f).map (bindingNamesUpTo fuel)).getD [] →
        b.tree = n.tree := by
      intro f hb
      cases hf : n.field? f with
      | none => simp [hf] at hb
      | some c => exact (ih (by simpa [hf] using hb)).trans (tree_of_field? hf)
    unfold bindingNamesUpTo at h
    split at h
    · rw [mem_singleton.1 h]
    · rw [mem_singleton.1 h]
    iterate 3
      obtain ⟨c, hc, hb⟩ := mem_flatMap.1 h
      exact (ih hb).trans (tree_of_mem_namedChildren hc)
    iterate 3 exact part _ h
    · simp at h

theorem tree_of_mem_bindingNames (h : b ∈ n.bindingNames) : b.tree = n.tree :=
  tree_of_mem_bindingNamesUpTo h

theorem tree_of_unwrapStatementUpTo {fuel : Nat} {n inner : Node}
    (h : unwrapStatementUpTo fuel n = some inner) : inner.tree = n.tree := by
  induction fuel generalizing n with
  | zero => cases h; rfl
  | succ fuel ih =>
    unfold unwrapStatementUpTo at h
    split at h
    · obtain ⟨c, hc, hi⟩ := Option.bind_eq_some_iff.1 h
      exact (ih hi).trans (tree_of_field? hc)
    · obtain ⟨c, hc, hi⟩ := Option.bind_eq_some_iff.1 h
      exact (ih hi).trans (tree_of_head?_parts hc)
    · rcases eq_or_eq_of_orElse h with h | h
      · exact tree_of_find?_namedChildren h
      · cases h; rfl
    · cases h; rfl

theorem tree_of_unwrapStatement? {n inner : Node} (h : n.unwrapStatement? = some inner) :
    inner.tree = n.tree :=
  tree_of_unwrapStatementUpTo h

/-- Both nodes of a pair lie in the tree of `n`. -/
def PairIn (n : Node) (p : Node × Node) : Prop := p.1.tree = n.tree ∧ p.2.tree = n.tree

theorem PairIn.mono (h : PairIn n p) (hn : n.tree = m.tree) :
    PairIn m p :=
  ⟨h.1.trans hn, h.2.trans hn⟩

theorem eq_of_beq (h : (m == n) = true) (ht : m.tree = n.tree) : m = n := by
  have hid : m.id = n.id := beq_iff_eq.1 h
  cases m
  cases n
  cases ht
  cases hid
  rfl

/-- The part of a construct whose pattern binds names. -/
def bindingField? : Kind → Option Field
  | .variableDeclarator => some .name
  | .requiredParameter | .optionalParameter => some .pattern
  | .forInStatement => some .left
  | .catchClause => some .parameter
  | _ => none

/-- How statements and bodies of types pair a node with a token: it is the name of the node, a part of
it, or bound by the pattern of a variable. -/
inductive DeclaredAs (n name : Node) : Prop
  | own (h : n.declarationName? = some name)
  | part (h : n.field? .name = some name)
  | bound {pattern : Node} (hk : n.kind? = some .variableDeclarator)
      (hpattern : n.field? .name = some pattern) (h : name ∈ pattern.bindingNames)

/-- A pair that is listed for a node, with its first node in the tree of that node. -/
structure Listed (n : Node) (p : Node × Node) : Prop where
  tree : p.1.tree = n.tree
  declared : p.1.DeclaredAs p.2

theorem DeclaredAs.tree_eq {n name : Node} (h : n.DeclaredAs name) : name.tree = n.tree := by
  cases h with
  | own h => exact tree_of_declarationName? h
  | part h => exact tree_of_field? h
  | bound _ hpattern h => exact (tree_of_mem_bindingNames h).trans (tree_of_field? hpattern)

theorem Listed.mono (h : Listed n p) (hn : n.tree = m.tree) :
    Listed m p :=
  ⟨h.tree.trans hn, h.declared⟩

theorem listed_declarators
    (h : p ∈ (n.namedChildren.filter (·.hasKind .variableDeclarator)).flatMap fun d =>
      match d.field? .name with
      | some name => name.bindingNames.map fun b => (d, b)
      | none => []) :
    Listed n p := by
  obtain ⟨d, hd, h⟩ := mem_flatMap.1 h
  obtain ⟨hd, hk⟩ := mem_filter.1 hd
  split at h
  · next pattern hpattern =>
    obtain ⟨b, hb, rfl⟩ := mem_map.1 h
    exact ⟨tree_of_mem_namedChildren hd, .bound (beq_iff_eq.1 hk) hpattern hb⟩
  · cases h

theorem listed_statementDeclarations (h : p ∈ n.statementDeclarations) : Listed n p := by
  unfold statementDeclarations at h
  split at h
  · cases h
  · next inner hinner =>
    refine Listed.mono ?_ (tree_of_unwrapStatement? hinner)
    have named (h : p ∈ (inner.declarationName?.map fun name => (inner, name)).toList) :
        Listed inner p := by
      obtain ⟨name, hname, rfl⟩ := Option.map_eq_some_iff.1 (Option.mem_toList.1 h)
      exact ⟨rfl, .own hname⟩
    split at h
    iterate 10 exact named h
    iterate 2 exact listed_declarators h
    cases h

theorem listed_blockDeclarations (h : p ∈ n.blockDeclarations) :
    Listed n p := by
  obtain ⟨c, hc, hp⟩ := mem_flatMap.1 h
  exact (listed_statementDeclarations hp).mono (tree_of_mem_namedChildren hc)

theorem tree_of_typeBody? (h : n.typeBody? = some body) : body.tree = n.tree := by
  rcases eq_or_eq_of_orElse h with h | h
  · exact tree_of_field? h
  · exact tree_of_find?_namedChildren h

/-- What declares a member under the name that is a part of it. -/
def memberKinds : List Kind := [.methodDefinition, .methodSignature, .abstractMethodSignature,
  .fieldDefinition, .propertySignature, .enumAssignment]

/-- How a part of a body lists members: itself under its name, a name of its own in an enum, and the
parameters of a method that are also properties. -/
inductive EntryOf (body c : Node) : Node × Node → Prop
  | named {k : Kind} {name : Node} (hk : c.kind? = some k) (hmem : k ∈ memberKinds)
      (hname : c.field? .name = some name) : EntryOf body c (c, name)
  | itself {k : Kind} (hk : c.kind? = some k) (hmem : k = .propertyIdentifier ∨ k = .string)
      (hbody : body.hasKind .enumBody = true) : EntryOf body c (c, c)
  | parameter {list param name : Node} (hk : c.kind? = some .methodDefinition)
      (hlist : c.field? .parameters = some list) (hparam : param ∈ list.namedChildren)
      (hproperty : param.isParameterProperty = true) (hname : param.declarationName? = some name) :
      EntryOf body c (param, name)

theorem mem_memberEntries_iff : p ∈ memberEntries body c ↔ EntryOf body c p := by
  constructor
  · intro h
    have named {k : Kind} (hk : c.kind? = some k) (hmem : k ∈ memberKinds)
        (h : p ∈ ((c.field? .name).map fun name => (c, name)).toList) : EntryOf body c p := by
      obtain ⟨name, hname, rfl⟩ := Option.map_eq_some_iff.1 (Option.mem_toList.1 h)
      exact .named hk hmem hname
    have itself {k : Kind} (hk : c.kind? = some k) (hmem : k = .propertyIdentifier ∨ k = .string)
        (h : p ∈ if body.hasKind .enumBody then [(c, c)] else []) : EntryOf body c p := by
      split at h
      · next hbody => exact mem_singleton.1 h ▸ .itself hk hmem hbody
      · cases h
    unfold memberEntries at h
    split at h
    · next hk =>
      rcases mem_append.1 h with h | h
      · exact named hk (by decide) h
      · unfold parameterProperties at h
        split at h
        · cases h
        · next list hlist =>
          obtain ⟨param, hparam, h⟩ := mem_filterMap.1 h
          split at h
          · next hproperty =>
            obtain ⟨name, hname, rfl⟩ := Option.map_eq_some_iff.1 h
            exact .parameter hk hlist hparam hproperty hname
          · cases h
    iterate 4
      next hk => exact named hk (by decide) h
    · next hk => exact itself hk (.inl rfl) h
    · next hk => exact itself hk (.inr rfl) h
    · next hk => exact named hk (by decide) h
    · cases h
  · rintro (⟨hk, hmem, hname⟩ | ⟨hk, rfl | rfl, hbody⟩ | ⟨hk, hlist, hparam, hproperty, hname⟩)
    · rw [memberEntries, hk]
      simp only [memberKinds, mem_cons, not_mem_nil, or_false] at hmem
      rcases hmem with rfl | rfl | rfl | rfl | rfl | rfl <;> simp [hname]
    iterate 2 simp [memberEntries, hk, hbody]
    · rw [memberEntries, hk, parameterProperties, hlist]
      exact mem_append_right _ (mem_filterMap.2 ⟨_, hparam, by simp [hproperty, hname]⟩)

theorem listed_memberEntries (h : p ∈ memberEntries body c) : Listed c p := by
  cases mem_memberEntries_iff.1 h with
  | named _ _ hname => exact ⟨rfl, .part hname⟩
  | itself hk hmem _ =>
    refine ⟨rfl, .own ?_⟩
    rw [declarationName?, hk]
    rcases hmem with rfl | rfl <;> rfl
  | parameter _ hlist hparam _ hname =>
    exact ⟨(tree_of_mem_namedChildren hparam).trans (tree_of_field? hlist), .own hname⟩

theorem listed_typeMembers (h : p ∈ n.typeMembers) : Listed n p := by
  unfold typeMembers at h
  split at h
  · cases h
  · next body hbody =>
    obtain ⟨c, hc, hp⟩ := mem_flatMap.1 h
    exact (listed_memberEntries hp).mono
      ((tree_of_mem_namedChildren hc).trans (tree_of_typeBody? hbody))

/-- How a clause of an import statement pairs a node with a token. -/
inductive ImportsAs : Node → Node → Prop
  | whole {clause n : Node} (hclause : clause.kind? = some .importClause) (hmem : n ∈ clause.children)
      (hk : n.kind? = some .identifier) : ImportsAs n n
  | entry {n name : Node} (hk : n.kind? = some .importSpecifier)
      (h : (n.field? .alias <|> n.field? .name) = some name) : ImportsAs n name
  | space {n name : Node} (hk : n.kind? = some .namespaceImport ∨ n.kind? = some .importRequireClause)
      (h : n.namedChildren.find? (·.hasKind .identifier) = some name) : ImportsAs n name

theorem ImportsAs.tree_eq {n name : Node} (h : n.ImportsAs name) : name.tree = n.tree := by
  cases h with
  | whole => rfl
  | entry _ h => exact tree_of_field?_orElse h
  | space _ h => exact tree_of_find?_namedChildren h

theorem tree_of_mem_parameters {n p : Node} (h : p ∈ n.parameters) : p.tree = n.tree := by
  unfold parameters at h
  split at h
  · rename_i list hlist
    exact (tree_of_mem_namedChildren (mem_of_mem_filter h)).trans (tree_of_field? hlist)
  · exact tree_of_field? (Option.mem_toList.1 h)

theorem tree_of_functionNode? {n f : Node} (h : n.functionNode? = some f) : f.tree = n.tree := by
  unfold functionNode? at h
  split at h
  · cases h; rfl
  · split at h
    · obtain ⟨v, hv, hf⟩ := Option.bind_eq_some_iff.1 h
      dsimp only at hf
      split at hf
      · cases hf
        exact (tree_unwrap v).trans (tree_of_field?_orElse hv)
      · cases hf
    · cases h

theorem pairIn_functionOwner? (h : n.functionOwner? = some p) :
    PairIn n p := by
  obtain ⟨parent, hparent, hp⟩ := Option.bind_eq_some_iff.1 h
  have ht : parent.tree = n.tree := (tree_of_parent? hparent).trans (tree_outermostWrapper n)
  have owned : ∀ {f g : Field},
      (parent.field? f <|> parent.field? g).map (fun name => (parent, name)) = some p →
        PairIn n p := by
    intro f g h
    obtain ⟨name, hname, rfl⟩ := Option.map_eq_some_iff.1 h
    exact ⟨ht, (tree_of_field?_orElse hname).trans ht⟩
  split at hp
  · obtain ⟨name, hname, hp⟩ := Option.bind_eq_some_iff.1 hp
    split at hp
    · cases hp
      exact ⟨ht, (tree_of_field? hname).trans ht⟩
    · cases hp
  · exact owned hp
  · exact owned hp
  · obtain ⟨name, hname, rfl⟩ := Option.map_eq_some_iff.1 hp
    exact ⟨rfl, tree_of_field? hname⟩

theorem pairIn_asCallable? (h : n.asCallable? = some p) :
    PairIn n p := by
  have named : (n.field? .name).map (fun name => (n, name)) = some p → PairIn n p := by
    intro h
    obtain ⟨name, hname, rfl⟩ := Option.map_eq_some_iff.1 h
    exact ⟨rfl, tree_of_field? hname⟩
  unfold asCallable? at h
  split at h
  iterate 3 exact named h
  · split at h
    · exact pairIn_functionOwner? h
    · cases h
  · cases h

theorem pairIn_enclosingCallable? (h : n.enclosingCallable? = some p) : PairIn n p := by
  obtain ⟨a, ha, hp⟩ := exists_of_findSome?_eq_some h
  exact (pairIn_asCallable? hp).mono (tree_of_mem_ancestors ha)

end Syntax.Node

namespace Declaration

variable {d : Declaration} {file : SourceFile}

/-! ## Declarations of a file -/

/-- The declaration belongs to the file, and its nodes stand in the tree of the file. -/
structure LiesIn (d : Declaration) (file : SourceFile) : Prop where
  file_eq : d.file = file
  node_tree : d.node.tree = file.tree
  name_tree : d.nameNode.tree = file.tree

theorem LiesIn.self (h : d.LiesIn file) :
    d.LiesIn d.file := by
  obtain rfl := h.file_eq
  exact h

theorem liesIn_of_make? {n name : Node} (h : make? file n name = some d) (hn : n.tree = file.tree)
    (hname : name.tree = file.tree) :
    d.LiesIn file := by
  obtain ⟨kind, -, rfl⟩ := Option.map_eq_some_iff.1 h
  exact ⟨rfl, hn, hname⟩

theorem liesIn_of_ofNode? (h : ofNode? file n = some d) (hn : n.tree = file.tree) :
    d.LiesIn file := by
  obtain ⟨kind, -, h⟩ := Option.bind_eq_some_iff.1 h
  obtain ⟨name, hname, rfl⟩ := Option.map_eq_some_iff.1 h
  refine ⟨rfl, hn, ?_⟩
  rcases eq_or_eq_of_orElse hname with hname | hname
  · exact (Node.tree_of_declarationName? hname).trans hn
  · exact (Node.tree_of_mem_children (mem_of_head? hname)).trans hn

/-- Where a declaration of a scope or of a body comes from: the construct in the tree that declares it, and
how the construct pairs its node with its token. -/
inductive Origin (file : SourceFile) (t : Tree) : Declaration → Prop
  | listed {n name : Node} {d : Declaration} (hn : n.tree = t) (hname : n.DeclaredAs name)
      (h : make? file n name = some d) : Origin file t d
  | imported {n name : Node} (hn : n.tree = t) (h : n.ImportsAs name) :
      Origin file t { file, kind := .importName, node := n, nameNode := name }
  | bound {n pattern name : Node} {f : Field} (hn : n.tree = t)
      (hkind : n.kind?.bind Node.bindingField? = some f) (hpattern : n.field? f = some pattern)
      (h : name ∈ pattern.bindingNames) :
      Origin file t { file, kind := .variableName, node := n, nameNode := name }
  | parameter {function n : Node} (hn : n.tree = t)
      (hfunction : function.kind?.any Kind.isFunctionLike = true) (hparam : n ∈ function.parameters)
      (hk : n.kind? = some .identifier) :
      Origin file t { file, kind := .parameter, node := n, nameNode := n }
  | pattern {function n pattern name : Node} (hn : n.tree = t)
      (hfunction : function.kind?.any Kind.isFunctionLike = true) (hparam : n ∈ function.parameters)
      (hpattern : n.field? .pattern = some pattern) (h : name ∈ pattern.bindingNames) :
      Origin file t ((make? file n name).getD
        { file, kind := .parameter, node := n, nameNode := name })
  | function {n name : Node} (hn : n.tree = t)
      (hk : n.hasKindIn [.functionExpression, .generatorFunction] = true)
      (h : n.field? .name = some name) :
      Origin file t { file, kind := .function, node := n, nameNode := name }

theorem Origin.liesIn {t : Tree} (h : Origin file t d) (ht : t = file.tree) : d.LiesIn file := by
  subst ht
  cases h with
  | listed hn hname h => exact liesIn_of_make? h hn (hname.tree_eq.trans hn)
  | imported hn h => exact ⟨rfl, hn, h.tree_eq.trans hn⟩
  | bound hn _ hpattern h =>
    exact ⟨rfl, hn, (Node.tree_of_mem_bindingNames h).trans ((Node.tree_of_field? hpattern).trans hn)⟩
  | parameter hn => exact ⟨rfl, hn, hn⟩
  | @pattern _ n _ name hn _ _ hpattern h =>
    have hname : name.tree = file.tree :=
      (Node.tree_of_mem_bindingNames h).trans ((Node.tree_of_field? hpattern).trans hn)
    cases hm : make? file n name with
    | none => exact ⟨rfl, hn, hname⟩
    | some e => exact liesIn_of_make? hm hn hname
  | function hn _ h => exact ⟨rfl, hn, (Node.tree_of_field? h).trans hn⟩

theorem origin_of_mem_filterMap_make? {ps : List (Node × Node)}
    (hps : ∀ p ∈ ps, Node.Listed n p) (h : d ∈ ps.filterMap fun (m, name) => make? file m name) :
    Origin file n.tree d := by
  obtain ⟨p, hp, h⟩ := mem_filterMap.1 h
  exact .listed (hps p hp).tree (hps p hp).declared h

theorem origin_of_mem_ownMembers {d m : Declaration} {name : String} (h : m ∈ d.ownMembers name) :
    Origin d.file d.node.tree m :=
  origin_of_mem_filterMap_make? (fun _ hp => Node.listed_typeMembers (mem_of_mem_filter hp)) h

theorem liesIn_of_container? {d c : Declaration} (hd : d.LiesIn d.file)
    (h : d.container? = some c) : c.LiesIn d.file := by
  obtain ⟨owner, howner, h⟩ := Option.bind_eq_some_iff.1 h
  refine liesIn_of_ofNode? h (Eq.trans ?_ hd.node_tree)
  obtain ⟨a, ha, howner⟩ := Option.bind_eq_some_iff.1 howner
  obtain ⟨body, -, howner⟩ := Option.bind_eq_some_iff.1 howner
  split at howner
  · cases howner
    exact Node.tree_of_findAncestor? ha
  · cases howner

theorem liesIn_of_owner? {d c : Declaration} (hd : d.LiesIn d.file) (h : d.owner? = some c) :
    c.LiesIn d.file := by
  unfold owner? at h
  split at h
  · exact liesIn_of_container? hd h
  · cases h

/-- How a token names a declaration: it declares itself, it is the name of the node around it, or it is
bound by a pattern. -/
inductive NamedBy (file : SourceFile) (token : Node) : Declaration → Prop
  | itself {kind : SymbolKind} (hkind : token.declarationKind? = some kind) :
      NamedBy file token ⟨file, kind, token, token⟩
  | parent {n : Node} {kind : SymbolKind} (hn : token.parent? = some n)
      (hname : n.declarationName? = some token) (hkind : n.declarationKind? = some kind) :
      NamedBy file token ⟨file, kind, n, token⟩
  | bound {n pattern : Node} {k : Kind} {f : Field} {kind : SymbolKind} (hn : n ∈ token.ancestors)
      (hk : n.kind? = some k) (hfield : Node.bindingField? k = some f)
      (hpattern : n.field? f = some pattern) (h : token ∈ pattern.bindingNames)
      (hkind : kind = .variableName ∨
        kind = .parameter ∧ k ∈ [Kind.requiredParameter, .optionalParameter]) :
      NamedBy file token ⟨file, kind, n, token⟩

theorem namedBy_of_ofName? (h : ofName? file token = some d) : NamedBy file token d := by
  rcases eq_or_eq_of_orElse h with h | h
  · obtain ⟨kind, hkind, rfl⟩ := Option.map_eq_some_iff.1 h
    exact .itself hkind
  rcases eq_or_eq_of_orElse h with h | h
  · obtain ⟨parent, hparent, h⟩ := Option.bind_eq_some_iff.1 h
    split at h
    · next hown =>
      obtain ⟨name, hname, hbeq⟩ := (Option.any_eq_true _ _).1 hown
      have heq : name = token := Node.eq_of_beq hbeq
        ((Node.tree_of_declarationName? hname).trans (Node.tree_of_parent? hparent))
      obtain ⟨kind, hkind, rfl⟩ := Option.map_eq_some_iff.1 h
      exact .parent hparent (heq ▸ hname) hkind
    · cases h
  · obtain ⟨holder, hholder, h⟩ := Option.bind_eq_some_iff.1 h
    have hmem := mem_of_find?_eq_some hholder
    have hbound {k : Kind} {f : Field} {kind : SymbolKind} (hk : holder.kind? = some k)
        (hfield : Node.bindingField? k = some f) (hkind : kind = .variableName ∨
          kind = .parameter ∧ k ∈ [Kind.requiredParameter, .optionalParameter])
        (h : ((holder.field? f).bind fun p => if p.bindingNames.contains token then
          some { file, kind, node := holder, nameNode := token } else none) = some d) :
        NamedBy file token d := by
      obtain ⟨pattern, hpattern, h⟩ := Option.bind_eq_some_iff.1 h
      split at h
      · next hcontains =>
        cases h
        obtain ⟨b, hb, hbeq⟩ := contains_iff_exists_mem_beq.1 hcontains
        have heq : token = b := Node.eq_of_beq hbeq ((Node.tree_of_mem_ancestors hmem).symm.trans
          ((Node.tree_of_mem_bindingNames hb).trans (Node.tree_of_field? hpattern)).symm)
        exact .bound hmem hk hfield hpattern (heq ▸ hb) hkind
      · cases h
    dsimp only at h
    split at h
    · next hk => exact hbound hk rfl (.inl rfl) h
    iterate 2 next hk => exact hbound hk rfl (.inr ⟨rfl, by simp⟩) h
    · cases h

theorem NamedBy.liesIn (h : NamedBy file token d) (ht : token.tree = file.tree) :
    d.LiesIn file := by
  cases h with
  | itself _ => exact ⟨rfl, ht, ht⟩
  | parent hn => exact ⟨rfl, (Node.tree_of_parent? hn).trans ht, ht⟩
  | bound hn => exact ⟨rfl, (Node.tree_of_mem_ancestors hn).trans ht, ht⟩

theorem liesIn_of_ofName? (h : ofName? file token = some d)
    (ht : token.tree = file.tree) : d.LiesIn file := (namedBy_of_ofName? h).liesIn ht

end Declaration

namespace Scope

open Declaration

variable {file : SourceFile} {d : Declaration}
variable {meaning : Meaning} {name : String}

/-! ## Declarations of a scope -/

theorem origin_of_mem_clauseBindings {clause : Node} (h : d ∈ clauseBindings file clause) :
    Origin file clause.tree d := by
  have space {n : Node} (hk : n.kind? = some .namespaceImport ∨ n.kind? = some .importRequireClause)
      (hn : n.tree = clause.tree)
      (h : d ∈ ((n.namedChildren.find? (·.hasKind .identifier)).map fun name =>
        ({ file, kind := .importName, node := n, nameNode := name } : Declaration)).toList) :
      Origin file clause.tree d := by
    obtain ⟨name, hname, rfl⟩ := Option.map_eq_some_iff.1 (Option.mem_toList.1 h)
    exact .imported hn (.space hk hname)
  unfold clauseBindings at h
  dsimp only at h
  split at h
  · next hclause =>
    obtain ⟨part, hpart, h⟩ := mem_flatMap.1 h
    have hp := Node.tree_of_mem_namedChildren hpart
    split at h
    · next hk =>
      cases mem_singleton.1 h
      exact .imported hp (.whole hclause (mem_of_mem_filter hpart) hk)
    · obtain ⟨spec, hspec, h⟩ := mem_filterMap.1 h
      obtain ⟨hspec, hk⟩ := mem_filter.1 hspec
      obtain ⟨name, hname, rfl⟩ := Option.map_eq_some_iff.1 h
      exact .imported ((Node.tree_of_mem_namedChildren hspec).trans hp)
        (.entry (beq_iff_eq.1 hk) hname)
    · next hk => exact space (.inl hk) hp h
    · cases h
  · next hk => exact space (.inr hk) rfl h
  · cases h

theorem origin_of_mem_importBindings {block : Node} (h : d ∈ importBindings file block) :
    Origin file block.tree d := by
  obtain ⟨stmt, hstmt, h⟩ := mem_flatMap.1 h
  obtain ⟨clause, hclause, h⟩ := mem_flatMap.1 h
  have htree : clause.tree = block.tree := (Node.tree_of_mem_namedChildren hclause).trans
    (Node.tree_of_mem_namedChildren (mem_of_mem_filter hstmt))
  exact htree ▸ origin_of_mem_clauseBindings h

theorem origin_of_mem_listDeclarations {block : Node}
    (h : d ∈ listDeclarations file block meaning) : Origin file block.tree d := by
  rcases mem_append.1 (mem_of_mem_filter h) with h | h
  · exact origin_of_mem_filterMap_make? (fun _ => Node.listed_blockDeclarations) h
  · exact origin_of_mem_importBindings h

theorem origin_of_mem_loopVariables {init : Node} (h : d ∈ loopVariables file init) :
    Origin file init.tree d := by
  obtain ⟨declarator, hdeclarator, h⟩ := mem_flatMap.1 h
  obtain ⟨hdeclarator, hk⟩ := mem_filter.1 hdeclarator
  split at h
  · next pattern hpattern =>
    obtain ⟨n, hn, rfl⟩ := mem_map.1 h
    refine .bound (f := .name) (Node.tree_of_mem_namedChildren hdeclarator) ?_ hpattern hn
    rw [beq_iff_eq.1 hk]
    rfl
  · cases h

theorem origin_of_mem_headBindings {holder : Node}
    (hk : holder.kind?.bind Node.bindingField? = some f)
    (h : d ∈ headBindings file holder (holder.field? f)) : Origin file holder.tree d := by
  unfold headBindings at h
  split at h
  · next pattern hpattern =>
    obtain ⟨n, hn, rfl⟩ := mem_map.1 h
    exact .bound rfl hk hpattern hn
  · cases h

theorem origin_of_mem_parameterBindings {function param : Node}
    (hfunction : function.kind?.any Kind.isFunctionLike = true) (hparam : param ∈ function.parameters)
    (h : d ∈ parameterBindings file param) : Origin file param.tree d := by
  unfold parameterBindings at h
  dsimp only at h
  split at h
  · next hk =>
    cases mem_singleton.1 h
    exact .parameter rfl hfunction hparam (beq_iff_eq.1 hk)
  · split at h
    · next pattern hpattern =>
      obtain ⟨n, hn, rfl⟩ := mem_map.1 h
      exact .pattern rfl hfunction hparam hpattern hn
    · cases h

theorem origin_of_mem_functionBindings {f : Node} (h : d ∈ functionBindings file f) :
    Origin file f.tree d := by
  unfold functionBindings at h
  split at h
  · cases h
  · next hlike =>
    have hfunction : f.kind?.any Kind.isFunctionLike = true := by simpa using hlike
    rcases mem_append.1 h with h | h
    · obtain ⟨param, hparam, h⟩ := mem_flatMap.1 h
      exact Node.tree_of_mem_parameters hparam ▸ origin_of_mem_parameterBindings hfunction hparam h
    · split at h
      · next hk =>
        obtain ⟨name, hname, rfl⟩ := Option.map_eq_some_iff.1 (Option.mem_toList.1 h)
        exact .function rfl hk hname
      · cases h

theorem origin_of_mem_typeParameters (h : d ∈ typeParameters file n) :
    Origin file n.tree d := by
  unfold typeParameters at h
  split at h
  · next list hlist =>
    obtain ⟨p, hp, h⟩ := mem_filterMap.1 h
    obtain ⟨name, hname, h⟩ := Option.bind_eq_some_iff.1 h
    exact .listed ((Node.tree_of_mem_namedChildren hp).trans (Node.tree_of_field? hlist))
      (.part hname) h
  · cases h

/-- All that a construct declares for the names used inside of it has an origin there. -/
theorem origin_of_mem_declarations {scope : Node} (h : d ∈ declarations file scope meaning) :
    Origin file scope.tree d := by
  have loop (h : d ∈ ((scope.field? .initializer).map (loopVariables file)).getD []) :
      Origin file scope.tree d := by
    cases hinit : scope.field? .initializer with
    | none =>
      rw [hinit] at h
      cases h
    | some init =>
      rw [hinit] at h
      exact Node.tree_of_field? hinit ▸ origin_of_mem_loopVariables h
  unfold declarations at h
  dsimp only at h
  rcases mem_append.1 (mem_of_mem_filter h) with h | h
  · rcases mem_append.1 h with h | h
    · split at h
      iterate 5 exact origin_of_mem_listDeclarations h
      · exact loop h
      iterate 2
        next hk => exact origin_of_mem_headBindings (by rw [hk]; rfl) h
      · cases h
    · exact origin_of_mem_functionBindings h
  · split at h
    · cases h
    · exact origin_of_mem_typeParameters h

theorem liesIn_of_mem_declarations {scope : Node} (hs : scope.tree = file.tree)
    (h : d ∈ declarations file scope meaning) : d.LiesIn file :=
  (origin_of_mem_declarations h).liesIn hs

theorem mem_local (h : d ∈ local_ file place name meaning) :
    ∃ scope ∈ place :: place.ancestors, d ∈ declarations file scope meaning ∧ d.name = name := by
  obtain ⟨scope, hscope, found, hfound, hd⟩ := mem_findSome?_getD h
  dsimp only at hfound
  split at hfound
  · cases hfound
  · cases hfound
    obtain ⟨hd, hname⟩ := mem_filter.1 hd
    exact ⟨scope, hscope, hd, by simpa using hname⟩

theorem origin_of_mem_local (h : d ∈ local_ file place name meaning) :
    Origin file place.tree d := by
  obtain ⟨scope, hscope, hd, -⟩ := mem_local h
  have htree : scope.tree = place.tree := by
    rcases mem_cons.1 hscope with rfl | hscope
    · rfl
    · exact Node.tree_of_mem_ancestors hscope
  exact htree ▸ origin_of_mem_declarations hd

theorem tree_of_mem_globalBlocks {root : Node} (h : b ∈ globalBlocks root) :
    b.tree = root.tree := by
  obtain ⟨stmt, hstmt, h⟩ := mem_filterMap.1 h
  exact (Node.tree_of_find?_namedChildren h).trans
    (Node.tree_of_mem_namedChildren (mem_of_mem_filter hstmt))

theorem origin_of_mem_shared (h : d ∈ shared file name meaning) : Origin file file.tree d := by
  obtain ⟨b, hb, h⟩ := mem_flatMap.1 h
  have htree : b.tree = file.tree := by
    split at hb
    · exact tree_of_mem_globalBlocks hb
    · rw [mem_singleton.1 hb]
      rfl
  exact htree ▸ origin_of_mem_listDeclarations (mem_of_mem_filter h)

end Scope

/-! ## Declarations of a project -/

/-- The declaration lies in a file of the project. -/
def Declaration.PlacedIn (d : Declaration) (idx : Index) : Prop :=
  d.file ∈ idx.files.toList ∧ d.LiesIn d.file

theorem Declaration.LiesIn.placed {d : Declaration} {file : SourceFile} (h : d.LiesIn file)
    (hf : file ∈ idx.files.toList) : d.PlacedIn idx :=
  ⟨h.file_eq ▸ hf, h.self⟩

/-- All declarations of the symbol lie in files of the project. -/
def Symbol.PlacedIn (s : Symbol) (idx : Index) : Prop := ∀ d ∈ s.declarations, d.PlacedIn idx

theorem Symbol.forall_single {P : Declaration → Prop} {d : Declaration} (h : P d) :
    ∀ e ∈ (single d).declarations, P e := by
  intro e he
  rw [mem_singleton.1 he]
  exact h

theorem Symbol.PlacedIn.first (h : s.PlacedIn idx) :
    s.first.PlacedIn idx :=
  h _ mem_cons_self

theorem Symbol.forall_of_ofList? {P : Declaration → Prop} {ds : List Declaration}
    (h : Symbol.ofList? ds = some s) (hds : ∀ d ∈ ds, P d) : ∀ d ∈ s.declarations, P d := by
  rwa [(ofList?_eq_some_iff ds s).1 h]

namespace Project.Index

variable {idx : Index} {file : SourceFile} {name : String} {meaning : Meaning} {d : Declaration}

theorem fileByPath?_eq_none_iff {p : Storage.Path} :
    idx.fileByPath? p = none ↔ ∀ f ∈ idx.files, f.path ≠ p.normalize := by
  simp [fileByPath?, Array.findRev?_eq_find?_reverse]

theorem of_fileByPath?_eq_some {p : Storage.Path} (h : idx.fileByPath? p = some file) :
    file ∈ idx.files ∧ file.path = p.normalize := by
  rw [fileByPath?, Array.findRev?_eq_find?_reverse] at h
  exact ⟨Array.mem_reverse.1 (Array.mem_of_find?_eq_some h), by simpa using Array.find?_some h⟩

theorem mem_files_of_file? {id : Nat} (h : idx.file? id = some file) : file ∈ idx.files.toList :=
  Array.mem_toList_iff.2 (Array.mem_of_getElem? h)

theorem mem_files_of_mem_filterMap_file? {ids : List Nat} (h : file ∈ ids.filterMap idx.file?) :
    file ∈ idx.files.toList := by
  obtain ⟨i, -, hi⟩ := mem_filterMap.1 h
  exact mem_files_of_file? hi

theorem mem_files_of_mem_linked {id : Nat} {specifier : String}
    (h : file ∈ idx.linked id specifier) : file ∈ idx.files.toList := by
  unfold linked at h
  split at h
  · exact mem_files_of_mem_filterMap_file? h
  · simp at h

theorem nodeCount_eq_length (idx : Index) :
    idx.nodeCount = (idx.files.toList.flatMap fun f => f.tree.nodes).length := by
  have fold : ∀ (files : List SourceFile) (n : Nat),
      files.foldl (fun n f => n + f.tree.size) n =
        n + (files.flatMap fun f => f.tree.nodes).length := by
    intro files
    induction files with
    | nil => simp
    | cons f files ih =>
      intro n
      rw [foldl_cons, ih, flatMap_cons, length_append, Tree.nodes, length_map,
        length_range]
      omega
  rw [nodeCount, ← Array.foldl_toList, fold]
  omega

theorem exists_origin_of_resolveName (hf : file ∈ idx.files.toList)
    (hp : place.tree = file.tree) (h : idx.resolveName file place name meaning = some s)
    (hd : d ∈ s.declarations) : ∃ f ∈ idx.files.toList, Declaration.Origin f f.tree d := by
  rcases eq_or_eq_of_orElse h with h | h <;> rw [(Symbol.ofList?_eq_some_iff _ _).1 h] at hd
  · exact ⟨file, hf, hp ▸ Scope.origin_of_mem_local hd⟩
  · obtain ⟨f, hf, hd⟩ := mem_flatMap.1 hd
    split at hd
    · cases hd
    · exact ⟨f, mem_files_of_mem_filterMap_file? hf, Scope.origin_of_mem_shared hd⟩

/-- A declaration belongs together with what its owner or the scopes around it have under its name, if
it is among that, and otherwise only with itself. -/
theorem merged_cases (idx : Index) (d : Declaration) :
    idx.merged d = Symbol.single d ∨
      (idx.merged d).contains d = true ∧
        ((∃ owner, d.owner? = some owner ∧
            Symbol.ofList? (owner.ownMembers d.name) = some (idx.merged d)) ∨
          idx.resolveName d.file d.node d.name .any = some (idx.merged d)) := by
  have hfilter (o : Option Symbol) : (o.filter (·.contains d)).getD (Symbol.single d) = .single d ∨
      ((o.filter (·.contains d)).getD (Symbol.single d)).contains d = true ∧
        o = some ((o.filter (·.contains d)).getD (Symbol.single d)) := by
    cases hs : o.filter (·.contains d) with
    | none => exact .inl rfl
    | some s => exact .inr (Option.filter_eq_some_iff.1 hs).symm
  unfold merged
  split
  · next owner howner =>
    exact (hfilter _).imp_right (And.imp_right fun h => .inl ⟨owner, howner, h⟩)
  · split
    iterate 3 exact .inl rfl
    exact (hfilter _).imp_right (And.imp_right .inr)

end Project.Index

end ScriptAtlas

