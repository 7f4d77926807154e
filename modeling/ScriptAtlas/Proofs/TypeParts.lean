import ScriptAtlas.Proofs.NamePlaces

/-!
# Parts of types and names of aliases

What reading a type relies on in the syntax tree: the types that a type is written with are smaller
than it, and an alias is told from every other by the place of its name.

* `Node.typeParts`, `Node.writtenParts`: the types that a type is read from, and those that it is
  written with;
* `Node.size_lt_of_mem_typeParts`: the former are smaller;
* `Declaration.Made.eq_of_key_eq`: aliases with the same key are the same.
-/

namespace ScriptAtlas

open List

namespace Syntax

/-! ## Sizes -/

theorem Shape.count_le_countAll {c : Shape} {cs : List Shape} (h : c ∈ cs) :
    c.count ≤ countAll cs := by
  induction cs with
  | nil => cases h
  | cons d cs ih =>
    rw [countAll]
    rcases mem_cons.1 h with rfl | h
    · omega
    · have := ih h
      omega

theorem Shape.count_lt_of_mem_children {s c : Shape} (h : c ∈ s.children) : c.count < s.count := by
  cases s with
  | mk l f a b cs =>
    have hle : c.count ≤ countAll cs := count_le_countAll h
    rw [count]
    omega

theorem Sits.count_le {root : Shape} {p : Spot} {up : List Spot} (h : Sits root p up) :
    p.shape.count ≤ root.count := by
  induction h with
  | root => exact Nat.le_refl _
  | part h hc ih =>
    have hlt := Shape.count_lt_of_mem_children (mem_of_getElem? hc)
    exact Nat.le_trans (Nat.le_of_lt hlt) ih

theorem Tree.Grown.size_eq {t : Tree} {root : Shape} (h : t.Grown root) : t.size = root.count := by
  have hlist := Shape.toList_enter [] root #[]
  rw [Tree.size, h.entries, ← Array.length_toList]
  rw [map_nil] at hlist
  rw [hlist, length_append, length_map, Shape.length_walk]
  simp

namespace Node

variable {n m c : Node}

theorem size_lt_of_mem_children (ht : n.tree.IsParsed) (hc : c ∈ n.children) :
    c.entry.size < n.entry.size := by
  obtain ⟨root, p, up, hn⟩ := exists_at_of_mem_children ht hc
  obtain ⟨j, s, hs, hat⟩ := hn.exists_of_mem_children hc
  rw [hn.entry, hat.entry]
  exact Shape.count_lt_of_mem_children hs

theorem size_le (ht : n.tree.IsParsed) : n.entry.size ≤ n.tree.size := by
  obtain ⟨root, hg⟩ := ht.grown
  by_cases h : n.id < n.tree.size
  · obtain ⟨p, up, hn⟩ := exists_at hg h
    rw [hn.entry, hg.size_eq]
    exact hn.sits.count_le
  · rw [entry, Array.getElem?_eq_none (Nat.le_of_not_lt h), Option.getD_none]
    exact Nat.zero_le _

/-- The node stands below another one. -/
structure Below (m n : Node) : Prop where
  mem : m ∈ n.tree.nodes
  size : m.entry.size < n.entry.size

theorem Below.tree (h : m.Below n) : m.tree = n.tree := tree_of_mem_nodes h.mem

theorem below_of_mem_children (ht : n.tree.IsParsed) (hc : c ∈ n.children) : c.Below n :=
  ⟨mem_nodes_of_mem_children ht hc, size_lt_of_mem_children ht hc⟩

theorem Below.trans (h : m.Below c) (h' : c.Below n) : m.Below n :=
  ⟨h'.tree ▸ h.mem, Nat.lt_trans h.size h'.size⟩

theorem below_of_mem_namedChildren (ht : n.tree.IsParsed) (hc : c ∈ n.namedChildren) : c.Below n :=
  below_of_mem_children ht (mem_of_mem_filter hc)

theorem below_of_field? (ht : n.tree.IsParsed) {f : Field} (hc : n.field? f = some c) : c.Below n :=
  below_of_mem_children ht (mem_of_find?_eq_some hc)

theorem below_of_mem_parameters (ht : n.tree.IsParsed) (hc : c ∈ n.parameters) : c.Below n := by
  unfold parameters at hc
  split at hc
  · next list hlist =>
    have hbelow := below_of_field? ht hlist
    exact (below_of_mem_namedChildren (hbelow.tree ▸ ht) (mem_of_mem_filter hc)).trans hbelow
  · exact below_of_field? ht (Option.mem_toList.1 hc)

/-! ## Parts of types -/

/-- The types that a type is read from; those that its name stands for apart. -/
def typeParts (n : Node) : List Node :=
  match n.kind? with
  | some .annotatedType | some .optingType | some .omittingType | some .parenthesizedType
  | some .readonlyType | some .optionalType | some .restType | some .arrayType =>
    n.namedChildren.head?.toList
  | some .genericType =>
    if (n.field? .name).isSome then ((n.field? .typeArguments).map namedChildren).getD [] else []
  | some .unionType | some .intersectionType | some .tupleType => n.namedChildren
  | some .functionType | some .constructorType =>
    n.parameters.filterMap (·.field? .type) ++ (n.field? .returnType).toList
  | _ => []

/-- The types that a type is written with. Comments are none of them; the type behind the label of a
member of a tuple is, and so is the result of a constructor. -/
def writtenParts (n : Node) : List Node :=
  match n.kind? with
  | some .annotatedType | some .optingType | some .omittingType | some .parenthesizedType
  | some .readonlyType | some .optionalType | some .restType | some .arrayType =>
    n.parts.head?.toList
  | some .genericType => ((n.field? .typeArguments).map parts).getD []
  | some .unionType | some .intersectionType => n.parts
  | some .tupleType => n.parts.map fun m =>
      if m.hasKindIn [.requiredParameter, .optionalParameter] then (m.field? .type).getD m else m
  | some .functionType => n.parameters.filterMap (·.field? .type) ++ (n.field? .returnType).toList
  | some .constructorType => n.parameters.filterMap (·.field? .type) ++ (n.field? .type).toList
  | _ => []

/-- Whether reading the node as a type asks for no types of values. -/
def isPlainType (n : Node) : Bool :=
  !n.hasKind .typeQuery && (!n.hasKindIn [.functionType, .constructorType] ||
    n.parameters.all fun p => (p.field? .value).isNone)

/-- The name in a type that stands for a declaration. -/
def typeName? (n : Node) : Option Node :=
  match n.kind? with
  | some .typeIdentifier | some .nestedTypeIdentifier => some n
  | some .genericType => n.field? .name
  | _ => none

theorem below_of_mem_typeParts (ht : n.tree.IsParsed) (hm : m ∈ n.typeParts) : m.Below n := by
  have hhead (h : m ∈ n.namedChildren.head?.toList) : m.Below n :=
    below_of_mem_namedChildren ht (mem_of_head? (Option.mem_toList.1 h))
  unfold typeParts at hm
  split at hm
  iterate 8 exact hhead hm
  · split at hm
    · cases hlist : n.field? .typeArguments with
      | none =>
        rw [hlist] at hm
        cases hm
      | some list =>
        rw [hlist] at hm
        have hbelow := below_of_field? ht hlist
        exact (below_of_mem_namedChildren (hbelow.tree ▸ ht) hm).trans hbelow
    · cases hm
  iterate 3 exact below_of_mem_namedChildren ht hm
  iterate 2
    rcases mem_append.1 hm with hm | hm
    · obtain ⟨p, hp, hm⟩ := mem_filterMap.1 hm
      have hbelow := below_of_mem_parameters ht hp
      exact (below_of_field? (hbelow.tree ▸ ht) hm).trans hbelow
    · exact below_of_field? ht (Option.mem_toList.1 hm)
  cases hm

theorem not_body_of_function (ht : n.tree.IsParsed)
    (hk : n.kind? = some .functionType ∨ n.kind? = some .constructorType) :
    n.field? .body = none := by
  cases hbody : n.field? .body with
  | none => rfl
  | some body =>
    obtain ⟨root, p, up, hn⟩ := exists_at_of_mem_children ht (mem_of_find?_eq_some hbody)
    obtain ⟨j, s, hs, -, hfield, -⟩ := hn.exists_of_field? hbody
    rcases hk with hk | hk <;> exact absurd hfield (hn.fits hk s hs)

/-! ## Names of aliases -/

variable {name : Node}

theorem kind?_of_field?_name (ht : n.tree.IsParsed) (hk : n.kind? = some .typeAliasDeclaration)
    (h : n.field? .name = some name) : name.kind? = some .typeIdentifier := by
  obtain ⟨root, p, up, hn, -⟩ := exists_at_of_kind? ht hk nofun
  obtain ⟨j, s, hs, hat, hfield, -⟩ := hn.exists_of_field? h
  rw [hat.kind?, (hn.fits hk).2.2 s hs hfield]
  rfl

theorem children_of_nameless (ht : n.tree.IsParsed) (hk : n.kind? = some .typeAliasDeclaration)
    (h : n.field? .name = none) : n.children = [] := by
  obtain ⟨root, p, up, hn, -⟩ := exists_at_of_kind? ht hk nofun
  rcases (hn.fits hk).2.1 with hnil | hname
  · rw [children, hn.entry]
    simp [Spot.entry, hnil, Shape.numbers]
  · have hsome := hn.isSome_field? hname
    rw [h] at hsome
    cases hsome

/-- An alias goes by its name; without a name it is empty and goes by a keyword. -/
theorem Bears.title_or_keyword (ht : n.tree.IsParsed) (h : n.Bears name)
    (hk : n.kind? = some .typeAliasDeclaration) :
    n.field? .name = some name ∨ n.field? .value = none ∧ name.isNamed = false := by
  rcases h.title ht hk with hname | hnone
  · exact .inl hname
  have hnil := children_of_nameless ht hk hnone
  refine .inr ⟨by rw [field?, hnil]; rfl, ?_⟩
  cases h.named with
  | own _ h =>
    rw [declarationName?, hk] at h
    cases hnone.symm.trans h
  | part _ h => cases hnone.symm.trans h
  | first _ _ h =>
    rw [hnil] at h
    cases h
  | bound hkind _ _ =>
    rw [hk] at hkind
    cases hkind
  | @pattern function _ _ _ hfunction hparameter _ _ =>
    rcases kind_of_mem_parameters ht hfunction hparameter with hkind | ⟨hident, -⟩
    · rw [hasKindIn, hk] at hkind
      cases hkind
    · cases hk.symm.trans hident
  | parameter _ _ hident => cases hk.symm.trans hident
  | imported _ _ hident => cases hk.symm.trans hident
  | space h _ => cases hk.symm.trans h
  | keyword h => exact h

end Node

end Syntax

open Project Syntax

variable {idx : Index} {a b : Declaration}

/-- Aliases with the same key are the same, as far as what they stand for goes. -/
theorem Declaration.Made.eq_of_key_eq (hwell : idx.WellFormed) (hparsed : idx.Parsed)
    (ha : a.PlacedIn idx) (hb : b.PlacedIn idx) (hamade : a.Made) (hbmade : b.Made)
    (hakind : a.kind = .typeAlias) (hbkind : b.kind = .typeAlias) (hkey : a.key = b.key) :
    a.file = b.file ∧ a.node.field? .value = b.node.field? .value := by
  obtain ⟨hfile, htree, hstart⟩ := ha.of_key_eq hb hwell hkey
  have hat := ha.node_parsed hparsed
  have hbt := hb.node_parsed hparsed
  have hmt := ha.name_parsed hparsed
  have hnt := hb.name_parsed hparsed
  have hak := hamade.kind?_of_typeAlias hat hakind
  have hbk := hbmade.kind?_of_typeAlias hbt hbkind
  refine ⟨hfile, ?_⟩
  have htitle {x : Node} (hx : x.tree.IsParsed) (hk : x.kind? = some .typeIdentifier) : x.IsWord :=
    Node.isWord_of_isIdentifier hx (by rw [hk]; rfl)
  rcases hamade.bears.title_or_keyword hat hak with haname | ⟨havalue, habare⟩ <;>
    rcases hbmade.bears.title_or_keyword hbt hbk with hbname | ⟨hbvalue, hbbare⟩
  · have hatitle := Node.kind?_of_field?_name hat hak haname
    have hbtitle := Node.kind?_of_field?_name hbt hbk hbname
    have heq := (htitle hmt hatitle).eq_of_startByte_eq (htitle hnt hbtitle) hnt htree hstart
    -- the node is the parent of its name
    have haparent := Node.parent?_of_mem_children hat (mem_of_find?_eq_some haname)
    have hbparent := Node.parent?_of_mem_children hbt (mem_of_find?_eq_some hbname)
    rw [heq] at haparent
    rw [Option.some.inj (haparent.symm.trans hbparent)]
  · have hatitle := Node.kind?_of_field?_name hat hak haname
    have hbword := Node.isWord_of_token hnt hbbare
    have heq := (htitle hmt hatitle).eq_of_startByte_eq hbword hnt htree hstart
    rw [← heq, Node.isNamed_of_kind?_any (f := fun _ => true) (by rw [hatitle]; rfl)] at hbbare
    cases hbbare
  · have hbtitle := Node.kind?_of_field?_name hbt hbk hbname
    have haword := Node.isWord_of_token hmt habare
    have heq := haword.eq_of_startByte_eq (htitle hnt hbtitle) hnt htree hstart
    rw [heq, Node.isNamed_of_kind?_any (f := fun _ => true) (by rw [hbtitle]; rfl)] at habare
    cases habare
  · rw [havalue, hbvalue]

end ScriptAtlas
