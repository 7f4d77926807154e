import ScriptAtlas.Proofs.CallTrees
import ScriptAtlas.Proofs.TypeParts
import ScriptAtlas.Query.TypeFlow

/-!
# Reading a type step by step

An annotation is read by going into its parts and into the aliases it names. What one step does is said
once: which other types it asks for, and what is touched when the type is touched.

* `TypeFlow.head?`, `TypeFlow.readParts`: the declaration that a type names, and the types it is read
  from;
* `TypeFlow.touch_typeUpTo_succ`: what one step of reading adds to what is touched;
* `TypeFlow.Asks`: one step asks for another; `TypeFlow.acc_asks`: this comes to an end, since parts are
  smaller and no alias is expanded twice;
* `TypeFlow.typeUpTo_eq_of_need_lt`: with enough steps their number does not matter.
-/

namespace ScriptAtlas.Query.TypeFlow

open List Project Syntax Annotation Syntax.Node

/-! ## What a type names -/

/-- The declaration that the name in a type stands for. -/
def head? (idx : Index) (file : SourceFile) (n : Node) : Option Declaration :=
  (n.typeName?.bind (nameSymbol? idx file)).map Symbol.first

/-- Whether the name of a declaration of the kind takes arguments. -/
def takesArguments : SymbolKind → Bool
  | .typeParameter | .enumMember | .namespaceName => false
  | _ => true

/-- The types that a type is read from; arguments are dropped behind a name that takes none. -/
def readParts (idx : Index) (file : SourceFile) (n : Node) : List Node :=
  if (head? idx file n).all fun d => takesArguments d.kind then n.typeParts else []

/-- The declaration that counts when a type names one: an enum for its member, and only types. -/
def counted? (d : Declaration) : Option Declaration :=
  match d.kind with
  | .enumMember => d.container?
  | .classType | .interfaceType | .typeAlias | .enumType => some d
  | _ => none

/-! ## Touching a type -/

theorem touchAll_append (l m : List StaticType) (s : Touched) :
    touchAll (l ++ m) s = touchAll m (touchAll l s) := by
  induction l generalizing s with
  | nil => rfl
  | cons t l ih => exact ih (touch t s)

theorem touchParameters_eq (ps : List (String × StaticType)) (s : Touched) :
    touchParameters ps s = touchAll (ps.map Prod.snd) s := by
  induction ps generalizing s with
  | nil => rfl
  | cons p ps ih => exact ih (touch p.2 s)

theorem touchAll_flatten {inner? : StaticType → Option (List StaticType)}
    (hinner : ∀ t ts s, inner? t = some ts → touch t s = touchAll ts s) (members : List StaticType)
    (s : Touched) : touchAll (flatten inner? members) s = touchAll members s := by
  induction members generalizing s with
  | nil => rfl
  | cons t members ih =>
    have hcons : flatten inner? (t :: members) = (inner? t).getD [t] ++ flatten inner? members := rfl
    rw [hcons, touchAll_append, ih, touchAll]
    cases ht : inner? t with
    | none => rfl
    | some ts => rw [Option.getD_some, hinner t ts s ht]

theorem touch_getD_head? (f : Node → StaticType) (ns : List Node) (s : Touched) :
    touch ((ns.head?.map f).getD .unknown) s = touchAll (ns.head?.toList.map f) s := by
  cases ns with
  | nil => rfl
  | cons n ns => rfl

def Touched.record (s : Touched) (d : Declaration) : Touched :=
  match counted? d with
  | some e => s.add e
  | none => s

/-- Touches a type that has the given name and parts. -/
def touchAs (expand : Declaration → StaticType) (head : Option Declaration)
    (parts : List StaticType) (s : Touched) : Touched :=
  match head with
  | none => touchAll parts s
  | some d =>
    let s := touchAll parts (s.record d)
    if d.kind == .typeAlias && !s.expanded.contains d.key then
      touch (expand d) { s with expanded := d.key :: s.expanded }
    else s

section Step

variable (idx : Index) (values : ExpressionTypes)

/-- What an alias stands for while others are being expanded. -/
def expansion (fuel : Nat) (expanding : List DeclarationKey) (d : Declaration) : StaticType :=
  if expanding.contains d.key then .unknown
  else match d.node.field? .value with
    | some v => typeUpTo idx values fuel d.file (d.key :: expanding) v
    | none => .unknown

variable {idx values} {fuel : Nat} {file : SourceFile} {expanding : List DeclarationKey} {n : Node}

theorem touch_ofDeclaration {d : Declaration} (hkind : d.kind ≠ .typeAlias) (args : List StaticType)
    (s : Touched) : touch (ofDeclaration d args) s =
      touchAll (if takesArguments d.kind then args else []) (s.record d) := by
  unfold ofDeclaration Touched.record counted?
  cases hk : d.kind with
  | typeAlias => exact absurd hk hkind
  | enumMember =>
    dsimp only
    rw [touch]
    cases d.container? <;> rfl
  | namespaceName => simp [touch, touchAll, takesArguments, hk]
  | _ => rfl

theorem touch_ofName {nameNode : Node} {args : List StaticType} (s : Touched) :
    touch (ofName idx (fun d v => typeUpTo idx values fuel d.file (d.key :: expanding) v) file
      expanding nameNode args) s =
    touchAs (expansion idx values fuel expanding) ((nameSymbol? idx file nameNode).map Symbol.first)
      (if ((nameSymbol? idx file nameNode).map Symbol.first).all fun d => takesArguments d.kind
        then args else []) s := by
  unfold ofName
  cases nameSymbol? idx file nameNode with
  | none => rfl
  | some symbol =>
    generalize hd : symbol.first = d
    simp only [Option.map_some, hd, Option.all_some, touchAs]
    by_cases hkind : d.kind = .typeAlias
    · have hrecord : s.record d = s.add d := by rw [Touched.record, counted?, hkind]
      have harguments : takesArguments d.kind = true := by rw [hkind]; rfl
      have halias : touch (.aliasOf d (expansion idx values fuel expanding d) args) s =
          if (d.kind == .typeAlias && !(touchAll args (s.add d)).expanded.contains d.key) = true then
            touch (expansion idx values fuel expanding d)
              { touchAll args (s.add d) with
                expanded := d.key :: (touchAll args (s.add d)).expanded }
          else touchAll args (s.add d) := by
        rw [touch, hkind]
        cases (touchAll args (s.add d)).expanded.contains d.key <;> rfl
      rw [hrecord, if_pos harguments, ← halias, if_neg (by simp [hkind])]
      congr 1
      unfold expansion
      split <;> rfl
    · have hne : (d.kind == .typeAlias) = false := by simpa using hkind
      rw [if_pos (by simpa using hkind), touch_ofDeclaration hkind]
      simp only [hne, Bool.false_and, Bool.false_eq_true, if_false]

theorem head?_eq_none (h : n.typeName? = none) : head? idx file n = none := by
  rw [head?, h]
  rfl

theorem readParts_of_typeName? (h : n.typeName? = none) : readParts idx file n = n.typeParts := by
  rw [readParts, head?_eq_none h]
  rfl

theorem inferredResult_of_bodiless (h : n.field? .body = none) (levels : Nat) :
    inferredResult values file n levels = .unknown := by
  cases levels with
  | zero => rfl
  | succ levels => rw [inferredResult, h]

theorem touch_signatureOf {f : Node → StaticType} (ht : n.tree.IsParsed)
    (hk : n.kind? = some .functionType ∨ n.kind? = some .constructorType)
    (hplain : n.isPlainType = true) (levels : Nat) (s : Touched) :
    touch (StaticType.ofSignature (signatureOf values f file n levels)) s =
      touchAll (n.typeParts.map f) s := by
  have hdefault : ∀ p ∈ n.parameters, p.field? .value = none := by
    intro p hp
    have hall : (n.parameters.all fun p => (p.field? .value).isNone) = true := by
      rw [Node.isPlainType, Bool.and_eq_true, Node.hasKindIn] at hplain
      rcases hk with hk | hk <;> simpa [hk] using hplain.2
    exact Option.isNone_iff_eq_none.1 (all_eq_true.1 hall p hp)
  have hparts : n.typeParts =
      n.parameters.filterMap (·.field? .type) ++ (n.field? .returnType).toList := by
    rcases hk with hk | hk <;> rw [Node.typeParts, hk]
  have hresult (s : Touched) : touch (signatureOf values f file n levels).result s =
      touchAll ((n.field? .returnType).toList.map f) s := by
    unfold signatureOf
    dsimp only
    split
    · next a ha =>
      rw [ha]
      rfl
    · next hnone =>
      rw [hnone, inferredResult_of_bodiless (not_body_of_function ht hk)]
      rfl
  have hparameters (s : Touched) :
      touchParameters (signatureOf values f file n levels).parameters s =
        touchAll ((n.parameters.filterMap (·.field? .type)).map f) s := by
    rw [touchParameters_eq]
    unfold signatureOf
    dsimp only
    generalize n.parameters = ps at hdefault
    clear hparts hresult
    induction ps generalizing s with
    | nil => rfl
    | cons p ps ih =>
      have hvalue := hdefault p mem_cons_self
      have hrest := fun q hq => hdefault q (mem_cons_of_mem p hq)
      rw [filterMap_cons, map_cons, map_cons, touchAll, ih _ hrest]
      cases htype : p.field? .type with
      | none =>
        rw [hvalue]
        rfl
      | some a => rfl
  rw [StaticType.ofSignature, touch, hparameters, hresult, hparts, map_append, touchAll_append]

/-- What one step of reading a type adds to what is touched. -/
theorem touch_typeUpTo_succ (ht : n.tree.IsParsed) (hplain : n.isPlainType = true) (s : Touched) :
    touch (typeUpTo idx values (fuel + 1) file expanding n) s =
      touchAs (expansion idx values fuel expanding) (head? idx file n)
        ((readParts idx file n).map (typeUpTo idx values fuel file expanding)) s := by
  -- a type without a name has only parts
  have hnameless {t : StaticType} (hname : n.typeName? = none)
      (h : touch t s = touchAll (n.typeParts.map (typeUpTo idx values fuel file expanding)) s) :
      touch t s = touchAs (expansion idx values fuel expanding) (head? idx file n)
        ((readParts idx file n).map (typeUpTo idx values fuel file expanding)) s := by
    rw [h, head?_eq_none hname, readParts_of_typeName? hname]
    rfl
  rw [typeUpTo]
  split
  iterate 7
    next hk =>
      refine hnameless (by rw [Node.typeName?, hk]) ?_
      rw [touch_getD_head?, Node.typeParts, hk]
  iterate 3
    next hk =>
      refine hnameless (by rw [Node.typeName?, hk]) ?_
      rw [Node.typeParts, hk]
      rfl
  iterate 2
    next hk =>
      have hname : n.typeName? = some n := by rw [Node.typeName?, hk]
      have hparts : n.typeParts = [] := by rw [Node.typeParts, hk]
      rw [touch_ofName, readParts, head?, hname, Option.bind_some, hparts]
      split <;> rfl
  · next hk =>
    have hname : n.typeName? = n.field? .name := by rw [Node.typeName?, hk]
    split
    · next nameNode hfield =>
      have hparts : n.typeParts = ((n.field? .typeArguments).map Node.namedChildren).getD [] := by
        rw [Node.typeParts, hk]
        dsimp only
        rw [hfield]
        rfl
      rw [touch_ofName, readParts, head?, hname, hfield, Option.bind_some, hparts]
      cases n.field? .typeArguments <;> split <;> rfl
    · next hfield =>
      refine hnameless (hname.trans hfield) ?_
      rw [Node.typeParts, hk]
      dsimp only
      rw [hfield]
      rfl
  iterate 2
    next hk =>
      refine hnameless (by rw [Node.typeName?, hk]) ?_
      rw [Node.typeParts, hk, touch]
      refine touchAll_flatten (fun t ts s h => ?_) _ s
      split at h
      · cases h
        rw [touch]
      · cases h
  · next hk =>
    refine hnameless (by rw [Node.typeName?, hk]) ?_
    rw [Node.typeParts, hk]
    dsimp only
    cases n.namedChildren.head? <;> rfl
  · next hk =>
    refine hnameless (by rw [Node.typeName?, hk]) ?_
    rw [Node.typeParts, hk, touch]
  · next hk =>
    exact hnameless (by rw [Node.typeName?, hk]) (touch_signatureOf ht (.inl hk) hplain _ s)
  · next hk =>
    exact hnameless (by rw [Node.typeName?, hk]) (touch_signatureOf ht (.inr hk) hplain _ s)
  · next hk =>
    refine hnameless (by rw [Node.typeName?, hk]) ?_
    rw [Node.typeParts, hk]
    rfl
  · next hk =>
    rw [Node.isPlainType, Node.hasKind, hk] at hplain
    cases hplain
  iterate 4
    next hk =>
      refine hnameless (by rw [Node.typeName?, hk]) ?_
      rw [Node.typeParts, hk]
      rfl
  · have hname : n.typeName? = none := by
      unfold Node.typeName?
      split <;> first
        | rfl
        | contradiction
    have hparts : n.typeParts = [] := by
      unfold Node.typeParts
      split <;> first
        | rfl
        | contradiction
    exact hnameless hname (by rw [hparts]; rfl)

end Step

/-! ## Heads -/

section Heads

variable {idx : Index} {file : SourceFile} {n m : Node} {d : Declaration}

theorem tree_of_typeName? (h : n.typeName? = some m) : m.tree = n.tree := by
  unfold Node.typeName? at h
  split at h
  iterate 2
    cases h
    rfl
  · exact tree_of_field? h
  · cases h

theorem placed_of_head? (hf : file ∈ idx.files.toList) (hn : n ∈ file.tree.nodes)
    (h : head? idx file n = some d) : d.PlacedIn idx ∧ d.Made := by
  obtain ⟨s, hs, rfl⟩ := Option.map_eq_some_iff.1 h
  obtain ⟨name, hname, hs⟩ := Option.bind_eq_some_iff.1 hs
  have htree : name.tree = file.tree := (tree_of_typeName? hname).trans (tree_of_mem_nodes hn)
  have harises := (nameSymbol?_arises hf htree hs).first
  exact ⟨harises.placed, harises.made⟩

theorem mem_typeParts_of_mem_readParts (hm : m ∈ readParts idx file n) : m ∈ n.typeParts := by
  unfold readParts at hm
  split at hm
  · exact hm
  · cases hm

theorem below_of_mem_readParts (ht : n.tree.IsParsed) (hm : m ∈ readParts idx file n) :
    m.Below n :=
  below_of_mem_typeParts ht (mem_typeParts_of_mem_readParts hm)

end Heads

/-! ## Termination -/

/-- A type that is to be read, with the aliases that are being expanded. -/
structure Task where
  file : SourceFile
  expanding : List DeclarationKey
  node : Node

section Termination

variable (idx : Index)

/-- Reading one type asks for reading another: a part of it, or what an alias stands for that is not
being expanded. -/
inductive Asks : Task → Task → Prop
  | part {file : SourceFile} {expanding : List DeclarationKey} {n m : Node} (hm : m ∈ n.typeParts) :
      Asks ⟨file, expanding, n⟩ ⟨file, expanding, m⟩
  | expand {file : SourceFile} {expanding : List DeclarationKey} {n v : Node} {d : Declaration}
      (hd : head? idx file n = some d) (hkind : d.kind = .typeAlias) (hkey : d.key ∉ expanding)
      (hv : d.node.field? .value = some v) :
      Asks ⟨file, expanding, n⟩ ⟨d.file, d.key :: expanding, v⟩

/-- The type stands in a file of the project, and so do the aliases, none of which is expanded
twice. -/
structure Task.InProject (t : Task) : Prop where
  file_mem : t.file ∈ idx.files.toList
  node_mem : t.node ∈ t.file.tree.nodes
  nodup : t.expanding.Nodup
  subset : t.expanding ⊆ Calls.declarationKeys idx

/-- How many steps reading may still take. -/
def Task.need (t : Task) : Nat :=
  (Calls.keyBound idx - t.expanding.length) * (idx.nodeCount + 1) + t.node.entry.size

variable {idx} {t u : Task}

theorem size_le_nodeCount {file : SourceFile} (hf : file ∈ idx.files.toList) :
    file.tree.size ≤ idx.nodeCount := by
  have hlength : file.tree.nodes.length = file.tree.size := by simp [Tree.nodes]
  rw [Index.nodeCount_eq_length, ← hlength, List.flatMap]
  have hmem : file.tree.nodes ∈ idx.files.toList.map fun f => f.tree.nodes := mem_map_of_mem hf
  exact (sublist_flatten_of_mem hmem).length_le

theorem Asks.inProject (hparsed : idx.Parsed) (ht : t.InProject idx) (h : Asks idx t u) :
    u.InProject idx := by
  obtain ⟨hf, hn, hnodup, hsubset⟩ := ht
  cases h with
  | @part file expanding n m hm =>
    have htree : n.tree = file.tree := tree_of_mem_nodes hn
    have hbelow := below_of_mem_typeParts (htree ▸ hparsed file hf) hm
    exact ⟨hf, htree ▸ hbelow.mem, hnodup, hsubset⟩
  | @expand file expanding n v d hd hkind hkey hv =>
    have hplaced := (placed_of_head? hf hn hd).1
    have htree := hplaced.2.node_tree
    have hbelow := below_of_field? (htree ▸ hparsed _ hplaced.1) hv
    refine ⟨hplaced.1, htree ▸ hbelow.mem, nodup_cons.2 ⟨hkey, hnodup⟩, ?_⟩
    exact cons_subset.2 ⟨Calls.key_mem_declarationKeys hplaced, hsubset⟩

/-- Each step needs fewer steps: a part is smaller, and where a whole type begins anew there is one
alias less to expand. -/
theorem Asks.need_lt (hparsed : idx.Parsed) (ht : t.InProject idx) (h : Asks idx t u) :
    u.need idx < t.need idx := by
  have hu := h.inProject hparsed ht
  obtain ⟨hf, hn, -, -⟩ := ht
  cases h with
  | @part file expanding n m hm =>
    have htree : n.tree = file.tree := tree_of_mem_nodes hn
    have hbelow := below_of_mem_typeParts (htree ▸ hparsed file hf) hm
    exact Nat.add_lt_add_left hbelow.size _
  | @expand file expanding n v d hd hkind hkey hv =>
    have hlength : (d.key :: expanding).length ≤ Calls.keyBound idx := by
      rw [← Calls.length_declarationKeys]
      exact (hu.nodup.subperm hu.subset).length_le
    have hvtree : v.tree = d.file.tree := tree_of_mem_nodes hu.node_mem
    have hsize : v.entry.size ≤ idx.nodeCount := by
      refine Nat.le_trans (Node.size_le (hvtree ▸ hparsed _ hu.file_mem)) ?_
      rw [hvtree]
      exact size_le_nodeCount hu.file_mem
    rw [length_cons] at hlength
    have hless : Calls.keyBound idx - expanding.length =
        (Calls.keyBound idx - (expanding.length + 1)) + 1 := by omega
    simp only [Task.need, length_cons]
    rw [hless, Nat.add_mul, Nat.one_mul]
    omega

theorem acc_asks (hparsed : idx.Parsed) (ht : t.InProject idx) :
    Acc (fun u t => Asks idx t u) t := by
  induction hneed : t.need idx using Nat.strongRecOn generalizing t with
  | ind need ih =>
    refine Acc.intro t fun u hu => ?_
    have hlt := hu.need_lt hparsed ht
    exact ih (u.need idx) (hneed ▸ hlt) (hu.inProject hparsed ht) rfl

section Fuel

variable {values : ExpressionTypes} {file : SourceFile} {expanding : List DeclarationKey} {n : Node}

theorem signatureOf_congr {f g : Node → StaticType}
    (hparts : ∀ m ∈ n.parameters.filterMap (·.field? .type) ++ (n.field? .returnType).toList,
      f m = g m) (levels : Nat) :
    signatureOf values f file n levels = signatureOf values g file n levels := by
  have hparameters : ∀ p ∈ n.parameters, ∀ a, p.field? .type = some a → f a = g a :=
    fun p hp a ha => hparts a (mem_append_left _ (mem_filterMap.2 ⟨p, hp, ha⟩))
  have hresult : ∀ a, n.field? .returnType = some a → f a = g a :=
    fun a ha => hparts a (mem_append_right _ (Option.mem_toList.2 ha))
  unfold signatureOf
  congr 1
  · refine map_congr_left fun p hp => ?_
    congr 1
    split
    · next a ha => exact hparameters p hp a ha
    · rfl
    · rfl
  · split
    · next a ha => exact hresult a ha
    · rfl

theorem ofName_congr {f g : Declaration → Node → StaticType} {nameNode : Node}
    {args : List StaticType}
    (h : ∀ s, nameSymbol? idx file nameNode = some s → s.first.kind = .typeAlias →
      s.first.key ∉ expanding → ∀ v, s.first.node.field? .value = some v → f s.first v = g s.first v) :
    ofName idx f file expanding nameNode args = ofName idx g file expanding nameNode args := by
  unfold ofName
  split
  · rfl
  · next s hs =>
    dsimp only
    split
    · rfl
    · next hkind =>
      split
      · rfl
      · next hkey =>
        congr 1
        split
        · next v hv => exact h s hs (by simpa using hkind) (by simpa using hkey) v hv
        · rfl

/-- A step of reading depends on the answers that it asks for only. -/
theorem typeUpTo_congr {fuel fuel' : Nat}
    (h : ∀ u, Asks idx ⟨file, expanding, n⟩ u →
      typeUpTo idx values fuel u.file u.expanding u.node =
        typeUpTo idx values fuel' u.file u.expanding u.node) :
    typeUpTo idx values (fuel + 1) file expanding n =
      typeUpTo idx values (fuel' + 1) file expanding n := by
  have hparts : ∀ m ∈ n.typeParts,
      typeUpTo idx values fuel file expanding m = typeUpTo idx values fuel' file expanding m :=
    fun m hm => h _ (.part hm)
  have hname {nameNode : Node} {args : List StaticType} (hname : n.typeName? = some nameNode) :
      ofName idx (fun d v => typeUpTo idx values fuel d.file (d.key :: expanding) v) file expanding
        nameNode args =
      ofName idx (fun d v => typeUpTo idx values fuel' d.file (d.key :: expanding) v) file expanding
        nameNode args := by
    refine ofName_congr fun s hs hkind hkey v hv => h _ (.expand ?_ hkind hkey hv)
    rw [head?, hname, Option.bind_some, hs]
    rfl
  have hmap {ns : List Node} (hns : n.typeParts = ns) :
      ns.map (typeUpTo idx values fuel file expanding) =
        ns.map (typeUpTo idx values fuel' file expanding) :=
    map_congr_left fun m hm => hparts m (hns ▸ hm)
  have hhead (hns : n.typeParts = n.namedChildren.head?.toList) :
      ∀ m ∈ n.namedChildren.head?, typeUpTo idx values fuel file expanding m =
        typeUpTo idx values fuel' file expanding m :=
    fun m hm => hparts m (hns ▸ Option.mem_toList.2 hm)
  rw [typeUpTo, typeUpTo]
  split
  iterate 7
    next hk => rw [Option.map_congr (hhead (by rw [Node.typeParts, hk]))]
  iterate 3 rfl
  iterate 2
    next hk => exact hname (by rw [Node.typeName?, hk])
  · next hk =>
    split
    · next nameNode hfield =>
      have hns : n.typeParts = ((n.field? .typeArguments).map Node.namedChildren).getD [] := by
        rw [Node.typeParts, hk]
        dsimp only
        rw [hfield]
        rfl
      rw [hname (by rw [Node.typeName?, hk]; exact hfield)]
      cases hlist : n.field? .typeArguments with
      | none => rfl
      | some list =>
        rw [hlist, Option.map_some, Option.getD_some] at hns
        rw [Option.map_some, Option.map_some, Option.getD_some, Option.getD_some, hmap hns]
    · rfl
  iterate 2
    next hk => rw [hmap (by rw [Node.typeParts, hk])]
  · next hk =>
    rw [Option.map_congr fun m hm => congrArg StaticType.array
      (hhead (by rw [Node.typeParts, hk]) m hm)]
  · next hk => rw [hmap (by rw [Node.typeParts, hk])]
  iterate 2
    next hk =>
      rw [signatureOf_congr fun m hm => hparts m (by rw [Node.typeParts, hk]; exact hm)]
  iterate 7 rfl

/-- With enough steps the answer does not depend on their number. -/
theorem typeUpTo_eq_of_need_lt (hparsed : idx.Parsed) {fuel fuel' : Nat}
    (ht : Task.InProject idx ⟨file, expanding, n⟩)
    (hfuel : Task.need idx ⟨file, expanding, n⟩ < fuel)
    (hfuel' : Task.need idx ⟨file, expanding, n⟩ < fuel') :
    typeUpTo idx values fuel file expanding n = typeUpTo idx values fuel' file expanding n := by
  induction fuel generalizing fuel' file expanding n with
  | zero => exact absurd hfuel (Nat.not_lt_zero _)
  | succ fuel ih =>
    cases fuel' with
    | zero => exact absurd hfuel' (Nat.not_lt_zero _)
    | succ fuel' =>
      refine typeUpTo_congr fun u hu => ?_
      have hlt : Task.need idx ⟨u.file, u.expanding, u.node⟩ <
          Task.need idx ⟨file, expanding, n⟩ := hu.need_lt hparsed ht
      exact ih (hu.inProject hparsed ht) (by omega) (by omega)

theorem need_lt_annotationSteps (hparsed : idx.Parsed) (hf : file ∈ idx.files.toList)
    (hn : n ∈ file.tree.nodes) : Task.need idx ⟨file, [], n⟩ < annotationSteps idx := by
  have htree : n.tree = file.tree := tree_of_mem_nodes hn
  have hsize : n.entry.size ≤ idx.nodeCount := by
    refine Nat.le_trans (Node.size_le (htree ▸ hparsed _ hf)) ?_
    rw [htree]
    exact size_le_nodeCount hf
  simp only [Task.need, annotationSteps, Calls.keyBound, length_nil, Nat.sub_zero]
  rw [Nat.add_mul (idx.nodeCount + idx.files.size) 1, Nat.one_mul]
  omega

end Fuel

end Termination

end ScriptAtlas.Query.TypeFlow
