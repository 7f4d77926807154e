import ScriptAtlas.Proofs.Linking
import ScriptAtlas.Proofs.TypeReading

/-!
# The closure of a type over aliases

The types that flow through an annotation are those in its closure: what it names, and with each alias
what the right-hand side names. Two cuts stand between the closure and what is found: an alias that is
being expanded stands for nothing inside of itself, and each alias is touched only once.

* `TypeFlow.Reaches`: the closure, over any notion of the parts of a type;
* `TypeFlow.findsOnly_touch`: what is found is in the closure;
* `TypeFlow.extends_touch`: an alias that is touched for the first time is unfolded as a whole, so that
  nothing in the closure is lost;
* `TypeFlow.mem_reported_iff_reaches`: what is reported is the closure of the type as it is read, and as
  it is written where nothing is passed over.
-/

namespace ScriptAtlas.Query.TypeFlow

open List Project Syntax Annotation Syntax.Node

/-! ## What a type reaches -/

section Names

variable (idx : Index) (parts : SourceFile → Node → List Node)

/-- The type, or a type that it is made of, names the declaration. -/
inductive Names (file : SourceFile) : Node → Declaration → Prop
  | here {n : Node} {d : Declaration} (h : head? idx file n = some d) : Names file n d
  | part {n m : Node} {d : Declaration} (hm : m ∈ parts file n) (h : Names file m d) :
      Names file n d

/-- The type names the declaration, or an alias that the type reaches stands for a type that does. -/
inductive Reaches (file : SourceFile) (n : Node) : Declaration → Prop
  | named {d : Declaration} (h : Names idx parts file n d) : Reaches file n d
  | expanded {a d : Declaration} {v : Node} (ha : Reaches file n a) (hkind : a.kind = .typeAlias)
      (hv : a.node.field? .value = some v) (h : Names idx parts a.file v d) : Reaches file n d

end Names

/-! ## Nothing else is found -/

section Closure

variable {idx : Index} {values : ExpressionTypes} {file : SourceFile}
  {parts : SourceFile → Node → List Node} {n m v : Node} {a d : Declaration}
  {expanding : List DeclarationKey}

theorem Reaches.of_part (hm : m ∈ parts file n) (h : Reaches idx parts file m d) :
    Reaches idx parts file n d := by
  induction h with
  | named h => exact .named (.part hm h)
  | expanded _ hkind hv h ih => exact .expanded ih hkind hv h

theorem Reaches.of_alias (ha : head? idx file n = some a) (hkind : a.kind = .typeAlias)
    (hv : a.node.field? .value = some v) (h : Reaches idx parts a.file v d) :
    Reaches idx parts file n d := by
  induction h with
  | named h => exact .expanded (.named (.here ha)) hkind hv h
  | expanded _ hkind hv h ih => exact .expanded ih hkind hv h

/-- Everything that was found is found before or is counted for a declaration with the property. -/
def FindsOnly (P : Declaration → Prop) (s s' : Touched) : Prop :=
  ∀ e ∈ s'.found, e ∈ s.found ∨ ∃ d, P d ∧ counted? d = some e

namespace FindsOnly

variable {P Q : Declaration → Prop} {s s' s'' : Touched}

theorem refl (P : Declaration → Prop) (s : Touched) : FindsOnly P s s := fun _ he => .inl he

theorem trans (h : FindsOnly P s s') (h' : FindsOnly P s' s'') : FindsOnly P s s'' := by
  intro e he
  rcases h' e he with he | hd
  · exact h e he
  · exact .inr hd

theorem weaken (hPQ : ∀ d, P d → Q d) (h : FindsOnly P s s') : FindsOnly Q s s' := by
  intro e he
  rcases h e he with he | ⟨d, hd, hcounted⟩
  · exact .inl he
  · exact .inr ⟨d, hPQ d hd, hcounted⟩

theorem record (hd : P d) : FindsOnly P s (s.record d) := by
  intro e he
  unfold Touched.record at he
  split at he
  · next c hc =>
    rcases mem_append.1 he with he | he
    · exact .inl he
    · rw [mem_singleton] at he
      exact .inr ⟨d, hd, he ▸ hc⟩
  · exact .inl he

theorem touchAll {ts : List StaticType} (h : ∀ t ∈ ts, ∀ s, FindsOnly P s (touch t s)) (s : Touched) :
    FindsOnly P s (TypeFlow.touchAll ts s) := by
  induction ts generalizing s with
  | nil => exact refl P s
  | cons t ts ih =>
    have hfirst := h t mem_cons_self s
    exact hfirst.trans (ih (fun u hu => h u (mem_cons_of_mem t hu)) _)

end FindsOnly

variable (hparsed : idx.Parsed)
  (hplain : ∀ f ∈ idx.files.toList, ∀ n ∈ f.tree.nodes, n.isPlainType = true)

include hparsed hplain

theorem findsOnly_touch {fuel : Nat}
    (hf : file ∈ idx.files.toList) (hn : n ∈ file.tree.nodes) (s : Touched) :
    FindsOnly (Reaches idx (readParts idx) file n) s
      (touch (typeUpTo idx values fuel file expanding n) s) := by
  induction fuel generalizing file expanding n s with
  | zero => exact .refl _ s
  | succ fuel ih =>
    have htree : n.tree = file.tree := tree_of_mem_nodes hn
    have ht : n.tree.IsParsed := htree ▸ hparsed file hf
    have hparts (s : Touched) : FindsOnly (Reaches idx (readParts idx) file n) s
        (touchAll ((readParts idx file n).map (typeUpTo idx values fuel file expanding)) s) := by
      refine FindsOnly.touchAll (forall_mem_map.2 fun m hm s => ?_) s
      have hbelow := below_of_mem_readParts ht hm
      exact (ih hf (htree ▸ hbelow.mem) s).weaken fun d hd => .of_part hm hd
    rw [touch_typeUpTo_succ ht (hplain file hf n hn)]
    unfold touchAs
    split
    · exact hparts s
    · next d hd =>
      have hrecord : FindsOnly (Reaches idx (readParts idx) file n) s (s.record d) :=
        .record (.named (.here hd))
      have hfront := hrecord.trans (hparts (s.record d))
      dsimp only
      split
      · next halias =>
        have hkind : d.kind = .typeAlias := beq_iff_eq.1 (Bool.and_eq_true_iff.1 halias).1
        refine hfront.trans ?_
        unfold expansion
        split
        · exact .refl _ _
        · split
          · next v hv =>
            have hplaced := (placed_of_head? hf hn hd).1
            have hnode := hplaced.2.node_tree
            have hbelow := below_of_field? (hnode ▸ hparsed _ hplaced.1) hv
            refine (ih hplaced.1 (hnode ▸ hbelow.mem) _).weaken fun e he => ?_
            exact .of_alias hd hkind hv he
          · exact .refl _ _
      · exact hfront

/-! ## Nothing is lost -/

omit hparsed hplain

/-- What the declaration counts for is found, and if it is an alias it is expanded. -/
structure Recorded (s : Touched) (d : Declaration) : Prop where
  found : ∀ e, counted? d = some e → e ∈ s.found
  expanded : d.kind = .typeAlias → d.key ∈ s.expanded

/-- Every declaration that the type of the node names is recorded. -/
def RecordsAll (idx : Index) (file : SourceFile) (n : Node) (s : Touched) : Prop :=
  ∀ d, Names idx (readParts idx) file n d → Recorded s d

/-- An alias of the project whose right-hand side is recorded. -/
structure Unfolded (idx : Index) (s : Touched) (a : Declaration) : Prop where
  kind : a.kind = .typeAlias
  placed : a.PlacedIn idx
  made : a.Made
  value : ∀ v, a.node.field? .value = some v → RecordsAll idx a.file v s

/-- Touching a type has added to what was touched, and the aliases that it has expanded are unfolded. -/
structure Extends (idx : Index) (s s' : Touched) : Prop where
  found : s.found ⊆ s'.found
  expanded : s.expanded ⊆ s'.expanded
  unfolded : ∀ k ∈ s'.expanded, k ∈ s.expanded ∨ ∃ a, a.key = k ∧ Unfolded idx s' a

variable {s s' s'' : Touched}

theorem Recorded.mono (h : Recorded s d) (hfound : s.found ⊆ s'.found)
    (hexpanded : s.expanded ⊆ s'.expanded) : Recorded s' d :=
  ⟨fun e he => hfound (h.found e he), fun hkind => hexpanded (h.expanded hkind)⟩

namespace Extends

theorem refl (idx : Index) (s : Touched) : Extends idx s s :=
  ⟨List.Subset.refl _, List.Subset.refl _, fun _ hk => .inl hk⟩

theorem recorded (h : Extends idx s s') (hd : Recorded s d) : Recorded s' d :=
  hd.mono h.found h.expanded

theorem recordsAll (h : Extends idx s s') (hn : RecordsAll idx file n s) :
    RecordsAll idx file n s' := fun d hd => h.recorded (hn d hd)

theorem trans (h : Extends idx s s') (h' : Extends idx s' s'') : Extends idx s s'' where
  found := List.Subset.trans h.found h'.found
  expanded := List.Subset.trans h.expanded h'.expanded
  unfolded k hk := by
    rcases h'.unfolded k hk with hk | hnew
    · rcases h.unfolded k hk with hold | ⟨a, hkey, hkind, hplaced, hmade, hvalue⟩
      · exact .inl hold
      · exact .inr ⟨a, hkey, hkind, hplaced, hmade, fun v hv => h'.recordsAll (hvalue v hv)⟩
    · exact .inr hnew

theorem record (idx : Index) (s : Touched) (d : Declaration) : Extends idx s (s.record d) := by
  unfold Touched.record
  split
  · exact ⟨subset_append_left _ _, List.Subset.refl _, fun _ hk => .inl hk⟩
  · exact refl idx s

/-- An alias is unfolded when its right-hand side is touched while it counts as expanded. -/
theorem expand (hkind : a.kind = .typeAlias) (hplaced : a.PlacedIn idx) (hmade : a.Made)
    (h : Extends idx { s with expanded := a.key :: s.expanded } s')
    (hvalue : ∀ v, a.node.field? .value = some v → RecordsAll idx a.file v s') :
    Extends idx s s' where
  found := h.found
  expanded := List.Subset.trans (subset_cons_self _ _) h.expanded
  unfolded k hk := by
    rcases h.unfolded k hk with hk | hnew
    · rcases mem_cons.1 hk with rfl | hk
      · exact .inr ⟨a, rfl, hkind, hplaced, hmade, hvalue⟩
      · exact .inl hk
    · exact .inr hnew

theorem touchAll {f : Node → StaticType} {ns : List Node}
    (h : ∀ m ∈ ns, ∀ s : Touched, expanding ⊆ s.expanded →
      Extends idx s (touch (f m) s) ∧ RecordsAll idx file m (touch (f m) s))
    (s : Touched) (hs : expanding ⊆ s.expanded) :
    Extends idx s (TypeFlow.touchAll (ns.map f) s) ∧
      ∀ m ∈ ns, RecordsAll idx file m (TypeFlow.touchAll (ns.map f) s) := by
  induction ns generalizing s with
  | nil => exact ⟨refl idx s, nofun⟩
  | cons n ns ih =>
    obtain ⟨hfirst, hrecords⟩ := h n mem_cons_self s hs
    obtain ⟨hrest, hall⟩ := ih (fun m hm => h m (mem_cons_of_mem n hm)) (touch (f n) s)
      (List.Subset.trans hs hfirst.expanded)
    exact ⟨hfirst.trans hrest, forall_mem_cons.2 ⟨hrest.recordsAll hrecords, hall⟩⟩

end Extends

theorem found_record {e : Declaration} (h : counted? d = some e) : e ∈ (s.record d).found := by
  rw [Touched.record, h]
  exact mem_append_right _ mem_cons_self

theorem RecordsAll.of_parts (hhead : ∀ d, head? idx file n = some d → Recorded s d)
    (hparts : ∀ m ∈ readParts idx file n, RecordsAll idx file m s) : RecordsAll idx file n s := by
  intro d hd
  cases hd with
  | here h => exact hhead d h
  | part hm h => exact hparts _ hm d h

/-- The right-hand side of an alias that is not being expanded is touched as a whole. -/
theorem extends_expansion {fuel : Nat} (h : d.key ∉ expanding)
    (hvalue : ∀ v, d.node.field? .value = some v →
      Extends idx s (touch (typeUpTo idx values fuel d.file (d.key :: expanding) v) s) ∧
        RecordsAll idx d.file v (touch (typeUpTo idx values fuel d.file (d.key :: expanding) v) s)) :
    Extends idx s (touch (expansion idx values fuel expanding d) s) ∧
      ∀ v, d.node.field? .value = some v →
        RecordsAll idx d.file v (touch (expansion idx values fuel expanding d) s) := by
  unfold expansion
  rw [if_neg (by simpa using h)]
  split
  · next v hv =>
    obtain ⟨hextends, hrecords⟩ := hvalue v hv
    refine ⟨hextends, fun w hw => ?_⟩
    cases hv.symm.trans hw
    exact hrecords
  · next hnone =>
    refine ⟨Extends.refl idx _, fun v hv => ?_⟩
    cases hnone.symm.trans hv

include hparsed hplain

/-- An alias that is touched for the first time is unfolded, for it is not being expanded: whatever is
being expanded is expanded already. -/
theorem extends_touch {fuel : Nat}
    (ht : Task.InProject idx ⟨file, expanding, n⟩)
    (hfuel : Task.need idx ⟨file, expanding, n⟩ < fuel) (s : Touched)
    (hs : expanding ⊆ s.expanded) :
    Extends idx s (touch (typeUpTo idx values fuel file expanding n) s) ∧
      RecordsAll idx file n (touch (typeUpTo idx values fuel file expanding n) s) := by
  induction fuel generalizing file expanding n s with
  | zero => exact absurd hfuel (Nat.not_lt_zero _)
  | succ fuel ih =>
    have hask {u : Task} (hu : Asks idx ⟨file, expanding, n⟩ u) (s : Touched)
        (hs : u.expanding ⊆ s.expanded) :
        Extends idx s (touch (typeUpTo idx values fuel u.file u.expanding u.node) s) ∧
          RecordsAll idx u.file u.node
            (touch (typeUpTo idx values fuel u.file u.expanding u.node) s) := by
      have hlt : Task.need idx ⟨u.file, u.expanding, u.node⟩ <
          Task.need idx ⟨file, expanding, n⟩ := hu.need_lt hparsed ht
      exact ih (hu.inProject hparsed ht) (by omega) s hs
    have hparts (s : Touched) (hs : expanding ⊆ s.expanded) :
        Extends idx s (touchAll ((readParts idx file n).map
          (typeUpTo idx values fuel file expanding)) s) ∧
        ∀ m ∈ readParts idx file n, RecordsAll idx file m (touchAll ((readParts idx file n).map
          (typeUpTo idx values fuel file expanding)) s) :=
      Extends.touchAll (fun m hm => hask (.part (mem_typeParts_of_mem_readParts hm))) s hs
    have hf := ht.file_mem
    have hn := ht.node_mem
    have htree : n.tree = file.tree := tree_of_mem_nodes hn
    rw [touch_typeUpTo_succ (htree ▸ hparsed file hf) (hplain file hf n hn)]
    unfold touchAs
    split
    · next hnone =>
      obtain ⟨hextends, hrecords⟩ := hparts s hs
      refine ⟨hextends, .of_parts (fun d hd => ?_) hrecords⟩
      rw [hnone] at hd
      cases hd
    · next d hd =>
      obtain ⟨hplaced, hmade⟩ := placed_of_head? hf hn hd
      have hrecord := Extends.record idx s d
      obtain ⟨hextends, hrecords⟩ := hparts (s.record d) (List.Subset.trans hs hrecord.expanded)
      generalize hs₁ : touchAll ((readParts idx file n).map (typeUpTo idx values fuel file expanding))
        (s.record d) = s₁ at hextends hrecords
      have hall := hrecord.trans hextends
      have hfound : ∀ e, counted? d = some e → e ∈ s₁.found :=
        fun e he => hextends.found (found_record he)
      dsimp only
      split
      · next hnew =>
        obtain ⟨hkind, hkey⟩ := Bool.and_eq_true_iff.1 hnew
        have hkind : d.kind = .typeAlias := beq_iff_eq.1 hkind
        have hkey : d.key ∉ s₁.expanded := by simpa using hkey
        have hexpanding : d.key ∉ expanding := fun h => hkey (hall.expanded (hs h))
        have hvalue := extends_expansion hexpanding fun v hv =>
          hask (.expand hd hkind hexpanding hv) { s₁ with expanded := d.key :: s₁.expanded }
            (cons_subset_cons d.key (List.Subset.trans hs hall.expanded))
        have hexpand := Extends.expand hkind hplaced hmade hvalue.1 hvalue.2
        refine ⟨hall.trans hexpand, .of_parts (fun e he => ?_)
          fun m hm => hexpand.recordsAll (hrecords m hm)⟩
        cases hd.symm.trans he
        refine ⟨fun e he => hexpand.found (hfound e he), fun _ => ?_⟩
        exact hvalue.1.expanded mem_cons_self
      · next hold =>
        refine ⟨hall, .of_parts (fun e he => ?_) hrecords⟩
        cases hd.symm.trans he
        refine ⟨hfound, fun hkind => ?_⟩
        rw [hkind] at hold
        simpa using hold

omit hplain in
theorem placed_of_names (hf : file ∈ idx.files.toList) (hn : n ∈ file.tree.nodes)
    (h : Names idx (readParts idx) file n d) : d.PlacedIn idx ∧ d.Made := by
  induction h with
  | here h => exact placed_of_head? hf hn h
  | part hm _ ih =>
    have htree := tree_of_mem_nodes hn
    have hbelow := below_of_mem_readParts (htree ▸ hparsed file hf) hm
    exact ih (htree ▸ hbelow.mem)

omit hplain in
theorem placed_of_reaches (hf : file ∈ idx.files.toList) (hn : n ∈ file.tree.nodes)
    (h : Reaches idx (readParts idx) file n d) : d.PlacedIn idx ∧ d.Made := by
  induction h with
  | named h => exact placed_of_names hparsed hf hn h
  | expanded _ _ hv h ih =>
    have htree := ih.1.2.node_tree
    have hbelow := below_of_field? (htree ▸ hparsed _ ih.1.1) hv
    exact placed_of_names hparsed ih.1.1 (htree ▸ hbelow.mem) h

/-- The declarations that are found in a type are those that count for the declarations that it
reaches. -/
theorem mem_semanticDeclarations_iff (hwell : idx.WellFormed) (hf : file ∈ idx.files.toList)
    (hn : n ∈ file.tree.nodes) {e : Declaration} :
    e ∈ semanticDeclarations (annotatedType idx values file n) ↔
      ∃ d, Reaches idx (readParts idx) file n d ∧ counted? d = some e := by
  have htask : Task.InProject idx ⟨file, [], n⟩ := ⟨hf, hn, nodup_nil, nil_subset _⟩
  have htouch : Extends idx ⟨[], []⟩ (touch (annotatedType idx values file n) ⟨[], []⟩) ∧
      RecordsAll idx file n (touch (annotatedType idx values file n) ⟨[], []⟩) :=
    extends_touch hparsed hplain htask (need_lt_annotationSteps hparsed hf hn) ⟨[], []⟩
      (nil_subset _)
  obtain ⟨hextends, hrecords⟩ := htouch
  constructor
  · intro he
    exact (findsOnly_touch hparsed hplain hf hn ⟨[], []⟩ e he).resolve_left not_mem_nil
  · rintro ⟨d, hd, hcounted⟩
    refine Recorded.found ?_ e hcounted
    clear hcounted
    induction hd with
    | named h => exact hrecords _ h
    | @expanded a d v ha hkind hv h ih =>
      -- the alias that was expanded under the same key stands for the same type
      obtain hold | ⟨b, hkey, hb⟩ := hextends.unfolded a.key (ih.expanded hkind)
      · cases hold
      obtain ⟨haplaced, hamade⟩ := placed_of_reaches hparsed hf hn ha
      obtain ⟨hfile, hvalue⟩ := hamade.eq_of_key_eq hwell hparsed haplaced hb.placed hb.made hkind
        hb.kind hkey.symm
      rw [hfile] at h
      exact hb.value v (hvalue ▸ hv) d h

end Closure

/-! ## What is reported -/

theorem reported?_of_counted? {d c : Declaration} (h : counted? d = some c) :
    reported? c = reported? d := by
  by_cases hkind : d.kind = .enumMember
  · rw [counted?, hkind] at h
    have hne : c.kind ≠ .enumMember := by
      rcases Declaration.kind_of_container? h with hc | hc | hc <;> simp [hc]
    simp [reported?, hkind, hne, show d.container? = some c from h]
  · unfold counted? at h
    split at h
    · contradiction
    iterate 4
      cases h
      rfl
    · cases h

theorem exists_counted?_of_reported? {d e : Declaration} (h : reported? d = some e) :
    ∃ c, counted? d = some c := by
  by_cases hkind : d.kind = .enumMember
  · rw [reported?, hkind, beq_self_eq_true, if_pos rfl] at h
    rw [counted?, hkind]
    exact ⟨_, (Option.filter_eq_some_iff.1 h).1⟩
  · rw [reported?, if_neg (by simpa using hkind)] at h
    obtain ⟨heq, hp⟩ := Option.filter_eq_some_iff.1 h
    cases heq
    simp only [Bool.and_eq_true, Bool.or_eq_true, beq_iff_eq] at hp
    obtain ⟨⟨((hk | hk) | hk) | hk, -⟩, -⟩ := hp <;> exact ⟨d, by rw [counted?, hk]⟩


/-! ## Types that are read as they are written -/

/-- Whether no part of the type is passed over when it is read: a wrapper does not begin with a
comment, members of a tuple have no labels, arguments stand behind a name that takes them, and it is
no constructor. -/
def isLegible (idx : Index) (file : SourceFile) (n : Node) : Bool :=
  match n.kind? with
  | some .annotatedType | some .optingType | some .omittingType | some .parenthesizedType
  | some .readonlyType | some .optionalType | some .restType | some .arrayType =>
    n.namedChildren.head?.all fun m => !m.hasKind .comment
  | some .genericType =>
    (n.field? .name).isSome && (head? idx file n).all fun d => takesArguments d.kind
  | some .tupleType => n.namedChildren.all fun m =>
      !m.hasKindIn [.requiredParameter, .optionalParameter]
  | some .constructorType => false
  | _ => true

section Legible

variable {idx : Index} {file : SourceFile} {n m : Node} {d : Declaration}

theorem mem_head?_parts_iff (h : (n.namedChildren.head?.all fun m => !m.hasKind .comment) = true) :
    m ∈ n.parts.head?.toList ↔ m ∈ n.namedChildren.head?.toList ∧ m.kind? ≠ some .comment := by
  unfold Node.parts
  cases hns : n.namedChildren with
  | nil => simp
  | cons c cs =>
    rw [hns, head?_cons, Option.all_some] at h
    rw [filter_cons, if_pos h]
    simp only [head?_cons, Option.toList_some, mem_singleton]
    refine ⟨?_, And.left⟩
    rintro rfl
    exact ⟨rfl, by simpa [Node.hasKind] using h⟩

theorem mem_writtenParts_iff (ht : n.tree.IsParsed) (h : isLegible idx file n = true) :
    m ∈ n.writtenParts ↔ m ∈ readParts idx file n ∧ m.kind? ≠ some .comment := by
  unfold isLegible at h
  split at h
  iterate 8
    next hk =>
      rw [readParts_of_typeName? (by rw [Node.typeName?, hk]), Node.typeParts, Node.writtenParts, hk]
      exact mem_head?_parts_iff h
  · next hk =>
    obtain ⟨hname, harguments⟩ := Bool.and_eq_true_iff.1 h
    rw [readParts, if_pos harguments, Node.typeParts, Node.writtenParts, hk]
    dsimp only
    rw [if_pos hname]
    cases n.field? .typeArguments with
    | none => simp
    | some list => exact mem_parts_iff
  · next hk =>
    rw [readParts_of_typeName? (by rw [Node.typeName?, hk]), Node.typeParts, Node.writtenParts, hk]
    dsimp only
    rw [map_congr_left (g := fun c => c) fun c hc => ?_, map_id_fun']
    · exact mem_parts_iff
    · have hlabel := all_eq_true.1 h c (mem_parts_iff.1 hc).1
      exact if_neg (by simpa using hlabel)
  · cases h
  · unfold Node.writtenParts
    split
    iterate 9 contradiction
    iterate 2
      next hk =>
        rw [readParts_of_typeName? (by rw [Node.typeName?, hk]), Node.typeParts, hk]
        exact mem_parts_iff
    · contradiction
    · next hk =>
      rw [readParts_of_typeName? (by rw [Node.typeName?, hk]), Node.typeParts, hk]
      refine (and_iff_left_of_imp fun hm => ?_).symm
      rcases mem_append.1 hm with hm | hm
      · obtain ⟨p, hp, hm⟩ := mem_filterMap.1 hm
        exact kind?_ne_comment_of_field? ((tree_of_mem_parameters hp) ▸ ht) hm
      · exact kind?_ne_comment_of_field? ht (Option.mem_toList.1 hm)
    · contradiction
    · have hparts : n.typeParts = [] := by
        unfold Node.typeParts
        split <;> first
          | rfl
          | contradiction
      refine iff_of_false not_mem_nil fun hm => ?_
      have hmem := mem_typeParts_of_mem_readParts hm.1
      rw [hparts] at hmem
      cases hmem

theorem not_names_of_comment (hm : m.kind? = some .comment) :
    ¬Names idx (readParts idx) file m d := by
  intro h
  cases h with
  | here h =>
    rw [head?, Node.typeName?, hm] at h
    cases h
  | part hc _ =>
    have hmem := mem_typeParts_of_mem_readParts hc
    rw [Node.typeParts, hm] at hmem
    cases hmem

variable (hparsed : idx.Parsed)
  (hlegible : ∀ f ∈ idx.files.toList, ∀ n ∈ f.tree.nodes, isLegible idx f n = true)

include hparsed hlegible

theorem names_writtenParts_iff (hf : file ∈ idx.files.toList) (hn : n ∈ file.tree.nodes) :
    Names idx (fun _ => Node.writtenParts) file n d ↔ Names idx (readParts idx) file n d := by
  have hstep {n m : Node} (hn : n ∈ file.tree.nodes) :
      m ∈ n.writtenParts ↔ m ∈ readParts idx file n ∧ m.kind? ≠ some .comment := by
    have htree := tree_of_mem_nodes hn
    exact mem_writtenParts_iff (htree ▸ hparsed file hf) (hlegible file hf n hn)
  have hbelow {n m : Node} (hn : n ∈ file.tree.nodes) (hm : m ∈ readParts idx file n) :
      m ∈ file.tree.nodes := by
    have htree := tree_of_mem_nodes hn
    exact htree ▸ (below_of_mem_readParts (htree ▸ hparsed file hf) hm).mem
  constructor
  · intro h
    induction h with
    | here h => exact .here h
    | part hm _ ih =>
      have hm := ((hstep hn).1 hm).1
      exact .part hm (ih (hbelow hn hm))
  · intro h
    induction h with
    | here h => exact .here h
    | part hm h ih =>
      have hplain := fun hcomment => not_names_of_comment hcomment h
      exact .part ((hstep hn).2 ⟨hm, hplain⟩) (ih (hbelow hn hm))

/-- Where everything is read as it is written, the two closures agree. -/
theorem reaches_writtenParts_iff (hf : file ∈ idx.files.toList) (hn : n ∈ file.tree.nodes) :
    Reaches idx (fun _ => Node.writtenParts) file n d ↔ Reaches idx (readParts idx) file n d := by
  have hvalue {a : Declaration} {v : Node} (ha : Reaches idx (readParts idx) file n a)
      (hv : a.node.field? .value = some v) :
      a.file ∈ idx.files.toList ∧ v ∈ a.file.tree.nodes := by
    have hplaced := (placed_of_reaches hparsed hf hn ha).1
    have htree := hplaced.2.node_tree
    exact ⟨hplaced.1, htree ▸ (below_of_field? (htree ▸ hparsed _ hplaced.1) hv).mem⟩
  constructor
  · intro h
    induction h with
    | named h => exact .named ((names_writtenParts_iff hparsed hlegible hf hn).1 h)
    | expanded _ hkind hv h ih =>
      obtain ⟨haf, hav⟩ := hvalue ih hv
      exact .expanded ih hkind hv ((names_writtenParts_iff hparsed hlegible haf hav).1 h)
  · intro h
    induction h with
    | named h => exact .named ((names_writtenParts_iff hparsed hlegible hf hn).2 h)
    | expanded ha hkind hv h ih =>
      obtain ⟨haf, hav⟩ := hvalue ha hv
      exact .expanded ih hkind hv ((names_writtenParts_iff hparsed hlegible haf hav).2 h)

end Legible

/-! ## The closure -/

/-- Reading an annotation of a project in which annotations ask for no types of values comes to an
end, whatever aliases refer to each other, and more steps change nothing. What is reported of the
types it is made of is exactly what counts in its closure over aliases: cutting an alias that is being
expanded, and touching each alias once, lose nothing. Where no part of a type is passed over when it
is read, this is the closure of the annotation as it is written. -/
theorem mem_reported_iff_reaches {fs : Storage.FileSystem} {root : Storage.Path} {settings : Settings}
    {idx : Index} (h : Index.build_ fs root settings = .ok idx)
    (hplain : ∀ f ∈ idx.files.toList, ∀ n ∈ f.tree.nodes, n.isPlainType = true)
    (values : ExpressionTypes) {file : SourceFile} (hf : file ∈ idx.files.toList) {n : Node}
    (hn : n ∈ file.tree.nodes) :
    (Acc (fun u t => Asks idx t u) ⟨file, [], n⟩ ∧
      ∀ fuel, annotationSteps idx ≤ fuel →
        typeUpTo idx values fuel file [] n = annotatedType idx values file n) ∧
    (∀ e, e ∈ (semanticDeclarations (annotatedType idx values file n)).filterMap reported? ↔
      ∃ d, Reaches idx (readParts idx) file n d ∧ reported? d = some e) ∧
    ((∀ f ∈ idx.files.toList, ∀ m ∈ f.tree.nodes, isLegible idx f m = true) →
      ∀ e, e ∈ (semanticDeclarations (annotatedType idx values file n)).filterMap reported? ↔
        ∃ d, Reaches idx (fun _ => Node.writtenParts) file n d ∧ reported? d = some e) := by
  have hwell := Index.wellFormed_of_build_ h
  have hparsed := Index.parsed_of_build_ h
  have htask : Task.InProject idx ⟨file, [], n⟩ := ⟨hf, hn, nodup_nil, nil_subset _⟩
  have hneed := need_lt_annotationSteps hparsed hf hn
  have hclosure : ∀ e,
      e ∈ (semanticDeclarations (annotatedType idx values file n)).filterMap reported? ↔
        ∃ d, Reaches idx (readParts idx) file n d ∧ reported? d = some e := by
    intro e
    rw [mem_filterMap]
    constructor
    · rintro ⟨c, hc, he⟩
      obtain ⟨d, hd, hcounted⟩ := (mem_semanticDeclarations_iff hparsed hplain hwell hf hn).1 hc
      exact ⟨d, hd, (reported?_of_counted? hcounted).symm.trans he⟩
    · rintro ⟨d, hd, he⟩
      obtain ⟨c, hcounted⟩ := exists_counted?_of_reported? he
      exact ⟨c, (mem_semanticDeclarations_iff hparsed hplain hwell hf hn).2 ⟨d, hd, hcounted⟩,
        (reported?_of_counted? hcounted).trans he⟩
  refine ⟨⟨acc_asks hparsed htask, fun fuel hfuel => ?_⟩, hclosure, fun hlegible e => ?_⟩
  · exact typeUpTo_eq_of_need_lt hparsed htask (Nat.lt_of_lt_of_le hneed hfuel) hneed
  · rw [hclosure e]
    refine exists_congr fun d => and_congr_left fun _ => ?_
    exact (reaches_writtenParts_iff hparsed hlegible hf hn).symm

/-! ## Small projects -/

def annotation? (idx : Index) : Option (SourceFile × Node) :=
  idx.files.toList.findSome? fun f => (f.tree.nodes.find? (·.hasKind .annotatedType)).map (f, ·)

theorem annotation?_mem {idx : Index} {file : SourceFile} {n : Node}
    (h : annotation? idx = some (file, n)) : file ∈ idx.files.toList ∧ n ∈ file.tree.nodes := by
  obtain ⟨f, hf, h⟩ := exists_of_findSome?_eq_some h
  obtain ⟨m, hm, heq⟩ := Option.map_eq_some_iff.1 h
  cases heq
  exact ⟨hf, mem_of_find?_eq_some hm⟩

/-- The index of a project with two aliases that stand for each other. -/
def mutualAliases : Index := .loneFileIndex ("export function f(p: A) \x7b\x7d\n" ++
  "type A = B | Foo;\ntype B = A[] | Color.Red;\nclass Foo \x7b\x7d\nenum Color \x7b Red \x7d")

/-- Both aliases are reached from an annotation that names one of them, and so is what they are made
of. -/
theorem mutualAliases_reached : ∃ file n, annotation? mutualAliases = some (file, n) ∧
    (∀ f ∈ mutualAliases.files.toList, ∀ m ∈ f.tree.nodes, m.isPlainType = true) ∧
    (∀ f ∈ mutualAliases.files.toList, ∀ m ∈ f.tree.nodes, isLegible mutualAliases f m = true) ∧
    Acc (fun u t => Asks mutualAliases t u) ⟨file, [], n⟩ ∧
    ∀ name ∈ ["A", "B", "Color", "Foo"], ∃ d, Reaches mutualAliases (fun _ => Node.writtenParts) file n d ∧
      ∃ e, reported? d = some e ∧ e.name = name := by
  have heval : (annotation? mutualAliases).map (fun p =>
      (mutualAliases.files.toList.all fun f => f.tree.nodes.all fun m =>
        m.isPlainType && isLegible mutualAliases f m,
      ((semanticDeclarations (annotatedType mutualAliases (fun _ _ _ => .unknown) p.1 p.2)).filterMap
        reported?).map Declaration.name)) = some (true, ["A", "B", "A", "Color", "Foo"]) := by
    decide +kernel
  obtain ⟨⟨file, n⟩, hannotation, heval⟩ := Option.map_eq_some_iff.1 heval
  obtain ⟨hall, hnames⟩ := Prod.mk.inj heval
  simp only [all_eq_true, Bool.and_eq_true] at hall
  obtain ⟨hf, hn⟩ := annotation?_mem hannotation
  have hplain := fun f hf m hm => (hall f hf m hm).1
  have hlegible := fun f hf m hm => (hall f hf m hm).2
  obtain ⟨⟨hacc, -⟩, -, hclosure⟩ := mem_reported_iff_reaches (Index.build_loneFile _) hplain
    (fun _ _ _ => .unknown) hf hn
  refine ⟨file, n, hannotation, hplain, hlegible, hacc, fun name hname => ?_⟩
  have hmem : name ∈ ["A", "B", "A", "Color", "Foo"] := by
    revert name
    decide
  rw [← hnames] at hmem
  obtain ⟨e, he, hename⟩ := mem_map.1 hmem
  obtain ⟨d, hd, hreported⟩ := (hclosure hlegible e).1 he
  exact ⟨d, hd, e, hreported, hename⟩

/-- The index of a project with an alias of a tuple whose member has a label. -/
def labelledMember : Index := .loneFileIndex
  "export function f(p: T) \x7b\x7d\ntype T = [x: Foo];\nclass Foo \x7b\x7d"

/-- The type of the member is in the closure of the annotation as it is written, but it is not
reported. -/
theorem labelledMember_lost : ∃ file n, annotation? labelledMember = some (file, n) ∧
    (∀ f ∈ labelledMember.files.toList, ∀ m ∈ f.tree.nodes, m.isPlainType = true) ∧
    (∃ d, Reaches labelledMember (fun _ => Node.writtenParts) file n d ∧
      ∃ e, reported? d = some e ∧ e.name = "Foo") ∧
    ((semanticDeclarations (labelledMember.annotatedType file n)).filterMap reported?).map
      Declaration.name = ["T"] := by
  have heval : (annotation? labelledMember).bind (fun p =>
      p.2.writtenParts.head?.bind fun m => (head? labelledMember p.1 m).bind fun a =>
      (a.node.field? .value).bind fun v => v.writtenParts.head?.bind fun t =>
      t.writtenParts.head?.bind fun u => (head? labelledMember a.file u).bind fun d =>
      (reported? d).map fun e => (a.kind, e.name,
        labelledMember.files.toList.all fun f => f.tree.nodes.all Node.isPlainType,
        ((semanticDeclarations (labelledMember.annotatedType p.1 p.2)).filterMap reported?).map
          Declaration.name)) = some (.typeAlias, "Foo", true, ["T"]) := by
    decide +kernel
  simp only [Option.bind_eq_some_iff, Option.map_eq_some_iff, Prod.mk.injEq, all_eq_true] at heval
  obtain ⟨⟨file, n⟩, hannotation, m, hm, a, ha, v, hv, t, ht, u, hu, d, hd, e, he, hkind, hname, hplain,
    hnames⟩ := heval
  refine ⟨file, n, hannotation, hplain, ⟨d, ?_, e, he, hname⟩, hnames⟩
  refine .expanded (.named (.part (mem_of_head? hm) (.here ha))) hkind hv ?_
  exact .part (mem_of_head? ht) (.part (mem_of_head? hu) (.here hd))

end ScriptAtlas.Query.TypeFlow
