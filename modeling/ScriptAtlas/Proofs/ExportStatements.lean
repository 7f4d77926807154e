import ScriptAtlas.Proofs.TopLevel

/-!
# Export statements in trees

What the grammar says about `export` and `declare` holds of the nodes of a parsed tree. An export
statement says in one way what it exports, so reading its parts one by one and reading its form come to
the same; and a declaration stands directly under `export` just when its statement is an export
statement.

* `Node.exports_outline`, `Node.introduces_outline`: the parts of these statements;
* `Export.formOf_of_clause`, `Export.formOf_of_value`: a part decides the form;
* `Node.Makes.hasExportModifier_iff`: what an export statement makes, and nothing else, has the
  modifier.
-/

namespace ScriptAtlas

open List Project Syntax Syntax.Node

namespace Syntax

theorem Shape.getElem?_numbers (i k : Nat) (cs : List Shape) :
    (numbers i cs)[k]? = cs[k]?.map fun _ => i + countAll (cs.take k) := by
  induction cs generalizing i k with
  | nil => rfl
  | cons c cs ih =>
    cases k with
    | zero => rfl
    | succ k =>
      rw [numbers, getElem?_cons_succ, getElem?_cons_succ, ih, take_succ_cons, countAll,
        Nat.add_assoc]

namespace Node

variable {n c : Node} {root : Shape} {p : Spot} {up : List Spot}
variable {f : Field} {k : Kind}

/-! ## Outlines -/

/-- The labels of the children and the fields they are in, comments apart. -/
def outline (n : Node) : List (Label × Option Field) :=
  (n.children.map fun c => (c.label, c.entry.field)).filter (·.1 != .named .comment)

theorem At.outline (hn : n.At root p up) : n.outline = Syntax.outline p.shape.children := by
  rw [Node.outline, Syntax.outline]
  congr 1
  refine ext_getElem? fun k => ?_
  rw [children, hn.entry, getElem?_map, getElem?_map, getElem?_map]
  change (((Shape.numbers (p.id + 1) p.shape.children)[k]?.map _).map _) = _
  rw [Shape.getElem?_numbers]
  cases hk : p.shape.children[k]? with
  | none => rfl
  | some s =>
    have hc : (n.tree.node (p.id + 1 + Shape.countAll (p.shape.children.take k))).At root _ _ :=
      ⟨hn.grown, hn.sits.part hk, rfl⟩
    simp only [Option.map_some, hc.label, hc.entry]
    rfl

theorem mem_outline (hc : c ∈ n.children) (hplain : c.kind? ≠ some .comment) :
    (c.label, c.entry.field) ∈ n.outline := by
  refine mem_filter.2 ⟨mem_map_of_mem hc, bne_iff_ne.2 fun hlabel => hplain ?_⟩
  rw [kind?, show c.label = .named .comment from hlabel]
  rfl

theorem entry_field_of_field? (h : n.field? f = some c) : c.entry.field = some f := by
  have hfield := find?_some h
  exact beq_iff_eq.1 hfield

theorem mem_outline_of_field? (ht : n.tree.IsParsed) (h : n.field? f = some c) :
    (c.label, some f) ∈ n.outline := by
  rw [← entry_field_of_field? h]
  exact mem_outline (mem_of_find?_eq_some h) (kind?_ne_comment_of_field? ht h)

theorem exports_outline (ht : n.tree.IsParsed) (hk : n.kind? = some .exportStatement) :
    Exports n.outline := by
  obtain ⟨root, p, up, hn, -⟩ := exists_at_of_kind? ht hk (by decide)
  rw [hn.outline]
  exact hn.fits hk

theorem introduces_outline (ht : n.tree.IsParsed) (hk : n.kind? = some .ambientDeclaration) :
    Introduces n.outline := by
  obtain ⟨root, p, up, hn, -⟩ := exists_at_of_kind? ht hk (by decide)
  rw [hn.outline]
  exact hn.fits hk

theorem label_eq_of_kind? (h : n.kind? = some k) : n.label = .named k := by
  rw [kind?] at h
  cases hlabel : n.label with
  | token t =>
    rw [hlabel] at h
    cases h
  | named k' =>
    rw [hlabel] at h
    exact congrArg Label.named (Option.some.inj h)

/-! ## Parts of the statements -/

theorem field?_typeParameters_of_export (ht : n.tree.IsParsed)
    (hk : n.kind? = some .exportStatement) : n.field? .typeParameters = none := by
  cases h : n.field? .typeParameters with
  | none => rfl
  | some c => exact absurd rfl ((exports_outline ht hk).parameters _ (mem_outline_of_field? ht h))

theorem isOuter_of_declaration (ht : n.tree.IsParsed) (hk : n.kind? = some .exportStatement)
    (hc : n.field? .declaration = some c) (hck : c.kind? = some k) : k.isOuter = false :=
  (exports_outline ht hk).declaration _ (mem_outline_of_field? ht hc) rfl k (label_eq_of_kind? hck)

/-- What `declare` stands in front of is neither an export statement nor an expression. -/
theorem isOuter_of_ambient (ht : n.tree.IsParsed) (hk : n.kind? = some .ambientDeclaration)
    (hc : n.parts.head? = some c) (hck : c.kind? = some k) : k.isOuter = false := by
  refine introduces_outline ht hk (c.label, c.entry.field) ?_ k (label_eq_of_kind? hck)
  have hpart (m : Node) : (!m.hasKind .comment && m.isNamed) =
      decide ((m.label != .named .comment) = true ∧ m.label.isNamed = true) := by
    rw [hasKind, kind?, isNamed]
    cases m.label <;> simp [Label.kind?, Label.isNamed, Bool.beq_eq_decide_eq]
  rw [parts, namedChildren, filter_filter, head?_filter] at hc
  rw [outline, find?_filter, find?_map]
  simp only [hpart] at hc
  exact Option.mem_map_of_mem _ hc

/-- Whether a child of an export statement says what is exported. -/
def isLead (n : Node) : Bool :=
  n.label != .named .comment && leads (n.label, n.entry.field)

theorem isLead_of_field? (ht : n.tree.IsParsed) (hc : n.field? f = some c)
    (hf : f = .declaration ∨ f = .value) : c.isLead = true := by
  have hplain : c.label ≠ .named .comment := fun hlabel =>
    kind?_ne_comment_of_field? ht hc (by rw [kind?, hlabel]; rfl)
  rcases hf with rfl | rfl <;> simp [isLead, leads, hplain, entry_field_of_field? hc]

theorem isLead_of_kind? (hk : n.kind? = some .exportClause) : n.isLead = true := by
  simp [isLead, leads, label_eq_of_kind? hk]

theorem isLead_of_isToken (h : n.isToken "=" = true) : n.isLead = true := by
  simp [isLead, leads, show n.label = .token "=" from beq_iff_eq.1 h]

theorem eq_of_single {p : Label × Option Field → Bool} (h : (n.outline.filter p).length ≤ 1)
    {c d : Node} (hc : c ∈ n.children) (hd : d ∈ n.children)
    (hcp : (c.label != .named .comment && p (c.label, c.entry.field)) = true)
    (hdp : (d.label != .named .comment && p (d.label, d.entry.field)) = true) : c = d := by
  let q : Node → Bool := fun m => m.label != .named .comment && p (m.label, m.entry.field)
  have hsingle : (n.children.filter q).length ≤ 1 := by
    rw [outline, filter_filter, filter_map, length_map] at h
    have heq : q = (fun o => p o && o.1 != .named .comment) ∘
        fun c : Node => (c.label, c.entry.field) := funext fun m => Bool.and_comm _ _
    rwa [heq]
  have hc : c ∈ n.children.filter q := mem_filter.2 ⟨hc, hcp⟩
  have hd : d ∈ n.children.filter q := mem_filter.2 ⟨hd, hdp⟩
  obtain ⟨e, he⟩ : ∃ e, n.children.filter q = [e] :=
    length_eq_one_iff.1 (Nat.le_antisymm hsingle (length_pos_of_mem hc))
  rw [he] at hc hd
  exact (mem_singleton.1 hc).trans (mem_singleton.1 hd).symm

theorem eq_of_isLead (ht : n.tree.IsParsed) (hk : n.kind? = some .exportStatement) {c d : Node}
    (hc : c ∈ n.children) (hd : d ∈ n.children) (hclead : c.isLead = true) (hdlead : d.isLead = true) :
    c = d :=
  eq_of_single (exports_outline ht hk).single hc hd hclead hdlead

end Node

/-! ## Modifiers -/

namespace Node

theorem hasExportModifier_of_mem_children {n c : Node} (ht : n.tree.IsParsed) (hc : c ∈ n.children) :
    c.hasExportModifier =
      if n.isDeclarationWrapper then n.hasExportModifier else n.hasKind .exportStatement := by
  rw [hasExportModifier, ancestors_of_mem_children ht hc, dropWhile_cons]
  split <;> rfl

theorem isDeclarationWrapper_of_kind? {n : Node} {k : Kind} (hk : n.kind? = some k) :
    n.isDeclarationWrapper =
      [Kind.lexicalDeclaration, .variableDeclaration, .ambientDeclaration].contains k := by
  rw [isDeclarationWrapper, hasKindIn, hk]
  rfl

theorem hasExportModifier_of_export {n c : Node} (ht : n.tree.IsParsed)
    (hk : n.kind? = some .exportStatement) (hc : c ∈ n.children) : c.hasExportModifier = true := by
  rw [hasExportModifier_of_mem_children ht hc, isDeclarationWrapper_of_kind? hk, hasKind, hk]
  rfl

theorem Wraps.hasExportModifier_eq {n inner : Node} (ht : n.tree.IsParsed) (h : n.Wraps inner)
    (hn : ∀ k, n.kind? = some k → k.isOuter = false) :
    inner.hasExportModifier = n.hasExportModifier := by
  induction h with
  | itself n => rfl
  | exported hkind => exact absurd (hn _ hkind) nofun
  | @declared n c inner hkind hc _ ih =>
    have hmem := mem_of_mem_filter (mem_of_mem_filter (mem_of_head? hc))
    rw [ih (tree_of_head?_parts hc ▸ ht) fun k => isOuter_of_ambient ht hkind hc,
      hasExportModifier_of_mem_children ht hmem, isDeclarationWrapper_of_kind? hkind]
    rfl
  | stated hkind => exact absurd (hn _ hkind) nofun

/-- Between a declaration and what its statement stands around there is at most a list of
variables. -/
theorem Makes.exists_wraps {stmt d name : Node} (ht : stmt.tree.IsParsed) (h : stmt.Makes d name) :
    ∃ inner, stmt.Wraps inner ∧ (∀ k, inner.kind? = some k → k.isOuter = false) ∧
      d.hasExportModifier = inner.hasExportModifier := by
  cases h with
  | single hwraps hkind =>
    refine ⟨d, hwraps, fun k hk => ?_, rfl⟩
    rw [Node.hasKindIn, hk] at hkind
    have hinner : ∀ k ∈ singleKinds, k.isOuter = false := by decide
    exact hinner k (contains_iff_mem.1 hkind)
  | @listed list _ _ _ hwraps hlist hd =>
    have hlt : list.tree.IsParsed := hwraps.tree ▸ ht
    obtain ⟨k, hk, hmem⟩ := (Option.any_eq_true _ _).1 hlist
    have hmem := contains_iff_mem.1 hmem
    refine ⟨list, hwraps, fun k' hk' => ?_, ?_⟩
    · cases hk.symm.trans hk'
      have hinner : ∀ k ∈ [Kind.lexicalDeclaration, .variableDeclaration], k.isOuter = false := by
        decide
      exact hinner k hmem
    · rw [hasExportModifier_of_mem_children hlt (mem_of_mem_filter hd),
        isDeclarationWrapper_of_kind? hk]
      simp only [mem_cons, not_mem_nil, or_false] at hmem
      rcases hmem with rfl | rfl <;> rfl

theorem Makes.hasExportModifier {stmt d name : Node} (ht : stmt.tree.IsParsed)
    (hk : stmt.kind? = some .exportStatement) (h : stmt.Makes d name) :
    d.hasExportModifier = true := by
  obtain ⟨inner, hwraps, hinner, heq⟩ := h.exists_wraps ht
  rw [heq]
  cases hwraps with
  | itself => exact absurd (hinner _ hk) nofun
  | exported _ hc hwraps =>
    rw [hwraps.hasExportModifier_eq (tree_of_field? hc ▸ ht) fun k => isOuter_of_declaration ht hk hc]
    exact hasExportModifier_of_export ht hk (mem_of_find?_eq_some hc)
  | declared hkind => cases hk.symm.trans hkind
  | stated hkind => cases hk.symm.trans hkind

theorem Makes.of_export {stmt d name : Node} (hk : stmt.kind? = some .exportStatement)
    (h : stmt.Makes d name) : ∃ c, stmt.field? .declaration = some c ∧ c.Makes d name := by
  have hwrapped {inner : Node} {ks : List Kind} (hwraps : stmt.Wraps inner)
      (hkind : inner.hasKindIn ks = true) (hks : .exportStatement ∉ ks) :
      ∃ c, stmt.field? .declaration = some c ∧ c.Wraps inner := by
    cases hwraps with
    | itself =>
      have hnot := hasKind_of_hasKindIn hkind hks
      rw [hasKind, hk] at hnot
      cases hnot
    | exported _ hc hwraps => exact ⟨_, hc, hwraps⟩
    | declared hkind => cases hk.symm.trans hkind
    | stated hkind => cases hk.symm.trans hkind
  cases h with
  | single hwraps hkind hname =>
    obtain ⟨c, hc, hwraps⟩ := hwrapped hwraps hkind (by decide)
    exact ⟨c, hc, .single hwraps hkind hname⟩
  | listed hwraps hlist hd hkind hpattern hname =>
    obtain ⟨c, hc, hwraps⟩ := hwrapped hwraps hlist (by decide)
    exact ⟨c, hc, .listed hwraps hlist hd hkind hpattern hname⟩

theorem declarationKind?_of_wrapper {n : Node} (h : n.hasKindIn wrapperKinds = true) :
    n.declarationKind? = none := by
  obtain ⟨k, hk, hmem⟩ := (Option.any_eq_true _ _).1 h
  have hmem := contains_iff_mem.1 hmem
  simp only [wrapperKinds, mem_cons, not_mem_nil, or_false] at hmem
  rw [declarationKind?, hk]
  rcases hmem with rfl | rfl | rfl | rfl | rfl <;> rfl

theorem Makes.eq_of_declarationKind? {n d name : Node} (hn : n.declarationKind?.isSome = true)
    (h : n.Makes d name) : n = d ∧ d.declarationName? = some name := by
  have hplain {k : Kind} (hk : n.kind? = some k) (hmem : k ∈ wrapperKinds) : False := by
    rw [declarationKind?_of_wrapper (hasKindIn_of_kind? hk hmem)] at hn
    cases hn
  have hitself {inner : Node} (hwraps : n.Wraps inner) : n = inner := by
    cases hwraps with
    | itself => rfl
    | exported hkind => exact (hplain hkind (by decide)).elim
    | declared hkind => exact (hplain hkind (by decide)).elim
    | stated hkind => exact (hplain hkind (by decide)).elim
  cases h with
  | single hwraps _ hname => exact ⟨hitself hwraps, hname⟩
  | listed hwraps hlist =>
    rw [← hitself hwraps] at hlist
    rw [declarationKind?_of_wrapper (hasKindIn_mono hlist (by decide))] at hn
    cases hn

/-- Directly in a file, only export statements make what has the modifier. -/
theorem Makes.hasExportModifier_iff {stmt d name : Node} (ht : stmt.tree.IsParsed)
    (hstmt : stmt.hasExportModifier = false) (h : stmt.Makes d name) :
    d.hasExportModifier = true ↔ stmt.kind? = some .exportStatement := by
  refine ⟨fun hd => ?_, fun hk => h.hasExportModifier ht hk⟩
  obtain ⟨inner, hwraps, hinner, heq⟩ := h.exists_wraps ht
  rw [heq] at hd
  by_contra hk
  cases hwraps with
  | itself =>
    rw [hstmt] at hd
    cases hd
  | exported hkind => exact hk hkind
  | declared hkind hc hwraps =>
    have hwhole := (Wraps.declared hkind hc hwraps).hasExportModifier_eq ht fun k hk => by
      cases hkind.symm.trans hk
      rfl
    rw [hwhole, hstmt] at hd
    cases hd
  | stated hkind hc =>
    rw [hasExportModifier_of_mem_children ht (mem_of_mem_filter hc),
      isDeclarationWrapper_of_kind? hkind, hasKind, hkind] at hd
    cases hd

end Node

end Syntax

/-! ## Forms -/

namespace Export

variable {stmt clause v : Node} (ht : stmt.tree.IsParsed) (hk : stmt.kind? = some .exportStatement)

include ht hk

theorem formOf_of_clause (hmem : clause ∈ stmt.namedChildren)
    (hclause : clause.kind? = some .exportClause) :
    formOf stmt = .names clause (stmt.field? .source) := by
  have hexports := exports_outline ht hk
  have hchild := mem_of_mem_filter hmem
  have hlead := isLead_of_kind? hclause
  have hplain : clause.kind? ≠ some .comment := by
    rw [hclause]
    decide
  have hnone : clause.entry.field = none :=
    hexports.clause _ (mem_outline hchild hplain) (label_eq_of_kind? hclause)
  have hfield {f : Field} (hf : f = .declaration ∨ f = .value) : stmt.field? f = none := by
    cases hc : stmt.field? f with
    | none => rfl
    | some c =>
      have heq : c = clause := eq_of_isLead ht hk (mem_of_find?_eq_some hc) hchild
        (isLead_of_field? ht hc hf) hlead
      have hsome := entry_field_of_field? hc
      rw [heq, hnone] at hsome
      cases hsome
  have htoken : stmt.hasToken "=" = false := by
    refine any_eq_false.2 fun c hc heq => ?_
    obtain rfl := eq_of_isLead ht hk hc hchild (isLead_of_isToken heq) hlead
    rw [Node.isToken, label_eq_of_kind? hclause] at heq
    cases heq
  have hfind : stmt.namedChildren.find? (·.hasKind .exportClause) = some clause := by
    obtain ⟨c, hc⟩ : ∃ c, stmt.namedChildren.find? (·.hasKind .exportClause) = some c := by
      refine Option.isSome_iff_exists.1 (find?_isSome.2 ⟨clause, hmem, ?_⟩)
      rw [Node.hasKind, hclause]
      rfl
    have hkind := find?_some hc
    rw [hc, eq_of_isLead ht hk (mem_of_mem_filter (mem_of_find?_eq_some hc)) hchild
      (isLead_of_kind? (kind?_of_hasKind hkind)) hlead]
  unfold formOf
  simp only [hfield (.inl rfl), hfield (.inr rfl), htoken, hfind, Bool.false_eq_true, if_false]

theorem formOf_of_value (hv : stmt.field? .value = some v) :
    formOf stmt = .value v (stmt.hasToken "default") ∧ stmt.field? .source = none := by
  have hdeclaration : stmt.field? .declaration = none := by
    cases hc : stmt.field? .declaration with
    | none => rfl
    | some c =>
      have heq : c = v := eq_of_isLead ht hk (mem_of_find?_eq_some hc)
        (mem_of_find?_eq_some hv) (isLead_of_field? ht hc (.inl rfl))
        (isLead_of_field? ht hv (.inr rfl))
      have hfield := (entry_field_of_field? hc).symm.trans (heq ▸ entry_field_of_field? hv)
      cases hfield
  constructor
  · unfold formOf
    simp only [hdeclaration, hv]
  · cases hc : stmt.field? .source with
    | none => rfl
    | some c =>
      have hvalue := (exports_outline ht hk).value ⟨_, mem_outline_of_field? ht hv, rfl⟩
      exact absurd rfl (hvalue _ (mem_outline_of_field? ht hc))

end Export

end ScriptAtlas
