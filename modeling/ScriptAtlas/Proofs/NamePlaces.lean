import ScriptAtlas.Proofs.ExportStatements

/-!
# Declarations found by the place of their name

The key of a declaration is the place at which its name begins. What begins at a place can be nested:
a decorator begins with a token, and so does a quoted name. Still, of all imports of one export, and of
all classes, interfaces and enums, no two have the same key.

* `Node.OpensWith`: the word with which a name begins;
* `Node.FoundBy`: a node and its name, where the place of the name tells which node it is;
* `Node.FoundBy.eq_of_startByte_eq`: it does;
* `Node.foundBy_of_container`, `Node.EntryName.foundBy`: the constructs of which this holds;
* `Declaration.eq_of_container`, `Declaration.Made.eq_of_isAlias`: such declarations with the same key
  are the same.
-/

namespace ScriptAtlas

open List Project Syntax

namespace Syntax.Node

variable {m n c d x y name : Node}

/-! ## Words -/

/-- A token or a name: it has no parts, and it is neither a comment nor a file. -/
structure IsWord (n : Node) : Prop where
  children : n.children = []
  plain : n.label ≠ .named .comment
  inside : n.id ≠ 0 ∧ n.id < n.tree.size

theorem inside_of_label_ne (ht : n.tree.IsParsed) (h : n.label ≠ .named .program) :
    n.id ≠ 0 ∧ n.id < n.tree.size := by
  have hlt := lt_size_of_label_ne h
  refine ⟨fun hid => ?_, hlt⟩
  obtain ⟨root, hg⟩ := ht.grown
  obtain ⟨p, up, hn⟩ := exists_at hg hlt
  obtain ⟨rfl, -⟩ := hn.sits.eq_root_of_id (hn.id_eq ▸ hid)
  exact h (hn.label.trans hg.rooted.label)

theorem isWord_of_token (ht : n.tree.IsParsed) (h : n.isNamed = false) : n.IsWord := by
  have hlabel {k : Kind} : n.label ≠ .named k := by
    intro hlabel
    rw [isNamed, hlabel] at h
    cases h
  have hinside := inside_of_label_ne ht hlabel
  refine ⟨eq_nil_iff_forall_not_mem.2 fun c hc => ?_, hlabel, hinside⟩
  obtain ⟨root, hg⟩ := ht.grown
  obtain ⟨p, up, hn⟩ := exists_at hg hinside.2
  obtain ⟨j, s, hs, -⟩ := hn.exists_of_mem_children hc
  have hfits := hn.sits.fits hg.rooted
  cases hl : p.shape.label with
  | token t =>
    rw [hl] at hfits
    have hnil : p.shape.children = [] := hfits
    rw [hnil] at hs
    cases hs
  | named k => exact hlabel (hn.label.trans hl)

theorem isWord_of_isIdentifier (ht : n.tree.IsParsed) (h : n.kind?.any Kind.isIdentifier = true) :
    n.IsWord := by
  have hlabel {k : Kind} (hk : k.isIdentifier = false) : n.label ≠ .named k := by
    intro hlabel
    rw [kind?, hlabel] at h
    cases hk.symm.trans h
  exact ⟨children_eq_nil_of_isIdentifier ht h, hlabel rfl, inside_of_label_ne ht (hlabel rfl)⟩

theorem IsWord.exists_at (h : n.IsWord) {root : Shape} (hg : n.tree.Grown root) :
    ∃ p up, n.At root p up ∧ p.id ≠ 0 ∧ p.shape.children = [] ∧
      p.shape.label ≠ .named .comment := by
  obtain ⟨p, up, hn⟩ := Node.exists_at hg h.inside.2
  refine ⟨p, up, hn, hn.id_eq ▸ h.inside.1, ?_, hn.label ▸ h.plain⟩
  have hnil := h.children
  rw [Node.children, hn.entry] at hnil
  cases hcs : p.shape.children with
  | nil => rfl
  | cons s rest =>
    rw [Spot.entry, hcs] at hnil
    cases hnil

/-- What begins where a word begins is the word or stands above it. -/
theorem IsWord.eq_or_above (hn : n.IsWord) {root : Shape} {p : Spot} {up : List Spot}
    (hp : m.At root p up) (hpid : p.id ≠ 0) (hpplain : p.shape.label ≠ .named .comment)
    (htree : m.tree = n.tree) (h : m.startByte = n.startByte) :
    m = n ∨ ∃ q below, n.At root q below ∧ q.shape.label ≠ .named .comment ∧
      p.shape.start = q.shape.start ∧ p ∈ below := by
  have hg : n.tree.Grown root := htree ▸ hp.grown
  obtain ⟨q, below, hq, hqid, hqleaf, hqplain⟩ := hn.exists_at hg
  have hplt := hp.sits.start_lt hg.rooted hpid hpplain
  have hqlt := hq.sits.start_lt hg.rooted hqid hqplain
  have hstart : p.shape.start = q.shape.start := by
    rw [startByte, startByte, start, start, hp.entry, hq.entry, htree] at h
    exact hg.eq_of_byte_eq hplt.2 hqlt.2 h
  rcases hp.sits.eq_or_mem_of_within hg.rooted hq.sits hqleaf hqplain hpplain
    (Nat.le_of_eq hstart) (hstart ▸ hplt.1) hpid with rfl | hmem
  · exact .inl (by rw [hp.eq_node, hq.eq_node, htree])
  · exact .inr ⟨q, below, hq, hqplain, hstart, hmem⟩

theorem IsWord.eq_of_startByte_eq (hm : m.IsWord) (hn : n.IsWord) (ht : n.tree.IsParsed)
    (htree : m.tree = n.tree) (h : m.startByte = n.startByte) : m = n := by
  obtain ⟨root, hg⟩ := ht.grown
  obtain ⟨p, up, hp, hpid, hpleaf, hpplain⟩ := hm.exists_at (htree ▸ hg)
  refine (hn.eq_or_above hp hpid hpplain htree h).resolve_right ?_
  rintro ⟨q, below, hq, -, -, hmem⟩
  -- what stands above another spot has parts
  obtain ⟨k, c, hc, -⟩ := hq.sits.exists_part_of_mem hmem
  rw [hpleaf] at hc
  cases hc

/-! ## Words at the beginning -/

/-- What a name begins with: the name is a word, or it is a quoted text or a decorator and begins with a
token. -/
inductive OpensWith (n : Node) : Node → Prop
  | itself (h : n.IsWord) : OpensWith n n
  | part {c : Node} (hk : n.hasKindIn [.string, .decorator] = true)
      (h : n.children.head? = some c) (hc : c.isNamed = false) : OpensWith n c

theorem kind_of_hasKindIn {ks : List Kind} (h : n.hasKindIn ks = true) : ∃ k ∈ ks, n.kind? = some k := by
  obtain ⟨k, hk, hmem⟩ := (Option.any_eq_true _ _).1 h
  exact ⟨k, contains_iff_mem.1 hmem, hk⟩

theorem startByte_of_head? {k : Kind} (ht : n.tree.IsParsed) (hk : n.kind? = some k)
    (hprogram : k ≠ .program) (h : n.children.head? = some c) : c.startByte = n.startByte := by
  obtain ⟨root, p, up, hn, hid⟩ := exists_at_of_kind? ht hk hprogram
  obtain ⟨s, hs, hc⟩ := hn.exists_of_head?_children h
  have hstart := ((hn.sits.sound hn.grown.rooted hid).head hs).1
  have htree := tree_of_mem_children (mem_of_mem_head? h)
  rw [startByte, startByte, start, start, hc.entry, hn.entry, htree]
  exact congrArg (fun i => (n.tree.source.mark i).byte) hstart

namespace OpensWith

theorem isWord (ht : n.tree.IsParsed) (h : n.OpensWith c) : c.IsWord := by
  cases h with
  | itself h => exact h
  | part _ h hc =>
    exact isWord_of_token (tree_of_mem_children (mem_of_mem_head? h) ▸ ht) hc

theorem tree_eq (h : n.OpensWith c) : c.tree = n.tree := by
  cases h with
  | itself => rfl
  | part _ h => exact tree_of_mem_children (mem_of_mem_head? h)

theorem startByte_eq (ht : n.tree.IsParsed) (h : n.OpensWith c) : c.startByte = n.startByte := by
  cases h with
  | itself => rfl
  | part hk h _ =>
    obtain ⟨k, hmem, hk⟩ := kind_of_hasKindIn hk
    refine startByte_of_head? ht hk ?_ h
    rintro rfl
    revert hmem
    decide

/-- Of two names that begin at one place, the one begins with the other unless they are the same. -/
theorem eq_or_parent? (hm : m.OpensWith c) (hn : n.OpensWith d) (ht : n.tree.IsParsed)
    (htree : m.tree = n.tree) (h : m.startByte = n.startByte) :
    m = n ∨ (∃ q, m.parent? = some q ∧ q.hasKindIn [.string, .decorator] = true) ∨
      ∃ q, n.parent? = some q ∧ q.hasKindIn [.string, .decorator] = true := by
  have hmt : m.tree.IsParsed := htree ▸ ht
  have heq : c = d := by
    refine (hm.isWord hmt).eq_of_startByte_eq (hn.isWord ht) (hn.tree_eq ▸ ht) ?_ ?_
    · rw [hm.tree_eq, hn.tree_eq, htree]
    · rw [hm.startByte_eq hmt, hn.startByte_eq ht, h]
  cases hm with
  | itself hmword =>
    cases hn with
    | itself => exact .inl heq
    | part hk hhead _ =>
      have hparent := parent?_of_mem_children ht (mem_of_mem_head? hhead)
      exact .inr (.inl ⟨n, heq ▸ hparent, hk⟩)
  | part hk hhead _ =>
    have hparent := parent?_of_mem_children hmt (mem_of_mem_head? hhead)
    cases hn with
    | itself => exact .inr (.inr ⟨m, heq ▸ hparent, hk⟩)
    | part _ hhead' _ =>
      have hparent' := parent?_of_mem_children ht (mem_of_mem_head? hhead')
      rw [heq] at hparent
      exact .inl (Option.some.inj (hparent.symm.trans hparent'))

end OpensWith

/-! ## Nodes and the places of their names -/

/-- A node and its name: a part of it, or the node itself, a word in an import clause. -/
inductive FoundBy (n : Node) : Node → Prop
  | part {name c : Node} (hname : name ∈ n.children) (hopens : name.OpensWith c)
      (hk : n.hasKindIn [.string, .decorator, .importClause] = false) : FoundBy n name
  | itself (hword : n.IsWord) (hclause : n.parentHasKind .importClause = true) : FoundBy n n

namespace FoundBy

theorem opensWith (h : n.FoundBy name) : ∃ c, name.OpensWith c := by
  cases h with
  | part _ hopens _ => exact ⟨_, hopens⟩
  | itself hword _ => exact ⟨_, .itself hword⟩

theorem tree_eq (h : n.FoundBy name) : name.tree = n.tree := by
  cases h with
  | part hname _ _ => exact tree_of_mem_children hname
  | itself => rfl

theorem mem_nodes (ht : n.tree.IsParsed) (h : n.FoundBy name) : name ∈ n.tree.nodes := by
  cases h with
  | part hname _ _ => exact mem_nodes_of_mem_children ht hname
  | itself hword _ => exact mem_nodes_of_lt hword.inside.2

theorem not_opening (ht : n.tree.IsParsed) (h : n.FoundBy name) :
    ¬∃ q, name.parent? = some q ∧ q.hasKindIn [.string, .decorator] = true := by
  rintro ⟨q, hq, hopens⟩
  obtain ⟨k, hmem, hqk⟩ := kind_of_hasKindIn hopens
  cases h with
  | part hname _ hk =>
    cases hq.symm.trans (parent?_of_mem_children ht hname)
    rw [hasKindIn, hqk] at hk
    revert hmem hk
    cases k <;> decide
  | itself _ hclause =>
    rw [parentHasKind, hq, Option.any_some, hasKind, hqk] at hclause
    revert hmem hclause
    cases k <;> decide

/-- Nodes whose names begin at one place are the same, and so are the names. -/
theorem eq_of_startByte_eq (hm : m.FoundBy x) (hn : n.FoundBy y) (ht : n.tree.IsParsed)
    (htree : m.tree = n.tree) (h : x.startByte = y.startByte) : m = n ∧ x = y := by
  obtain ⟨c, hc⟩ := hm.opensWith
  obtain ⟨d, hd⟩ := hn.opensWith
  have hmt : m.tree.IsParsed := htree ▸ ht
  have hxy : x.tree = y.tree := by rw [hm.tree_eq, hn.tree_eq, htree]
  obtain rfl : x = y := by
    rcases hc.eq_or_parent? hd (hn.tree_eq ▸ ht) hxy h with heq | hopening | hopening
    · exact heq
    · exact absurd hopening (hm.not_opening hmt)
    · exact absurd hopening (hn.not_opening ht)
  have hapart {p q : Node} (hp : p.hasKindIn [.string, .decorator, .importClause] = false)
      (hpq : q.parent? = some p) : ¬q.parentHasKind .importClause = true := by
    intro hclause
    rw [parentHasKind, hpq, Option.any_some] at hclause
    rw [hasKindIn, kind?_of_hasKind hclause] at hp
    cases hp
  refine ⟨?_, rfl⟩
  cases hm with
  | part hx _ hk =>
    have hparent := parent?_of_mem_children hmt hx
    cases hn with
    | part hy _ _ =>
      exact Option.some.inj (hparent.symm.trans (parent?_of_mem_children ht hy))
    | itself _ hclause => exact absurd hclause (hapart hk hparent)
  | itself _ hclause =>
    cases hn with
    | part hy _ hk => exact absurd hclause (hapart hk (parent?_of_mem_children ht hy))
    | itself => rfl

end FoundBy

/-! ## Types and imports -/

theorem houses_outline (ht : n.tree.IsParsed)
    (hk : n.hasKindIn Declaration.containerKinds = true) : Houses n.outline := by
  obtain ⟨k, hmem, hk⟩ := kind_of_hasKindIn hk
  have hrole : k.role = .housing ∧ k ≠ .program := by
    revert hmem
    cases k <;> decide
  obtain ⟨root, p, up, hn, -⟩ := exists_at_of_kind? ht hk hrole.2
  have hfits := hn.fits hk
  rw [hrole.1] at hfits
  rw [hn.outline]
  exact hfits.2

theorem head?_outline {k : Kind} (ht : n.tree.IsParsed) (hk : n.kind? = some k)
    (hprogram : k ≠ .program) (h : n.children.head? = some c) :
    n.outline.head? = some (c.label, c.entry.field) := by
  obtain ⟨root, p, up, hn, hid⟩ := exists_at_of_kind? ht hk hprogram
  obtain ⟨s, hs, hc⟩ := hn.exists_of_head?_children h
  have hplain : c.label ≠ .named .comment := by
    rw [hc.label]
    exact ((hn.sits.sound hn.grown.rooted hid).head hs).2
  obtain ⟨rest, hrest⟩ := head?_eq_some_iff.1 h
  have hkeep : (c.label != .named .comment) = true := bne_iff_ne.2 hplain
  rw [outline, hrest, map_cons, filter_cons, if_pos hkeep]
  rfl

theorem opensWith_of_opened {k : Kind} (ht : n.tree.IsParsed) (hk : n.kind? = some k)
    (hmem : k ∈ [Kind.string, .decorator]) : ∃ c, n.OpensWith c := by
  have hprogram : k ≠ .program := by
    rintro rfl
    revert hmem
    decide
  obtain ⟨root, p, up, hn, hid⟩ := exists_at_of_kind? ht hk hprogram
  cases hhead : n.children.head? with
  | none =>
    have hlabel := label_eq_of_kind? hk
    have hinside := inside_of_label_ne ht (hlabel ▸ fun h => hprogram (Label.named.inj h))
    refine ⟨n, .itself ⟨head?_eq_none_iff.1 hhead, ?_, hinside⟩⟩
    rw [hlabel]
    revert hmem
    cases k <;> decide
  | some c =>
    refine ⟨c, .part ?_ hhead ?_⟩
    · rw [hasKindIn, hk, Option.any_some]
      exact contains_iff_mem.2 hmem
    · obtain ⟨s, hs, hc⟩ := hn.exists_of_head?_children hhead
      have hfits := hn.fits hk
      rw [isNamed, hc.label]
      simp only [mem_cons, not_mem_nil, or_false] at hmem
      rcases hmem with rfl | rfl
      · exact (hfits.2 s hs).1
      · exact (hfits s hs).1

section Container

variable (ht : n.tree.IsParsed) (hk : n.hasKindIn Declaration.containerKinds = true)

include hk

theorem plain_of_container : n.hasKindIn [.string, .decorator, .importClause] = false ∧
    ∃ k, n.kind? = some k ∧ k ≠ .program := by
  obtain ⟨k, hmem, hkind⟩ := kind_of_hasKindIn hk
  rw [hasKindIn, hkind, Option.any_some]
  refine ⟨?_, k, rfl, ?_⟩ <;> revert hmem <;> cases k <;> decide

include ht

theorem label_of_container (h : n.field? .name = some name) :
    name.label = .named .typeIdentifier ∨ name.label = .named .identifier :=
  (houses_outline ht hk).name _ (mem_outline_of_field? ht h) rfl

theorem label_of_container_head (h : n.children.head? = some c) :
    c.isNamed = false ∨ c.label = .named .decorator := by
  obtain ⟨-, k, hkind, hprogram⟩ := plain_of_container hk
  exact (houses_outline ht hk).first _ (head?_outline ht hkind hprogram h)

theorem foundBy_of_container_name (h : n.field? .name = some name) : n.FoundBy name := by
  have hchild := mem_of_find?_eq_some h
  have hnt : name.tree.IsParsed := tree_of_mem_children hchild ▸ ht
  refine .part hchild (.itself (isWord_of_isIdentifier hnt ?_)) (plain_of_container hk).1
  rcases label_of_container ht hk h with hlabel | hlabel <;> rw [kind?, hlabel] <;> rfl

theorem foundBy_of_container_head (h : n.children.head? = some c) : n.FoundBy c := by
  have hchild := mem_of_mem_head? h
  have hct : c.tree.IsParsed := tree_of_mem_children hchild ▸ ht
  have hplain := (plain_of_container hk).1
  rcases label_of_container_head ht hk h with htoken | hdecorator
  · exact .part hchild (.itself (isWord_of_token hct htoken)) hplain
  · have hkind : c.kind? = some .decorator := by
      rw [kind?, hdecorator]
      rfl
    obtain ⟨d, hd⟩ := opensWith_of_opened hct hkind (by decide)
    exact .part hchild hd hplain

theorem foundBy_of_container (h : (n.declarationName? <|> n.children.head?) = some name) :
    n.FoundBy name := by
  rcases eq_or_eq_of_orElse h with hname | hfirst
  · have hfield : n.field? .name = some name := by
      obtain ⟨k, hmem, hkind⟩ := kind_of_hasKindIn hk
      rw [declarationName?, hkind] at hname
      simp only [Declaration.containerKinds, mem_cons, not_mem_nil, or_false] at hmem
      rcases hmem with rfl | rfl | rfl | rfl | rfl <;> exact hname
    exact foundBy_of_container_name ht hk hfield
  · exact foundBy_of_container_head ht hk hfirst

end Container

theorem EntryName.foundBy (ht : n.tree.IsParsed) (hkind : n.declarationKind? = some .importName)
    (h : n.EntryName name) : n.FoundBy name := by
  cases h with
  | itself hk =>
    refine .itself (isWord_of_isIdentifier ht (by rw [hk]; rfl)) ?_
    rw [declarationKind?, hk] at hkind
    by_contra hclause
    rw [if_neg hclause] at hkind
    cases hkind
  | part hk h =>
    have hchild := mem_of_find?_eq_some h
    have hnt : name.tree.IsParsed := tree_of_mem_children hchild ▸ ht
    have hplain : n.hasKindIn [.string, .decorator, .importClause] = false := by
      rw [hasKindIn, hk]
      rfl
    obtain ⟨root, p, up, hn, -⟩ := exists_at_of_kind? ht hk (by decide)
    obtain ⟨j, s, hs, hc, hfield, hsound⟩ := hn.exists_of_field? h
    have htight := ((hn.fits hk).1 s hs).2 (by rw [hfield]; exact Option.some_ne_none _)
    rcases htight with hnil | hstring
    · have hword : name.IsWord := by
        refine ⟨?_, ?_, ?_, ?_⟩
        · rw [children, hc.entry, Spot.entry]
          simp [hnil, Shape.numbers]
        · rw [hc.label]
          exact hsound.plain_of_field hfield
        · intro hid
          cases (hc.sits.eq_root_of_id (hc.id_eq ▸ hid)).2
        · exact hc.lt_size
      exact .part hchild (.itself hword) hplain
    · have hkname : name.kind? = some .string := by
        rw [hc.kind?, show s.label = _ from hstring]
        rfl
      obtain ⟨c, hc⟩ := opensWith_of_opened hnt hkname (by decide)
      exact .part hchild hc hplain

end Syntax.Node

/-! ## Declarations with the same key -/

attribute [ext] Declaration

namespace Declaration

variable {idx : Index} {a b : Declaration}

/-- Declarations that are found by the place of their name are the same if they have the same key and
their node decides their kind. -/
theorem eq_of_foundBy (hwell : idx.WellFormed) (hparsed : idx.Parsed) (ha : a.PlacedIn idx)
    (hb : b.PlacedIn idx) (hafound : a.node.FoundBy a.nameNode) (hbfound : b.node.FoundBy b.nameNode)
    (hkind : a.node = b.node → a.kind = b.kind) (hkey : a.key = b.key) : a = b := by
  obtain ⟨hfile, -, hstart⟩ := ha.of_key_eq hb hwell hkey
  have htree : a.node.tree = b.node.tree := by rw [ha.2.node_tree, hb.2.node_tree, hfile]
  obtain ⟨hnode, hname⟩ :=
    hafound.eq_of_startByte_eq hbfound (hb.node_parsed hparsed) htree hstart
  exact Declaration.ext hfile (hkind hnode) hnode hname

theorem eq_of_container {f g : SourceFile} {m n : Node} (hwell : idx.WellFormed)
    (hparsed : idx.Parsed) (hf : f ∈ idx.files.toList) (hg : g ∈ idx.files.toList)
    (hm : m.tree = f.tree) (hn : n.tree = g.tree) (hmk : m.hasKindIn containerKinds = true)
    (hnk : n.hasKindIn containerKinds = true) (ha : ofNode? f m = some a) (hb : ofNode? g n = some b)
    (hkey : a.key = b.key) : a = b := by
  have hfound {x : SourceFile} {y : Node} {e : Declaration} (hx : x ∈ idx.files.toList)
      (hy : y.tree = x.tree) (hk : y.hasKindIn containerKinds = true) (he : ofNode? x y = some e) :
      e.node.FoundBy e.nameNode ∧ e.node.declarationKind? = some e.kind := by
    obtain ⟨kind, hkind, he⟩ := Option.bind_eq_some_iff.1 he
    obtain ⟨name, hname, rfl⟩ := Option.map_eq_some_iff.1 he
    exact ⟨Node.foundBy_of_container (hy ▸ hparsed x hx) hk hname, hkind⟩
  obtain ⟨hafound, hakind⟩ := hfound hf hm hmk ha
  obtain ⟨hbfound, hbkind⟩ := hfound hg hn hnk hb
  refine eq_of_foundBy hwell hparsed ((liesIn_of_ofNode? ha hm).placed hf)
    ((liesIn_of_ofNode? hb hn).placed hg) hafound hbfound (fun hnode => ?_) hkey
  rw [hnode, hbkind] at hakind
  exact (Option.some.inj hakind).symm

theorem Made.foundBy_of_isAlias (hparsed : idx.Parsed) (ha : a.PlacedIn idx) (hmade : a.Made)
    (halias : a.isAlias = true) : a.kind = .importName ∧ a.node.FoundBy a.nameNode := by
  obtain ⟨hkind, hentry⟩ := Bool.and_eq_true_iff.1 halias
  have hkind : a.kind = .importName := beq_iff_eq.1 hkind
  have ht := ha.node_parsed hparsed
  have hdeclares : a.node.declarationKind? = some .importName := by
    rcases hmade.kind ht with hown | hloose
    · rw [hown, hkind]
    · simp [Loose, hkind] at hloose
  exact ⟨hkind, (hmade.bears.entry ht hdeclares hentry).foundBy ht hdeclares⟩

theorem Made.eq_of_isAlias (hwell : idx.WellFormed) (hparsed : idx.Parsed) (ha : a.PlacedIn idx)
    (hb : b.PlacedIn idx) (hamade : a.Made) (hbmade : b.Made) (haalias : a.isAlias = true)
    (hbalias : b.isAlias = true) (hkey : a.key = b.key) : a = b := by
  obtain ⟨hakind, hafound⟩ := hamade.foundBy_of_isAlias hparsed ha haalias
  obtain ⟨hbkind, hbfound⟩ := hbmade.foundBy_of_isAlias hparsed hb hbalias
  exact eq_of_foundBy hwell hparsed ha hb hafound hbfound (fun _ => hakind.trans hbkind.symm) hkey

end Declaration

end ScriptAtlas
