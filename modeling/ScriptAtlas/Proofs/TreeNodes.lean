import ScriptAtlas.Proofs.Placement
import ScriptAtlas.Proofs.SyntaxTrees

/-!
# Nodes of parsed trees

What the soundness of shapes says about the nodes of a parsed tree: going down and going up fit
together, distinct places have distinct bytes, and the parts of a node are as its kind demands.

* `Node.ancestors_of_mem_children`: what stands around a child;
* `Node.IsName`: a node that names something, so that nothing begins with it that is called;
* `Node.LeadsTo`: an identifier that names what a call calls;
* `Node.startByte_ne_of_leadsTo`: the two never begin at the same byte.
-/

namespace ScriptAtlas.Syntax

open List

/-! ## Places -/

/-- The one mark stands before the other. -/
structure Mark.Before (a b : Mark) : Prop where
  byte : a.byte < b.byte
  line : a.line ≤ b.line

theorem Mark.Before.trans {a b c : Mark} (hab : a.Before b) (hbc : b.Before c) : a.Before c :=
  ⟨Nat.lt_trans hab.byte hbc.byte, Nat.le_trans hab.line hbc.line⟩

namespace Source

theorem before_advance (m : Mark) (c : Char) : m.Before (m.advance c) := by
  unfold Mark.advance
  split
  · exact ⟨Nat.lt_succ_self _, Nat.le_succ _⟩
  · exact ⟨Nat.lt_add_of_pos_right c.utf8Size_pos, Nat.le_refl _⟩

theorem eq_or_before_of_mem_marksFrom {m x : Mark} {cs : List Char} (h : x ∈ marksFrom m cs) :
    x = m ∨ m.Before x := by
  induction cs generalizing m with
  | nil => exact .inl (mem_singleton.1 h)
  | cons c cs ih =>
    rcases mem_cons.1 h with rfl | h
    · exact .inl rfl
    · rcases ih h with rfl | hlater
      · exact .inr (before_advance m c)
      · exact .inr ((before_advance m c).trans hlater)

theorem pairwise_marksFrom (m : Mark) (cs : List Char) : (marksFrom m cs).Pairwise Mark.Before := by
  induction cs generalizing m with
  | nil => exact pairwise_singleton ..
  | cons c cs ih =>
    refine pairwise_cons.2 ⟨fun x hx => ?_, ih _⟩
    rcases eq_or_before_of_mem_marksFrom hx with rfl | hlater
    · exact before_advance m c
    · exact (before_advance m c).trans hlater

theorem mark_ofString (text : String) (k : Nat) :
    ∃ hk : min k (ofString text).size < (marksFrom .start text.toList).length,
      (ofString text).mark k = (marksFrom .start text.toList)[min k (ofString text).size] := by
  have hsize : (ofString text).size = text.toList.length := by simp [ofString, size]
  have hlength := length_marksFrom .start text.toList
  refine ⟨by omega, ?_⟩
  by_cases hk : k ≤ text.toList.length
  · have hmin : min k (ofString text).size = k := by omega
    have hlt : k < (marksFrom .start text.toList).length := by omega
    simp only [hmin]
    simp [mark, ofString, hlt]
  · have hmin : min k (ofString text).size = (marksFrom .start text.toList).length - 1 := by omega
    have hge : (marksFrom .start text.toList).length ≤ k := by omega
    have hlt : (marksFrom .start text.toList).length - 1 <
        (marksFrom .start text.toList).length := by
      omega
    simp only [hmin]
    simp [mark, ofString, Array.back?, getElem?_eq_none hge, hlt]

theorem line_mark_le (text : String) {i j : Nat} (h : i ≤ j) :
    ((ofString text).mark i).line ≤ ((ofString text).mark j).line := by
  obtain ⟨hi, hmi⟩ := mark_ofString text i
  obtain ⟨hj, hmj⟩ := mark_ofString text j
  rw [hmi, hmj]
  have hmin : min i (ofString text).size ≤ min j (ofString text).size := by omega
  rcases Nat.lt_or_eq_of_le hmin with hlt | heq
  · exact (pairwise_iff_getElem.1 (pairwise_marksFrom .start text.toList) _ _ hi hj hlt).line
  · simp only [heq]
    exact Nat.le_refl _

theorem eq_of_byte_eq (text : String) {i j : Nat} (hi : i < (ofString text).size)
    (hj : j < (ofString text).size)
    (h : ((ofString text).mark i).byte = ((ofString text).mark j).byte) : i = j := by
  obtain ⟨hi', hmi⟩ := mark_ofString text i
  obtain ⟨hj', hmj⟩ := mark_ofString text j
  rw [hmi, hmj] at h
  have hsorted := pairwise_iff_getElem.1 (pairwise_marksFrom .start text.toList)
  have hmini : min i (ofString text).size = i := Nat.min_eq_left (Nat.le_of_lt hi)
  have hminj : min j (ofString text).size = j := Nat.min_eq_left (Nat.le_of_lt hj)
  rcases Nat.lt_trichotomy i j with hlt | heq | hlt
  · exact absurd h (Nat.ne_of_lt (hsorted _ _ hi' hj' (by omega)).byte)
  · exact heq
  · exact absurd h (Nat.ne_of_gt (hsorted _ _ hj' hi' (by omega)).byte)

end Source

/-! ## Trees that number a sound shape -/

/-- The tree of some text. -/
def Tree.IsParsed (t : Tree) : Prop := ∃ text markup, t = Tree.parse text markup

/-- The tree numbers the nodes of a sound shape. -/
structure Tree.Grown (t : Tree) (root : Shape) : Prop where
  entries : t.entries = root.enter [] #[]
  rooted : Rooted t.source.size root
  eq_of_byte_eq : ∀ {i j}, i < t.source.size → j < t.source.size →
    (t.source.mark i).byte = (t.source.mark j).byte → i = j
  line_mark_le : ∀ {i j}, i ≤ j → (t.source.mark i).line ≤ (t.source.mark j).line

theorem Tree.IsParsed.grown {t : Tree} (h : t.IsParsed) : ∃ root, t.Grown root := by
  obtain ⟨text, markup, rfl⟩ := h
  exact ⟨_, rfl, rooted_parse { chars := (Source.ofString text).chars, markup },
    Source.eq_of_byte_eq text, Source.line_mark_le text⟩

namespace Node

/-- The node stands at a spot of the shape that its tree numbers, below the given spots. -/
structure At (n : Node) (root : Shape) (p : Spot) (up : List Spot) : Prop where
  grown : n.tree.Grown root
  sits : Sits root p up
  id_eq : n.id = p.id

variable {n m c : Node} {root : Shape} {p q : Spot} {up : List Spot}

namespace At

theorem entry (h : n.At root p up) : n.entry = p.entry up := by
  have hentry := h.sits.entry
  rw [← h.grown.entries, ← h.id_eq] at hentry
  rw [Node.entry, hentry, Option.getD_some]

theorem label (h : n.At root p up) : n.label = p.shape.label := congrArg Entry.label h.entry

theorem kind? (h : n.At root p up) : n.kind? = p.shape.label.kind? := congrArg Label.kind? h.label

theorem label_of_kind? {k : Kind} (h : n.At root p up) (hk : n.kind? = some k) :
    p.shape.label = .named k := by
  rw [h.kind?] at hk
  cases hlabel : p.shape.label with
  | token s =>
    rw [hlabel] at hk
    cases hk
  | named k' =>
    rw [hlabel] at hk
    exact congrArg Label.named (Option.some.inj hk)

theorem fits {k : Kind} (h : n.At root p up) (hk : n.kind? = some k) :
    k.role.Fits p.shape.children := by
  have hfits := h.sits.fits h.grown.rooted
  rwa [h.label_of_kind? hk] at hfits

theorem ancestors (h : n.At root p up) : n.ancestors = up.map fun q => n.tree.node q.id := by
  rw [Node.ancestors, h.entry]
  exact map_map

theorem eq_node (h : n.At root p up) : n = n.tree.node p.id := by
  rw [← h.id_eq]
  rfl

end At

theorem exists_at (hg : n.tree.Grown root) (h : n.id < n.tree.size) : ∃ p up, n.At root p up := by
  rw [Tree.size, hg.entries] at h
  obtain ⟨s, up, hsits⟩ := exists_sits h
  exact ⟨⟨n.id, s⟩, up, hg, hsits, rfl⟩

/-- Numbers beyond the end of a tree have the entry of an empty file. -/
theorem lt_size_of_entry_ne (h : n.entry ≠ default) : n.id < n.tree.size := by
  by_contra hge
  refine h ?_
  rw [entry, Array.getElem?_eq_none (Nat.le_of_not_lt hge), Option.getD_none]

theorem lt_size_of_label_ne (h : n.label ≠ .named .program) : n.id < n.tree.size := by
  refine lt_size_of_entry_ne fun hentry => h ?_
  rw [label, hentry]
  rfl

theorem lt_size_of_mem_children (h : c ∈ n.children) : n.id < n.tree.size := by
  refine lt_size_of_entry_ne fun hentry => ?_
  rw [children, hentry] at h
  cases h

theorem exists_at_of_mem_children (ht : n.tree.IsParsed) (h : c ∈ n.children) :
    ∃ root p up, n.At root p up := by
  obtain ⟨root, hg⟩ := ht.grown
  exact ⟨root, exists_at hg (lt_size_of_mem_children h)⟩

theorem lt_size_of_mem_ancestors (h : m ∈ n.ancestors) : n.id < n.tree.size := by
  refine lt_size_of_entry_ne fun hentry => ?_
  rw [ancestors, hentry] at h
  cases h

theorem mem_nodes_of_lt (h : n.id < n.tree.size) : n ∈ n.tree.nodes :=
  mem_map.2 ⟨n.id, mem_range.2 h, rfl⟩

end Node

theorem Shape.mem_numbers_iff {i j : Nat} {cs : List Shape} :
    j ∈ numbers i cs ↔ ∃ k c, cs[k]? = some c ∧ j = i + countAll (cs.take k) := by
  induction cs generalizing i with
  | nil => simp [numbers]
  | cons c cs ih =>
    rw [numbers, mem_cons, ih]
    constructor
    · rintro (rfl | ⟨k, d, hd, rfl⟩)
      · exact ⟨0, c, rfl, rfl⟩
      · exact ⟨k + 1, d, hd, Nat.add_assoc ..⟩
    · rintro ⟨_ | k, d, hd, rfl⟩
      · exact .inl rfl
      · exact .inr ⟨k, d, hd, (Nat.add_assoc ..).symm⟩

namespace Node

variable {n m c : Node} {root : Shape} {p q : Spot} {up : List Spot}

theorem At.exists_of_mem_children (hn : n.At root p up) (hc : c ∈ n.children) :
    ∃ j s, s ∈ p.shape.children ∧ c.At root ⟨j, s⟩ (p :: up) := by
  obtain ⟨i, hi, rfl⟩ := mem_map.1 hc
  rw [hn.entry] at hi
  obtain ⟨k, s, hs, rfl⟩ := Shape.mem_numbers_iff.1 hi
  exact ⟨_, s, mem_of_getElem? hs, hn.grown, hn.sits.part hs, rfl⟩

theorem At.lt_size (h : n.At root p up) : n.id < n.tree.size := by
  obtain ⟨hlt, -⟩ := Array.getElem?_eq_some_iff.1 h.sits.entry
  rw [Tree.size, h.grown.entries, h.id_eq]
  exact hlt

theorem mem_nodes_of_mem_children (ht : n.tree.IsParsed) (hc : c ∈ n.children) : c ∈ n.tree.nodes := by
  obtain ⟨root, p, up, hn⟩ := exists_at_of_mem_children ht hc
  obtain ⟨j, s, -, hat⟩ := hn.exists_of_mem_children hc
  rw [← tree_of_mem_children hc]
  exact mem_nodes_of_lt hat.lt_size

theorem At.isSome_field? {f : Field} (hn : n.At root p up)
    (h : ∃ s ∈ p.shape.children, s.field = some f) : (n.field? f).isSome = true := by
  obtain ⟨s, hs, hfield⟩ := h
  obtain ⟨k, hk⟩ := mem_iff_getElem?.1 hs
  have hmem : n.tree.node (p.id + 1 + Shape.countAll (p.shape.children.take k)) ∈ n.children := by
    rw [children, hn.entry]
    exact mem_map_of_mem (Shape.mem_numbers_iff.2 ⟨k, s, hk, rfl⟩)
  have hc : (n.tree.node (p.id + 1 + Shape.countAll (p.shape.children.take k))).At root _ _ :=
    ⟨hn.grown, hn.sits.part hk, rfl⟩
  refine find?_isSome.2 ⟨_, hmem, ?_⟩
  rw [hc.entry]
  exact beq_iff_eq.2 hfield

theorem At.exists_of_head?_children (hn : n.At root p up) (hc : n.children.head? = some c) :
    ∃ s, p.shape.children.head? = some s ∧ c.At root ⟨p.id + 1, s⟩ (p :: up) := by
  rw [children, hn.entry, head?_map] at hc
  obtain ⟨i, hi, rfl⟩ := Option.map_eq_some_iff.1 hc
  cases hcs : p.shape.children with
  | nil =>
    rw [Spot.entry, hcs] at hi
    cases hi
  | cons s rest =>
    rw [Spot.entry, hcs] at hi
    cases hi
    exact ⟨s, rfl, hn.grown, hn.sits.part (k := 0) (by rw [hcs]; rfl), rfl⟩

theorem At.exists_of_field? {f : Field} (hn : n.At root p up) (hc : n.field? f = some c) :
    ∃ j s, s ∈ p.shape.children ∧ c.At root ⟨j, s⟩ (p :: up) ∧ s.field = some f ∧
      s.Sound n.tree.source.size := by
  obtain ⟨j, s, hs, hcat⟩ := hn.exists_of_mem_children (mem_of_find?_eq_some hc)
  have hfield := find?_some hc
  rw [hcat.entry] at hfield
  refine ⟨j, s, hs, hcat, beq_iff_eq.1 hfield, hcat.sits.sound hn.grown.rooted fun hid => ?_⟩
  cases (hcat.sits.eq_root_of_id hid).2

theorem kind?_ne_comment_of_field? (ht : n.tree.IsParsed) {f : Field} (hc : n.field? f = some c) :
    c.kind? ≠ some .comment := by
  obtain ⟨root, p, up, hn⟩ := exists_at_of_mem_children ht (mem_of_find?_eq_some hc)
  obtain ⟨j, s, -, hcat, hfield, hsound⟩ := hn.exists_of_field? hc
  exact fun hk => hsound.plain_of_field hfield (hcat.label_of_kind? hk)

theorem ancestors_of_mem_children (ht : n.tree.IsParsed) (hc : c ∈ n.children) :
    c.ancestors = n :: n.ancestors := by
  obtain ⟨root, p, up, hn⟩ := exists_at_of_mem_children ht hc
  obtain ⟨j, s, -, hcat⟩ := hn.exists_of_mem_children hc
  rw [hcat.ancestors, hn.ancestors, tree_of_mem_children hc, map_cons, ← hn.eq_node]

theorem ancestors_of_append (ht : n.tree.IsParsed) {front rest : List Node}
    (h : n.ancestors = front ++ m :: rest) : m.ancestors = rest := by
  obtain ⟨root, hg⟩ := ht.grown
  have hmem : m ∈ n.ancestors := by simp [h]
  obtain ⟨p, up, hn⟩ := exists_at hg (lt_size_of_mem_ancestors hmem)
  rw [hn.ancestors] at h
  obtain ⟨front', rest', rfl, -, hrest⟩ := map_eq_append_iff.1 h
  obtain ⟨q, above, rfl, rfl, rfl⟩ := map_eq_cons_iff.1 hrest
  have hq : (n.tree.node q.id).At root q above := ⟨hg, hn.sits.of_append, rfl⟩
  exact hq.ancestors

theorem parent?_eq_head? (n : Node) : n.parent? = n.ancestors.head? := by
  rw [parent?, ancestors, head?_map]

theorem parent?_of_mem_children (ht : n.tree.IsParsed) (hc : c ∈ n.children) :
    c.parent? = some n := by
  rw [parent?_eq_head?, ancestors_of_mem_children ht hc]
  rfl

theorem mem_children_of_parent? (ht : c.tree.IsParsed) (h : c.parent? = some n) : c ∈ n.children := by
  obtain ⟨root, hg⟩ := ht.grown
  rw [parent?_eq_head?] at h
  obtain ⟨p, up, hcat⟩ := exists_at hg (lt_size_of_mem_ancestors (mem_of_mem_head? h))
  rw [hcat.ancestors] at h
  obtain ⟨hg, hsits, hid⟩ := hcat
  cases hsits with
  | root => cases h
  | @part q up hq k s hs =>
    obtain rfl := Option.some.inj h
    have hnat : (c.tree.node q.id).At root q up := ⟨hg, hq, rfl⟩
    rw [children, hnat.entry]
    exact mem_map.2 ⟨c.id, Shape.mem_numbers_iff.2 ⟨k, s, hs, hid⟩, rfl⟩

end Node

/-! ## Names and calls -/

/-- What may stand between the name of what is called and the call: accesses and wrappers. -/
def Kind.leadsOn (k : Kind) : Bool := k == .memberExpression || k.isTransparentWrapper

namespace Kind

variable {k : Kind}

theorem role_of_isIdentifier : k.isIdentifier = true → k.role = .leaf := by
  cases k <;> decide

theorem role_of_leadsOn : k.leadsOn = true → k.role = .free ∨ k.role = .member := by
  cases k <;> decide

theorem role_of_isCall : (Label.named k).isCall = true → k.role = .free := by
  cases k <;> decide

theorem role_of_isFunctionLike : k.isFunctionLike = true →
    k.role = .function ∨ k.role = .method ∨ k.role = .arrow := by
  cases k <;> decide

theorem mem_of_leadsOn : k.leadsOn = true →
    k ∈ [.memberExpression, .parenthesizedExpression, .asExpression, .satisfiesExpression,
      .nonNullExpression, .typeAssertion] := by
  cases k <;> decide

/-- Constructs that restrict their parts do not stand between a name and a call. -/
theorem outside_of_role (hfree : k.role ≠ .free) (hmember : k.role ≠ .member) :
    (Label.named k).isCall = false ∧ k.leadsOn = false := by
  constructor
  · rw [Bool.eq_false_iff]
    exact fun h => hfree (role_of_isCall h)
  · rw [Bool.eq_false_iff]
    exact fun h => (role_of_leadsOn h).elim hfree hmember

end Kind

namespace Sits

variable {n : Nat} {root : Shape} {p t c : Spot} {up w rest : List Spot}

/-- What begins where a called name begins, but with no call, stands below the call. -/
theorem eq_or_mem_of_start_eq (hr : Rooted n root) (hp : Sits root p up) (hid : p.id ≠ 0)
    (hplain : p.shape.label ≠ .named .comment) (hhead : p.shape.HeadFree)
    (ht : Sits root t (w ++ c :: rest)) (hleaf : t.shape.children = [])
    (htplain : t.shape.label ≠ .named .comment) (hcall : c.shape.label.isCall = true)
    (hstart : p.shape.start = t.shape.start) : p = t ∨ p ∈ w := by
  have hlt := (hp.start_lt hr hid hplain).1
  rw [hstart] at hlt
  rcases hp.eq_or_mem_of_within hr ht hleaf htplain hplain (Nat.le_of_eq hstart) hlt hid with h | h
  · exact .inl h
  rcases mem_append.1 h with h | h
  · exact .inr h
  have hc : Sits root c rest := ht.of_append
  have hcplain : c.shape.label ≠ .named .comment := by
    intro hlabel
    rw [hlabel] at hcall
    cases hcall
  have hcid : c.id ≠ 0 := by
    intro hc0
    obtain ⟨rfl, -⟩ := hc.eq_root_of_id hc0
    rw [hr.label] at hcall
    cases hcall
  -- otherwise the call begins where the head of `p` begins
  have hfree : c.shape.HeadFree := by
    rcases mem_cons.1 h with rfl | h
    · exact hhead
    · have h₁ := (hc.within hr hcplain h hid).1
      have h₂ := (ht.within hr htplain (mem_append_right w mem_cons_self) hcid).1
      exact hc.headFree_of_start_eq hr h hid hcplain hhead (by omega)
  cases hshape : c.shape with
  | mk l f a b cs =>
    rw [hshape] at hfree hcall
    cases hfree with
    | mk label _ => exact absurd hcall (by simp [Shape.label, label])

end Sits

namespace Node

variable {n m c token call : Node} {root : Shape} {p q : Spot} {up : List Spot}

/-- The identifier names what the call calls: between the two stand only accesses and wrappers. -/
structure LeadsTo (token call : Node) : Prop where
  isIdentifier : token.kind?.any Kind.isIdentifier = true
  isCall : call.label.isCall = true
  path : ∃ w, token.ancestors = w ++ call :: call.ancestors ∧
    ∀ a ∈ w, a.kind?.any Kind.leadsOn = true

/-- The node names something: it does not begin with a call, and unless it is a bare token it is not
on the way from a name to a call. -/
inductive IsName (m : Node) : Prop
  | intro {root : Shape} {p : Spot} {up : List Spot} (spot : m.At root p up) (inner : p.id ≠ 0)
      (plain : p.shape.label ≠ .named .comment) (headFree : p.shape.HeadFree)
      (outside : m.isNamed = true → ∀ q, m.parent? = some q →
        q.label.isCall = false ∧ q.kind?.any Kind.leadsOn = false)

theorem isNamed_of_kind?_any {f : Kind → Bool} (h : n.kind?.any f = true) : n.isNamed = true := by
  cases hlabel : n.label with
  | token t =>
    rw [kind?, hlabel] at h
    cases h
  | named k => rw [isNamed, hlabel, Label.isNamed]

theorem kind_of_isCall (h : n.label.isCall = true) :
    n.kind? = some .callExpression ∨ n.kind? = some .newExpression := by
  unfold Label.isCall at h
  split at h
  · next hlabel => exact .inl (congrArg Label.kind? hlabel)
  · next hlabel => exact .inr (congrArg Label.kind? hlabel)
  · cases h

/-- What stands around a called name begins with a called name or a call. -/
theorem exists_parent_of_path {w : List Node} {l : List Node}
    (hw : ∀ a ∈ w, a.kind?.any Kind.leadsOn = true) (hcall : call.label.isCall = true)
    (h : n.ancestors = w ++ call :: l) : ∃ q, n.parent? = some q ∧
      (q.label.isCall = true ∨ q.kind?.any Kind.leadsOn = true) := by
  rw [parent?_eq_head?, h]
  rcases w with _ | ⟨a, w⟩
  · exact ⟨call, rfl, .inl hcall⟩
  · exact ⟨a, rfl, .inr (hw a mem_cons_self)⟩

theorem IsName.parent?_ne (hm : m.IsName) (hnamed : m.isNamed = true)
    (h : ∃ q, m.parent? = some q ∧ (q.label.isCall = true ∨ q.kind?.any Kind.leadsOn = true)) :
    False := by
  obtain ⟨q, hq, hleads⟩ := h
  cases hm with
  | intro _ _ _ _ outside =>
    obtain ⟨hcall, hon⟩ := outside hnamed q hq
    rcases hleads with h | h
    · exact absurd h (by simp [hcall])
    · exact absurd h (by simp [hon])

/-- A name and a called name never begin at the same byte. -/
theorem startByte_ne_of_leadsTo (ht : token.tree.IsParsed) (hm : m.IsName)
    (hleads : token.LeadsTo call) (htree : m.tree = token.tree) : m.startByte ≠ token.startByte := by
  intro hbyte
  have hparent := hm.parent?_ne
  obtain @⟨root, p, up, hat, hid, hplain, hhead, -⟩ := hm
  obtain ⟨hident, hcall, w, hpath, hw⟩ := hleads
  have hg : token.tree.Grown root := htree ▸ hat.grown
  have hlt : token.id < token.tree.size := lt_size_of_mem_ancestors (m := call) (by simp [hpath])
  obtain ⟨t, up', htat⟩ := exists_at hg hlt
  obtain ⟨k, hk, hkident⟩ := (Option.any_eq_true _ _).1 hident
  have hleaf : t.shape.children = [] := by
    have hfits := htat.fits hk
    rwa [Kind.role_of_isIdentifier hkident] at hfits
  have htplain : t.shape.label ≠ .named .comment := by
    rw [htat.label_of_kind? hk]
    rintro ⟨⟩
    cases hkident
  -- the spots on the way to the call
  have hsplit := htat.ancestors.symm.trans hpath
  obtain ⟨ws, above, rfl, hws, habove⟩ := map_eq_append_iff.1 hsplit
  obtain ⟨c, rest, rfl, hc, -⟩ := map_eq_cons_iff.1 habove
  have hcat : call.At root c rest := by
    rw [← hc]
    exact ⟨hg, htat.sits.of_append, rfl⟩
  have htid : t.id ≠ 0 := by
    intro ht0
    have hnil := (htat.sits.eq_root_of_id ht0).2
    simp at hnil
  have hstart : p.shape.start = t.shape.start := by
    have hp := hat.sits.start_lt hat.grown.rooted hid hplain
    have ht' := htat.sits.start_lt hg.rooted htid htplain
    rw [startByte, startByte, start, start, hat.entry, htat.entry, htree] at hbyte
    rw [htree] at hp
    exact hg.eq_of_byte_eq hp.2 ht'.2 hbyte
  have hcall' : c.shape.label.isCall = true := hcat.label ▸ hcall
  rcases hat.sits.eq_or_mem_of_start_eq hg.rooted hid hplain hhead htat.sits hleaf htplain hcall'
    hstart with rfl | hmem
  · obtain rfl : m = token := by
      rw [hat.eq_node, htat.eq_node, htree]
    exact hparent (isNamed_of_kind?_any hident) (exists_parent_of_path hw hcall hpath)
  · have hmw : m ∈ w := by
      rw [← hws, hat.eq_node, htree]
      exact mem_map.2 ⟨p, hmem, rfl⟩
    obtain ⟨front, w', rfl⟩ := append_of_mem hmw
    rw [append_assoc, cons_append] at hpath
    refine hparent (isNamed_of_kind?_any (hw m hmw)) ?_
    refine exists_parent_of_path (w := w') (fun a ha => hw a ?_) hcall (ancestors_of_append ht hpath)
    exact mem_append_right front (mem_cons_of_mem m ha)

/-- No list of imports or exports stands around a called name. -/
theorem LeadsTo.role_ne_quiet (ht : token.tree.IsParsed) (h : token.LeadsTo call) {a : Node}
    (ha : a ∈ token.ancestors) {k : Kind} (hk : a.kind? = some k) : k.role.isQuiet ≠ true := by
  intro hquiet
  have hfree : k.role ≠ .free := by
    intro hrole
    rw [hrole] at hquiet
    cases hquiet
  have hmember : k.role ≠ .member := by
    intro hrole
    rw [hrole] at hquiet
    cases hquiet
  obtain ⟨-, hcall, w, hpath, hw⟩ := h
  rw [hpath] at ha
  rcases mem_append.1 ha with ha | ha
  · have hon := hw a ha
    rw [hk] at hon
    exact (Kind.role_of_leadsOn hon).elim hfree hmember
  rcases mem_cons.1 ha with rfl | ha
  · rcases kind_of_isCall hcall with hkind | hkind <;> cases hk.symm.trans hkind <;> cases hquiet
  -- nothing is called inside of such a list
  obtain ⟨root, hg⟩ := ht.grown
  have htree : call.tree = token.tree := tree_of_mem_ancestors (by simp [hpath])
  obtain ⟨c, rest, hcat⟩ := exists_at (htree ▸ hg) (lt_size_of_mem_ancestors ha)
  rw [hcat.ancestors] at ha
  obtain ⟨q, hq, rfl⟩ := mem_map.1 ha
  obtain ⟨up, hsits⟩ := hcat.sits.above hq
  have hqat : (call.tree.node q.id).At root q up := ⟨hcat.grown, hsits, rfl⟩
  have hparts := (hqat.fits hk).callFree hquiet
  have hcallFree : q.shape.CallFree := by
    have hlabel := hqat.label_of_kind? hk
    cases hshape : q.shape with
    | mk l f a b cs =>
      rw [hshape] at hlabel hparts
      cases hlabel
      exact .mk (Kind.outside_of_role hfree hmember).1 hparts
  have hcfree := hcat.sits.callFree hq hcallFree
  rw [hcat.label] at hcall
  cases hshape : c.shape with
  | mk l f a b cs =>
    rw [hshape] at hcfree hcall
    cases hcfree with
    | mk label _ => exact absurd hcall (by simp [Shape.label, label])

/-! ## Which nodes are names -/

end Node

/-- Roles in which a construct has a name among its parts. -/
inductive Role.IsNaming : Role → Prop
  | quiet : IsNaming .quiet
  | entry : IsNaming .entry
  | text : IsNaming .text
  | declaring : IsNaming .declaring
  | property : IsNaming .property
  | titled : IsNaming .titled
  | housing : IsNaming .housing
  | function : IsNaming .function
  | method : IsNaming .method

theorem Role.IsNaming.declares {r : Role} {cs : List Shape} (hr : r.IsNaming) (h : r.Fits cs) :
    Declares cs := by
  cases hr with
  | quiet =>
    exact ⟨fun c hc => (h c hc).headFree.tame, fun c hc => (h c (mem_of_mem_head? hc)).headFree⟩
  | entry =>
    exact ⟨fun c hc => (h.1 c hc).1.headFree.tame,
      fun c hc => (h.1 c (mem_of_mem_head? hc)).1.headFree⟩
  | text =>
    exact ⟨fun c hc => (h.1 c hc).headFree.tame,
      fun c hc => (h.1 c (mem_of_mem_head? hc)).headFree⟩
  | declaring => exact h
  | property => exact h.1
  | titled => exact h.1
  | housing => exact h.1
  | function => exact h.1
  | method => exact h.declares

theorem Role.IsNaming.ne_program {k : Kind} (h : k.role.IsNaming) : k ≠ .program := by
  rintro rfl
  cases h

namespace Node

variable {n m c token call : Node} {root : Shape} {p q : Spot} {up : List Spot}

theorem At.isName {j : Nat} {s : Shape} (hc : c.At root ⟨j, s⟩ (p :: up)) (hn : n.At root p up)
    (htree : c.tree = n.tree) (hplain : s.label ≠ .named .comment) (hhead : s.HeadFree)
    (houtside : c.isNamed = true → n.label.isCall = false ∧ n.kind?.any Kind.leadsOn = false) :
    c.IsName := by
  refine .intro hc (fun hid => ?_) hplain hhead fun hnamed q hq => ?_
  · cases (hc.sits.eq_root_of_id hid).2
  · rw [parent?_eq_head?, hc.ancestors, htree, map_cons, ← hn.eq_node] at hq
    cases hq
    exact houtside hnamed

theorem isCall_of_kind? {k : Kind} (hk : n.kind? = some k) :
    n.label.isCall = (Label.named k).isCall := by
  cases hlabel : n.label with
  | token t =>
    rw [kind?, hlabel] at hk
    cases hk
  | named k' =>
    rw [kind?, hlabel] at hk
    rw [← Option.some.inj hk]

theorem outside_of_naming {k : Kind} (hk : n.kind? = some k) (hrole : k.role.IsNaming) :
    n.label.isCall = false ∧ n.kind?.any Kind.leadsOn = false := by
  rw [isCall_of_kind? hk, hk, Option.any_some]
  refine Kind.outside_of_role (fun h => ?_) fun h => ?_
  · rw [h] at hrole
    cases hrole
  · rw [h] at hrole
    cases hrole

section Parts

variable {k : Kind} (ht : n.tree.IsParsed) (hk : n.kind? = some k)

include ht hk

theorem exists_at_of_kind? (hne : k ≠ .program) : ∃ root p up, n.At root p up ∧ p.id ≠ 0 := by
  have hlabel : n.label ≠ .named .program := by
    intro hlabel
    rw [kind?, hlabel] at hk
    exact hne (Option.some.inj hk).symm
  obtain ⟨root, hg⟩ := ht.grown
  obtain ⟨p, up, hn⟩ := exists_at hg (lt_size_of_label_ne hlabel)
  refine ⟨root, p, up, hn, fun hid => hlabel ?_⟩
  obtain ⟨rfl, -⟩ := hn.sits.eq_root_of_id hid
  exact hn.label.trans hg.rooted.label

theorem isName_of_kind? (hrole : k.role = .leaf ∨ k.role = .text) (hne : k ≠ .comment)
    (houtside : ∀ q, n.parent? = some q → q.label.isCall = false ∧ q.kind?.any Kind.leadsOn = false) :
    n.IsName := by
  have hprogram : k ≠ .program := by
    rintro rfl
    rcases hrole with hrole | hrole <;> cases hrole
  obtain ⟨root, p, up, hn, hid⟩ := exists_at_of_kind? ht hk hprogram
  have hlabel := hn.label_of_kind? hk
  refine .intro hn hid ?_ ?_ fun _ => houtside
  · rw [hlabel]
    exact fun h => hne (Label.named.inj h)
  · have hfits := hn.fits hk
    cases hshape : p.shape with
    | mk l f a b cs =>
      rw [hshape] at hlabel hfits
      cases hlabel
      have hcall : (Label.named k).isCall = false := by
        refine (Kind.outside_of_role ?_ ?_).1 <;> rcases hrole with h | h <;> rw [h] <;> exact nofun
      refine .mk hcall fun d hd => ?_
      rcases hrole with h | h
      · rw [h] at hfits
        cases hfits
        cases hd
      · rw [h] at hfits
        exact (hfits.2 d hd).headFree

theorem isName_of_field?_name (hrole : k.role.IsNaming) (hc : n.field? .name = some c) :
    c.IsName := by
  have hmem := mem_of_find?_eq_some hc
  obtain ⟨root, p, up, hn, -⟩ := exists_at_of_kind? ht hk hrole.ne_program
  obtain ⟨j, s, hs, hcat, hfield, hsound⟩ := hn.exists_of_field? hc
  exact hcat.isName hn (tree_of_mem_children hmem) (hsound.plain_of_field hfield)
    ((hrole.declares (hn.fits hk)).names s hs hfield) fun _ => outside_of_naming hk hrole

theorem isName_of_head?_children (hrole : k.role.IsNaming) (hc : n.children.head? = some c) :
    c.IsName := by
  have hmem := mem_of_head? hc
  obtain ⟨root, p, up, hn, hid⟩ := exists_at_of_kind? ht hk hrole.ne_program
  obtain ⟨s, hs, hcat⟩ := hn.exists_of_head?_children hc
  refine hcat.isName hn (tree_of_mem_children hmem) ((hn.sits.sound hn.grown.rooted hid).head hs).2
    ((hrole.declares (hn.fits hk)).first s hs) fun _ => outside_of_naming hk hrole

theorem isName_of_quiet (hrole : k.role.isQuiet = true) (hc : c ∈ n.children)
    (hplain : c.kind? ≠ some .comment) : c.IsName := by
  have hnaming : k.role.IsNaming := by
    generalize k.role = r at hrole
    cases r with
    | quiet => exact .quiet
    | entry => exact .entry
    | _ => cases hrole
  obtain ⟨root, p, up, hn, -⟩ := exists_at_of_kind? ht hk hnaming.ne_program
  obtain ⟨j, s, hs, hcat⟩ := hn.exists_of_mem_children hc
  have hfree := (hn.fits hk).callFree hrole s hs
  refine hcat.isName hn (tree_of_mem_children hc) (fun hlabel => hplain ?_) hfree.headFree
    fun _ => outside_of_naming hk hnaming
  rw [hcat.kind?]
  exact congrArg Label.kind? hlabel

end Parts

theorem isName_of_token (ht : c.tree.IsParsed) (h : c.isNamed = false) : c.IsName := by
  have hlabel : c.label ≠ .named .program := by
    intro hlabel
    rw [isNamed, hlabel] at h
    cases h
  obtain ⟨root, hg⟩ := ht.grown
  obtain ⟨p, up, hc⟩ := exists_at hg (lt_size_of_label_ne hlabel)
  rw [isNamed, hc.label] at h
  have hfits := hc.sits.fits hg.rooted
  refine .intro hc (fun hid => ?_) (fun hcomment => ?_) ?_ fun hnamed => ?_
  · obtain ⟨rfl, -⟩ := hc.sits.eq_root_of_id hid
    exact hlabel (hc.label.trans hg.rooted.label)
  · rw [hcomment] at h
    cases h
  · cases hshape : p.shape with
    | mk l f a b cs =>
      rw [hshape] at h hfits
      cases l with
      | named k => cases h
      | token t =>
        cases hfits
        exact .mk rfl nofun
  · rw [isNamed, hc.label, h] at hnamed
    cases hnamed

end Node

end ScriptAtlas.Syntax
