import ScriptAtlas.Proofs.NamePlaces

/-!
# Members and their owners

Which class, interface or enum a declaration belongs to is told in two ways: a type lists what stands in
its body, and a declaration looks outwards for the nearest type and the nearest body. The two agree on
what stands directly in a body, and on the parameters of a constructor there that are also properties.
Looking outwards passes whatever stands in between, so that a method of an object in the body of a method
is shown as if it were a method of the class.

* `Node.StandsIn`: places of members;
* `Node.typeBody?_eq_some_iff`: the body of a type is the only body among its parts;
* `Declaration.containerNode?_eq_some_iff`: the type that is found from the place of a member;
* `Node.mem_typeMembers_iff`: what a type lists;
* `Declaration.isMemberOf_iff`: the two ways and the names that are shown.
-/

namespace ScriptAtlas

open List Project Syntax Syntax.Node

namespace Syntax.Node

variable {n m c o body : Node}
variable {kind : SymbolKind}

/-! ## Places of members -/

/-- The bodies of classes, interfaces and enums. -/
def bodyKinds : List Kind := [.classBody, .interfaceBody, .objectType, .enumBody]

/-- The place of a member: directly in a body, or among the parameters of a method that stands there, if
it has a plain name and is also a property. -/
inductive StandsIn (n : Node) : Node → Prop
  | direct {body : Node} (hbody : body.hasKindIn bodyKinds = true) (hparent : n.parent? = some body)
      (hk : n.hasKindIn [.requiredParameter, .optionalParameter] = false) : StandsIn n body
  | parameter {list method body name : Node} (hbody : body.hasKindIn bodyKinds = true)
      (hparent : method.parent? = some body) (hmethod : method.kind? = some .methodDefinition)
      (hlist : method.field? .parameters = some list) (hn : n.parent? = some list)
      (hproperty : n.isParameterProperty = true) (hname : n.declarationName? = some name) :
      StandsIn n body

theorem StandsIn.hasKindIn (h : n.StandsIn body) : body.hasKindIn bodyKinds = true := by
  cases h <;> assumption

theorem isBody_iff : n.label.isBody = true ↔ n.hasKindIn bodyKinds = true := by
  rw [Node.hasKindIn, kind?]
  cases n.label with
  | token t => exact iff_of_false Bool.false_ne_true Bool.false_ne_true
  | named k => cases k <;> decide

theorem not_container_of_body (h : n.hasKindIn bodyKinds = true) :
    n.hasKindIn Declaration.containerKinds = false :=
  any_kind_eq h fun k => by cases k <;> decide

theorem isNamed_of_kind? {k : Kind} (h : n.kind? = some k) : n.isNamed = true :=
  isNamed_of_kind?_any (f := fun _ => true) (by rw [h]; rfl)

theorem mem_namedChildren_of_parent? {k : Kind} (ht : n.tree.IsParsed) (hk : n.kind? = some k)
    (h : n.parent? = some m) : n ∈ m.namedChildren :=
  mem_filter.2 ⟨mem_children_of_parent? ht h, isNamed_of_kind? hk⟩

theorem parent?_of_mem_namedChildren (ht : m.tree.IsParsed) (h : n ∈ m.namedChildren) :
    n.parent? = some m :=
  parent?_of_mem_children ht (mem_of_mem_filter h)

theorem ancestors_of_parent? (ht : n.tree.IsParsed) (h : n.parent? = some m) :
    n.ancestors = m :: m.ancestors :=
  ancestors_of_mem_children (tree_of_parent? h ▸ ht) (mem_children_of_parent? ht h)

theorem kind?_of_parameters (ht : m.tree.IsParsed) (hk : m.kind? = some .methodDefinition)
    (h : m.field? .parameters = some c) : c.kind? = some .formalParameters := by
  obtain ⟨root, p, up, hm, -⟩ := exists_at_of_kind? ht hk nofun
  obtain ⟨j, s, hs, hc, hfield, -⟩ := hm.exists_of_field? h
  have hmethod : Methodical p.shape.children := hm.fits hk
  rw [hc.kind?, show s.label = _ from hmethod.listed s hs hfield]
  rfl

theorem StandsIn.ancestors (ht : n.tree.IsParsed) (h : n.StandsIn body) :
    ∃ front, n.ancestors = front ++ body :: body.ancestors ∧
      ∀ a ∈ front, a.hasKindIn Declaration.containerKinds = false ∧ a.hasKindIn bodyKinds = false := by
  cases h with
  | direct _ hparent _ => exact ⟨[], ancestors_of_parent? ht hparent, forall_mem_nil _⟩
  | @parameter list method _ _ _ hparent hmethod hlist hn _ _ =>
    have hlt : list.tree.IsParsed := tree_of_parent? hn ▸ ht
    have hmt : method.tree.IsParsed := tree_of_field? hlist ▸ hlt
    have hlistParent := parent?_of_mem_children hmt (mem_of_find?_eq_some hlist)
    refine ⟨[list, method], ?_, ?_⟩
    · rw [ancestors_of_parent? ht hn, ancestors_of_parent? hlt hlistParent,
        ancestors_of_parent? hmt hparent]
      rfl
    · have hkind := kind?_of_parameters hmt hmethod hlist
      simp only [forall_mem_cons, Node.hasKindIn, hkind, hmethod]
      exact ⟨by decide, by decide, forall_mem_nil _⟩

theorem StandsIn.tree_eq (ht : n.tree.IsParsed) (h : n.StandsIn body) : body.tree = n.tree := by
  obtain ⟨front, hancestors, -⟩ := h.ancestors ht
  exact tree_of_mem_ancestors (n := n) (by simp [hancestors])

theorem findAncestor?_of_append {p : Node → Bool} {front : List Node}
    (h : n.ancestors = front ++ body :: body.ancestors) (hfront : ∀ a ∈ front, p a = false) :
    n.findAncestor? p = if p body then some body else body.findAncestor? p := by
  have hnone : front.find? p = none := find?_eq_none.2 fun a ha => by simp [hfront a ha]
  rw [findAncestor?, h, find?_append, hnone, Option.none_or, find?_cons]
  cases p body <;> rfl

/-! ## The body of a type -/

/-- The body of a type is the only body among its parts. -/
theorem typeBody?_eq_some_iff (ht : o.tree.IsParsed)
    (hk : o.hasKindIn Declaration.containerKinds = true) :
    o.typeBody? = some body ↔
      body.tree = o.tree ∧ body.parent? = some o ∧ body.hasKindIn bodyKinds = true := by
  have houses := houses_outline ht hk
  have hfound {b : Node} (h : o.field? .body = some b) : b.hasKindIn bodyKinds = true :=
    isBody_iff.1 (houses.body _ (mem_outline_of_field? ht h) (by simp [holds])).1
  constructor
  · intro h
    have hchild : body ∈ o.children ∧ body.hasKindIn bodyKinds = true := by
      rcases eq_or_eq_of_orElse h with h | h
      · exact ⟨mem_of_find?_eq_some h, hfound h⟩
      · refine ⟨mem_of_mem_filter (mem_of_find?_eq_some h), ?_⟩
        have hkind := find?_some h
        exact any_kind_eq hkind fun k => by cases k <;> decide
    exact ⟨tree_of_mem_children hchild.1, parent?_of_mem_children ht hchild.1, hchild.2⟩
  · rintro ⟨htree, hparent, hbody⟩
    have hchild := mem_children_of_parent? (htree ▸ ht) hparent
    have hlabel := isBody_iff.2 hbody
    have hplain {b : Node} (h : b.label.isBody = true) : b.label ≠ .named .comment := by
      intro hcomment
      rw [hcomment] at h
      cases h
    have hholds {b : Node} (h : b.label.isBody = true) :
        (b.label != .named .comment && holds (b.label, b.entry.field)) = true := by
      simp [hplain h, holds, h]
    have hfield : body.entry.field = some .body :=
      (houses.body (body.label, body.entry.field)
        (mem_outline hchild fun hcomment => hplain hlabel (label_eq_of_kind? hcomment))
        (by simp [holds, hlabel])).2
    obtain ⟨b, hb⟩ := Option.isSome_iff_exists.1 (show (o.field? .body).isSome = true from
      find?_isSome.2 ⟨body, hchild, by simp [hfield]⟩)
    have heq : b = body := eq_of_single houses.single (mem_of_find?_eq_some hb) hchild
      (hholds (isBody_iff.2 (hfound hb))) (hholds hlabel)
    rw [typeBody?, hb, heq]
    rfl

/-! ## What a type lists -/

theorem standsIn_of_mem_memberEntries {p : Node × Node} (ht : body.tree.IsParsed)
    (hbody : body.hasKindIn bodyKinds = true) (hc : c ∈ body.namedChildren)
    (h : p ∈ memberEntries body c) : p.1.StandsIn body := by
  have hparent := parent?_of_mem_namedChildren ht hc
  cases mem_memberEntries_iff.1 h with
  | @named k _ hk hmem _ =>
    refine .direct hbody hparent ?_
    rw [hasKindIn, hk]
    clear hk
    revert hmem
    cases k <;> decide
  | itself hk hmem _ =>
    refine .direct hbody hparent ?_
    rw [hasKindIn, hk]
    rcases hmem with rfl | rfl <;> rfl
  | parameter hk hlist hparam hproperty hname =>
    have hlt := tree_of_field? hlist ▸ tree_of_mem_namedChildren hc ▸ ht
    exact .parameter hbody hparent hk hlist (parent?_of_mem_namedChildren hlt hparam) hproperty hname

/-- What declares a member has a name, or it is the name of an enum member. -/
theorem kind_of_isMember (hkind : n.declarationKind? = some kind) (hmember : kind.isMember = true)
    (hparameter : n.hasKindIn [.requiredParameter, .optionalParameter] = false) :
    ∃ k, n.kind? = some k ∧
      (k ∈ memberKinds ∨ (k = .propertyIdentifier ∨ k = .string) ∧ n.parentHasKind .enumBody = true) := by
  cases hk : n.kind? with
  | none =>
    rw [declarationKind?, hk] at hkind
    cases hkind
  | some k =>
    refine ⟨k, rfl, ?_⟩
    rw [hasKindIn, hk] at hparameter
    rw [declarationKind?, hk] at hkind
    cases k <;> first
      | exact .inl (by decide)
      | cases hparameter; done
      | (cases hkind; done)
      | (cases hkind; cases hmember)
      | (dsimp only at hkind; split at hkind <;> first
          | (next henum => exact .inr ⟨by simp, henum⟩)
          | (cases hkind; done)
          | (cases hkind; cases hmember))

theorem exists_mem_memberEntries (ht : n.tree.IsParsed) (hkind : n.declarationKind? = some kind)
    (hmember : kind.isMember = true) (h : n.StandsIn body) :
    ∃ name, (n, name) ∈ body.namedChildren.flatMap (memberEntries body) := by
  cases h with
  | direct hbody hparent hparameter =>
    obtain ⟨k, hk, hnamed | ⟨hself, henum⟩⟩ := kind_of_isMember hkind hmember hparameter
    · have hrole : k.role = .property ∨ k.role = .method := by
        clear hk
        revert hnamed
        cases k <;> decide
      obtain ⟨name, hname⟩ := Option.isSome_iff_exists.1 (isSome_field?_name ht hk hrole)
      exact ⟨name, mem_flatMap.2 ⟨n, mem_namedChildren_of_parent? ht hk hparent,
        mem_memberEntries_iff.2 (.named hk hnamed hname)⟩⟩
    · rw [parentHasKind, hparent] at henum
      exact ⟨n, mem_flatMap.2 ⟨n, mem_namedChildren_of_parent? ht hk hparent,
        mem_memberEntries_iff.2 (.itself hk hself henum)⟩⟩
  | @parameter list method _ name hbody hparent hmethod hlist hn hproperty hname =>
    have hmt : method.tree.IsParsed := tree_of_field? hlist ▸ tree_of_parent? hn ▸ ht
    obtain ⟨k, hk, -⟩ := role_of_declarationKind? (Option.isSome_of_eq_some hkind)
    exact ⟨name, mem_flatMap.2 ⟨method, mem_namedChildren_of_parent? hmt hmethod hparent,
      mem_memberEntries_iff.2 (.parameter hmethod hlist (mem_namedChildren_of_parent? ht hk hn)
        hproperty hname)⟩⟩

theorem mem_typeMembers_iff (ht : n.tree.IsParsed) (htree : o.tree = n.tree)
    (hk : o.hasKindIn Declaration.containerKinds = true) (hkind : n.declarationKind? = some kind)
    (hmember : kind.isMember = true) :
    (∃ name, (n, name) ∈ o.typeMembers) ↔ ∃ body, n.StandsIn body ∧ body.parent? = some o := by
  have hot : o.tree.IsParsed := htree ▸ ht
  constructor
  · rintro ⟨name, h⟩
    unfold typeMembers at h
    split at h
    · cases h
    · next body hbody =>
      obtain ⟨hbt, hparent, hbk⟩ := (typeBody?_eq_some_iff hot hk).1 hbody
      obtain ⟨c, hc, h⟩ := mem_flatMap.1 h
      exact ⟨body, standsIn_of_mem_memberEntries (hbt ▸ hot) hbk hc h, hparent⟩
  · rintro ⟨body, hstands, hparent⟩
    have hbt : body.tree = o.tree := (tree_of_parent? hparent).symm
    have hbody := (typeBody?_eq_some_iff hot hk).2 ⟨hbt, hparent, hstands.hasKindIn⟩
    rw [typeMembers, hbody]
    exact exists_mem_memberEntries ht hkind hmember hstands

end Syntax.Node

namespace Declaration

variable {n o body : Node}

/-- From the place of a member, the type is found whose body it is. -/
theorem containerNode?_eq_some_iff (ht : n.tree.IsParsed) (h : n.StandsIn body) :
    containerNode? n = some o ↔
      body.parent? = some o ∧ o.hasKindIn containerKinds = true := by
  obtain ⟨front, hancestors, hfront⟩ := h.ancestors ht
  have hbt : body.tree.IsParsed := h.tree_eq ht ▸ ht
  have hunfold : containerNode? n = (body.findAncestor? (·.hasKindIn containerKinds)).bind fun owner =>
      if body.parent?.any (· == owner) then some owner else none := by
    have hbody := findAncestor?_of_append (p := (·.hasKindIn Node.bodyKinds)) hancestors
      fun a ha => (hfront a ha).2
    have howner := findAncestor?_of_append (p := (·.hasKindIn containerKinds)) hancestors
      fun a ha => (hfront a ha).1
    rw [if_pos h.hasKindIn] at hbody
    rw [not_container_of_body h.hasKindIn, if_neg nofun] at howner
    rw [containerNode?, howner]
    change ((body.findAncestor? _).bind fun owner =>
      (n.findAncestor? (·.hasKindIn Node.bodyKinds)).bind _) = _
    rw [hbody]
    rfl
  rw [hunfold]
  constructor
  · intro hfound
    obtain ⟨owner, howner, hfound⟩ := Option.bind_eq_some_iff.1 hfound
    split at hfound
    · next hparent =>
      cases hfound
      obtain ⟨parent, hparent, hbeq⟩ := (Option.any_eq_true _ _).1 hparent
      have heq : parent = o := eq_of_beq hbeq
        ((tree_of_parent? hparent).trans (tree_of_findAncestor? howner).symm)
      have hk := find?_some (p := fun a : Node => a.hasKindIn containerKinds) howner
      exact ⟨heq ▸ hparent, hk⟩
    · cases hfound
  · rintro ⟨hparent, hk⟩
    have howner : body.findAncestor? (·.hasKindIn containerKinds) = some o := by
      rw [Node.findAncestor?, ancestors_of_parent? hbt hparent, find?_cons, hk]
    rw [howner, Option.bind_some, hparent, Option.any_some, if_pos]
    exact beq_self_eq_true o.id

theorem container?_eq_some_iff {d c : Declaration} :
    d.container? = some c ↔ containerNode? d.node = some c.node ∧ ofNode? d.file c.node = some c := by
  rw [container?, Option.bind_eq_some_iff]
  constructor
  · rintro ⟨o, ho, hc⟩
    have hnode : c.node = o := by
      obtain ⟨kind, -, hc⟩ := Option.bind_eq_some_iff.1 hc
      obtain ⟨name, -, rfl⟩ := Option.map_eq_some_iff.1 hc
      rfl
    exact ⟨hnode ▸ ho, hnode ▸ hc⟩
  · exact fun h => ⟨c.node, h⟩

/-- The declaration is listed among the members of a class, an interface or an enum of its file. -/
structure IsMemberOf (d c : Declaration) : Prop where
  type : ofNode? d.file c.node = some c
  kind : c.node.hasKindIn containerKinds = true
  tree : c.node.tree = d.node.tree
  listed : ∃ name, (d.node, name) ∈ c.node.typeMembers

/-- A declaration of the kind of a member is listed by a type just when the type is what it finds
outwards and it stands at the place of a member. What is listed is shown with the name of the type, and
what stands at such a place without being listed is not. -/
theorem isMemberOf_iff {d : Declaration} (ht : d.node.tree.IsParsed)
    (hkind : d.node.declarationKind? = some d.kind) (hmember : d.kind.isMember = true) :
    (∀ c, d.IsMemberOf c ↔ d.container? = some c ∧ ∃ body, d.node.StandsIn body) ∧
    (∀ c, d.IsMemberOf c → d.displayName = c.name ++ "." ++ d.name) ∧
    ((∃ body, d.node.StandsIn body) → (∀ c, ¬d.IsMemberOf c) → d.displayName = d.name) := by
  have hiff (c : Declaration) :
      d.IsMemberOf c ↔ d.container? = some c ∧ ∃ body, d.node.StandsIn body := by
    rw [container?_eq_some_iff]
    constructor
    · rintro ⟨htype, hk, htree, hlisted⟩
      obtain ⟨body, hstands, hparent⟩ :=
        (mem_typeMembers_iff ht htree hk hkind hmember).1 hlisted
      exact ⟨⟨(containerNode?_eq_some_iff ht hstands).2 ⟨hparent, hk⟩, htype⟩, body, hstands⟩
    · rintro ⟨⟨hnode, htype⟩, body, hstands⟩
      obtain ⟨hparent, hk⟩ := (containerNode?_eq_some_iff ht hstands).1 hnode
      have htree := (tree_of_parent? hparent).trans (hstands.tree_eq ht)
      exact ⟨htype, hk, htree,
        (mem_typeMembers_iff ht htree hk hkind hmember).2 ⟨body, hstands, hparent⟩⟩
  have hshown : d.owner? = d.container? := if_pos hmember
  refine ⟨hiff, fun c hc => ?_, fun hstands hnone => ?_⟩
  · rw [displayName, hshown, ((hiff c).1 hc).1]
  · have hcontainer : d.container? = none :=
      Option.eq_none_iff_forall_ne_some.2 fun c hc => hnone c ((hiff c).2 ⟨hc, hstands⟩)
    rw [displayName, hshown, hcontainer]

def loneFile (text : String) : SourceFile :=
  .new 0 ⟨["app"]⟩ .default ⟨["app", "a.ts"]⟩ (Tree.parse text false)

def membersIn (f : SourceFile) : List Declaration :=
  (f.tree.nodes.filterMap (ofNode? f)).filter (·.kind.isMember)

theorem of_mem_membersIn {f : SourceFile} {d : Declaration} (h : d ∈ membersIn f) :
    d.LiesIn d.file ∧ d.node.tree = f.tree ∧ d.node.declarationKind? = some d.kind ∧
      d.kind.isMember = true := by
  obtain ⟨h, hmember⟩ := mem_filter.1 h
  obtain ⟨n, hn, hd⟩ := mem_filterMap.1 h
  have hlies := liesIn_of_ofNode? hd (tree_of_mem_nodes hn)
  obtain ⟨kind, hkind, hd⟩ := Option.bind_eq_some_iff.1 hd
  obtain ⟨name, -, rfl⟩ := Option.map_eq_some_iff.1 hd
  exact ⟨hlies.self, hlies.node_tree, hkind, hmember⟩

def isListed (d c : Declaration) : Bool :=
  c.node.hasKindIn containerKinds && c.node.typeMembers.any (·.1 == d.node)

theorem isListed_iff {d c : Declaration} (hd : d.LiesIn d.file) (hcontainer : d.container? = some c) :
    isListed d c = true ↔ d.IsMemberOf c := by
  have htree : c.node.tree = d.node.tree :=
    (liesIn_of_container? hd hcontainer).node_tree.trans hd.node_tree.symm
  rw [isListed, Bool.and_eq_true, any_eq_true]
  constructor
  · rintro ⟨hk, p, hp, hbeq⟩
    have heq : p.1 = d.node := eq_of_beq hbeq ((listed_typeMembers hp).tree.trans htree)
    exact ⟨(container?_eq_some_iff.1 hcontainer).2, hk, htree, p.2, heq ▸ hp⟩
  · rintro ⟨-, hk, -, name, hname⟩
    exact ⟨hk, (d.node, name), hname, beq_self_eq_true d.node.id⟩

/-- A class with a property among the parameters of its constructor, and an object type with a method. -/
def constructorProperty : SourceFile :=
  loneFile "class C \x7b constructor(private x) \x7b\x7d \x7d\ntype T = \x7b n(); \x7d;"

/-- The property is a member of the class, the method is a member of no type; both are shown so. -/
theorem constructorProperty_shown : ∃ d ∈ membersIn constructorProperty, ∃ c,
    d.node.tree.IsParsed ∧ d.node.declarationKind? = some d.kind ∧ d.kind.isMember = true ∧
    d.IsMemberOf c ∧ d.container? = some c ∧ d.displayName = "C.x" ∧
    ∃ e ∈ membersIn constructorProperty, e.node.tree.IsParsed ∧
      e.node.declarationKind? = some e.kind ∧ e.kind.isMember = true ∧
      (∃ body, e.node.StandsIn body) ∧ (∀ c, ¬e.IsMemberOf c) ∧ e.displayName = "n" := by
  have hproperty : (membersIn constructorProperty).any (fun d => d.name == "x" &&
      d.container?.any fun c => c.name == "C" && isListed d c) = true := by
    decide +kernel
  have hmethod : (membersIn constructorProperty).any (fun e => e.name == "n" && e.container?.isNone &&
      !e.node.hasKindIn [.requiredParameter, .optionalParameter] &&
      e.node.parent?.any (·.hasKindIn Node.bodyKinds)) = true := by
    decide +kernel
  obtain ⟨d, hd, hproperty⟩ := any_eq_true.1 hproperty
  obtain ⟨e, he, hmethod⟩ := any_eq_true.1 hmethod
  simp only [Bool.and_eq_true, beq_iff_eq, Option.any_eq_true, Bool.not_eq_true',
    Option.isNone_iff_eq_none] at hproperty hmethod
  obtain ⟨hdname, c, hc, hcname, hlisted⟩ := hproperty
  obtain ⟨⟨⟨hename, hnone⟩, hparameter⟩, body, hparent, hbody⟩ := hmethod
  obtain ⟨hlies, hdtree, hdkind, hdmember⟩ := of_mem_membersIn hd
  obtain ⟨-, hetree, hekind, hemember⟩ := of_mem_membersIn he
  have hdt : d.node.tree.IsParsed := ⟨_, false, hdtree⟩
  have het : e.node.tree.IsParsed := ⟨_, false, hetree⟩
  obtain ⟨hdiff, hdshown, -⟩ := isMemberOf_iff hdt hdkind hdmember
  obtain ⟨heiff, -, heshown⟩ := isMemberOf_iff het hekind hemember
  have hmember := (isListed_iff hlies hc).1 hlisted
  have hstands : ∃ body, e.node.StandsIn body := ⟨body, .direct hbody hparent hparameter⟩
  have hfree (c : Declaration) : ¬e.IsMemberOf c := by
    rw [heiff, hnone]
    exact fun h => absurd h.1 nofun
  refine ⟨d, hd, c, hdt, hdkind, hdmember, hmember, ((hdiff c).1 hmember).1, ?_, e, he, het, hekind,
    hemember, hstands, hfree, (heshown hstands hfree).trans hename⟩
  rw [hdshown c hmember, hcname, hdname]
  rfl

/-- A class with a method that makes an object with a method. -/
def objectMethod : SourceFile :=
  loneFile "class C \x7b f() \x7b return \x7b m() \x7b\x7d \x7d; \x7d \x7d"

/-- The method of the object finds the class outwards and is shown with its name, and it is no member of
the class. -/
theorem objectMethod_astray : ∃ d ∈ membersIn objectMethod, ∃ c,
    d.node.tree.IsParsed ∧ d.node.declarationKind? = some d.kind ∧ d.kind.isMember = true ∧
    d.container? = some c ∧ d.displayName = "C.m" ∧ ¬d.IsMemberOf c := by
  have heval : (membersIn objectMethod).any (fun d => d.displayName == "C.m" &&
      d.container?.any fun c => !isListed d c) = true := by
    decide +kernel
  obtain ⟨d, hd, heval⟩ := any_eq_true.1 heval
  obtain ⟨hname, heval⟩ := Bool.and_eq_true_iff.1 heval
  obtain ⟨c, hc, hnot⟩ := (Option.any_eq_true _ _).1 heval
  obtain ⟨hlies, htree, hkind, hmember⟩ := of_mem_membersIn hd
  refine ⟨d, hd, c, ⟨_, false, htree⟩, hkind, hmember, hc, beq_iff_eq.1 hname, fun h => ?_⟩
  rw [(isListed_iff hlies hc).2 h] at hnot
  cases hnot

end Declaration

end ScriptAtlas
