import ScriptAtlas.Proofs.ResolutionNaming

/-!
# Call sites

The name of what is called is found from two sides. A call goes down, through the wrappers around
its callee; a use of the name goes up, through the same wrappers. In a parsed tree the two agree.

* `Calls.IsNamedBy`: the name of an expression, as a call finds it;
* `Calls.leadsTo_of_isNamedBy`: the name that a call finds leads to the call;
* `Calls.classify_of_isNamedBy`: its use counts as a call;
* `Node.LeadsTo.enclosingCallable?_eq`: the name and the call belong to the same callable;
* `Calls.enclosingCallable?_of_callerAt?`: the caller at a place is that callable.
-/

namespace ScriptAtlas

open List Project Syntax

namespace Syntax.Node

variable {n m c token call callee : Node}

/-! ## Wrappers -/

/-- What is unwrapped stands below the wrappers, the outermost of which is where unwrapping began. -/
theorem exists_wrappers_unwrapUpTo (fuel : Nat) (ht : m.tree.IsParsed) :
    ∃ w, (unwrapUpTo fuel m).ancestors = w ++ m.ancestors ∧
      (∀ a ∈ w, a.kind?.any Kind.isTransparentWrapper = true) ∧
      w.getLast?.getD (unwrapUpTo fuel m) = m := by
  induction fuel generalizing m with
  | zero => exact ⟨[], rfl, nofun, rfl⟩
  | succ fuel ih =>
    unfold unwrapUpTo
    split
    · next hwrapper =>
      cases hinner : m.wrappedExpression? with
      | none => exact ⟨[], rfl, nofun, rfl⟩
      | some inner =>
        have hmem : inner ∈ m.children := mem_of_mem_filter (mem_of_find?_eq_some hinner)
        obtain ⟨w, hw, hwrappers, -⟩ := ih (m := inner) (tree_of_mem_children hmem ▸ ht)
        rw [ancestors_of_mem_children ht hmem] at hw
        refine ⟨w ++ [m], ?_, ?_, ?_⟩
        · rw [hw, append_assoc, singleton_append]
        · exact forall_mem_append.2 ⟨hwrappers, forall_mem_singleton.2 hwrapper⟩
        · rw [getLast?_append, getLast?_singleton, Option.some_or, Option.getD_some]
    · exact ⟨[], rfl, nofun, rfl⟩

/-- Going up through wrappers undoes unwrapping where the next node is no wrapper. -/
theorem outermostWrapper_of_ancestors {w l : List Node} (h : m.ancestors = w ++ n :: l)
    (hw : ∀ a ∈ w, a.kind?.any Kind.isTransparentWrapper = true)
    (hn : n.kind?.any Kind.isTransparentWrapper = false) :
    m.outermostWrapper = w.getLast?.getD m := by
  rw [outermostWrapper, h, takeWhile_append_of_pos hw, takeWhile_cons, hn]
  simp

theorem leadsOn_of_wrapper (h : n.kind?.any Kind.isTransparentWrapper = true) :
    n.kind?.any Kind.leadsOn = true := by
  obtain ⟨k, hk, hwrapper⟩ := (Option.any_eq_true _ _).1 h
  rw [hk, Option.any_some, Kind.leadsOn, hwrapper, Bool.or_true]

theorem isFieldOf_of_field? {f : Field} (h : n.field? f = some c) : c.isFieldOf f n = true := by
  rw [isFieldOf, h, Option.any_some]
  exact beq_self_eq_true c.id

theorem isIdentifier_of_property (ht : n.tree.IsParsed) (hk : n.kind? = some .memberExpression)
    (hc : n.field? .property = some c) : c.kind?.any Kind.isIdentifier = true := by
  obtain ⟨root, p, up, hn, -⟩ := exists_at_of_kind? ht hk nofun
  obtain ⟨j, s, hs, hcat, hfield, -⟩ := hn.exists_of_field? hc
  rw [hcat.kind?]
  exact hn.fits hk s hs hfield

/-! ## Seen from the name -/

theorem asCallable?_of_leadsOn (h : n.kind?.any Kind.leadsOn = true) : n.asCallable? = none := by
  obtain ⟨k, hk, hon⟩ := (Option.any_eq_true _ _).1 h
  have hmem := Kind.mem_of_leadsOn hon
  simp only [mem_cons, not_mem_nil, or_false] at hmem
  unfold asCallable?
  rw [hk]
  rcases hmem with rfl | rfl | rfl | rfl | rfl | rfl <;> rfl

theorem asCallable?_of_isCall (h : n.label.isCall = true) : n.asCallable? = none := by
  unfold asCallable?
  rcases kind_of_isCall h with hk | hk <;> rw [hk] <;> rfl

/-- A called name belongs to the callable to which the call belongs. -/
theorem LeadsTo.enclosingCallable?_eq (h : token.LeadsTo call) :
    token.enclosingCallable? = call.enclosingCallable? := by
  obtain ⟨-, hcall, w, hpath, hw⟩ := h
  have hnone : w.findSome? asCallable? = none :=
    findSome?_eq_none_iff.2 fun a ha => asCallable?_of_leadsOn (hw a ha)
  rw [enclosingCallable?, hpath, findSome?_append, hnone, Option.none_or, findSome?_cons,
    asCallable?_of_isCall hcall]
  rfl

theorem LeadsTo.exists_parent (h : token.LeadsTo call) : ∃ q, token.parent? = some q ∧
    (q.label.isCall = true ∨ q.kind?.any Kind.leadsOn = true) := by
  obtain ⟨-, hcall, w, hpath, hw⟩ := h
  exact exists_parent_of_path hw hcall hpath

end Syntax.Node

namespace Query

open Syntax.Node

variable {n c token call callee : Node}

/-- A called name is no new name in a list of imports or exports. -/
theorem References.isAliasName_of_leadsTo (h : token.LeadsTo call) : isAliasName token = false := by
  obtain ⟨q, hq, hleads⟩ := h.exists_parent
  have hkind : q.hasKindIn [.importSpecifier, .exportSpecifier] = false := by
    rcases hleads with hcall | hon
    · rcases kind_of_isCall hcall with hk | hk <;> rw [hasKindIn, hk] <;> rfl
    · exact any_kind_eq hon fun k => by cases k <;> decide
  rw [isAliasName, hq, Option.any_some, hkind]
  rfl

theorem Usage.inImport_of_leadsTo (ht : token.tree.IsParsed) (h : token.LeadsTo call) :
    inImport token = false := by
  rw [inImport, Option.isSome_eq_false_iff, Option.isNone_iff_eq_none, findAncestor?,
    find?_eq_none]
  intro a ha hin
  obtain ⟨k, hk, hmem⟩ := (Option.any_eq_true _ _).1 hin
  refine h.role_ne_quiet ht ha hk ?_
  simp only [contains_eq_mem, mem_cons, not_mem_nil, or_false,
    decide_eq_true_eq] at hmem
  rcases hmem with rfl | rfl | rfl | rfl | rfl <;> rfl

namespace Calls

/-! ## Seen from the call -/

theorem calleeOf?_eq_some (h : calleeOf? n = some callee) :
    n.label.isCall = true ∧ callee ∈ n.children ∧
      ((n.kind? = some .callExpression ∧ n.field? .function = some callee) ∨
        (n.kind? = some .newExpression ∧ n.field? .constructor = some callee)) := by
  unfold calleeOf? at h
  split at h
  · next hk =>
    refine ⟨?_, mem_of_find?_eq_some h, .inl ⟨hk, h⟩⟩
    rw [isCall_of_kind? hk]
    rfl
  · next hk =>
    refine ⟨?_, mem_of_find?_eq_some h, .inr ⟨hk, h⟩⟩
    rw [isCall_of_kind? hk]
    rfl
  · cases h

/-- An identifier names an expression: it is the expression, or what the expression accesses. -/
inductive IsNamedBy (c token : Node) : Prop
  | self (hk : token.kind?.any Kind.isIdentifier = true) (h : c = token)
  | property (hk : c.kind? = some .memberExpression) (h : c.field? .property = some token)

theorem isNamedBy_of_calleeName? (h : calleeName? c = some token) : IsNamedBy c token := by
  unfold calleeName? at h
  split at h
  · next hk =>
    obtain rfl := Option.some.inj h
    refine .self ?_ rfl
    rw [hk]
    rfl
  · next hk => exact .property hk h
  · cases h

theorem IsNamedBy.tree (h : IsNamedBy c token) : token.tree = c.tree := by
  cases h with
  | self hk h => rw [h]
  | property hk h => exact tree_of_mem_children (mem_of_find?_eq_some h)

theorem wrapper_of_isCall (h : n.label.isCall = true) :
    n.kind?.any Kind.isTransparentWrapper = false := by
  rcases kind_of_isCall h with hk | hk <;> rw [hk] <;> rfl

section

variable (ht : n.tree.IsParsed) (hcallee : calleeOf? n = some callee)

include ht hcallee

theorem exists_wrappers_unwrap : ∃ w, callee.unwrap.ancestors = w ++ n :: n.ancestors ∧
    (∀ a ∈ w, a.kind?.any Kind.isTransparentWrapper = true) ∧
    w.getLast?.getD callee.unwrap = callee := by
  obtain ⟨-, hmem, -⟩ := calleeOf?_eq_some hcallee
  rw [← ancestors_of_mem_children ht hmem]
  exact exists_wrappers_unwrapUpTo _ (tree_of_mem_children hmem ▸ ht)

omit ht in
theorem tree_unwrap_callee : callee.unwrap.tree = n.tree :=
  (tree_unwrap callee).trans (tree_of_calleeOf? hcallee)

omit ht in
theorem tree_of_isNamedBy (htoken : IsNamedBy callee.unwrap token) : token.tree = n.tree :=
  htoken.tree.trans (tree_unwrap_callee hcallee)

/-- The name that a call finds below wrappers and accesses leads back to the call. -/
theorem leadsTo_of_isNamedBy (htoken : IsNamedBy callee.unwrap token) : token.LeadsTo n := by
  obtain ⟨hcall, -, -⟩ := calleeOf?_eq_some hcallee
  obtain ⟨w, hw, hwrappers, -⟩ := exists_wrappers_unwrap ht hcallee
  have hparsed : callee.unwrap.tree.IsParsed := tree_unwrap_callee hcallee ▸ ht
  have hon : ∀ a ∈ w, a.kind?.any Kind.leadsOn = true :=
    fun a ha => leadsOn_of_wrapper (hwrappers a ha)
  obtain ⟨hk, rfl⟩ | ⟨hk, hproperty⟩ := htoken
  · exact ⟨hk, hcall, w, hw, hon⟩
  · refine ⟨isIdentifier_of_property hparsed hk hproperty, hcall, callee.unwrap :: w, ?_, ?_⟩
    · rw [ancestors_of_mem_children hparsed (mem_of_find?_eq_some hproperty), hw]
      rfl
    · refine forall_mem_cons.2 ⟨?_, hon⟩
      rw [hk]
      rfl

theorem expressionOf_of_isNamedBy (htoken : IsNamedBy callee.unwrap token) :
    Usage.expressionOf token = callee.unwrap := by
  obtain ⟨hcall, -, -⟩ := calleeOf?_eq_some hcallee
  obtain ⟨w, hw, hwrappers, -⟩ := exists_wrappers_unwrap ht hcallee
  have hparsed : callee.unwrap.tree.IsParsed := tree_unwrap_callee hcallee ▸ ht
  unfold Usage.expressionOf
  obtain ⟨hk, rfl⟩ | ⟨hk, hproperty⟩ := htoken
  · -- neither a wrapper nor a call accesses a member
    obtain ⟨q, hq, hkind⟩ : ∃ q, callee.unwrap.parent? = some q ∧
        q.hasKind .memberExpression = false := by
      rw [parent?_eq_head?, hw]
      rcases w with _ | ⟨a, w⟩
      · refine ⟨n, rfl, ?_⟩
        rcases kind_of_isCall hcall with hk | hk <;> rw [hasKind, hk] <;> rfl
      · refine ⟨a, rfl, ?_⟩
        obtain ⟨k, hk, hwrapper⟩ := (Option.any_eq_true _ _).1 (hwrappers a mem_cons_self)
        rw [hasKind, hk]
        clear hk
        revert hwrapper
        cases k <;> decide
    rw [hq]
    simp [hkind]
  · rw [parent?_of_mem_children hparsed (mem_of_find?_eq_some hproperty)]
    have hkind : callee.unwrap.hasKind .memberExpression = true := by
      rw [hasKind, hk]
      rfl
    simp [hkind, isFieldOf_of_field? hproperty]

theorem outermostWrapper_of_isNamedBy (htoken : IsNamedBy callee.unwrap token) :
    (Usage.expressionOf token).outermostWrapper = callee := by
  obtain ⟨hcall, -, -⟩ := calleeOf?_eq_some hcallee
  obtain ⟨w, hw, hwrappers, hlast⟩ := exists_wrappers_unwrap ht hcallee
  rw [expressionOf_of_isNamedBy ht hcallee htoken,
    outermostWrapper_of_ancestors hw hwrappers (wrapper_of_isCall hcall), hlast]

theorem classify_of_isNamedBy (htoken : IsNamedBy callee.unwrap token) :
    classify token = .called := by
  have hleads := leadsTo_of_isNamedBy ht hcallee htoken
  obtain ⟨-, hmem, hkinds⟩ := calleeOf?_eq_some hcallee
  have htree : token.tree.IsParsed := tree_of_isNamedBy hcallee htoken ▸ ht
  have hcalled : Usage.isCallee callee = true := by
    rw [Usage.isCallee, parent?_of_mem_children ht hmem, Option.any_some]
    rcases hkinds with ⟨hk, hfield⟩ | ⟨hk, hfield⟩
    iterate 2 simp [hasKind, hk, isFieldOf_of_field? hfield]
  unfold classify
  simp only [Usage.inImport_of_leadsTo htree hleads, outermostWrapper_of_isNamedBy ht hcallee htoken,
    hcalled, if_true, Bool.false_eq_true, if_false]

end

/-- The callable at a place is the one to which its calls are attributed. -/
theorem enclosingCallable?_of_callerAt? {site : ReferenceSite} {d : Declaration}
    (hsite : site.node.tree = site.file.tree) (h : callerAt? site = some d) :
    d.file = site.file ∧ site.node.enclosingCallable? = some (d.node, d.nameNode) := by
  obtain ⟨⟨owner, name⟩, henclosing, rfl⟩ := Option.map_eq_some_iff.1 h
  dsimp only
  cases hname : (Declaration.ofName? site.file name).filter (·.node == owner) with
  | none => exact ⟨rfl, henclosing⟩
  | some d =>
    obtain ⟨hofName, hbeq⟩ := Option.filter_eq_some_iff.1 hname
    have hpair := pairIn_enclosingCallable? henclosing
    have hlies := Declaration.liesIn_of_ofName? hofName (hpair.2.trans hsite)
    have hnode : d.node = owner :=
      Node.eq_of_beq hbeq (hlies.node_tree.trans (hpair.1.trans hsite).symm)
    have hname : d.nameNode = name := by
      cases Declaration.namedBy_of_ofName? hofName <;> rfl
    rw [Option.getD_some, hnode, hname]
    exact ⟨hlies.file_eq, henclosing⟩

theorem key_of_callerAt? {site : ReferenceSite} {owner name : Node}
    (hsite : site.node.tree = site.file.tree)
    (h : site.node.enclosingCallable? = some (owner, name)) :
    ∃ d, callerAt? site = some d ∧ d.key = ⟨site.file.id, name.startByte⟩ := by
  obtain ⟨d, hd⟩ : ∃ d, callerAt? site = some d := ⟨_, by rw [callerAt?, h, Option.map_some]⟩
  obtain ⟨hfile, henclosing⟩ := enclosingCallable?_of_callerAt? hsite hd
  cases h.symm.trans henclosing
  exact ⟨d, hd, by rw [Declaration.key, hfile]⟩

end Calls

end Query

end ScriptAtlas
