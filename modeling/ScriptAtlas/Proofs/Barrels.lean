import ScriptAtlas.Proofs.ExportAnswers
import ScriptAtlas.Proofs.ExportStatements

/-!
# Chains of re-exports

A barrel is a file that hands on what other files export. A search through barrels takes up no goal
twice and never comes back to one, also where it found nothing there because it was still under way. It
loses nothing by that: what it leaves behind without a result is closed under re-exports.

* `Export.ExportsItself`: a file exports a name by a statement of its own.
* `Export.Unseen`: the statements that export a name and of which no search finds it.
* `Export.Hop`: a file hands on the question for a name to another file, perhaps for another name.
* `Export.Leaves`: a search without a result takes up dead goals only.
* `Export.moduleExport_ne_nil_iff`: a name is found exactly when a chain of re-exports leads to a file
  that exports a name itself, by a statement that is not unseen.
* `Export.globalDefault_not_found`: a default that no search finds.
-/

namespace ScriptAtlas.Export

open List Project Syntax Syntax.Node

variable {idx : Index} {file : SourceFile} {stmt : Node} {s : Search Option} {ds : List Declaration}
variable {name : String}

/-! ## Statements and hops -/

/-- An export statement of the given form exports a name by itself. -/
inductive StatementExports (idx : Index) (file : SourceFile) (stmt : Node) : Form → String → Prop
  /-- A declaration, under each of its names. -/
  | declared (d : Node) {decl name : Node} (h : (decl, name) ∈ stmt.statementDeclarations) :
      StatementExports idx file stmt (.declaration d false) name.text
  /-- A new name for something in a namespace: `import A = N.B`. -/
  | renamed {d name : Node} (hkind : d.hasKind .importAlias)
      (hname : (d.namedChildren.find? (·.hasKind .identifier)) = some name) :
      StatementExports idx file stmt (.declaration d false) name.text
  /-- A declaration, as the default. -/
  | default (d : Node) : StatementExports idx file stmt (.declaration d true) "default"
  /-- A value, as the default. -/
  | value (v : Node) : StatementExports idx file stmt (.value v true) "default"
  /-- An entry of a list without a source whose name means something. -/
  | listed {clause : Node} {r : Renaming} (hr : r ∈ renamings clause)
      (h : (idx.resolveName file stmt r.inner .any).isSome) :
      StatementExports idx file stmt (.names clause none) r.outer
  /-- Another module under one name. -/
  | space {ns name : Node} (h : ns.parts.head? = some name) :
      StatementExports idx file stmt (.space ns) name.stringValue

/-- An export statement of the given form that contributes nothing to a search, whatever it exports. -/
inductive Unseen (idx : Index) (file : SourceFile) (stmt : Node) : Form → Prop
  | renamed {d : Node} (hkind : d.hasKind .importAlias) : Unseen idx file stmt (.declaration d false)
  /-- What stands as the default is no declaration of one thing, such as a list of variables. -/
  | default {d : Node} (h : Declaration.ofNode? file d = none) :
      Unseen idx file stmt (.declaration d true)
  /-- A plain name without a meaning, such as that of a global value that nothing declares. -/
  | value {v : Node} (hkind : v.hasKind .identifier)
      (h : idx.resolveName file stmt v.text .any = none) : Unseen idx file stmt (.value v true)

/-- A file exports a name by one of its own statements. -/
def ExportsItself (idx : Index) (file : SourceFile) (name : String) : Prop :=
  ∃ stmt ∈ file.root.namedChildren, stmt.hasKind .exportStatement ∧
    StatementExports idx file stmt (formOf stmt) name

/-- A file exports a name by one of its own statements, and searches see it. -/
def ExportsInSight (idx : Index) (file : SourceFile) (name : String) : Prop :=
  ∃ stmt ∈ file.root.namedChildren, stmt.hasKind .exportStatement ∧
    StatementExports idx file stmt (formOf stmt) name ∧ ¬ Unseen idx file stmt (formOf stmt)

/-- A file hands on a name to a file that a specifier in it was resolved to. -/
inductive Hop (idx : Index) : SourceFile × String → SourceFile × String → Prop
  /-- An entry of a list with a source, with its renaming. -/
  | names {file target : SourceFile} {stmt clause src : Node} {r : Renaming}
      (hstmt : stmt ∈ file.root.namedChildren) (hexport : stmt.hasKind .exportStatement)
      (hform : formOf stmt = .names clause (some src)) (hr : r ∈ renamings clause)
      (htarget : target ∈ idx.linked file.id src.stringValue) :
      Hop idx (file, r.outer) (target, r.inner)
  /-- A star, for all names but the default. -/
  | star {file target : SourceFile} {stmt src : Node} {name : String}
      (hstmt : stmt ∈ file.root.namedChildren) (hexport : stmt.hasKind .exportStatement)
      (hform : formOf stmt = .star src) (hname : name ≠ "default")
      (htarget : target ∈ idx.linked file.id src.stringValue) :
      Hop idx (file, name) (target, name)

theorem getD_declarations_eq_nil_iff {o : Option Symbol} :
    (o.map Symbol.declarations).getD [] = [] ↔ o.isSome = false := by
  cases o <;> simp [Symbol.declarations]

theorem valueDeclarations_eq_nil_iff {stmt value : Node}
    (hdefault : stmt.hasToken "default" = true) :
    valueDeclarations idx file stmt value = [] ↔ Unseen idx file stmt (.value value true) := by
  unfold valueDeclarations
  by_cases hid : value.hasKind .identifier
  · simp only [hid, if_true, getD_declarations_eq_nil_iff, Option.isSome_eq_false_iff,
      Option.isNone_iff_eq_none]
    constructor
    · exact .value hid
    · rintro (_ | _ | ⟨-, h⟩)
      exact h
  · simp only [hid, Bool.false_eq_true, if_false]
    -- The keyword stands in the statement, so there is always something to point at.
    obtain ⟨c, hc, htoken⟩ := any_eq_true.1 hdefault
    have hkeyword : (stmt.children.find? fun c => c.isToken "default" || c.isToken "=").isSome :=
      find?_isSome.2 ⟨c, hc, by simp [htoken]⟩
    obtain ⟨keyword, hkeyword⟩ := Option.isSome_iff_exists.1 hkeyword
    simp only [hkeyword]
    constructor
    · intro h
      split at h <;> cases h
    · rintro (_ | _ | ⟨hkind, -⟩)
      exact absurd hkind hid

theorem isSome_make?_of_mem_statementDeclarations {p : Node × Node}
    (h : p ∈ stmt.statementDeclarations) : (Declaration.make? file p.1 p.2).isSome := by
  obtain ⟨k, hk, hmem⟩ :=
    (Option.any_eq_true _ _).1 (makes_of_mem_statementDeclarations h).hasKindIn
  have hmem := contains_iff_mem.1 hmem
  simp only [singleKinds, mem_cons, not_mem_nil, or_false] at hmem
  rw [Declaration.make?, Option.isSome_map, declarationKind?, hk]
  rcases hmem with rfl | rfl | rfl | rfl | rfl | rfl | rfl | rfl | rfl | rfl | rfl <;> rfl

theorem namedDeclarations_ne_nil_iff :
    namedDeclarations file stmt name ≠ [] ↔
      ∃ decl n, (decl, n) ∈ stmt.statementDeclarations ∧ n.text = name := by
  rw [Ne, namedDeclarations, filterMap_eq_nil_iff, not_forall]
  constructor
  · rintro ⟨⟨decl, n⟩, h⟩
    obtain ⟨hmem, -⟩ := Classical.not_imp.1 h
    obtain ⟨hmem, hname⟩ := mem_filter.1 hmem
    exact ⟨decl, n, hmem, eq_of_beq hname⟩
  · rintro ⟨decl, n, hmem, rfl⟩
    refine ⟨(decl, n), fun h => ?_⟩
    exact Option.isSome_iff_ne_none.1 (isSome_make?_of_mem_statementDeclarations hmem)
      (h (mem_filter.2 ⟨hmem, beq_self_eq_true _⟩))

/-- A statement that exports a new name for something in a namespace declares nothing. -/
theorem not_mem_statementDeclarations_of_renamed {d : Node} {p : Node × Node}
    (hexport : stmt.hasKind .exportStatement = true) (hform : formOf stmt = .declaration d false)
    (hkind : d.hasKind .importAlias = true) : p ∉ stmt.statementDeclarations := by
  intro hp
  obtain ⟨c, hc, hmakes⟩ :=
    (makes_of_mem_statementDeclarations hp).of_export (kind?_of_hasKind hexport)
  have hfield : stmt.field? .declaration = some d := (describes_of_formOf hform).1
  obtain rfl := Option.some.inj (hc.symm.trans hfield)
  have hk := kind?_of_hasKind hkind
  have hitself {inner : Node} (hwraps : c.Wraps inner) : inner = c := by
    cases hwraps with
    | itself => rfl
    | exported h => cases hk.symm.trans h
    | declared h => cases hk.symm.trans h
    | stated h => cases hk.symm.trans h
  have hnot {ks : List Kind} {inner : Node} (hwraps : c.Wraps inner)
      (h : inner.hasKindIn ks = true) (hks : .importAlias ∉ ks) : False := by
    have := hasKind_of_hasKindIn (hitself hwraps ▸ h) hks
    rw [hkind] at this
    cases this
  cases hmakes with
  | single hwraps h => exact hnot hwraps h (by decide)
  | listed hwraps h => exact hnot hwraps h (by decide)

theorem resolvedNames_ne_nil_iff {rs : List Renaming} :
    ((rs.filter (·.outer == name)).flatMap fun r =>
      ((idx.resolveName file stmt r.inner .any).map Symbol.declarations).getD []) ≠ [] ↔
    ∃ r ∈ rs, r.outer = name ∧ (idx.resolveName file stmt r.inner .any).isSome := by
  simp only [Ne, flatMap_eq_nil_iff, getD_declarations_eq_nil_iff, mem_filter]
  simp [Option.isSome_iff_ne_none]

/-- A statement contributes declarations of its own exactly when it exports the name by itself and is
not unseen. -/
theorem ownDeclarations_ne_nil_iff (hexport : stmt.hasKind .exportStatement = true) :
    ownDeclarations idx file stmt (formOf stmt) name ≠ [] ↔
      StatementExports idx file stmt (formOf stmt) name ∧ ¬ Unseen idx file stmt (formOf stmt) := by
  cases hform : formOf stmt with
  | declaration d isDefault =>
    cases isDefault with
    | false =>
      change namedDeclarations file stmt name ≠ [] ↔ _
      rw [namedDeclarations_ne_nil_iff]
      constructor
      · rintro ⟨decl, n, hmem, rfl⟩
        refine ⟨.declared d hmem, ?_⟩
        rintro (hkind | _ | _)
        exact not_mem_statementDeclarations_of_renamed hexport hform hkind hmem
      · rintro ⟨_ | ⟨hkind, -⟩, hseen⟩
        · exact ⟨_, _, ‹_›, rfl⟩
        · exact absurd (.renamed hkind) hseen
    | true =>
      change (if name == "default" then (Declaration.ofNode? file d).toList else []) ≠ [] ↔ _
      constructor
      · intro h
        split at h
        · next hname =>
          obtain rfl : name = "default" := by simpa using hname
          refine ⟨.default d, ?_⟩
          rintro (_ | hnone | _)
          exact h (by rw [hnone]; rfl)
        · simp at h
      · rintro ⟨_ | _ | _, hseen⟩ hnil
        exact hseen (.default (by simpa using hnil))
  | value v isDefault =>
    change (if isDefault && name == "default" then valueDeclarations idx file stmt v else []) ≠ [] ↔ _
    constructor
    · intro h
      split at h
      · next hname =>
        obtain ⟨rfl, rfl⟩ : isDefault = true ∧ name = "default" := by simpa using hname
        exact ⟨.value v, fun hunseen =>
          h ((valueDeclarations_eq_nil_iff (describes_of_formOf hform).2).2 hunseen)⟩
      · simp at h
    · rintro ⟨_ | _ | _ | _, hseen⟩ hnil
      exact hseen ((valueDeclarations_eq_nil_iff (describes_of_formOf hform).2).1 hnil)
  | names clause source =>
    cases source with
    | none =>
      change ((renamings clause).filter (·.outer == name)).flatMap _ ≠ [] ↔ _
      rw [resolvedNames_ne_nil_iff]
      constructor
      · rintro ⟨r, hr, rfl, h⟩
        exact ⟨.listed hr h, fun hunseen => nomatch hunseen⟩
      · rintro ⟨_ | _ | _ | _ | ⟨hr, h⟩, -⟩
        exact ⟨_, hr, rfl, h⟩
    | some src =>
      constructor
      · intro h
        exact absurd rfl h
      · rintro ⟨⟨⟩, -⟩
  | space ns =>
    constructor
    · intro h
      simp only [ownDeclarations] at h
      split at h
      · next n hn =>
        split at h
        · next hname =>
          obtain rfl : n.stringValue = name := by simpa using hname
          exact ⟨.space hn, fun hunseen => nomatch hunseen⟩
        · exact absurd rfl h
      · exact absurd rfl h
    · rintro ⟨_ | _ | _ | _ | _ | h, -⟩
      simp [ownDeclarations, h]
  | whole target => exact ⟨fun h => absurd rfl h, fun h => by cases h.1⟩
  | star src => exact ⟨fun h => absurd rfl h, fun h => by cases h.1⟩
  | none => exact ⟨fun h => absurd rfl h, fun h => by cases h.1⟩

/-- A chain of re-exports leads from a name of a file to a name that a file exports itself, in sight. -/
def Reaches (idx : Index) (file : SourceFile) (name : String) : Prop :=
  ∃ target inner, Relation.ReflTransGen (Hop idx) (file, name) (target, inner) ∧
    ExportsInSight idx target inner

theorem Reaches.of_hop {file target : SourceFile} {name inner : String}
    (hhop : Hop idx (file, name) (target, inner)) (h : Reaches idx target inner) :
    Reaches idx file name := by
  obtain ⟨g, m, hchain, hexports⟩ := h
  exact ⟨g, m, .head hhop hchain, hexports⟩

/-! ## Running searches -/

theorem run_bind_eq_some_iff {f : List Declaration → Search Option} {v : List Goal}
    {r : List Declaration × List Goal} :
    (s >>= f) v = some r ↔ ∃ ds w, s v = some (ds, w) ∧ f ds w = some r := by
  change (s v).bind (fun p => f p.1 p.2) = some r ↔ _
  rw [Option.bind_eq_some_iff]
  constructor
  · rintro ⟨⟨ds, w⟩, hs, hf⟩
    exact ⟨ds, w, hs, hf⟩
  · rintro ⟨ds, w, hs, hf⟩
    exact ⟨(ds, w), hs, hf⟩

theorem run_pure_eq_some_iff {ds es : List Declaration} {v w : List Goal} :
    (pure ds : Search Option) v = some (es, w) ↔ ds = es ∧ v = w := by
  change some (ds, v) = some (es, w) ↔ _
  simp

theorem run_first_cons {rest : List (Search Option)} {v w : List Goal}
    (h : Search.first (s :: rest) v = some (ds, w)) :
    (∃ u, s v = some ([], u) ∧ Search.first rest u = some (ds, w)) ∨
      (s v = some (ds, w) ∧ ds ≠ []) := by
  obtain ⟨es, u, hs, hrest⟩ := run_bind_eq_some_iff.1 h
  cases es with
  | nil => exact Or.inl ⟨u, hs, hrest⟩
  | cons d es =>
    obtain ⟨rfl, rfl⟩ := run_pure_eq_some_iff.1 hrest
    exact Or.inr ⟨hs, cons_ne_nil d es⟩

theorem run_all_cons {rest : List (Search Option)} {v w : List Goal}
    (h : Search.all (s :: rest) v = some (ds, w)) :
    ∃ es u fs, s v = some (es, u) ∧ Search.all rest u = some (fs, w) ∧ es ++ fs = ds := by
  obtain ⟨es, u, hs, hrest⟩ := run_bind_eq_some_iff.1 h
  obtain ⟨fs, u', hall, hpure⟩ := run_bind_eq_some_iff.1 hrest
  obtain ⟨rfl, rfl⟩ := run_pure_eq_some_iff.1 hpure
  exact ⟨es, u, fs, hs, hall, rfl⟩

/-! ## What a search leaves behind -/

/-- Neither does the goal's file export the goal's name itself, nor does it hand it on to a goal that is
not taken up. -/
def Dead (idx : Index) (visited : List Goal) (goal : Goal) : Prop :=
  ∀ file ∈ idx.files.toList, ∀ name, goalOf file file.root name = goal →
    ¬ ExportsInSight idx file name ∧ ∀ target inner, Hop idx (file, name) (target, inner) →
      goalOf target target.root inner ∈ visited

/-- From the first state to the second one only dead goals are taken up. -/
def Leaves (idx : Index) (v w : List Goal) : Prop :=
  v ⊆ w ∧ ∀ goal ∈ w, goal ∈ v ∨ Dead idx w goal

theorem Dead.mono {v w : List Goal} {goal : Goal} (h : Dead idx v goal) (hvw : v ⊆ w) :
    Dead idx w goal := by
  intro file hfile name heq
  obtain ⟨hexports, hhops⟩ := h file hfile name heq
  exact ⟨hexports, fun target inner hhop => hvw (hhops target inner hhop)⟩

theorem Leaves.refl (idx : Index) (v : List Goal) : Leaves idx v v :=
  ⟨List.Subset.refl v, fun _ h => Or.inl h⟩

theorem Leaves.trans {u v w : List Goal} (huv : Leaves idx u v) (hvw : Leaves idx v w) :
    Leaves idx u w := by
  refine ⟨List.Subset.trans huv.1 hvw.1, fun goal hgoal => ?_⟩
  rcases hvw.2 goal hgoal with hv | hdead
  · exact (huv.2 goal hv).imp id fun hdead => hdead.mono hvw.1
  · exact Or.inr hdead

/-- A search that finds something only if `P`, and that without a result takes up dead goals only. -/
structure Explores (idx : Index) (s : Search Option) (P : Prop) : Prop where
  finds : ∀ {v ds w}, s v = some (ds, w) → ds ≠ [] → P
  leaves : ∀ {v w}, s v = some ([], w) → Leaves idx v w

/-- The search has ended without a result, and later goals came on top. -/
def Ended (s : Search Option) (w : List Goal) : Prop := ∃ u v, s u = some ([], v) ∧ v ⊆ w

theorem ended_pure {w : List Goal} (h : Ended (pure ds : Search Option) w) : ds = [] := by
  obtain ⟨a, b, hs, -⟩ := h
  exact (run_pure_eq_some_iff.1 hs).1

section

variable {idx : Index} {P : Prop}
variable {ss : List (Search Option)}

theorem explores_pure {ds : List Declaration} (h : ds ≠ [] → P) : Explores idx (pure ds) P where
  finds hrun hne := by
    obtain ⟨rfl, -⟩ := run_pure_eq_some_iff.1 hrun
    exact h hne
  leaves hrun := by
    obtain ⟨-, rfl⟩ := run_pure_eq_some_iff.1 hrun
    exact .refl idx _

theorem explores_bind {s t : Search Option} {f : List Declaration → Search Option}
    (hs : Explores idx s P) (ht : Explores idx t P) (hnil : f [] = t)
    (hcons : ∀ ds, ds ≠ [] → f ds = pure ds) : Explores idx (s >>= f) P where
  finds hrun hne := by
    obtain ⟨es, u, hes, hf⟩ := run_bind_eq_some_iff.1 hrun
    by_cases h : es = []
    · rw [h, hnil] at hf
      exact ht.finds hf hne
    · exact hs.finds hes h
  leaves hrun := by
    obtain ⟨es, u, hes, hf⟩ := run_bind_eq_some_iff.1 hrun
    by_cases h : es = []
    · rw [h] at hes hf
      rw [hnil] at hf
      exact (hs.leaves hes).trans (ht.leaves hf)
    · rw [hcons es h] at hf
      exact absurd (run_pure_eq_some_iff.1 hf).1 h

theorem explores_first (h : ∀ s ∈ ss, Explores idx s P) :
    Explores idx (Search.first ss) P := by
  induction ss with
  | nil => exact explores_pure fun h => absurd rfl h
  | cons s rest ih =>
    refine explores_bind (h s mem_cons_self)
      (ih fun t ht => h t (mem_cons_of_mem s ht)) rfl fun ds hds => ?_
    cases ds with
    | nil => exact absurd rfl hds
    | cons d ds => rfl

theorem explores_all (h : ∀ s ∈ ss, Explores idx s P) :
    Explores idx (Search.all ss) P := by
  induction ss with
  | nil => exact explores_pure fun h => absurd rfl h
  | cons s rest ih =>
    have hs := h s mem_cons_self
    have hrest := ih fun t ht => h t (mem_cons_of_mem s ht)
    constructor
    · intro v ds w hrun hne
      obtain ⟨es, u, fs, hes, hfs, rfl⟩ := run_all_cons hrun
      by_cases hnil : es = []
      · exact hrest.finds hfs fun h => hne (by rw [hnil, h]; rfl)
      · exact hs.finds hes hnil
    · intro v w hrun
      obtain ⟨es, u, fs, hes, hfs, happend⟩ := run_all_cons hrun
      obtain ⟨rfl, rfl⟩ := append_eq_nil_iff.1 happend
      exact (hs.leaves hes).trans (hrest.leaves hfs)

theorem ended_all (h : ∀ s ∈ ss, Explores idx s P) {w : List Goal}
    (hend : Ended (Search.all ss) w) : ∀ s ∈ ss, Ended s w := by
  obtain ⟨u, v, hrun, hvw⟩ := hend
  induction ss generalizing u with
  | nil => simp
  | cons s rest ih =>
    have hrest : ∀ t ∈ rest, Explores idx t P := fun t ht => h t (mem_cons_of_mem s ht)
    obtain ⟨es, u', fs, hs, hall, happend⟩ := run_all_cons hrun
    obtain ⟨rfl, rfl⟩ := append_eq_nil_iff.1 happend
    intro t ht
    rcases mem_cons.1 ht with rfl | ht
    · exact ⟨u, u', hs, List.Subset.trans ((explores_all hrest).leaves hall).1 hvw⟩
    · exact ih hrest u' hall t ht

theorem ended_first (h : ∀ s ∈ ss, Explores idx s P) {w : List Goal}
    (hend : Ended (Search.first ss) w) : ∀ s ∈ ss, Ended s w := by
  obtain ⟨u, v, hrun, hvw⟩ := hend
  refine ended_all h ⟨u, v, ?_, hvw⟩
  clear h
  induction ss generalizing u with
  | nil => exact hrun
  | cons s rest ih =>
    rcases run_first_cons hrun with ⟨u', hs, hfirst⟩ | ⟨-, hne⟩
    · exact run_bind_eq_some_iff.2 ⟨[], u', hs, run_bind_eq_some_iff.2 ⟨[], v, ih u' hfirst, rfl⟩⟩
    · exact absurd rfl hne

end

/-! ## Searches through barrels -/

section

variable {idx : Index} {ask : Question → Option (List Declaration)} {search : BlockSearch Option}
variable {stmt : Node} {P : Prop} {w : List Goal}

theorem ofStatement_eq_pure {file : SourceFile}
    (h : StatementExports idx file stmt (formOf stmt) name) :
    ofStatement idx ask search file stmt name =
      pure (ownDeclarations idx file stmt (formOf stmt) name) := by
  unfold ofStatement
  split
  iterate 2 next hform => rw [hform] at h; cases h
  · rfl

/-- Questions about declared modules bring nothing. -/
def NoAmbient (ask : Question → Option (List Declaration)) : Prop :=
  ∀ specifier name ds, ask (.ambient specifier name) = some ds → ds = []

/-- The search of a file explores it, and takes up its goal. -/
structure ExploresFiles (idx : Index) (search : BlockSearch Option) : Prop where
  explores : ∀ file ∈ idx.files.toList, ∀ name,
    Explores idx (search file file.root name false) (Reaches idx file name)
  takes_up : ∀ file ∈ idx.files.toList, ∀ name w,
    Ended (search file file.root name false) w → goalOf file file.root name ∈ w

variable (hplain : Plain idx) (hask : NoAmbient ask) (hsearch : ExploresFiles idx search)

include hask

theorem explores_await {specifier name : String} :
    Explores idx (Search.await (ask (.ambient specifier name))) P := by
  have hrun : ∀ {v ds w}, Search.await (ask (.ambient specifier name)) v = some (ds, w) →
      ds = [] ∧ v = w := by
    intro v ds w h
    obtain ⟨es, hes, heq⟩ := Option.bind_eq_some_iff.1 h
    obtain ⟨rfl, rfl⟩ := run_pure_eq_some_iff.1 heq
    exact ⟨hask specifier name es hes, rfl⟩
  constructor
  · intro v ds w h hne
    exact absurd (hrun h).1 hne
  · intro v w h
    obtain ⟨-, rfl⟩ := hrun h
    exact .refl idx v

include hsearch

theorem explores_moduleSearches {file : Nat} {specifier name : String}
    (hP : ∀ target ∈ idx.linked file specifier, Reaches idx target name → P) :
    ∀ s ∈ (idx.linked file specifier).map (fun target => search target target.root name false)
        ++ [Search.await (ask (.ambient specifier name))], Explores idx s P := by
  intro s hs
  rcases mem_append.1 hs with hs | hs
  · obtain ⟨target, htarget, rfl⟩ := mem_map.1 hs
    have h := hsearch.explores target (Index.mem_files_of_mem_linked htarget) name
    exact ⟨fun hrun hne => hP target htarget (h.finds hrun hne), h.leaves⟩
  · rw [mem_singleton.1 hs]
    exact explores_await hask

theorem explores_ofModule {file : Nat} {specifier name : String}
    (hP : ∀ target ∈ idx.linked file specifier, Reaches idx target name → P) :
    Explores idx (ofModule idx ask search file specifier name) P :=
  explores_first (explores_moduleSearches hask hsearch hP)

theorem goal_mem_of_ended_ofModule {file : Nat} {specifier name : String}
    (hend : Ended (ofModule idx ask search file specifier name) w) {target : SourceFile}
    (htarget : target ∈ idx.linked file specifier) : goalOf target target.root name ∈ w := by
  have hall := ended_first
    (explores_moduleSearches hask hsearch fun _ _ _ => trivial) hend
  refine hsearch.takes_up target (Index.mem_files_of_mem_linked htarget) name w (hall _ ?_)
  exact mem_append_left _ (mem_map.2 ⟨target, htarget, rfl⟩)

theorem explores_starModules (file : SourceFile) (name : String) :
    ∀ s ∈ (file.root.namedChildren.filterMap (starSource? name)).map
      (fun specifier => ofModule idx ask search file.id specifier name),
    Explores idx s (Reaches idx file name) := by
  intro s hs
  obtain ⟨specifier, hspecifier, rfl⟩ := mem_map.1 hs
  obtain ⟨stmt, hstmt, hstar⟩ := mem_filterMap.1 hspecifier
  obtain ⟨hexport, hname, src, hform, rfl⟩ := starSource?_eq_some_iff.1 hstar
  exact explores_ofModule hask hsearch fun target htarget hreaches =>
    hreaches.of_hop (.star hstmt hexport hform hname htarget)

/-- An entry of a list without a result has tried all files of its source. -/
theorem goal_mem_of_ended_names {file target : SourceFile} {stmt clause src : Node} {r : Renaming}
    (hform : formOf stmt = .names clause (some src)) (hr : r ∈ renamings clause)
    (hend : Ended (ofStatement idx ask search file stmt r.outer) w)
    (htarget : target ∈ idx.linked file.id src.stringValue) :
    goalOf target target.root r.inner ∈ w := by
  unfold ofStatement at hend
  rw [hform] at hend
  have hentries : ∀ s ∈ ((renamings clause).filter (·.outer == r.outer)).map
      (fun e => ofModule idx ask search file.id src.stringValue e.inner), Explores idx s True := by
    intro s hs
    obtain ⟨e, -, rfl⟩ := mem_map.1 hs
    exact explores_ofModule hask hsearch fun _ _ _ => trivial
  refine goal_mem_of_ended_ofModule hask hsearch (ended_all hentries hend _ ?_) htarget
  exact mem_map.2 ⟨r, mem_filter.2 ⟨hr, by simp⟩, rfl⟩

include hplain

variable {file : SourceFile} (hfile : file ∈ idx.files.toList) (name : String)

include hfile

theorem explores_ofStatement (hstmt : stmt ∈ file.root.namedChildren)
    (hexport : stmt.hasKind .exportStatement = true) :
    Explores idx (ofStatement idx ask search file stmt name) (Reaches idx file name) := by
  unfold ofStatement
  split
  · next clause src hform =>
    refine explores_all fun s hs => ?_
    obtain ⟨r, hr, rfl⟩ := mem_map.1 hs
    obtain ⟨hr, hname⟩ := mem_filter.1 hr
    refine explores_ofModule hask hsearch fun target htarget hreaches => hreaches.of_hop ?_
    rw [← eq_of_beq hname]
    exact .names hstmt hexport hform hr htarget
  · next target hform => exact absurd hform (hplain.formOf_ne_whole hfile hstmt hexport _)
  · refine explores_pure fun hne => ⟨file, name, .refl, stmt, hstmt, hexport, ?_⟩
    exact (ownDeclarations_ne_nil_iff hexport).1 hne

theorem explores_ofBlockStatement (hstmt : stmt ∈ file.root.namedChildren) :
    Explores idx (ofBlockStatement idx ask search file false name stmt) (Reaches idx file name) := by
  unfold ofBlockStatement
  split
  · next hexport => exact explores_ofStatement hplain hask hsearch hfile name hstmt hexport
  · exact explores_pure fun hne => absurd rfl hne

theorem explores_blockStatements :
    ∀ s ∈ file.root.namedChildren.map (ofBlockStatement idx ask search file false name),
      Explores idx s (Reaches idx file name) := by
  intro s hs
  obtain ⟨stmt, hstmt, rfl⟩ := mem_map.1 hs
  exact explores_ofBlockStatement hplain hask hsearch hfile name hstmt

theorem explores_ofBlock :
    Explores idx (ofBlock idx ask search file file.root name false) (Reaches idx file name) := by
  refine explores_bind (explores_all (explores_blockStatements hplain hask hsearch hfile name))
    (explores_first (explores_starModules hask hsearch file name)) rfl fun ds hds => ?_
  cases ds with
  | nil => exact absurd rfl hds
  | cons d ds => rfl

variable {name}

/-- A block without a result has tried its statements and its stars. -/
theorem ended_parts_of_ended_ofBlock
    (hend : Ended (ofBlock idx ask search file file.root name false) w) :
    (∀ stmt ∈ file.root.namedChildren,
      Ended (ofBlockStatement idx ask search file false name stmt) w) ∧
    (∀ specifier ∈ file.root.namedChildren.filterMap (starSource? name),
      Ended (ofModule idx ask search file.id specifier name) w) := by
  have hstatements := explores_blockStatements hplain hask hsearch hfile name
  have hstars := explores_starModules hask hsearch file name
  obtain ⟨u, v, hrun, hvw⟩ := hend
  obtain ⟨ds, u', hown, hrest⟩ := run_bind_eq_some_iff.1 hrun
  cases ds with
  | nil =>
    have hfirst : Search.first _ u' = some ([], v) := hrest
    have hsub := List.Subset.trans ((explores_first hstars).leaves hfirst).1 hvw
    refine ⟨fun stmt hstmt => ?_, fun specifier hspecifier => ?_⟩
    · exact ended_all hstatements ⟨u, u', hown, hsub⟩ _ (mem_map_of_mem hstmt)
    · exact ended_first hstars ⟨u', v, hfirst, hvw⟩ _ (mem_map.2 ⟨_, hspecifier, rfl⟩)
  | cons d ds => cases (run_pure_eq_some_iff.1 hrest).1

theorem dead_of_ended_ofBlock (hend : Ended (ofBlock idx ask search file file.root name false) w) :
    ¬ ExportsInSight idx file name ∧ ∀ target inner, Hop idx (file, name) (target, inner) →
      goalOf target target.root inner ∈ w := by
  obtain ⟨hstatements, hstars⟩ := ended_parts_of_ended_ofBlock hplain hask hsearch hfile hend
  constructor
  · rintro ⟨stmt, hstmt, hexport, h⟩
    have hend := hstatements stmt hstmt
    rw [ofBlockStatement, if_pos hexport, ofStatement_eq_pure h.1] at hend
    exact (ownDeclarations_ne_nil_iff hexport).2 h (ended_pure hend)
  · rintro target inner (⟨hstmt, hexport, hform, hr, htarget⟩ | ⟨hstmt, hexport, hform, hname, htarget⟩)
    · have hend := hstatements _ hstmt
      rw [ofBlockStatement, if_pos hexport] at hend
      exact goal_mem_of_ended_names hask hsearch hform hr hend htarget
    · refine goal_mem_of_ended_ofModule hask hsearch (hstars _ ?_) htarget
      exact mem_filterMap.2
        ⟨_, hstmt, starSource?_eq_some_iff.2 ⟨hexport, hname, _, hform, rfl⟩⟩

end

section

variable {idx : Index} (hplain : Plain idx) (hwell : idx.WellFormed)
  {ask : Question → Option (List Declaration)} (hask : NoAmbient ask)

include hplain hwell hask

/-- A step without a result takes up its goal, which is dead in the end, and else dead goals only. -/
theorem leaves_step {search : BlockSearch Option} (hsearch : ExploresFiles idx search)
    {file : SourceFile} (hfile : file ∈ idx.files.toList) {v w : List Goal}
    (hrun : step idx ask search file file.root name false v = some ([], w)) :
    Leaves idx v w ∧ goalOf file file.root name ∈ w := by
  unfold step at hrun
  split at hrun
  · next hvisited =>
    cases hrun
    exact ⟨.refl idx v, contains_iff_mem.1 hvisited⟩
  · have hblock := (explores_ofBlock hplain hask hsearch hfile name).leaves hrun
    have hdead := dead_of_ended_ofBlock hplain hask hsearch hfile ⟨_, w, hrun, List.Subset.refl w⟩
    refine ⟨⟨fun g hg => hblock.1 (mem_cons_of_mem _ hg), fun g hg => ?_⟩,
      hblock.1 mem_cons_self⟩
    rcases hblock.2 g hg with hg | hg
    · rcases mem_cons.1 hg with rfl | hg
      · -- The goal itself: the only file with its number is the one that was searched.
        refine Or.inr fun file' hfile' name' heq => ?_
        obtain rfl := hwell.eq_of_id_eq hfile' hfile (congrArg Goal.file heq)
        obtain rfl : name' = name := congrArg Goal.name heq
        exact hdead
      · exact Or.inl hg
    · exact Or.inr hg

theorem exploresFiles_step {search : BlockSearch Option} (hsearch : ExploresFiles idx search) :
    ExploresFiles idx (step idx ask search) := by
  refine ⟨fun file hfile name => ⟨fun {v ds w} hrun hne => ?_, fun hrun => ?_⟩, ?_⟩
  · unfold step at hrun
    split at hrun
    · cases hrun
      exact absurd rfl hne
    · exact (explores_ofBlock hplain hask hsearch hfile name).finds hrun hne
  · exact (leaves_step hplain hwell hask hsearch hfile hrun).1
  · rintro file hfile name w ⟨u, v, hrun, hvw⟩
    exact hvw (leaves_step hplain hwell hask hsearch hfile hrun).2

theorem exploresFiles_upTo (fuel : Nat) : ExploresFiles idx (upTo idx ask none fuel) := by
  induction fuel with
  | zero =>
    refine ⟨fun _ _ _ => ⟨(fun h => nomatch h), (fun h => nomatch h)⟩, ?_⟩
    rintro _ _ _ _ ⟨_, _, hrun, -⟩
    cases hrun
  | succ fuel ih => exact exploresFiles_step hplain hwell hask ih

end

theorem Plain.noAmbient_answerUpTo (h : Plain idx) (n : Nat) :
    NoAmbient (answerUpTo idx n) := by
  intro specifier name ds hds
  cases n with
  | zero => cases hds
  | succ n =>
    simp only [answerUpTo, searchFor, h.ambientBlocks_eq_nil, map_nil] at hds
    cases hds
    rfl

/-- Once a search from nothing ends without a result, all that chains of re-exports lead to from a goal
taken up is taken up too, and exports nothing itself. -/
theorem not_reaches_of_leaves {w : List Goal} (hw : Leaves idx [] w)
    (hfile : file ∈ idx.files.toList) (hgoal : goalOf file file.root name ∈ w) :
    ¬ Reaches idx file name := by
  have hdead : ∀ goal ∈ w, Dead idx w goal := fun goal hgoal =>
    (hw.2 goal hgoal).resolve_left (by simp)
  rintro ⟨target, inner, hchain, hexports⟩
  have hkept : ∀ p, Relation.ReflTransGen (Hop idx) (file, name) p →
      p.1 ∈ idx.files.toList ∧ goalOf p.1 p.1.root p.2 ∈ w := by
    intro p hp
    induction hp with
    | refl => exact ⟨hfile, hgoal⟩
    | tail _ hhop ih =>
      refine ⟨?_, (hdead _ ih.2 _ ih.1 _ rfl).2 _ _ hhop⟩
      cases hhop with
      | names _ _ _ _ htarget => exact Index.mem_files_of_mem_linked htarget
      | star _ _ _ _ htarget => exact Index.mem_files_of_mem_linked htarget
  obtain ⟨htarget, hinner⟩ := hkept _ hchain
  exact (hdead _ hinner target htarget inner rfl).1 hexports

theorem exists_run_of_answerUpTo {n : Nat} (hid : idx.file? file.id = some file)
    (h : answerUpTo idx (n + 1) (.file file.id name) = some ds) :
    ∃ w, upTo idx (answerUpTo idx n) none n file file.root name false [] = some (ds, w) := by
  simp only [answerUpTo, searchFor, hid] at h
  obtain ⟨⟨es, w⟩, hrun, heq⟩ := Option.bind_eq_some_iff.1 h
  cases heq
  exact ⟨w, hrun⟩

/-- What a file exports is the outcome of a search that explores files. -/
theorem exists_exploring_run {idx : Index} (hplain : Plain idx) (hwell : idx.WellFormed)
    {file : SourceFile} (hfile : file ∈ idx.files.toList) (name : String) :
    ∃ search w, ExploresFiles idx search ∧
      search file file.root name false [] = some (idx.moduleExport file name, w) := by
  obtain ⟨ds, hds⟩ := answerUpTo_of_ends (hplain.ends (.file file.id name))
  have hanswer := hds _ (Nat.le_refl _)
  have hexport : idx.moduleExport file name = ds := by
    simp [Index.moduleExport, Index.answer?, hanswer]
  obtain ⟨w, hrun⟩ := exists_run_of_answerUpTo (hwell.file?_id hfile) hanswer
  exact ⟨_, w, exploresFiles_upTo hplain hwell (hplain.noAmbient_answerUpTo _) _, hexport ▸ hrun⟩

/-- A file exports a name exactly when a chain of re-exports leads from it to a name that some file
exports itself, by a statement that is not unseen, in a project without declared modules and values in
place of modules. -/
theorem moduleExport_ne_nil_iff {idx : Index} (hplain : Plain idx) (hwell : idx.WellFormed)
    {file : SourceFile} (hfile : file ∈ idx.files.toList) (name : String) :
    idx.moduleExport file name ≠ [] ↔ ∃ target inner,
      Relation.ReflTransGen (Hop idx) (file, name) (target, inner) ∧
        ExportsInSight idx target inner := by
  obtain ⟨search, w, hsearch, hrun⟩ := exists_exploring_run hplain hwell hfile name
  constructor
  · exact (hsearch.explores file hfile name).finds hrun
  · intro hreaches hnil
    rw [hnil] at hrun
    have hgoal := hsearch.takes_up file hfile name w ⟨[], w, hrun, List.Subset.refl w⟩
    exact not_reaches_of_leaves ((hsearch.explores file hfile name).leaves hrun) hfile hgoal hreaches

/-- A project with three files that hand on each other's exports in a ring. -/
def barrelRing : Index :=
  .ofTexts
    [("a.ts", "export * from './b';\nexport \x7b x as y \x7d from './b';"),
      ("b.ts", "export * from './a';\nexport * from './c';"),
      ("c.ts", "export * from './a';\nexport const x = 1;")]
    [⟨0, "./b", [1]⟩, ⟨1, "./a", [0]⟩, ⟨1, "./c", [2]⟩, ⟨2, "./a", [0]⟩]

/-- In the ring, the name `y` of the first file leads to a name that a file exports itself, and the name
`z` does not. -/
theorem barrelRing_reaches : ∃ file, barrelRing.file? 0 = some file ∧
    (∃ target inner, Relation.ReflTransGen (Hop barrelRing) (file, "y") (target, inner) ∧
      ExportsInSight barrelRing target inner) ∧
    ¬ ∃ target inner, Relation.ReflTransGen (Hop barrelRing) (file, "z") (target, inner) ∧
      ExportsInSight barrelRing target inner := by
  have hplain : Plain barrelRing := by decide +kernel
  have hwell : barrelRing.WellFormed := Index.wellFormed_ofTexts _ _
  have hfound : (barrelRing.file? 0).any (fun file =>
      !(barrelRing.moduleExport file "y").isEmpty && (barrelRing.moduleExport file "z").isEmpty) =
      true := by decide +kernel
  cases hfile : barrelRing.file? 0 with
  | none => simp [hfile] at hfound
  | some file =>
    simp only [hfile, Option.any_some, Bool.and_eq_true, Bool.not_eq_true',
      isEmpty_eq_false_iff, List.isEmpty_iff] at hfound
    have hmem := Index.mem_files_of_file? hfile
    refine ⟨file, rfl, ?_, fun h => ?_⟩
    · exact (moduleExport_ne_nil_iff hplain hwell hmem "y").1 hfound.1
    · exact (moduleExport_ne_nil_iff hplain hwell hmem "z").2 h hfound.2

/-- The name that a statement of the given form exports as the default. -/
def Form.defaultName? : Form → Option Node
  | .value v true => if v.hasKind .identifier then some v else Option.none
  | _ => Option.none

/-- A plain name that nothing declares is exported as the default, but unseen. -/
theorem unseen_of_defaultName? {v : Node} (h : (formOf stmt).defaultName? = some v)
    (hlocal : Scope.local_ file stmt v.text .any = [])
    (hshared : ∀ f ∈ idx.files.toList, Scope.shared f v.text .any = []) :
    StatementExports idx file stmt (formOf stmt) "default" ∧ Unseen idx file stmt (formOf stmt) := by
  have hglobal : Scope.global idx file v.text .any = [] := by
    refine flatMap_eq_nil_iff.2 fun f hf => ?_
    rw [hshared f (Index.mem_files_of_mem_filterMap_file? hf), ite_self]
  unfold Form.defaultName? at h
  split at h
  · next hform =>
    split at h
    · next hkind =>
      cases h
      rw [hform]
      refine ⟨.value v, .value hkind ?_⟩
      rw [Index.resolveName, hlocal, hglobal]
      rfl
    · cases h
  · cases h

theorem moduleExport_eq_nil_of_unseen (hplain : Plain idx) (hwell : idx.WellFormed)
    (hfile : file ∈ idx.files.toList)
    (h : ∀ stmt ∈ file.root.namedChildren, Unseen idx file stmt (formOf stmt)) (name : String) :
    idx.moduleExport file name = [] := by
  by_contra hne
  obtain ⟨search, w, hsearch, hrun⟩ := exists_exploring_run hplain hwell hfile name
  obtain ⟨target, inner, hchain, hexports⟩ := (hsearch.explores file hfile name).finds hrun hne
  cases hchain.cases_head with
  | inl heq =>
    cases heq
    obtain ⟨stmt, hstmt, -, -, hseen⟩ := hexports
    exact hseen (h stmt hstmt)
  | inr hhop =>
    obtain ⟨-, ⟨hstmt, -, hform, -⟩ | ⟨hstmt, -, hform, -⟩, -⟩ := hhop <;>
    · have hunseen := h _ hstmt
      rw [hform] at hunseen
      cases hunseen

/-- A file with a global value as its default. -/
def globalDefault : Index := .ofTexts [("a.ts", "export default window;")] []

/-- The default is exported, but not found. -/
theorem globalDefault_not_found : Plain globalDefault ∧ globalDefault.WellFormed ∧
    ∃ file ∈ globalDefault.files.toList, ExportsItself globalDefault file "default" ∧
      globalDefault.moduleExport file "default" = [] := by
  have hplain : Plain globalDefault := by decide +kernel
  have hwell : globalDefault.WellFormed := Index.wellFormed_ofTexts _ _
  have hshared : ∀ f ∈ globalDefault.files.toList, Scope.shared f "window" .any = [] := by
    decide +kernel
  have hcheck : globalDefault.files.toList.any (fun file =>
      file.root.namedChildren.any (·.hasKind .exportStatement) &&
        file.root.namedChildren.all fun stmt => (Scope.local_ file stmt "window" .any).isEmpty &&
          (formOf stmt).defaultName?.any (·.text == "window")) = true := by
    decide +kernel
  obtain ⟨file, hfile, hcheck⟩ := any_eq_true.1 hcheck
  simp only [Bool.and_eq_true, any_eq_true, all_eq_true, Option.any_eq_true, List.isEmpty_iff,
    beq_iff_eq] at hcheck
  obtain ⟨⟨stmt, hstmt, hexport⟩, hall⟩ := hcheck
  have hunseen : ∀ s ∈ file.root.namedChildren, StatementExports globalDefault file s (formOf s)
      "default" ∧ Unseen globalDefault file s (formOf s) := by
    intro s hs
    obtain ⟨hlocal, v, hv, htext⟩ := hall s hs
    rw [← htext] at hlocal hshared
    exact unseen_of_defaultName? hv hlocal hshared
  exact ⟨hplain, hwell, file, hfile, ⟨stmt, hstmt, hexport, (hunseen stmt hstmt).1⟩,
    moduleExport_eq_nil_of_unseen hplain hwell hfile (fun s hs => (hunseen s hs).2) _⟩

end ScriptAtlas.Export

