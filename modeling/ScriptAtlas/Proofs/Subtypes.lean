import ScriptAtlas.Proofs.NamePlaces
import ScriptAtlas.Proofs.UserResults

/-!
# Subtypes are the converse of heritage

A type hierarchy lists the types that build on a type. They are found by going through the files that
have one of the names of the type and asking each class and interface there what it builds on.

* `Hierarchy.BuildsOn`: a type has a declaration of a symbol in its resolved heritage;
* `Hierarchy.nodup_keys_distinct`, `Hierarchy.exists_mem_distinct`: of several declarations with the same
  key, one stays;
* `Hierarchy.mem_children_iff`: what is gathered for a symbol;
* `Hierarchy.report_subtypes`: the subtypes that a hierarchy lists.
-/

namespace ScriptAtlas.Query

open List Project Syntax

namespace Hierarchy

variable {idx : Index}
variable {d : Declaration}

/-- A declaration of the symbol is among those that the type extends or implements. -/
def BuildsOn (idx : Index) (d : Declaration) (target : Symbol) : Prop :=
  ∃ s ∈ (idx.heritage d).symbols, ∃ p ∈ s.declarations, p.key ∈ target.keys

/-! ## Each declaration once -/

/-- One more declaration, unless one with its key is there. -/
def insertNew (acc : List Declaration) (d : Declaration) : List Declaration :=
  if acc.any (·.sameAs d) then acc else acc ++ [d]

theorem insertNew_cases (acc : List Declaration) (d : Declaration) :
    (insertNew acc d = acc ∧ ∃ e ∈ acc, e.key = d.key) ∨
      (insertNew acc d = acc ++ [d] ∧ ∀ e ∈ acc, e.key ≠ d.key) := by
  unfold insertNew
  split
  · next h =>
    obtain ⟨e, he, hsame⟩ := any_eq_true.1 h
    exact .inl ⟨rfl, e, he, beq_iff_eq.1 hsame⟩
  · next h =>
    refine .inr ⟨rfl, fun e he hkey => h ?_⟩
    exact any_eq_true.2 ⟨e, he, beq_iff_eq.2 hkey⟩

theorem subset_insertNew (acc : List Declaration) (d : Declaration) : acc ⊆ insertNew acc d := by
  rcases insertNew_cases acc d with ⟨h, -⟩ | ⟨h, -⟩ <;> rw [h]
  · exact List.Subset.refl acc
  · exact subset_append_left acc [d]

theorem subset_foldl_insertNew (acc ds : List Declaration) : acc ⊆ ds.foldl insertNew acc := by
  induction ds generalizing acc with
  | nil => exact List.Subset.refl acc
  | cons d ds ih => exact List.Subset.trans (subset_insertNew acc d) (ih _)

theorem nodup_keys_foldl_insertNew {acc : List Declaration} (ds : List Declaration)
    (h : (acc.map Declaration.key).Nodup) :
    ((ds.foldl insertNew acc).map Declaration.key).Nodup := by
  induction ds generalizing acc with
  | nil => exact h
  | cons d ds ih =>
    refine ih ?_
    rcases insertNew_cases acc d with ⟨heq, -⟩ | ⟨heq, hnew⟩ <;> rw [heq]
    · exact h
    · rw [map_append, map_singleton, ← concat_eq_append, nodup_concat]
      refine ⟨fun hmem => ?_, h⟩
      obtain ⟨e, he, hkey⟩ := mem_map.1 hmem
      exact hnew e he hkey

theorem distinct_eq_foldl (ds : List Declaration) : distinct ds = ds.foldl insertNew [] := rfl

theorem nodup_keys_distinct (ds : List Declaration) : ((distinct ds).map Declaration.key).Nodup := by
  rw [distinct_eq_foldl]
  exact nodup_keys_foldl_insertNew ds nodup_nil

theorem exists_mem_foldl_insertNew {acc ds : List Declaration} (h : d ∈ ds) :
    ∃ e ∈ ds.foldl insertNew acc, e.key = d.key := by
  induction ds generalizing acc with
  | nil => cases h
  | cons b ds ih =>
    rcases mem_cons.1 h with rfl | h
    · have hkept := subset_foldl_insertNew (insertNew acc d) ds
      rcases insertNew_cases acc d with ⟨-, e, he, hkey⟩ | ⟨heq, -⟩
      · exact ⟨e, hkept (subset_insertNew acc d he), hkey⟩
      · refine ⟨d, hkept ?_, rfl⟩
        rw [heq]
        exact mem_append_right acc mem_cons_self
    · exact ih h

theorem exists_mem_distinct {ds : List Declaration} (h : d ∈ ds) :
    ∃ e ∈ distinct ds, e.key = d.key := by
  rw [distinct_eq_foldl]
  exact exists_mem_foldl_insertNew h

/-- Where the key tells the declarations apart, all of them stay. -/
theorem mem_distinct_iff {ds : List Declaration}
    (hkeys : ∀ a ∈ ds, ∀ b ∈ ds, a.key = b.key → a = b) : d ∈ distinct ds ↔ d ∈ ds := by
  have hsub {e : Declaration} (h : e ∈ distinct ds) : e ∈ ds :=
    (mem_of_mem_gathered h).resolve_left not_mem_nil
  refine ⟨hsub, fun h => ?_⟩
  obtain ⟨e, he, hkey⟩ := exists_mem_distinct h
  rwa [← hkeys e (hsub he) d h hkey]

/-! ## Types and edges -/

theorem liesIn_of_mem_typesIn {f : SourceFile} (h : d ∈ typesIn f) : d.LiesIn f := by
  obtain ⟨n, hn, hd⟩ := mem_filterMap.1 h
  exact Declaration.liesIn_of_ofNode? hd (Node.tree_of_mem_nodes (mem_of_mem_filter hn))

/-- Of the classes and interfaces of a project, no two have the same key. -/
theorem eq_of_mem_typesIn (hwell : idx.WellFormed) (hparsed : idx.Parsed) {f g : SourceFile}
    (hf : f ∈ idx.files.toList) (hg : g ∈ idx.files.toList) {a b : Declaration} (ha : a ∈ typesIn f)
    (hb : b ∈ typesIn g) (hkey : a.key = b.key) : a = b := by
  have hcontainer {n : Node} (h : n.hasKindIn typeKinds = true) :
      n.hasKindIn Declaration.containerKinds = true :=
    Node.any_kind_eq h fun k => by cases k <;> decide
  obtain ⟨m, hm, ha⟩ := mem_filterMap.1 ha
  obtain ⟨n, hn, hb⟩ := mem_filterMap.1 hb
  obtain ⟨hm, hmk⟩ := mem_filter.1 hm
  obtain ⟨hn, hnk⟩ := mem_filter.1 hn
  exact Declaration.eq_of_container hwell hparsed hf hg (Node.tree_of_mem_nodes hm)
    (Node.tree_of_mem_nodes hn) (hcontainer hmk) (hcontainer hnk) ha hb hkey

theorem mem_edgesFrom_iff {e : Edge} :
    e ∈ edgesFrom idx d ↔ e.child = d ∧
      ∃ s ∈ (idx.heritage d).symbols, ∃ p ∈ s.declarations, p.key = e.parent := by
  obtain ⟨child, parent⟩ := e
  simp only [edgesFrom, mem_map, mem_eraseDups, mem_flatMap, Symbol.keys, Edge.mk.injEq]
  constructor
  · rintro ⟨-, ⟨s, hs, p, hp, rfl⟩, rfl, rfl⟩
    exact ⟨rfl, s, hs, p, hp, rfl⟩
  · rintro ⟨rfl, s, hs, p, hp, rfl⟩
    exact ⟨_, ⟨s, hs, p, hp, rfl⟩, rfl, rfl⟩

/-- A type of the user in a file that has one of the names of the symbol. -/
structure Considered (idx : Index) (target : Symbol) (f : SourceFile) (d : Declaration) : Prop where
  file : f ∈ idx.files.toList
  user : f.isUser = true
  token : ∃ t ∈ SourceFile.identifiers f.tree, t.text ∈ References.searchNames idx target.name
  type : d ∈ typesIn f

theorem mem_edges_iff (hwell : idx.WellFormed) {target : Symbol} {e : Edge} :
    e ∈ edges idx target ↔
      (∃ f, Considered idx target f e.child) ∧
        ∃ s ∈ (idx.heritage e.child).symbols, ∃ p ∈ s.declarations, p.key = e.parent := by
  simp only [edges, mem_flatMap, mem_filter, Index.mem_filesWithAnyToken_iff hwell,
    mem_edgesFrom_iff]
  constructor
  · rintro ⟨d, ⟨f, ⟨⟨hf, htoken⟩, huser⟩, hd⟩, rfl, hparent⟩
    exact ⟨⟨f, hf, huser, htoken, hd⟩, hparent⟩
  · rintro ⟨⟨f, hf, huser, htoken, hd⟩, hparent⟩
    exact ⟨e.child, ⟨f, ⟨⟨hf, htoken⟩, huser⟩, hd⟩, rfl, hparent⟩

theorem mem_children_iff (hwell : idx.WellFormed) (target : Symbol) (d : Declaration) :
    d ∈ (target.keys.flatMap (subtypesOf (edges idx target))).filter (·.isUser) ↔
      (∃ f, Considered idx target f d) ∧ BuildsOn idx d target := by
  simp only [mem_filter, mem_flatMap, subtypesOf, mem_reverse, mem_map,
    mem_edges_iff hwell, beq_iff_eq]
  constructor
  · rintro ⟨⟨key, hkey, e, ⟨⟨hconsidered, s, hs, p, hp, hparent⟩, rfl⟩, rfl⟩, -⟩
    exact ⟨hconsidered, s, hs, p, hp, hparent ▸ hkey⟩
  · rintro ⟨⟨f, hconsidered⟩, s, hs, p, hp, hkey⟩
    refine ⟨⟨p.key, hkey, ⟨d, p.key⟩, ⟨⟨⟨f, hconsidered⟩, s, hs, p, hp, rfl⟩, rfl⟩, rfl⟩, ?_⟩
    rw [Declaration.isUser, (liesIn_of_mem_typesIn hconsidered.type).file_eq]
    exact hconsidered.user

/-- The subtypes of a type, unless the time is over: each class and interface of the user, in a file that
has one of the names of the type, is listed just when a declaration in its resolved heritage belongs with
the type, and then once; nothing else is listed. -/
theorem report_subtypes (hwell : idx.WellFormed) (hparsed : idx.Parsed) (b : Declaration)
    (deadline : Deadline) (hdeadline : deadline.expired = false) :
    (report idx b deadline).partly = false ∧
    ∃ listed : List Declaration, (report idx b deadline).subtypes.Perm (listed.map Declaration.ref) ∧
      (listed.map Declaration.key).Nodup ∧
      (∀ f d, Considered idx (idx.merged b) f d → (d ∈ listed ↔ BuildsOn idx d (idx.merged b))) ∧
      ∀ d ∈ listed, ∃ f, Considered idx (idx.merged b) f d := by
  have hmem := mem_children_iff hwell (idx.merged b)
  have hall := fun d => mem_distinct_iff (d := d) fun x hx y hy => by
    obtain ⟨⟨f, hf⟩, -⟩ := (hmem x).1 hx
    obtain ⟨⟨g, hg⟩, -⟩ := (hmem y).1 hy
    exact eq_of_mem_typesIn hwell hparsed hf.file hg.file hf.type hg.type
  refine ⟨by simp [report, hdeadline], distinct (((idx.merged b).keys.flatMap
    (subtypesOf (edges idx (idx.merged b)))).filter (·.isUser)), ?_, nodup_keys_distinct _, ?_, ?_⟩
  · simp only [report, hdeadline]
    exact mergeSort_perm _ _
  · intro f d hd
    rw [hall, hmem]
    exact and_iff_right ⟨f, hd⟩
  · intro d hd
    rw [hall, hmem] at hd
    exact hd.1

/-- The types of the user in files that have the name of a symbol, each with its file and whether it builds
on the symbol. -/
def candidates (idx : Index) (target : Symbol) : List (SourceFile × Declaration × Bool) :=
  (idx.files.toList.filter fun f => f.isUser &&
    (SourceFile.identifiers f.tree).any (·.text == target.name)).flatMap fun f =>
      (typesIn f).map fun d => (f, d, (idx.heritage d).symbols.any fun s =>
        s.declarations.any fun p => target.keys.contains p.key)

theorem exists_of_mem_candidates (hwell : idx.WellFormed) {target : Symbol} {name : String} {b : Bool}
    (h : (name, b) ∈ (candidates idx target).map fun c => (c.2.1.name, c.2.2)) :
    ∃ f d, Considered idx target f d ∧ d.name = name ∧ (b = true ↔ BuildsOn idx d target) := by
  obtain ⟨c, hc, heq⟩ := mem_map.1 h
  obtain ⟨hname, hb⟩ := Prod.mk.inj heq
  obtain ⟨f, hf, hc⟩ := mem_flatMap.1 hc
  obtain ⟨d, hd, rfl⟩ := mem_map.1 hc
  obtain ⟨hf, hcheck⟩ := mem_filter.1 hf
  obtain ⟨huser, htoken⟩ := Bool.and_eq_true_iff.1 hcheck
  obtain ⟨t, ht, htext⟩ := any_eq_true.1 htoken
  have hnames : t.text ∈ References.searchNames idx target.name := by
    rw [beq_iff_eq.1 htext]
    exact (References.mem_searchNames_iff hwell).2 .refl
  exact ⟨f, d, ⟨hf, huser, ⟨t, ht, hnames⟩, hd⟩, hname, by simp [← hb, BuildsOn]⟩

/-- A project with an interface in two parts, which a class builds on under another name, and with a
class of the same name. -/
def renamedBase : Index :=
  .ofTexts [("lib.ts", "export interface Base \x7b\x7d\nexport interface Base \x7b\x7d"),
    ("main.ts", "import \x7b Base as Root \x7d from './lib';\nexport class A implements Root \x7b\x7d"),
    ("other.ts", "class Base \x7b\x7d\nexport class C extends Base \x7b\x7d")]
    [⟨1, "./lib", [0]⟩]

/-- The class that builds on the interface is listed, the one that builds on its namesake is not. -/
theorem renamedBase_subtypes : ∃ b ∈ renamedBase.files.toList.flatMap typesIn, ∃ listed : List Declaration,
    b.kind = .interfaceType ∧
    (report renamedBase b ⟨1⟩).subtypes.Perm (listed.map Declaration.ref) ∧
    (listed.map Declaration.key).Nodup ∧
    (∃ f d, Considered renamedBase (renamedBase.merged b) f d ∧ d.name = "A" ∧ d ∈ listed) ∧
    ∃ f d, Considered renamedBase (renamedBase.merged b) f d ∧ d.name = "C" ∧ d ∉ listed := by
  have heval : (renamedBase.files.toList.flatMap typesIn).head?.map (fun b => (b.kind,
      (candidates renamedBase (renamedBase.merged b)).map fun c => (c.2.1.name, c.2.2))) =
      some (.interfaceType, [("Base", false), ("Base", false), ("A", true), ("Base", false),
        ("C", false)]) := by
    decide +kernel
  obtain ⟨b, hb, heval⟩ := Option.map_eq_some_iff.1 heval
  obtain ⟨hkind, hnames⟩ := Prod.mk.inj heval
  have hmem : ∀ p ∈ [("A", true), ("C", false)],
      p ∈ (candidates renamedBase (renamedBase.merged b)).map fun c => (c.2.1.name, c.2.2) := by
    rw [hnames]
    decide
  have hwell : renamedBase.WellFormed := Index.wellFormed_ofTexts _ _
  obtain ⟨-, listed, hperm, hnodup, hlisted, -⟩ :=
    report_subtypes hwell (Index.parsed_ofTexts _ _) b ⟨1⟩ rfl
  refine ⟨b, mem_of_mem_head? hb, listed, hkind, hperm, hnodup, ?_, ?_⟩
  · obtain ⟨f, d, hd, hname, hbuilds⟩ :=
      exists_of_mem_candidates hwell (hmem ("A", true) (by decide))
    exact ⟨f, d, hd, hname, (hlisted f d hd).2 (hbuilds.1 rfl)⟩
  · obtain ⟨f, d, hd, hname, hbuilds⟩ :=
      exists_of_mem_candidates hwell (hmem ("C", false) (by decide))
    exact ⟨f, d, hd, hname, fun hmem => absurd (hbuilds.2 ((hlisted f d hd).1 hmem)) nofun⟩

end Hierarchy

end ScriptAtlas.Query
