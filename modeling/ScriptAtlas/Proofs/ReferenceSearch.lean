import Mathlib.Data.Finset.Card
import Mathlib.Logic.Relation
import ScriptAtlas.Proofs.Placement
import ScriptAtlas.Proofs.TokenTable
import ScriptAtlas.Query.References

/-!
# What a search for references finds

The search looks only at identifiers that are spelled like the symbol or like a name that lists of
imports and exports give it. Following these lists is exact: the names it looks for are those that
renamings lead to from the symbol's own name, however long the chains are. So the identifiers that it
leaves out although they refer to the symbol are those with a spelling that no chain of renamings
explains, such as the name that a default import chooses.

* `Query.References.RenamedTo`: a list of imports or exports somewhere gives a name another name.
* `Query.References.mem_searchNames_iff`: the names to look for are the chains of renamings.
* `Query.References.mem_sites_find_iff`: an identifier is found exactly when it refers to the symbol
  and a chain of renamings leads to its spelling.
-/

namespace ScriptAtlas

open List

variable {name new : String} {next : String → List String}

theorem Syntax.Node.mem_nodes_of_field? {n c : Syntax.Node} {f : Syntax.Field}
    (h : n.field? f = some c) : c ∈ n.tree.nodes := by
  have hfield := find?_some h
  have htree := tree_of_field? h
  refine mem_map.2 ⟨c.id, mem_range.2 ?_, by rw [← htree]; rfl⟩
  by_contra hid
  have hnone : c.tree.entries[c.id]? = none := by
    rw [htree]
    exact Array.getElem?_eq_none (Nat.le_of_not_lt hid)
  have hentry : c.entry = default := by simp [Syntax.Node.entry, hnone]
  rw [hentry] at hfield
  cases hfield

namespace Query.References

open Project Syntax

variable {names : List String} {file : SourceFile} {idx : Index} {t : Node}

/-! ## Names -/

theorem mem_iff_of_closed (hclosed : ∀ a ∈ names, ∀ b ∈ next a, b ∈ names) (x : String) :
    x ∈ names ↔ ∃ a ∈ names, Relation.ReflTransGen (fun a b => b ∈ next a) a x := by
  constructor
  · exact fun hx => ⟨x, hx, .refl⟩
  · rintro ⟨a, ha, hchain⟩
    induction hchain with
    | refl => exact ha
    | tail _ hstep ih => exact hclosed _ ih _ hstep

/-- The names that a name leads to and that are not known yet. -/
def freshNames (next : String → List String) (names : List String) (name : String) : List String :=
  ((next name).filter (!names.contains ·)).eraseDups

theorem mem_freshNames {b : String} :
    b ∈ freshNames next names name ↔ b ∈ next name ∧ b ∉ names := by
  simp [freshNames, mem_eraseDups]

theorem card_sdiff_append_freshNames {all : Finset String}
    (hall : ∀ a, ∀ b ∈ next a, b ∈ all) (names : List String) (name : String) :
    (freshNames next names name).length +
      (all \ (names ++ freshNames next names name).toFinset).card =
    (all \ names.toFinset).card := by
  have hsubset : (freshNames next names name).toFinset ⊆ all \ names.toFinset := by
    intro b hb
    obtain ⟨hnext, hnew⟩ := mem_freshNames.1 (mem_toFinset.1 hb)
    simp [hall name b hnext, hnew]
  have hcard : (freshNames next names name).toFinset.card = (freshNames next names name).length :=
    toFinset_card_of_nodup (nodup_eraseDups _)
  have hset : all \ (names ++ freshNames next names name).toFinset =
      (all \ names.toFinset) \ (freshNames next names name).toFinset := by
    ext b
    simp [and_assoc]
  rw [hset, Finset.card_sdiff_of_subset hsubset, hcard]
  have hle := Finset.card_le_card hsubset
  omega

/-- The loop over pending names reaches what chains lead to from the known ones, if the fuel covers the
names that are pending and those that may still come. -/
theorem mem_closeNames_iff {all : Finset String}
    (hall : ∀ a, ∀ b ∈ next a, b ∈ all) {fuel : Nat} {pending names : List String}
    (hpending : ∀ a ∈ pending, a ∈ names)
    (hdone : ∀ a ∈ names, a ∉ pending → ∀ b ∈ next a, b ∈ names)
    (hfuel : pending.length + (all \ names.toFinset).card ≤ fuel) (x : String) :
    x ∈ closeNames next fuel pending names ↔
      ∃ a ∈ names, Relation.ReflTransGen (fun a b => b ∈ next a) a x := by
  induction fuel generalizing pending names with
  | zero =>
    obtain rfl : pending = [] := eq_nil_of_length_eq_zero (by omega)
    exact mem_iff_of_closed (fun a ha => hdone a ha (by simp)) x
  | succ fuel ih =>
    cases pending with
    | nil => exact mem_iff_of_closed (fun a ha => hdone a ha (by simp)) x
    | cons name pending =>
      change x ∈ closeNames next fuel (freshNames next names name ++ pending)
        (names ++ freshNames next names name) ↔ _
      have hname : name ∈ names := hpending name mem_cons_self
      rw [ih]
      · constructor
        · rintro ⟨a, ha, hchain⟩
          rcases mem_append.1 ha with ha | ha
          · exact ⟨a, ha, hchain⟩
          · exact ⟨name, hname, .head (mem_freshNames.1 ha).1 hchain⟩
        · rintro ⟨a, ha, hchain⟩
          exact ⟨a, mem_append_left _ ha, hchain⟩
      · intro a ha
        rcases mem_append.1 ha with ha | ha
        · exact mem_append_right _ ha
        · exact mem_append_left _ (hpending a (mem_cons_of_mem _ ha))
      · intro a ha hnot b hb
        obtain ⟨hfresh, hrest⟩ := not_or.1 (mt mem_append.2 hnot)
        have hold : a ∈ names := (mem_append.1 ha).resolve_right hfresh
        by_cases hnew : b ∈ names
        · exact mem_append_left _ hnew
        · have heq : a = name := by
            by_contra hne
            exact hnew (hdone a hold (by simp [hne, hrest]) b hb)
          rw [heq] at hb
          exact mem_append_right _ (mem_freshNames.2 ⟨hb, hnew⟩)
      · have hcard := card_sdiff_append_freshNames hall names name
        rw [length_cons] at hfuel
        rw [length_append]
        omega

/-- A list of imports or exports of some file gives the first name the second one, and the first name
occurs in the file as an identifier. -/
def RenamedTo (idx : Index) (name new : String) : Prop :=
  ∃ file ∈ idx.files.toList, (∃ n ∈ SourceFile.identifiers file.tree, n.text = name) ∧
    ∃ spec ∈ file.tree.nodes, spec.hasKindIn [.importSpecifier, .exportSpecifier] ∧
      ∃ inner outer, spec.field? .name = some inner ∧ spec.field? .alias = some outer ∧
        inner.bareText = name ∧ outer.bareText = new

theorem mem_aliasesIn_iff :
    new ∈ aliasesIn file name ↔ ∃ spec ∈ file.tree.nodes,
      spec.hasKindIn [.importSpecifier, .exportSpecifier] ∧
      ∃ inner outer, spec.field? .name = some inner ∧ spec.field? .alias = some outer ∧
        inner.bareText = name ∧ outer.bareText = new := by
  constructor
  · intro h
    obtain ⟨spec, hspec, hnew⟩ := mem_filterMap.1 h
    obtain ⟨hnode, hkind⟩ := mem_filter.1 hspec
    split at hnew
    · next inner outer hinner houter =>
      split at hnew
      · next hname =>
        exact ⟨spec, hnode, hkind, inner, outer, hinner, houter, eq_of_beq hname,
          Option.some.inj hnew⟩
      · cases hnew
    · cases hnew
  · rintro ⟨spec, hnode, hkind, inner, outer, hinner, houter, hname, hnew⟩
    refine mem_filterMap.2 ⟨spec, mem_filter.2 ⟨hnode, hkind⟩, ?_⟩
    simp [hinner, houter, hname, hnew]

theorem mem_aliasesOf_iff (hwell : idx.WellFormed) :
    new ∈ aliasesOf idx name ↔ RenamedTo idx name new := by
  rw [aliasesOf, mem_flatMap]
  constructor
  · rintro ⟨file, hfile, hnew⟩
    obtain ⟨hfile, htoken⟩ := (Index.mem_filesWithToken_iff hwell).1 hfile
    exact ⟨file, hfile, htoken, mem_aliasesIn_iff.1 hnew⟩
  · rintro ⟨file, hfile, htoken, hspec⟩
    exact ⟨file, (Index.mem_filesWithToken_iff hwell).2 ⟨hfile, htoken⟩, mem_aliasesIn_iff.2 hspec⟩

def bareTexts (idx : Index) : List String :=
  idx.files.toList.flatMap fun f => f.tree.nodes.map Node.bareText

theorem length_bareTexts (idx : Index) : (bareTexts idx).length = idx.nodeCount := by
  simp [bareTexts, Index.nodeCount_eq_length, length_flatMap]

theorem RenamedTo.mem_bareTexts (h : RenamedTo idx name new) :
    new ∈ bareTexts idx := by
  obtain ⟨file, hfile, -, spec, hspec, -, -, outer, -, houter, -, rfl⟩ := h
  refine mem_flatMap.2 ⟨file, hfile, mem_map.2 ⟨outer, ?_, rfl⟩⟩
  rw [← Node.tree_of_mem_nodes hspec]
  exact Node.mem_nodes_of_field? houter

/-- The names to look for are those that chains of renamings lead to. -/
theorem mem_searchNames_iff (hwell : idx.WellFormed) :
    new ∈ searchNames idx name ↔ Relation.ReflTransGen (RenamedTo idx) name new := by
  have hrel : (fun a b => b ∈ aliasesOf idx a) = RenamedTo idx := by
    funext a b
    exact propext (mem_aliasesOf_iff hwell)
  have hall : ∀ a, ∀ b ∈ aliasesOf idx a, b ∈ (bareTexts idx).toFinset := fun a b hb =>
    mem_toFinset.2 ((mem_aliasesOf_iff hwell).1 hb).mem_bareTexts
  have hcard : ((bareTexts idx).toFinset \ [name].toFinset).card ≤ idx.nodeCount := by
    rw [← length_bareTexts]
    exact (Finset.card_le_card Finset.sdiff_subset).trans (toFinset_card_le _)
  rw [searchNames, mem_closeNames_iff hall (by simp) (by simp)
    (by rw [length_singleton]; omega), hrel]
  simp

/-! ## Sites -/

/-- All references, in tests too, without a time limit. -/
def everywhere : SearchOptions :=
  { includeTests := true, deadline := none, firstOnly := false, skipLocalExports := false }

theorem inFiles_false (search : SourceFile → List ReferenceSite) (files : List SourceFile) :
    inFiles search false files = files.flatMap search := by
  induction files with
  | nil => rfl
  | cons f files ih => simp [inFiles, ih]

theorem mem_inFile_iff {keys : List DeclarationKey} {file file' : SourceFile} :
    (⟨file, t⟩ : ReferenceSite) ∈ inFile idx names keys false file' ↔
      file = file' ∧ t ∈ SourceFile.identifiers file.tree ∧ t.text ∈ names ∧
        (⟨file.id, t.startByte⟩ : DeclarationKey) ∉ keys ∧ isAliasName t = false ∧
        refersTo idx keys file t = true := by
  simp only [inFile, mem_map, mem_filter, isCandidate]
  constructor
  · rintro ⟨n, ⟨⟨hn, hcandidate⟩, hrefers⟩, heq⟩
    cases heq
    simp only [Bool.and_eq_true, contains_iff_mem, Bool.not_eq_true', Bool.false_and,
      Bool.not_false, and_true] at hcandidate
    obtain ⟨⟨hname, hkey⟩, halias⟩ := hcandidate
    exact ⟨rfl, hn, hname, by simpa using hkey, halias, hrefers⟩
  · rintro ⟨rfl, hn, hname, hkey, halias, hrefers⟩
    refine ⟨t, ⟨⟨hn, ?_⟩, hrefers⟩, rfl⟩
    simp [hname, hkey, halias]

theorem refersTo_iff {keys : List DeclarationKey} :
    refersTo idx keys file t = true ↔
      ∃ s, idx.resolveAt? file t = some s ∧ ∃ d ∈ s.declarations, d.key ∈ keys := by
  simp [refersTo, Option.any_eq_true]

theorem mem_sites_iff {target : Symbol} :
    (⟨file, t⟩ : ReferenceSite) ∈ (find idx target everywhere).sites ↔
      file ∈ idx.filesWithAnyToken (searchNames idx target.name) ∧ file.isUser = true ∧
        t ∈ SourceFile.identifiers file.tree ∧ t.text ∈ searchNames idx target.name ∧
        (⟨file.id, t.startByte⟩ : DeclarationKey) ∉ target.keys ∧ isAliasName t = false ∧
        refersTo idx target.keys file t = true := by
  have hsites : (find idx target everywhere).sites =
      (((idx.filesWithAnyToken (searchNames idx target.name)).filter
        fun f => f.isUser && (everywhere.includeTests || !f.isTest)).flatMap
        (inFile idx (searchNames idx target.name) target.keys false)).mergeSort siteLe := by
    rw [← inFiles_false]
    rfl
  rw [hsites, mem_mergeSort, mem_flatMap]
  constructor
  · rintro ⟨file', hscanned, hmem⟩
    obtain ⟨rfl, hcandidate⟩ := mem_inFile_iff.1 hmem
    obtain ⟨hfile, huser⟩ := mem_filter.1 hscanned
    exact ⟨hfile, (Bool.and_eq_true_iff.1 huser).1, hcandidate⟩
  · rintro ⟨hfile, huser, hmem⟩
    refine ⟨file, mem_filter.2 ⟨hfile, ?_⟩, mem_inFile_iff.2 ⟨rfl, hmem⟩⟩
    simp [huser, everywhere]

theorem mem_sites_of_mem_searchNames (hwell : idx.WellFormed) {target : Symbol}
    (hfile : file ∈ idx.files.toList) (huser : file.isUser = true)
    (ht : t ∈ SourceFile.identifiers file.tree) (hname : t.text ∈ searchNames idx target.name)
    (hkey : (⟨file.id, t.startByte⟩ : DeclarationKey) ∉ target.keys) (halias : isAliasName t = false)
    (hrefers : refersTo idx target.keys file t = true) :
    (⟨file, t⟩ : ReferenceSite) ∈ (find idx target everywhere).sites := by
  have hcandidate : file ∈ idx.filesWithAnyToken (searchNames idx target.name) :=
    (Index.mem_filesWithAnyToken_iff hwell).2 ⟨hfile, t, ht, hname⟩
  exact mem_sites_iff.2 ⟨hcandidate, huser, ht, hname, hkey, halias, hrefers⟩

/-- An identifier of the user's code that neither names the symbol nor is a new name in a list of
imports or exports is found exactly when it refers to the symbol and a chain of renamings leads from
the symbol's name to its spelling. -/
theorem mem_sites_find_iff {idx : Index} (hwell : idx.WellFormed) (target : Symbol)
    {file : SourceFile} (hfile : file ∈ idx.files.toList) (huser : file.isUser = true) {t : Node}
    (ht : t ∈ SourceFile.identifiers file.tree)
    (hkey : (⟨file.id, t.startByte⟩ : DeclarationKey) ∉ target.keys)
    (halias : isAliasName t = false) :
    (⟨file, t⟩ : ReferenceSite) ∈ (find idx target everywhere).sites ↔
      (∃ s, idx.resolveAt? file t = some s ∧ ∃ d ∈ s.declarations, d.key ∈ target.keys) ∧
        Relation.ReflTransGen (RenamedTo idx) target.name t.text := by
  rw [← mem_searchNames_iff hwell, ← refersTo_iff]
  constructor
  · intro hsite
    obtain ⟨-, -, -, hname, -, -, hrefers⟩ := mem_sites_iff.1 hsite
    exact ⟨hrefers, hname⟩
  · rintro ⟨hrefers, hname⟩
    exact mem_sites_of_mem_searchNames hwell hfile huser ht hname hkey halias hrefers

/-! ## Renamed and default imports -/

/-- In a small project: what the first identifier of the first file stands for, and the last identifier
of the second file, with its file. -/
def lastUse? (idx : Index) : Option (Symbol × SourceFile × Node) := do
  let first ← idx.file? 0
  let second ← idx.file? 1
  let name ← (SourceFile.identifiers first.tree).head?
  let use ← (SourceFile.identifiers second.tree).getLast?
  let target ← idx.resolveAt? first name
  return (target, second, use)

/-- What is to know about a use of a symbol in a small project: it is in the user's code, it refers to
the symbol, it is neither its name nor a new name, and how both are spelled. -/
def isOpenUse (idx : Index) (name spelling : String) (use : Symbol × SourceFile × Node) : Bool :=
  use.2.1.isUser && !use.1.keys.contains ⟨use.2.1.id, use.2.2.startByte⟩ && !isAliasName use.2.2
    && refersTo idx use.1.keys use.2.1 use.2.2 && use.1.name == name && use.2.2.text == spelling

theorem exists_lastUse {spelling : String}
    (h : (lastUse? idx).any (isOpenUse idx name spelling) = true) :
    ∃ target file t, lastUse? idx = some (target, file, t) ∧ file ∈ idx.files.toList ∧
      t ∈ SourceFile.identifiers file.tree ∧ file.isUser = true ∧
      (⟨file.id, t.startByte⟩ : DeclarationKey) ∉ target.keys ∧ isAliasName t = false ∧
      (∃ s, idx.resolveAt? file t = some s ∧ ∃ d ∈ s.declarations, d.key ∈ target.keys) ∧
      target.name = name ∧ t.text = spelling := by
  obtain ⟨⟨target, file, t⟩, huse, hopen⟩ := (Option.any_eq_true _ _).1 h
  simp only [isOpenUse, Bool.and_eq_true, Bool.not_eq_true', beq_iff_eq] at hopen
  obtain ⟨⟨⟨⟨⟨huser, hkey⟩, halias⟩, hrefers⟩, hname⟩, hspelling⟩ := hopen
  obtain ⟨first, -, h⟩ := Option.bind_eq_some_iff.1 huse
  obtain ⟨second, hsecond, h⟩ := Option.bind_eq_some_iff.1 h
  obtain ⟨_, -, h⟩ := Option.bind_eq_some_iff.1 h
  obtain ⟨_, hlast, h⟩ := Option.bind_eq_some_iff.1 h
  obtain ⟨_, -, h⟩ := Option.bind_eq_some_iff.1 h
  cases h
  exact ⟨target, file, t, huse, Index.mem_files_of_file? hsecond, mem_of_getLast? hlast, huser,
    by simpa using hkey, halias, refersTo_iff.1 hrefers, hname, hspelling⟩

/-- A project that imports a function under another name and calls it. -/
def renamedImport : Index :=
  .ofTexts [("a.ts", "export function foo() \x7b\x7d"),
    ("b.ts", "import \x7b foo as bar \x7d from './a';\nbar();")] [⟨1, "./a", [0]⟩]

/-- The call under the other name is found. -/
theorem renamedImport_use_found : ∃ target file t, lastUse? renamedImport = some (target, file, t) ∧
    (⟨file, t⟩ : ReferenceSite) ∈ (find renamedImport target everywhere).sites := by
  have hopen : (lastUse? renamedImport).any (isOpenUse renamedImport "foo" "bar") = true := by
    decide +kernel
  have hrenamed : renamedImport.files.toList.any (fun f =>
      (SourceFile.identifiers f.tree).any (·.text == "foo") && (aliasesIn f "foo").contains "bar") =
      true := by decide +kernel
  obtain ⟨target, file, t, huse, hfile, ht, huser, hkey, halias, hrefers, hname, htext⟩ :=
    exists_lastUse hopen
  obtain ⟨f, hf, hf'⟩ := any_eq_true.1 hrenamed
  simp only [Bool.and_eq_true, any_eq_true, beq_iff_eq, contains_iff_mem] at hf'
  refine ⟨target, file, t, huse, (mem_sites_find_iff (Index.wellFormed_ofTexts _ _) target hfile huser
    ht hkey halias).2 ⟨hrefers, .single ?_⟩⟩
  rw [hname, htext]
  exact ⟨f, hf, hf'.1, mem_aliasesIn_iff.1 hf'.2⟩

/-- A project that imports a function as the default and calls it. -/
def defaultImport : Index :=
  .ofTexts [("a.ts", "export default function foo() \x7b\x7d"),
    ("b.ts", "import bar from './a';\nbar();")] [⟨1, "./a", [0]⟩]

/-- The call refers to the function, and is not found. -/
theorem defaultImport_use_not_found : ∃ target file t,
    lastUse? defaultImport = some (target, file, t) ∧ file.isUser = true ∧
    t ∈ SourceFile.identifiers file.tree ∧
    (⟨file.id, t.startByte⟩ : DeclarationKey) ∉ target.keys ∧ isAliasName t = false ∧
    (∃ s, defaultImport.resolveAt? file t = some s ∧ ∃ d ∈ s.declarations, d.key ∈ target.keys) ∧
    (⟨file, t⟩ : ReferenceSite) ∉ (find defaultImport target everywhere).sites := by
  have hopen : (lastUse? defaultImport).any (isOpenUse defaultImport "foo" "bar") = true := by
    decide +kernel
  have hnone : defaultImport.files.toList.all (fun f => f.tree.nodes.all fun n =>
      !n.hasKindIn [.importSpecifier, .exportSpecifier]) = true := by decide +kernel
  obtain ⟨target, file, t, huse, hfile, ht, huser, hkey, halias, hrefers, hname, htext⟩ :=
    exists_lastUse hopen
  refine ⟨target, file, t, huse, huser, ht, hkey, halias, hrefers, fun hsite => ?_⟩
  -- No list renames anything, so only the symbol's own spelling is looked for.
  obtain ⟨-, -, -, hnames, -⟩ := mem_sites_iff.1 hsite
  have hwell : defaultImport.WellFormed := Index.wellFormed_ofTexts _ _
  rw [mem_searchNames_iff hwell, hname, htext] at hnames
  rcases Relation.ReflTransGen.cases_head hnames with heq | ⟨new, ⟨f, hf, -, spec, hspec, hkind, -⟩, -⟩
  · exact absurd heq (by decide)
  · have hnot := all_eq_true.1 (all_eq_true.1 hnone f hf) spec hspec
    simp [hkind] at hnot

end Query.References

end ScriptAtlas
