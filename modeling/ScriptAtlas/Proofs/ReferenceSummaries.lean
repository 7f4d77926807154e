import ScriptAtlas.Proofs.DeadCodeFilters
import ScriptAtlas.Proofs.DistinctPaths
import ScriptAtlas.Proofs.NamePlaces

/-!
# Summaries of references

A summary groups the places that refer to a symbol by the paths of their files. Nothing is lost and
nothing is merged by that: there is one entry for each path, with the lines and the kinds of use of
the places at that path, and leaving out tests leaves out whole entries. Each token is counted once,
under the number of its file; a file that the index has twice is counted twice.

* `References.Aggregates`: the entries of a summary, given the places;
* `References.sites_find`: the places that a search without a limit finds, in order;
* `References.summarize_aggregates`: what holds of every summary.
-/

namespace ScriptAtlas

open List Project Syntax Storage

variable {t : ReferenceSite} {isTest : String → Bool}

theorem pairwise_eraseDups {α : Type} [BEq α] [LawfulBEq α] {r : α → α → Prop} {l : List α}
    (h : l.Pairwise r) : l.eraseDups.Pairwise fun a b => r a b ∧ a ≠ b :=
  (h.sublist (eraseDups_sublist l)).and (nodup_eraseDups l)

namespace Query.References

variable {idx : Index} {target : Symbol} {options : SearchOptions} {sites : List ReferenceSite}

/-! ## Places -/

def places (idx : Index) (target : Symbol) (options : SearchOptions) : List ReferenceSite :=
  ((idx.filesWithAnyToken (searchNames idx target.name)).filter
    fun f => f.isUser && (options.includeTests || !f.isTest)).flatMap
    (inFile idx (searchNames idx target.name) target.keys options.skipLocalExports)

theorem sites_find (hexpired : options.expired = false) (hall : options.firstOnly = false) :
    (find idx target options).sites = (places idx target options).mergeSort siteLe := by
  rw [find, hexpired, places, ← inFiles_false, hall]
  rfl

theorem siteLe_trans (a b c : ReferenceSite) :
    siteLe a b = true → siteLe b c = true → siteLe a c = true := locationLe_trans _ _ _

theorem siteLe_total (a b : ReferenceSite) : (siteLe a b || siteLe b a) = true := locationLe_total _ _

theorem file_of_mem_inFile {names : List String} {keys : List DeclarationKey} {skip : Bool}
    {file : SourceFile} (h : t ∈ inFile idx names keys skip file) :
    t.file = file ∧ t.node ∈ SourceFile.identifiers file.tree := by
  obtain ⟨n, hn, rfl⟩ := mem_map.1 h
  exact ⟨rfl, mem_of_mem_filter (mem_of_mem_filter hn)⟩

theorem mem_files_of_mem_places (h : t ∈ places idx target options) :
    t.file ∈ idx.files.toList := by
  obtain ⟨f, hf, ht⟩ := mem_flatMap.1 h
  rw [(file_of_mem_inFile ht).1]
  exact Index.mem_files_of_mem_filterMap_file? (mem_of_mem_filter hf)

theorem places_without_tests : places idx target { options with includeTests := false } =
    (places idx target { options with includeTests := true }).filter (!·.file.isTest) := by
  simp only [places, Bool.false_or, Bool.true_or, Bool.and_true, filter_flatMap]
  rw [← filter_filter, filter_comm, DeadCode.flatMap_filter]
  refine congrArg (List.flatMap · _) (funext fun f => ?_)
  have hfile : ∀ t ∈ inFile idx (searchNames idx target.name) target.keys options.skipLocalExports f,
      t.file = f := fun t ht => (file_of_mem_inFile ht).1
  by_cases hf : f.isTest = true
  · rw [if_neg (by simp [hf]), filter_eq_nil_iff.2]
    intro t ht
    simp [hfile t ht, hf]
  · rw [if_pos (by simp [hf]), filter_eq_self.2]
    intro t ht
    simp [hfile t ht, hf]

/-! ## Tokens -/

theorem pairwise_startByte_identifiers {tree : Tree} (ht : tree.IsParsed) :
    (SourceFile.identifiers tree).Pairwise fun m n => m.startByte ≠ n.startByte := by
  have hnodes : tree.nodes.Nodup :=
    nodup_range.map fun i j h => congrArg Node.id h
  refine (hnodes.filter _).imp_of_mem fun {m n} hm hn hne heq => hne ?_
  obtain ⟨hm, hmkind⟩ := mem_filter.1 hm
  obtain ⟨hn, hnkind⟩ := mem_filter.1 hn
  have hmtree := Node.tree_of_mem_nodes hm
  have hntree := Node.tree_of_mem_nodes hn
  exact (Node.isWord_of_isIdentifier (hmtree ▸ ht) hmkind).eq_of_startByte_eq
    (Node.isWord_of_isIdentifier (hntree ▸ ht) hnkind) (hntree ▸ ht) (hmtree.trans hntree.symm) heq

/-- Where no two files have the same key, a place is known from the key of its file and its
position. -/
theorem nodup_places {κ : Type} {key : SourceFile → κ} (hparsed : idx.Parsed)
    (hwell : idx.WellFormed) (hkey : (idx.files.toList.map key).Nodup) :
    ((places idx target options).map fun t => (key t.file, t.node.startByte)).Nodup := by
  rw [List.Nodup, pairwise_map, places, Index.filesWithAnyToken_eq hwell, pairwise_flatMap]
  constructor
  · intro f hf
    have htree := hparsed f (mem_of_mem_filter (mem_of_mem_filter hf))
    refine pairwise_map.2 ?_
    refine (((pairwise_startByte_identifiers htree).filter _).filter _).imp fun hne heq => ?_
    exact hne (Prod.mk.inj heq).2
  · refine ((pairwise_map.1 hkey).filter _).filter _ |>.imp fun hne t ht u hu heq => ?_
    rw [(file_of_mem_inFile ht).1, (file_of_mem_inFile hu).1] at heq
    exact hne (Prod.mk.inj heq).1

/-! ## Entries -/

/-- The entries of a summary, given the places: one for each path, in order, with the lines and kinds
of the places at that path, also in order. -/
structure Aggregates (sites : List ReferenceSite) (s : Summary) : Prop where
  ascending : (s.files.map FileReferences.filePath).Pairwise (· < ·)
  paths : ∀ path, path ∈ s.files.map FileReferences.filePath ↔ ∃ t ∈ sites, t.file.relPath = path
  lines : ∀ e ∈ s.files, e.lines.Pairwise (· < ·) ∧
    ∀ n, n ∈ e.lines ↔ ∃ t ∈ sites, t.file.relPath = e.filePath ∧ t.line = n
  kinds : ∀ e ∈ s.files, e.usageKinds.Pairwise (fun k k' => k.ctorIdx < k'.ctorIdx) ∧
    ∀ k, k ∈ e.usageKinds ↔ ∃ t ∈ sites, t.file.relPath = e.filePath ∧ t.kind = k
  tests : ∀ e ∈ s.files, ∀ t ∈ sites, t.file.relPath = e.filePath → e.isTestFile = t.file.isTest
  fileCount : s.fileCount = s.files.length

theorem map_filePath_byFile (sites : List ReferenceSite) :
    (byFile sites).map FileReferences.filePath = (sites.map (·.file.relPath)).eraseDups := by
  rw [byFile, map_map]
  exact map_id _

theorem mem_filter_path {path : String} :
    t ∈ sites.filter (·.file.relPath == path) ↔ t ∈ sites ∧ t.file.relPath = path := by
  rw [mem_filter, beq_iff_eq]

theorem pairwise_sortedLines (lines : List Nat) : (sortedLines lines).Pairwise (· < ·) := by
  refine (pairwise_eraseDups (r := fun a b => decide (a ≤ b) = true) ?_).imp fun h => ?_
  · exact pairwise_mergeSort (by simpa using fun a b c => Nat.le_trans)
      (by simpa using Nat.le_total) lines
  · exact Nat.lt_of_le_of_ne (of_decide_eq_true h.1) h.2

theorem pairwise_path (h : sites.Pairwise fun a b => siteLe a b = true) :
    (sites.map (·.file.relPath)).eraseDups.Pairwise (· < ·) := by
  refine (pairwise_eraseDups (r := fun a b : String => a < b ∨ a = b) ?_).imp fun h =>
    h.1.resolve_right h.2
  refine pairwise_map.2 (h.imp fun hle => ?_)
  exact (locationLe_iff.1 hle).imp_right And.left

/-- Whether an entry is one of a test is a matter of its path, if that is so of files. -/
theorem isTestFile_fileReferences {path : String}
    (htest : ∀ t ∈ sites, t.file.isTest = isTest t.file.relPath)
    (hpath : path ∈ sites.map (·.file.relPath)) :
    (fileReferences path (sites.filter (·.file.relPath == path))).isTestFile = isTest path := by
  obtain ⟨t, ht, htpath⟩ := mem_map.1 hpath
  cases hfound : sites.filter (·.file.relPath == path) with
  | nil => exact absurd (mem_filter_path.2 ⟨ht, htpath⟩) (by simp [hfound])
  | cons u rest =>
    obtain ⟨hu, hupath⟩ := mem_filter_path.1 (hfound ▸ mem_cons_self : u ∈ _)
    exact (htest u hu).trans (congrArg isTest hupath)

theorem byFile_filter (htest : ∀ t ∈ sites, t.file.isTest = isTest t.file.relPath) :
    byFile (sites.filter (!·.file.isTest)) = (byFile sites).filter (!·.isTestFile) := by
  have hsites : sites.filter (!·.file.isTest) = sites.filter (!isTest ·.file.relPath) :=
    filter_congr fun t ht => by rw [htest t ht]
  have hpaths : (sites.map (·.file.relPath)).eraseDups.filter (fun path => !isTest path) =
      ((sites.filter (!isTest ·.file.relPath)).map (·.file.relPath)).eraseDups := by
    rw [filter_eraseDups, filter_map]
    rfl
  have hkept : (sites.map (·.file.relPath)).eraseDups.filter ((!·.isTestFile) ∘ fun path =>
      fileReferences path (sites.filter (·.file.relPath == path))) =
      (sites.map (·.file.relPath)).eraseDups.filter fun path => !isTest path :=
    filter_congr fun path hpath => by
      rw [Function.comp_apply, isTestFile_fileReferences htest (mem_eraseDups.1 hpath)]
  rw [hsites, byFile, byFile, filter_map, hkept, hpaths]
  refine map_congr_left fun path hpath => congrArg (fileReferences path) ?_
  obtain ⟨t, ht, rfl⟩ := mem_map.1 (mem_eraseDups.1 hpath)
  rw [filter_filter]
  refine filter_congr fun u _ => ?_
  by_cases hu : u.file.relPath = t.file.relPath
  · simp [hu, (mem_filter.1 ht).2]
  · simp [hu]

theorem aggregates_byFile (hsorted : sites.Pairwise fun a b => siteLe a b = true)
    (htest : ∀ t ∈ sites, t.file.isTest = isTest t.file.relPath) {s : Summary}
    (hfiles : s.files = byFile sites) (hcount : s.fileCount = s.files.length) : Aggregates sites s := by
  have hentry : ∀ e ∈ s.files, ∃ path ∈ sites.map (·.file.relPath),
      fileReferences path (sites.filter (·.file.relPath == path)) = e := by
    intro e he
    rw [hfiles] at he
    obtain ⟨path, hpath, rfl⟩ := mem_map.1 he
    exact ⟨path, mem_eraseDups.1 hpath, rfl⟩
  refine ⟨?_, fun path => ?_, fun e he => ?_, fun e he => ?_, fun e he t ht hpath => ?_, hcount⟩
  · rw [hfiles, map_filePath_byFile]
    exact pairwise_path hsorted
  · rw [hfiles, map_filePath_byFile, mem_eraseDups, mem_map]
  · obtain ⟨path, -, rfl⟩ := hentry e he
    refine ⟨pairwise_sortedLines _, fun n => mem_sortedLines.trans ?_⟩
    simp only [mem_map, mem_filter_path, and_assoc, fileReferences]
  · obtain ⟨path, -, rfl⟩ := hentry e he
    refine ⟨List.Pairwise.filter _ (by decide), fun k => ?_⟩
    have hall : k ∈ UsageKind.all := by cases k <;> decide
    simp only [fileReferences, mem_filter, hall, true_and, any_eq_true, beq_iff_eq, and_assoc]
  · obtain ⟨path, hmem, rfl⟩ := hentry e he
    rw [isTestFile_fileReferences htest hmem, htest t ht]
    exact congrArg isTest hpath.symm

/-! ## Summaries -/

/-- In every project that is built, for every declaration and every search without a limit: the
entries of the summary are those of the places found. The total counts tokens, those of a file that the
index has twice as two; if no specifier leaves its scope, then no two tokens that are counted have the
same path and the same position. Without tests, the entries are those with tests that are not of a
test, unchanged, and the re-exports are the same. -/
theorem summarize_aggregates {fs : FileSystem} (hfs : fs.IsNormal) {root : Path} {settings : Settings}
    {idx : Index} (h : Index.build_ fs root settings = .ok idx) (d : Declaration)
    (options : SearchOptions) (hexpired : options.expired = false) (hall : options.firstOnly = false) :
    Aggregates (find idx (idx.merged d) options).sites (summarize idx d options) ∧
    (summarize idx d options).totalCount = ((find idx (idx.merged d) options).sites.map fun t =>
      (t.file.id, t.node.startByte)).toFinset.card ∧
    ((∀ f ∈ idx.files, ∀ s ∈ SourceFile.moduleSpecifiers f.tree, ¬ Resolver.LeavesScope s) →
      (summarize idx d options).totalCount = ((find idx (idx.merged d) options).sites.map fun t =>
        (t.file.path, t.node.startByte)).toFinset.card) ∧
    (summarize idx d { options with includeTests := false }).files =
      (summarize idx d { options with includeTests := true }).files.filter (!·.isTestFile) ∧
    (summarize idx d { options with includeTests := false }).reExports =
      (summarize idx d { options with includeTests := true }).reExports := by
  have htest : ∀ options, ∀ t ∈ places idx (idx.merged d) options,
      t.file.isTest = isTestFile idx.settings.testFilePatterns t.file.relPath :=
    fun _ t ht => Index.isTest_of_build_ h _ (Array.mem_toList_iff.1 (mem_files_of_mem_places ht))
  have hwell := Index.wellFormed_of_build_ h
  have htotal {κ : Type} [DecidableEq κ] {key : SourceFile → κ}
      (hkey : (idx.files.toList.map key).Nodup) : (summarize idx d options).totalCount =
      ((find idx (idx.merged d) options).sites.map fun t =>
        (key t.file, t.node.startByte)).toFinset.card := by
    rw [toFinset_card_of_nodup, length_map]
    · rfl
    · rw [sites_find hexpired hall]
      exact ((mergeSort_perm _ _).map _).nodup_iff.2 (nodup_places (Index.parsed_of_build_ h) hwell hkey)
  refine ⟨?_, htotal ?_, fun hnone => htotal (Index.nodup_paths_of_build_ hfs h hnone), ?_, rfl⟩
  · refine aggregates_byFile ?_ (fun t ht => htest options t ?_) rfl rfl
    · rw [sites_find hexpired hall]
      exact pairwise_mergeSort siteLe_trans siteLe_total _
    · rwa [sites_find hexpired hall, mem_mergeSort] at ht
  · refine pairwise_map.2 (hwell.pairwise_id.imp ?_)
    exact fun hlt heq => Nat.ne_of_lt hlt heq
  · have hsites (includeTests : Bool) : (find idx (idx.merged d) { options with includeTests }).sites =
        (places idx (idx.merged d) { options with includeTests }).mergeSort siteLe :=
      sites_find hexpired hall
    change byFile (find _ _ _).sites = (byFile (find _ _ _).sites).filter _
    rw [hsites, hsites, places_without_tests, ← filter_mergeSort siteLe_trans siteLe_total]
    exact byFile_filter fun t ht => htest _ t (mem_mergeSort.1 ht)

/-! ## A file that is there twice -/

theorem mergeSort_eq_of_perm {l s : List String} (hperm : l.Perm s)
    (hsorted : s.Pairwise fun a b => ¬ b < a) : (l.mergeSort fun a b => !(b < a)) = s := by
  refine List.Perm.eq_of_pairwise (fun a b _ _ hab hba => String.le_antisymm hab hba) ?_ hsorted
    ((mergeSort_perm _ _).trans hperm)
  have hle {a b : String} : (!decide (b < a)) = true ↔ ¬ b < a := by
    rw [Bool.not_eq_true', decide_eq_false_iff_not]
  refine (pairwise_mergeSort ?_ ?_ l).imp hle.1
  · exact fun a b c hab hbc => hle.2 (String.le_trans (hle.1 hab) (hle.1 hbc))
  · intro a b
    rw [Bool.or_eq_true, hle, hle]
    exact String.le_total a b

/-- A project in which the first file refers to the second by a specifier that leaves its scope, and the
second uses a function of the first. -/
def doubledModule : FileSystem :=
  [(["node_modules", "a.ts"], "import '@x/..'; export function foo() \x7b\x7d"),
    (["node_modules", "index.ts"], "import \x7b foo \x7d from './a'; foo();")].foldl
    (fun fs (segments, text) => fs.write ⟨segments⟩ (.text text))
    (FileSystem.empty.addDir ⟨["node_modules", "@x"]⟩)

theorem list_doubledModule : doubledModule.list ⟨["node_modules"]⟩ = ["@x", "a.ts", "index.ts"] := by
  dsimp only [FileSystem.list]
  rw [mergeSort_eq_of_perm (s := ["@x", "a.ts", "index.ts"])] <;> decide +kernel

theorem walkFrom_doubledModule (enter : String → Bool) (levels : List IgnoreLevel) (depth : Nat) :
    doubledModule.walkFrom enter depth levels ⟨["node_modules", "@x"]⟩ = [] := by
  have hlist : doubledModule.list ⟨["node_modules", "@x"]⟩ = [] := by
    dsimp only [FileSystem.list]
    rw [mergeSort_eq_of_perm (s := [])] <;> decide +kernel
  cases depth with
  | zero => rfl
  | succ depth => rw [FileSystem.walkFrom, hlist, flatMap_nil]

theorem sourcePaths_doubledModule :
    sourcePaths doubledModule ⟨["node_modules"]⟩ .default
      (BuildConfig.select doubledModule ⟨["node_modules"]⟩ none) =
      [⟨["node_modules", "a.ts"]⟩, ⟨["node_modules", "index.ts"]⟩] := by
  have hwalk : doubledModule.walk ⟨["node_modules"]⟩ doubledModule.depthBound
      (fun name => !Settings.default.isVendorDir name) =
      [⟨["node_modules", "a.ts"]⟩, ⟨["node_modules", "index.ts"]⟩] := by
    have hchild : Path.child ⟨["node_modules"]⟩ "@x" = ⟨["node_modules", "@x"]⟩ := rfl
    rw [FileSystem.walk, FileSystem.depthBound, FileSystem.walkFrom, list_doubledModule]
    simp only [flatMap_cons, hchild, walkFrom_doubledModule]
    decide +kernel
  dsimp only [sourcePaths]
  rw [hwalk, mergeSort_of_pairwise]
  · decide +kernel
  · decide +kernel

def doubledIndex : Index :=
  .ofPaths doubledModule ⟨["node_modules"]⟩ .default
    [⟨["node_modules", "a.ts"]⟩, ⟨["node_modules", "index.ts"]⟩]

theorem build_doubledModule :
    Index.build_ doubledModule ⟨["node_modules"]⟩ .default = .ok doubledIndex :=
  Index.build_eq_ofPaths (by decide +kernel) (by decide +kernel) sourcePaths_doubledModule
    (by decide +kernel)

def doubledTarget : Declaration :=
  ((doubledIndex.file? 0).bind fun f => f.topDeclarations.head?).getD default

def lastPlace? (idx : Index) (file : Nat) : Option ReferenceSite := do
  let f ← idx.file? file
  let n ← (SourceFile.identifiers f.tree).getLast?
  return ⟨f, n⟩

theorem mem_sites_of_lastPlace? {d : Declaration} {file : Nat}
    (hwell : idx.WellFormed) (h : lastPlace? idx file = some t)
    (hopen : isOpenUse idx (idx.merged d).name (idx.merged d).name (idx.merged d, t.file, t.node) = true) :
    t ∈ (find idx (idx.merged d) everywhere).sites := by
  obtain ⟨f, hf, h⟩ := Option.bind_eq_some_iff.1 h
  obtain ⟨n, hn, h⟩ := Option.bind_eq_some_iff.1 h
  cases h
  simp only [isOpenUse, Bool.and_eq_true, Bool.not_eq_true', beq_iff_eq] at hopen
  obtain ⟨⟨⟨⟨⟨huser, hkey⟩, halias⟩, hrefers⟩, -⟩, hspelling⟩ := hopen
  refine mem_sites_of_mem_searchNames hwell (Index.mem_files_of_file? hf) huser
    (mem_of_getLast? hn) ?_ (by simpa using hkey) halias hrefers
  rw [hspelling, mem_searchNames_iff hwell]

/-- The uses of the function make up the summary; each is counted under the number of its file. -/
theorem doubledModule_aggregated :
    Aggregates (find doubledIndex (doubledIndex.merged doubledTarget) everywhere).sites
      (summarize doubledIndex doubledTarget everywhere) ∧
    (summarize doubledIndex doubledTarget everywhere).totalCount =
      ((find doubledIndex (doubledIndex.merged doubledTarget) everywhere).sites.map fun t =>
        (t.file.id, t.node.startByte)).toFinset.card := by
  have hfs : doubledModule.IsNormal := by
    constructor <;> decide +kernel
  obtain ⟨hentries, htotal, -⟩ :=
    summarize_aggregates hfs build_doubledModule doubledTarget everywhere rfl rfl
  exact ⟨hentries, htotal⟩

/-- The second file is there twice, so that more uses are counted than the files have. -/
theorem doubledModule_counted :
    ((find doubledIndex (doubledIndex.merged doubledTarget) everywhere).sites.map fun t =>
      (t.file.path, t.node.startByte)).toFinset.card <
    (summarize doubledIndex doubledTarget everywhere).totalCount := by
  have heval : ((lastPlace? doubledIndex 1).any fun t => (lastPlace? doubledIndex 2).any fun u =>
      [t, u].all (fun v => isOpenUse doubledIndex (doubledIndex.merged doubledTarget).name
        (doubledIndex.merged doubledTarget).name (doubledIndex.merged doubledTarget, v.file, v.node)) &&
      t.file.id == 1 && u.file.id == 2 && t.file.path == u.file.path &&
      t.node.startByte == u.node.startByte) = true := by decide +kernel
  obtain ⟨t, ht, heval⟩ := (Option.any_eq_true _ _).1 heval
  obtain ⟨u, hu, heval⟩ := (Option.any_eq_true _ _).1 heval
  simp only [all_cons, all_nil, Bool.and_true, Bool.and_eq_true, beq_iff_eq] at heval
  obtain ⟨⟨⟨⟨⟨htopen, huopen⟩, htid⟩, huid⟩, hpath⟩, hstart⟩ := heval
  have hwell := Index.wellFormed_of_build_ build_doubledModule
  have htsite := mem_sites_of_lastPlace? hwell ht htopen
  have husite := mem_sites_of_lastPlace? hwell hu huopen
  have hne : t ≠ u := by
    rintro rfl
    cases htid.symm.trans huid
  refine Nat.lt_of_le_of_ne (Nat.le_trans (toFinset_card_le _) (by simp [summarize])) fun heq => hne ?_
  have hnodup : ((find doubledIndex (doubledIndex.merged doubledTarget) everywhere).sites.map fun t =>
      (t.file.path, t.node.startByte)).Nodup := by
    rw [← Multiset.coe_nodup, ← Multiset.toFinset_card_eq_card_iff_nodup]
    simpa [summarize] using heq
  exact inj_on_of_nodup_map hnodup htsite husite (Prod.ext hpath hstart)

end Query.References

end ScriptAtlas
