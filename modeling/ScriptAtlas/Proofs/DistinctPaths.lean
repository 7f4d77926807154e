import ScriptAtlas.Proofs.NormalPaths

/-!
# One file for each path

Files are looked up by their normal paths, and linking adds a file only for a candidate under which
there is none yet. So an index has each file once, unless a candidate is not the normal path of the
file that it leads to: then the file is added again.

* `SourceFile.StoredIn`: a file that is what is stored at its path;
* `Linking.DistinctBut`: no two files at one path, unless a detour leads there; kept by a candidate
  (`DistinctBut.reach`), by a file (`DistinctBut.linkFile`) and by a run (`Drains.distinctBut`);
* `Index.paths_of_build_`: the paths of every index that is built.
-/

namespace ScriptAtlas.Project

open List Storage Syntax

variable {idx : Index} {c : Path}
variable {fs : FileSystem} {root : Path}

/-! ## Stored files -/

/-- The file is the one that is stored at its path, and its path is normal. -/
def SourceFile.StoredIn (fs : FileSystem) (root : Path) (settings : Settings) (f : SourceFile) : Prop :=
  f.path.IsNormal ∧ ∃ text, fs.contentAt? f.path = some (.text text) ∧
    f = SourceFile.new f.id root settings f.path (SourceFile.parseTree f.path text)

section

variable {fs : FileSystem} {root : Path} {settings : Settings} {f g : SourceFile}

theorem SourceFile.eq_of_new {path : Path} {tree : Tree}
    (hf : f = SourceFile.new f.id root settings path tree)
    (hg : g = SourceFile.new g.id root settings path tree) : g = { f with id := g.id } := by
  generalize f.id = i at hf
  generalize hj : g.id = j at hg ⊢
  rw [hf, hg]
  simp only [SourceFile.new]

theorem SourceFile.StoredIn.eq_of_path_eq (hf : f.StoredIn fs root settings)
    (hg : g.StoredIn fs root settings) (hpath : g.path = f.path) : g = { f with id := g.id } := by
  obtain ⟨-, text, htext, hf⟩ := hf
  obtain ⟨-, text', htext', hg⟩ := hg
  rw [hpath, htext] at htext'
  cases htext'
  rw [hpath] at hg
  exact SourceFile.eq_of_new hf hg

/-- The path leads to a file with the same ending. -/
def KeepsEnding (c : Path) : Prop := c.extension? = c.normalize.extension?

theorem keepsEnding_of_isNormal (hc : c.IsNormal) : KeepsEnding c := by
  rw [KeepsEnding, hc.normalize]

theorem extension?_child (p : Path) (name : String) :
    (p.child name).extension? = ((some name).filter (· != "..")).bind Path.extensionOf? := by
  rw [Path.extension?, Path.fileName?, Path.child, getLast?_concat]

theorem IsIndexOf.keepsEnding {dir : Path} (h : IsIndexOf c dir) : KeepsEnding c := by
  obtain ⟨e, he, rfl⟩ := h
  have hname := (endsInName_probeExtensions e he).append_ne "index"
  rw [KeepsEnding, Path.normalize_child dir hname, extension?_child, extension?_child]

theorem storedIn_new {text : String} (hc : KeepsEnding c)
    (htext : fs.readText? c = some text) (id : Nat) :
    (SourceFile.new id root settings c.normalize (SourceFile.parseTree c text)).StoredIn fs root
      settings := by
  refine ⟨c.isNormal_normalize, text, FileSystem.contentAt?_of_readText? htext, ?_⟩
  have htree : SourceFile.parseTree c text = SourceFile.parseTree c.normalize text := by
    rw [SourceFile.parseTree, SourceFile.parseTree, SourceFile.hasMarkup, SourceFile.hasMarkup, hc]
  rw [htree]
  rfl

end

/-! ## Scanning -/

theorem isNormal_of_mem_sourcePaths (hfs : fs.IsNormal) (hroot : root.IsNormal)
    {settings : Settings} {build : Option BuildConfig} {p : Path}
    (hp : p ∈ sourcePaths fs root settings build) : p.IsNormal :=
  hfs.of_mem_walkFrom hroot (mem_of_mem_filter (mem_mergeSort.1 hp))

theorem nodup_sourcePaths (fs : FileSystem) (root : Path) (settings : Settings)
    (build : Option BuildConfig) : (sourcePaths fs root settings build).Nodup :=
  (mergeSort_perm _ _).nodup_iff.2 ((FileSystem.nodup_walkFrom ..).filter _)

theorem map_fst_parseFile? {paths : List Path} (h : ∀ p ∈ paths, p.IsNormal) :
    ((paths.filterMap (parseFile? fs)).map Prod.fst).Sublist paths := by
  induction paths with
  | nil => exact .slnil
  | cons p rest ih =>
    have hrest := ih fun q hq => h q (mem_cons_of_mem p hq)
    rw [filterMap_cons]
    split
    · exact hrest.cons p
    · next parsed hparsed =>
      obtain ⟨text, -, rfl⟩ := Option.map_eq_some_iff.1 hparsed
      rw [map_cons, (h p mem_cons_self).normalize]
      exact hrest.cons_cons p

theorem perm_indexOrder (parsed : List (Path × Tree)) : (indexOrder parsed).Perm parsed := by
  have hperm := filter_append_perm (fun f : Path × Tree => !isDeclarationPath f.1) parsed
  simpa [indexOrder] using hperm

theorem map_path_foldl_push (root : Path) (settings : Settings) (parsed : List (Path × Tree))
    (files : Array SourceFile) :
    (parsed.foldl (fun files (path, tree) =>
      files.push (SourceFile.new files.size root settings path tree)) files).toList.map
        SourceFile.path = files.toList.map SourceFile.path ++ parsed.map Prod.fst := by
  induction parsed generalizing files with
  | nil => simp
  | cons f rest ih =>
    rw [foldl_cons, ih, Array.toList_push, map_append, append_assoc]
    rfl

theorem nodup_paths_scannedFiles (hfs : fs.IsNormal) (hroot : root.IsNormal) (settings : Settings) :
    ((Index.scannedFiles fs root settings).toList.map SourceFile.path).Nodup := by
  rw [Index.scannedFiles, map_path_foldl_push]
  refine List.Perm.nodup ((perm_indexOrder _).map Prod.fst).symm ?_
  refine (map_fst_parseFile? fun p hp => ?_).nodup (nodup_sourcePaths fs root settings _)
  exact isNormal_of_mem_sourcePaths hfs hroot hp

theorem storedIn_scannedFiles (hfs : fs.IsNormal) (hroot : root.IsNormal) (settings : Settings) :
    ∀ f ∈ Index.scannedFiles fs root settings, f.StoredIn fs root settings := by
  refine List.foldlRecOn
    (motive := fun files : Array SourceFile => ∀ f ∈ files, f.StoredIn fs root settings) _ _ ?_ ?_
  · exact fun f hf => absurd hf (Array.not_mem_empty f)
  · rintro files hfiles ⟨path, tree⟩ hparsed f hf
    obtain ⟨p, hp, hparse⟩ := mem_filterMap.1 ((perm_indexOrder _).mem_iff.1 hparsed)
    obtain ⟨text, htext, heq⟩ := Option.map_eq_some_iff.1 hparse
    obtain ⟨rfl, rfl⟩ := Prod.mk.inj heq
    rcases Array.mem_push.1 hf with hf | rfl
    · exact hfiles f hf
    · exact storedIn_new
        (keepsEnding_of_isNormal (isNormal_of_mem_sourcePaths hfs hroot hp)) htext _

/-! ## Linking -/

/-- A specifier of the file leaves its scope, and leads to the path in a way that is not normal. -/
def Detour (r : Resolver) (f : SourceFile) (p : Path) : Prop :=
  ∃ s ∈ SourceFile.moduleSpecifiers f.tree, Resolver.LeavesScope s ∧
    ∃ c ∈ r.resolve s f.path, c ≠ p ∧ c.normalize = p

namespace Linking

variable {ctx : Context} {st st' : Linking} {D : Path → Prop}

/-- The files are those that are stored at their paths, and two of them are at one path only where
`D` allows it. -/
structure DistinctBut (ctx : Context) (D : Path → Prop) (files : Array SourceFile) : Prop where
  stored : ∀ f ∈ files, f.StoredIn ctx.resolver.fs ctx.resolver.root ctx.settings
  distinct : files.toList.Pairwise fun f g => f.path = g.path → D g.path

/-- Reaching a candidate leaves the files as they are, or adds the file that the candidate leads to,
if there is none under the candidate itself. -/
theorem files_reach_cases (ctx : Context) (st : Linking) (c : Path) :
    (st.reach ctx c).1.files = st.files ∨
    ∃ text, ctx.resolver.fs.readText? c = some text ∧ (∀ f ∈ st.files, f.path ≠ c) ∧
      (st.reach ctx c).1.files = st.files.push (SourceFile.new st.files.size ctx.resolver.root
        ctx.settings c.normalize (SourceFile.parseTree c text)) := by
  unfold reach
  split
  · exact .inl rfl
  · next hfind =>
    split
    · exact .inl rfl
    · split
      · exact .inl rfl
      · next hparse =>
        obtain ⟨text, htext, heq⟩ := Option.map_eq_some_iff.1 hparse
        obtain ⟨rfl, rfl⟩ := Prod.mk.inj heq
        refine .inr ⟨text, htext, fun f hf heq => ?_, rfl⟩
        have hnone := Option.map_eq_none_iff.1 hfind
        rw [Array.findRev?_eq_find?_reverse, Array.find?_eq_none] at hnone
        exact hnone f (Array.mem_reverse.2 hf) (beq_iff_eq.2 heq)

/-- A candidate that adds a file adds one at a new path, or at a path that `D` allows. -/
theorem DistinctBut.reach (h : DistinctBut ctx D st.files)
    (hc : c.IsNormal ∨ (KeepsEnding c ∧ D c.normalize)) :
    DistinctBut ctx D (st.reach ctx c).1.files := by
  rcases files_reach_cases ctx st c with heq | ⟨text, htext, hnew, heq⟩ <;> rw [heq]
  · exact h
  · have hending : KeepsEnding c := hc.elim keepsEnding_of_isNormal And.left
    refine ⟨fun f hf => ?_, ?_⟩
    · rcases Array.mem_push.1 hf with hf | rfl
      · exact h.stored f hf
      · exact storedIn_new hending htext _
    · rw [Array.toList_push, pairwise_append]
      refine ⟨h.distinct, pairwise_singleton _ _, fun f hf g hg hpath => ?_⟩
      rw [mem_singleton.1 hg] at hpath ⊢
      rcases hc with hc | ⟨-, hD⟩
      · exact absurd (hpath.trans hc.normalize) (hnew f (Array.mem_toList_iff.1 hf))
      · exact hD

theorem DistinctBut.reachAll (h : DistinctBut ctx D st.files) {candidates : List Path}
    (hc : ∀ c ∈ candidates, c.IsNormal ∨ (KeepsEnding c ∧ D c.normalize)) (targets : List Nat) :
    DistinctBut ctx D (reachAll ctx st candidates targets).1.files := by
  induction candidates generalizing st targets with
  | nil => exact h
  | cons c rest ih =>
    exact ih (h.reach (hc c mem_cons_self)) (fun d hd => hc d (mem_cons_of_mem c hd)) _

theorem isNormal_or_detour (hroot : ctx.resolver.root.IsNormal)
    (hspaces : ∀ w ∈ ctx.resolver.workspaces, w.2.IsNormal) {file : SourceFile}
    (hfile : file.path.IsNormal) {s : String} (hs : s ∈ SourceFile.moduleSpecifiers file.tree)
    (hc : c ∈ ctx.resolver.resolve s file.path) :
    c.IsNormal ∨ (KeepsEnding c ∧ Detour ctx.resolver file c.normalize) := by
  by_cases hnormal : c.IsNormal
  · exact .inl hnormal
  · rcases Resolver.isNormal_or_leavesScope hroot hspaces hfile hc with hc' | ⟨hleaves, d, hindex⟩
    · exact absurd hc' hnormal
    · refine .inr ⟨hindex.keepsEnding, s, hs, hleaves, c, hc, ?_, rfl⟩
      exact fun heq => hnormal (Path.normalize_eq_self_iff.1 heq.symm)

theorem DistinctBut.linkFile (h : DistinctBut ctx D st.files) (hroot : ctx.resolver.root.IsNormal)
    (hspaces : ∀ w ∈ ctx.resolver.workspaces, w.2.IsNormal) {file : SourceFile}
    (hfile : file.path.IsNormal) (hD : ∀ p, Detour ctx.resolver file p → D p) :
    DistinctBut ctx D (st.linkFile ctx file).files := by
  refine List.foldlRecOn (motive := fun st : Linking => DistinctBut ctx D st.files)
    (SourceFile.moduleSpecifiers file.tree) (linkSpecifier ctx file) h ?_
  intro st hst s hs
  refine DistinctBut.reachAll hst (fun c hc => ?_) []
  exact (isNormal_or_detour hroot hspaces hfile hs hc).imp_right fun ⟨hending, hdetour⟩ =>
    ⟨hending, hD _ hdetour⟩

/-- After a run two files are at one path only where a detour of one of the files leads. -/
theorem Drains.distinctBut {i : Nat} (hrun : Drains ctx i st st') (hroot : ctx.resolver.root.IsNormal)
    (hspaces : ∀ w ∈ ctx.resolver.workspaces, w.2.IsNormal)
    (hD : ∀ f ∈ st'.files, ∀ p, Detour ctx.resolver f p → D p) (h : DistinctBut ctx D st.files) :
    DistinctBut ctx D st'.files := by
  induction hrun with
  | done _ => exact h
  | @next i st st' file hfile hrest ih =>
    have hmem : file ∈ st.files := Array.mem_of_getElem? hfile
    obtain ⟨more, hmore⟩ := (Drains.next hfile hrest).grows.files
    have hmem' : file ∈ st'.files := by
      rw [← Array.mem_toList_iff, hmore]
      exact mem_append_left more (Array.mem_toList_iff.2 hmem)
    exact ih hD (h.linkFile hroot hspaces (h.stored file hmem).1 (hD file hmem'))

end Linking

/-! ## Whole indexes -/

namespace Index

theorem exists_fileByPath? {f : SourceFile} (hf : f ∈ idx.files)
    (hnormal : f.path.IsNormal) :
    ∃ g ∈ idx.files, idx.fileByPath? f.path = some g ∧ g.path = f.path := by
  cases hfind : idx.fileByPath? f.path with
  | none => exact absurd hnormal.normalize.symm (fileByPath?_eq_none_iff.1 hfind f hf)
  | some g =>
    obtain ⟨hg, hpath⟩ := of_fileByPath?_eq_some hfind
    exact ⟨g, hg, rfl, hpath.trans hnormal.normalize⟩

/-- The files of an index that is built are those stored at their paths, and two of them are at one
path only where a detour leads. -/
theorem distinctBut_of_build_ {fs : FileSystem} (hfs : fs.IsNormal) {root : Path} {settings : Settings}
    (h : build_ fs root settings = .ok idx) :
    Linking.DistinctBut ⟨Resolver.new fs root.normalize idx.build, settings⟩
      (fun p => ∃ f ∈ idx.files, Detour (Resolver.new fs root.normalize idx.build) f p) idx.files := by
  obtain ⟨st, hrun, hfiles, -⟩ := drains_of_build_ h
  have hroot := root.isNormal_normalize
  have hspaces : ∀ w ∈ workspacePackages fs root.normalize, w.2.IsNormal :=
    fun w hw => isNormal_of_mem_workspacePackages hfs hroot hw
  rw [← hfiles]
  refine hrun.distinctBut hroot hspaces (fun f hf p hp => ⟨f, hf, hp⟩) ⟨?_, ?_⟩
  · exact storedIn_scannedFiles hfs hroot settings
  · refine (pairwise_map.1 (nodup_paths_scannedFiles hfs hroot settings)).imp ?_
    exact fun hne heq => absurd heq hne

/-- The paths are distinct exactly when every file is found under its own path. -/
theorem nodup_paths_iff (hwell : idx.WellFormed)
    (hnormal : ∀ f ∈ idx.files, f.path.IsNormal) :
    (idx.files.toList.map SourceFile.path).Nodup ↔
      ∀ f ∈ idx.files, idx.fileByPath? f.path = some f := by
  constructor
  · intro hnodup f hf
    obtain ⟨g, hg, hfind, hpath⟩ := exists_fileByPath? hf (hnormal f hf)
    have heq : g = f := inj_on_of_nodup_map hnodup (Array.mem_toList_iff.2 hg)
      (Array.mem_toList_iff.2 hf) hpath
    rw [hfind, heq]
  · intro hfind
    refine pairwise_map.2 (hwell.pairwise_id.imp_of_mem fun {f g} hf hg hlt heq => ?_)
    have hf' := hfind f (Array.mem_toList_iff.1 hf)
    rw [heq, hfind g (Array.mem_toList_iff.1 hg)] at hf'
    rw [Option.some.inj hf'] at hlt
    exact Nat.lt_irrefl _ hlt

/-- If no specifier leaves its scope, then no two files are at one path. -/
theorem nodup_paths_of_build_ {fs : FileSystem} (hfs : fs.IsNormal) {root : Path} {settings : Settings}
    (h : build_ fs root settings = .ok idx)
    (hnone : ∀ f ∈ idx.files, ∀ s ∈ SourceFile.moduleSpecifiers f.tree, ¬ Resolver.LeavesScope s) :
    (idx.files.toList.map SourceFile.path).Nodup := by
  refine pairwise_map.2 ((distinctBut_of_build_ hfs h).distinct.imp fun hD heq => ?_)
  obtain ⟨e, he, s, hs, hleaves, -⟩ := hD heq
  exact hnone e he s hs hleaves

/-- In every index that is built, for any files, configuration and specifiers: the paths are normal,
and the file that is found under the path of a file differs from it at most in its number; it is the
file itself for every file exactly when the paths are distinct; two files are at one path only if a
specifier of a file leaves its scope and leads there in a way that is not normal; so if no specifier
leaves its scope, the paths are distinct and every file is found under its own path. -/
theorem paths_of_build_ {fs : FileSystem} (hfs : fs.IsNormal) {root : Path} {settings : Settings}
    {idx : Index} (h : build_ fs root settings = .ok idx) :
    (∀ f ∈ idx.files, f.path.normalize = f.path ∧
      ∃ g ∈ idx.files, idx.fileByPath? f.path = some g ∧ g = { f with id := g.id }) ∧
    ((idx.files.toList.map SourceFile.path).Nodup ↔
      ∀ f ∈ idx.files, idx.fileByPath? f.path = some f) ∧
    (∀ f ∈ idx.files, ∀ g ∈ idx.files, f.path = g.path → f ≠ g →
      ∃ e ∈ idx.files, Detour (Resolver.new fs root.normalize idx.build) e f.path) ∧
    ((∀ f ∈ idx.files, ∀ s ∈ SourceFile.moduleSpecifiers f.tree, ¬ Resolver.LeavesScope s) →
      (idx.files.toList.map SourceFile.path).Nodup ∧
        ∀ f ∈ idx.files, idx.fileByPath? f.path = some f) := by
  have hdistinct := distinctBut_of_build_ hfs h
  have hnormal : ∀ f ∈ idx.files, f.path.IsNormal := fun f hf => (hdistinct.stored f hf).1
  have hiff := nodup_paths_iff (wellFormed_of_build_ h) hnormal
  refine ⟨fun f hf => ⟨(hnormal f hf).normalize, ?_⟩, hiff, ?_, fun hnone => ?_⟩
  · obtain ⟨g, hg, hfind, hpath⟩ := exists_fileByPath? hf (hnormal f hf)
    exact ⟨g, hg, hfind, (hdistinct.stored f hf).eq_of_path_eq (hdistinct.stored g hg) hpath⟩
  · intro f hf g hg hpath hne
    have hpair := List.Pairwise.forall_of_forall_of_flip
      (R := fun f g : SourceFile => f.path = g.path → f ≠ g →
        ∃ e ∈ idx.files, Detour (Resolver.new fs root.normalize idx.build) e f.path)
      (fun _ _ _ hne => absurd rfl hne)
      (hdistinct.distinct.imp fun hD heq _ => heq ▸ hD heq)
      (hdistinct.distinct.imp fun hD heq _ => hD heq.symm)
    exact hpair (Array.mem_toList_iff.2 hf) (Array.mem_toList_iff.2 hg) hpath hne
  · have hnodup := nodup_paths_of_build_ hfs h hnone
    exact ⟨hnodup, hiff.1 hnodup⟩

theorem not_leavesScope {s : String} (h : Text.beginsWith "@" s = false) :
    ¬ Resolver.LeavesScope s := by
  intro hleaves
  have hat : Text.beginsWith "@" s = true := by
    rw [Text.beginsWith_iff]
    rcases hleaves with rfl | ⟨scope, -, rfl⟩
    · exact ⟨"..", rfl⟩
    · exact ⟨scope ++ "/..", String.append_assoc⟩
  rw [h] at hat
  cases hat

theorem isNormal_cyclicPackage : cyclicPackage.IsNormal := by
  refine ⟨?_, ?_⟩ <;> decide +kernel

theorem specifiers_cyclicPackage :
    cyclicPackageIndex.files.toList.map (fun f => SourceFile.moduleSpecifiers f.tree) =
      [["p"], ["./b"], ["./index"]] := by
  decide +kernel

/-- The three files of a project whose package refers to itself have three paths, although each of the
two files of the package is reached more than once. -/
theorem cyclicPackage_distinct :
    ∃ idx, build_ cyclicPackage ⟨["app"]⟩ .default = .ok idx ∧ idx.files.size = 3 ∧
      (idx.files.toList.map SourceFile.path).Nodup ∧
      ∀ f ∈ idx.files, idx.fileByPath? f.path = some f := by
  obtain ⟨-, -, -, hdistinct⟩ := paths_of_build_ isNormal_cyclicPackage build_cyclicPackage
  refine ⟨_, build_cyclicPackage, by decide +kernel, hdistinct fun f hf s hs => not_leavesScope ?_⟩
  have hmem : SourceFile.moduleSpecifiers f.tree ∈ [["p"], ["./b"], ["./index"]] := by
    rw [← specifiers_cyclicPackage]
    exact mem_map.2 ⟨f, Array.mem_toList_iff.2 hf, rfl⟩
  have hnone : ∀ specifiers ∈ [["p"], ["./b"], ["./index"]], ∀ s ∈ specifiers,
      Text.beginsWith "@" s = false := by decide +kernel
  exact hnone _ hmem s hs

/-- A project that reaches one file in two ways, of which one goes out of a scope. -/
def scopeDetour : FileSystem :=
  [(["app", "a.ts"], "import './node_modules'; import '@x/..';"),
    (["app", "node_modules", "index.ts"], ""), (["app", "node_modules", "@x", "p.ts"], "")].foldl
    (fun fs (segments, text) => fs.write ⟨segments⟩ (.text text)) .empty

theorem list_scopeDetour : scopeDetour.list ⟨["app"]⟩ = ["a.ts", "node_modules"] := by
  dsimp only [FileSystem.list]
  rw [mergeSort_of_pairwise]
  · decide +kernel
  · decide +kernel

def scopeDetourIndex : Index := .ofPaths scopeDetour ⟨["app"]⟩ .default [⟨["app", "a.ts"]⟩]

/-- A file that is reached out of a scope too is there twice, and the first of its two places is not
found under its path. -/
theorem scopeDetour_twice :
    ∃ idx, build_ scopeDetour ⟨["app"]⟩ .default = .ok idx ∧
      idx.files.toList.map SourceFile.path = [⟨["app", "a.ts"]⟩,
        ⟨["app", "node_modules", "index.ts"]⟩, ⟨["app", "node_modules", "index.ts"]⟩] ∧
      ∃ f ∈ idx.files, f.id = 1 ∧ (idx.fileByPath? f.path).map SourceFile.id = some 2 := by
  have hfile : (scopeDetourIndex.files[1]?.map fun f =>
      (f.id, (scopeDetourIndex.fileByPath? f.path).map SourceFile.id)) = some (1, some 2) := by
    decide +kernel
  obtain ⟨f, hf, hid⟩ := Option.map_eq_some_iff.1 hfile
  refine ⟨scopeDetourIndex, ?_, by decide +kernel, f, Array.mem_of_getElem? hf, Prod.mk.inj hid⟩
  exact build_of_list list_scopeDetour (by decide +kernel) (by decide +kernel) (by decide +kernel) rfl
    (by decide +kernel) (by decide +kernel)

end Index

end ScriptAtlas.Project
