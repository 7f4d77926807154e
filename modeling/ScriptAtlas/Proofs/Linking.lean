import Mathlib.Data.List.Nodup
import ScriptAtlas.Proofs.ReferenceSearch

/-!
# Linking

Linking goes through the files of a project in order and adds the files that their specifiers lead to
at the end, so that these have their turn too. It comes to an end whatever refers to what, and then no
file is left without its links.

* `Linking.Drains`: the run of the work list as a relation, without fuel;
* `Linking.drains_linkFrom`: with fuel for the files that are there and those that may still come the
  computed result is that of a run;
* `Linking.LinkedBelow`: what holds when the files below a number have been linked, preserved by one
  file (`LinkedBelow.linkFile`) and hence by a run (`Drains.linkedBelow`);
* `Index.build_closed`: the links, the files and the tokens of every index that is built.
-/

namespace ScriptAtlas.Project

open List Storage Syntax

namespace Linking

variable {ctx : Context} {st st' : Linking}
variable {targets : List Nat}

/-! ## Runs -/

/-- Links all specifiers of a file. -/
def linkFile (ctx : Context) (st : Linking) (file : SourceFile) : Linking :=
  (SourceFile.moduleSpecifiers file.tree).foldl (linkSpecifier ctx file) st

/-- Linking file after file from a number on leads from one state to another, in which no file is
left to link. -/
inductive Drains (ctx : Context) : Nat → Linking → Linking → Prop
  | done {i : Nat} {st : Linking} (hend : st.files[i]? = none) : Drains ctx i st st
  | next {i : Nat} {st st' : Linking} {file : SourceFile} (hfile : st.files[i]? = some file)
      (hrest : Drains ctx (i + 1) (st.linkFile ctx file) st') : Drains ctx i st st'

/-! ## Files -/

/-- Files are only added at the end, each is counted, and the count stays within the limit. -/
structure Grows (limit : Nat) (st st' : Linking) : Prop where
  files : ∃ more, st'.files.toList = st.files.toList ++ more
  counted : st'.added + st.files.size = st.added + st'.files.size
  within : st.added ≤ limit → st'.added ≤ limit

namespace Grows

variable {limit : Nat} {st'' : Linking}

theorem refl (limit : Nat) (st : Linking) : Grows limit st st :=
  ⟨⟨[], (append_nil _).symm⟩, rfl, id⟩

theorem trans (h : Grows limit st st') (h' : Grows limit st' st'') : Grows limit st st'' := by
  obtain ⟨more, hmore⟩ := h.files
  obtain ⟨more', hmore'⟩ := h'.files
  have hcounted := h.counted
  have hcounted' := h'.counted
  refine ⟨⟨more ++ more', ?_⟩, by omega, h'.within ∘ h.within⟩
  rw [hmore', hmore, append_assoc]

theorem size_le (h : Grows limit st st') : st.files.size ≤ st'.files.size := by
  obtain ⟨more, hmore⟩ := h.files
  have hlength := congrArg List.length hmore
  rw [length_append, Array.length_toList, Array.length_toList] at hlength
  omega

theorem take (h : Grows limit st st') {i : Nat} (hi : i ≤ st.files.size) :
    st'.files.toList.take i = st.files.toList.take i := by
  obtain ⟨more, hmore⟩ := h.files
  rw [hmore, take_append_of_le_length (by rwa [Array.length_toList])]

theorem links (h : Grows limit st st') (links : List Link) :
    Grows limit st { st' with links } := ⟨h.files, h.counted, h.within⟩

end Grows

/-- Reaching a candidate finds a file that is there, finds nothing, or adds a file within the limit. -/
theorem reach_cases (ctx : Context) (st : Linking) (candidate : Path) :
    (∃ f ∈ st.files, st.reach ctx candidate = (st, some f.id)) ∨
    st.reach ctx candidate = (st, none) ∨
    ∃ file, st.added < ctx.settings.maxExternalFiles ∧ st.reach ctx candidate =
      ({ st with files := st.files.push file, added := st.added + 1 }, some st.files.size) := by
  unfold reach
  split
  · next id hfind =>
    obtain ⟨f, hf, rfl⟩ := Option.map_eq_some_iff.1 hfind
    rw [Array.findRev?_eq_find?_reverse] at hf
    exact .inl ⟨f, Array.mem_reverse.1 (Array.mem_of_find?_eq_some hf), rfl⟩
  · split
    · exact .inr (.inl rfl)
    · next hlimit =>
      split
      · exact .inr (.inl rfl)
      · exact .inr (.inr ⟨_, Nat.lt_of_not_le hlimit, rfl⟩)

theorem grows_reach (ctx : Context) (st : Linking) (candidate : Path) :
    Grows ctx.settings.maxExternalFiles st (st.reach ctx candidate).1 := by
  obtain ⟨f, -, heq⟩ | heq | ⟨file, hlimit, heq⟩ := reach_cases ctx st candidate <;> rw [heq]
  · exact .refl _ _
  · exact .refl _ _
  · refine ⟨⟨[file], Array.toList_push⟩, ?_, fun _ => hlimit⟩
    simp only [Array.size_push]
    omega

theorem grows_reachAll (ctx : Context) (st : Linking) (candidates : List Path)
    (targets : List Nat) :
    Grows ctx.settings.maxExternalFiles st (reachAll ctx st candidates targets).1 := by
  induction candidates generalizing st targets with
  | nil => exact .refl _ _
  | cons candidate rest ih => exact (grows_reach ctx st candidate).trans (ih _ _)

theorem grows_linkSpecifiers (ctx : Context) (st : Linking) (file : SourceFile)
    (specifiers : List String) :
    Grows ctx.settings.maxExternalFiles st (specifiers.foldl (linkSpecifier ctx file) st) := by
  induction specifiers generalizing st with
  | nil => exact .refl _ _
  | cons specifier rest ih => exact ((grows_reachAll ctx st _ []).links _).trans (ih _)

/-! ## Termination -/

/-- With fuel for the files from a number on and for those that may still be added, the computed
result is that of a run. -/
theorem drains_linkFrom {fuel i : Nat} (hadded : st.added ≤ ctx.settings.maxExternalFiles)
    (hfuel : st.files.size + (ctx.settings.maxExternalFiles - st.added) < fuel + i) :
    Drains ctx i st (linkFrom ctx fuel i st) := by
  induction fuel generalizing i st with
  | zero => exact .done (Array.getElem?_eq_none (by omega))
  | succ fuel ih =>
    unfold linkFrom
    split
    · next hend => exact .done hend
    · next file hfile =>
      have hgrows : Grows ctx.settings.maxExternalFiles st (st.linkFile ctx file) :=
        grows_linkSpecifiers ctx st file _
      have hcounted := hgrows.counted
      have hwithin := hgrows.within hadded
      -- a file that is added uses up one of those that may still be added
      exact .next hfile (ih hwithin (by omega))

theorem Drains.grows {i : Nat} (h : Drains ctx i st st') :
    Grows ctx.settings.maxExternalFiles st st' := by
  induction h with
  | done _ => exact .refl _ _
  | next _ _ ih => exact (grows_linkSpecifiers ctx _ _ _).trans ih

/-! ## Targets -/

/-- Numbers of files that are there, none of them twice. -/
structure ValidTargets (files : Array SourceFile) (targets : List Nat) : Prop where
  lt : ∀ id ∈ targets, id < files.size
  nodup : targets.Nodup

theorem ValidTargets.mono {files files' : Array SourceFile} (h : ValidTargets files targets)
    (hsize : files.size ≤ files'.size) :
    ValidTargets files' targets :=
  ⟨fun id hid => Nat.lt_of_lt_of_le (h.lt id hid) hsize, h.nodup⟩

theorem lt_of_reach (hfiles : FilesAgree st.files) {candidate : Path} {id : Nat}
    (h : (st.reach ctx candidate).2 = some id) : id < (st.reach ctx candidate).1.files.size := by
  obtain ⟨f, hf, heq⟩ | heq | ⟨file, -, heq⟩ := reach_cases ctx st candidate <;> rw [heq] at h ⊢
  · cases h
    obtain ⟨i, hi⟩ := Array.mem_iff_getElem?.1 hf
    rw [hfiles i f hi]
    exact (Array.getElem?_eq_some_iff.1 hi).1
  · cases h
  · cases h
    rw [Array.size_push]
    exact Nat.lt_succ_self _

theorem ValidTargets.concat {files : Array SourceFile} (h : ValidTargets files targets) {id : Nat}
    (hid : id < files.size) (hnew : id ∉ targets) :
    ValidTargets files (targets ++ [id]) := by
  refine ⟨fun k hk => ?_, concat_eq_append ▸ List.Nodup.concat hnew h.nodup⟩
  rcases mem_append.1 hk with hk | hk
  · exact h.lt k hk
  · rwa [mem_singleton.1 hk]

/-- The targets with a number that was found, unless it is one of them. -/
def addTarget (targets : List Nat) : Option Nat → List Nat
  | some id => if targets.contains id then targets else targets ++ [id]
  | none => targets

theorem reachAll_cons (st : Linking) (candidate : Path) (rest : List Path) (targets : List Nat) :
    reachAll ctx st (candidate :: rest) targets =
      reachAll ctx (st.reach ctx candidate).1 rest
        (addTarget targets (st.reach ctx candidate).2) := rfl

theorem validTargets_reachAll {candidates : List Path} (hfiles : FilesAgree st.files)
    (h : ValidTargets st.files targets) :
    ValidTargets (reachAll ctx st candidates targets).1.files
      (reachAll ctx st candidates targets).2 := by
  induction candidates generalizing st targets with
  | nil => exact h
  | cons candidate rest ih =>
    have hold := h.mono (grows_reach ctx st candidate).size_le
    rw [reachAll_cons]
    refine ih (files_reach keptByAdding_filesAgree hfiles) ?_
    cases hreach : (st.reach ctx candidate).2 with
    | none => exact hold
    | some id =>
      by_cases hmem : id ∈ targets
      · rw [addTarget, if_pos (contains_iff_mem.2 hmem)]
        exact hold
      · rw [addTarget, if_neg (mt contains_iff_mem.1 hmem)]
        exact hold.concat (lt_of_reach hfiles hreach) hmem

/-! ## Links -/

end Linking

/-- The file and the specifier that a link is for. -/
def Link.key (l : Link) : Nat × String := (l.from_, l.specifier)

/-- The specifiers of files, with the numbers of the files. -/
def requests (files : List SourceFile) : List (Nat × String) :=
  files.flatMap fun f => (SourceFile.moduleSpecifiers f.tree).map fun s => (f.id, s)

namespace Linking

variable {ctx : Context} {st st' : Linking}

@[simp]
theorem links_reach (ctx : Context) (st : Linking) (candidate : Path) :
    (st.reach ctx candidate).1.links = st.links := by
  obtain ⟨f, -, heq⟩ | heq | ⟨file, -, heq⟩ := reach_cases ctx st candidate <;> rw [heq]

@[simp]
theorem links_reachAll (ctx : Context) (st : Linking) (candidates : List Path)
    (targets : List Nat) : (reachAll ctx st candidates targets).1.links = st.links := by
  induction candidates generalizing st targets with
  | nil => rfl
  | cons candidate rest ih => exact (ih _ _).trans (links_reach ctx st candidate)

/-- The files agree with their places, and the links are exactly those of the files below a number,
in order, each with valid targets. -/
structure LinkedBelow (i : Nat) (st : Linking) : Prop where
  agree : FilesAgree st.files
  keys : st.links.map Link.key = requests (st.files.toList.take i)
  targets : ∀ l ∈ st.links, ValidTargets st.files l.targets

theorem keys_linkSpecifiers (file : SourceFile) (specifiers : List String) :
    (specifiers.foldl (linkSpecifier ctx file) st).links.map Link.key =
      st.links.map Link.key ++ specifiers.map fun s => (file.id, s) := by
  induction specifiers generalizing st with
  | nil => simp
  | cons specifier rest ih =>
    rw [foldl_cons, ih]
    simp [linkSpecifier, Link.key]

theorem targets_linkSpecifiers {file : SourceFile} {specifiers : List String}
    (hfiles : FilesAgree st.files) (h : ∀ l ∈ st.links, ValidTargets st.files l.targets) :
    ∀ l ∈ (specifiers.foldl (linkSpecifier ctx file) st).links,
      ValidTargets (specifiers.foldl (linkSpecifier ctx file) st).files l.targets := by
  induction specifiers generalizing st with
  | nil => exact h
  | cons specifier rest ih =>
    refine ih (files_reachAll keptByAdding_filesAgree hfiles) fun l hl => ?_
    have hlinks : l ∈ st.links ∨ l = ⟨file.id, specifier,
        (reachAll ctx st (ctx.resolver.resolve specifier file.path) []).2⟩ := by
      simpa [linkSpecifier] using hl
    rcases hlinks with hl | rfl
    · exact (h l hl).mono (grows_reachAll ctx st _ []).size_le
    · exact validTargets_reachAll hfiles ⟨nofun, nodup_nil⟩

theorem LinkedBelow.linkFile {i : Nat} (h : LinkedBelow i st) {file : SourceFile}
    (hfile : st.files[i]? = some file) : LinkedBelow (i + 1) (st.linkFile ctx file) := by
  have hlt : i < st.files.size := (Array.getElem?_eq_some_iff.1 hfile).1
  have hgrows := grows_linkSpecifiers ctx st file (SourceFile.moduleSpecifiers file.tree)
  refine ⟨files_linkSpecifiers keptByAdding_filesAgree h.agree, ?_,
    targets_linkSpecifiers h.agree h.targets⟩
  have htake : st.files.toList.take (i + 1) = st.files.toList.take i ++ [file] := by
    rw [take_add_one, Array.getElem?_toList, hfile, Option.toList_some]
  rw [Linking.linkFile, hgrows.take hlt, keys_linkSpecifiers, h.keys, htake, requests, requests,
    flatMap_append, flatMap_singleton]

theorem Drains.linkedBelow {i : Nat} (h : Drains ctx i st st') (hi : LinkedBelow i st) :
    LinkedBelow st'.files.size st' := by
  induction h with
  | @done i st hend =>
    refine ⟨hi.agree, ?_, hi.targets⟩
    have hsize : st.files.toList.length ≤ i := by
      rw [Array.length_toList]
      exact Array.getElem?_eq_none_iff.1 hend
    rw [hi.keys, take_of_length_le hsize, ← Array.length_toList, take_length]
  | next hfile _ ih => exact ih (hi.linkFile hfile)

end Linking

namespace Index

variable {fs : FileSystem}

/-! ## Whole indexes -/

/-- The files that a scan of a root finds, in index order. -/
def scannedFiles (fs : FileSystem) (root : Path) (settings : Settings) : Array SourceFile :=
  let paths := sourcePaths fs root settings (BuildConfig.select fs root none)
  (indexOrder (paths.filterMap (parseFile? fs))).foldl
    (fun files (path, tree) => files.push (SourceFile.new files.size root settings path tree)) #[]

theorem filesAgree_scannedFiles (fs : FileSystem) (root : Path) (settings : Settings) :
    FilesAgree (scannedFiles fs root settings) :=
  List.foldlRecOn _ _ filesAgree_empty fun _ hfiles _ _ => hfiles.push _ _ _ _

theorem drains_of_build_ {root : Path} {settings : Settings} {idx : Index}
    (h : build_ fs root settings = .ok idx) :
    ∃ st, Linking.Drains ⟨Resolver.new fs root.normalize idx.build, settings⟩ 0
        ⟨scannedFiles fs root.normalize settings, [], 0⟩ st ∧
      st.files = idx.files ∧ st.links = idx.links := by
  rw [eq_ofPaths_of_build_ h]
  exact ⟨_, Linking.drains_linkFrom (Nat.zero_le _) (Nat.lt_succ_self _), rfl, rfl⟩

theorem nodup_requests {files : List SourceFile} (h : files.Pairwise fun f g => f.id < g.id) :
    (requests files).Nodup := by
  refine nodup_flatMap.2 ⟨fun f _ => ?_, h.imp fun {f g} hlt => ?_⟩
  · have hnodup : (SourceFile.moduleSpecifiers f.tree).Nodup := nodup_eraseDups _
    exact hnodup.map fun s t hst => (Prod.mk.inj hst).2
  · intro k hf hg
    obtain ⟨s, -, rfl⟩ := mem_map.1 hf
    obtain ⟨t, -, hk⟩ := mem_map.1 hg
    exact Nat.ne_of_lt hlt (Prod.mk.inj hk).1.symm

/-- The links of every index that is built are closed and well-formed. Files have their place as
number; every specifier of every file, of those that linking has added too, has one link; the targets
of a link are numbers of files, none twice; linking adds files behind those of the scan, at most as
many as the settings allow; the files with a token are listed in ascending order, and are exactly the
files with an identifier of that text. All this is the outcome of a run of the work list that comes to
its end. -/
theorem build_closed {fs : FileSystem} {root : Path} {settings : Settings} {idx : Index}
    (h : build_ fs root settings = .ok idx) :
    (∀ (i : Nat) (f : SourceFile), idx.files[i]? = some f → f.id = i) ∧
    (∀ f ∈ idx.files, ∀ s ∈ SourceFile.moduleSpecifiers f.tree, ∃ l ∈ idx.links,
      (l.from_ = f.id ∧ l.specifier = s) ∧
        ∀ l' ∈ idx.links, l'.from_ = f.id ∧ l'.specifier = s → l' = l) ∧
    (∀ l ∈ idx.links, (∀ id ∈ l.targets, id < idx.files.size) ∧ l.targets.Nodup) ∧
    (∃ more, idx.files.toList = (scannedFiles fs root.normalize settings).toList ++ more ∧
      more.length ≤ settings.maxExternalFiles) ∧
    (∀ name, ((idx.filesWithToken name).map (·.id)).Pairwise (· < ·) ∧
      ∀ f, f ∈ idx.filesWithToken name ↔
        f ∈ idx.files ∧ ∃ n ∈ SourceFile.identifiers f.tree, n.text = name) ∧
    ∃ st, Linking.Drains ⟨Resolver.new fs root.normalize idx.build, settings⟩ 0
        ⟨scannedFiles fs root.normalize settings, [], 0⟩ st ∧
      st.files = idx.files ∧ st.links = idx.links := by
  have hwell := wellFormed_of_build_ h
  obtain ⟨st, hrun, hfiles, hlinks⟩ := drains_of_build_ h
  have hstart : Linking.LinkedBelow 0 ⟨scannedFiles fs root.normalize settings, [], 0⟩ :=
    ⟨filesAgree_scannedFiles fs root.normalize settings, rfl, nofun⟩
  have hlinked := hrun.linkedBelow hstart
  have hgrows := hrun.grows
  have hkeys : idx.links.map Link.key = requests idx.files.toList := by
    rw [← hlinks, ← hfiles, hlinked.keys, ← Array.length_toList, take_length]
  have hascending := hwell.pairwise_id
  refine ⟨hwell, ?_, ?_, ?_, ?_, st, hrun, hfiles, hlinks⟩
  · intro f hf s hs
    have hrequest : (f.id, s) ∈ idx.links.map Link.key := by
      rw [hkeys]
      exact mem_flatMap.2 ⟨f, Array.mem_toList_iff.2 hf, mem_map.2 ⟨s, hs, rfl⟩⟩
    obtain ⟨l, hl, hkey⟩ := mem_map.1 hrequest
    refine ⟨l, hl, Prod.mk.inj hkey, fun l' hl' hkey' => ?_⟩
    have hnodup : (idx.links.map Link.key).Nodup := hkeys ▸ nodup_requests hascending
    exact inj_on_of_nodup_map hnodup hl' hl ((Prod.ext hkey'.1 hkey'.2).trans hkey.symm)
  · intro l hl
    have hvalid := hlinked.targets l (hlinks ▸ hl)
    exact ⟨hfiles ▸ hvalid.lt, hvalid.nodup⟩
  · obtain ⟨more, hmore⟩ := hgrows.files
    refine ⟨more, hfiles ▸ hmore, ?_⟩
    have hlength := congrArg List.length hmore
    have hcounted := hgrows.counted
    have hwithin := hgrows.within (Nat.zero_le _)
    rw [length_append, Array.length_toList, Array.length_toList] at hlength
    dsimp only at hlength hcounted hwithin
    omega
  · intro name
    refine ⟨?_, fun f => ?_⟩
    · rw [filesWithToken_eq hwell]
      exact pairwise_map.2 (hascending.filter _)
    · rw [mem_filesWithToken_iff hwell, Array.mem_toList_iff]

theorem build_eq_ofPaths {root : Path} {settings : Settings} {paths : List Path}
    (hdir : fs.isDir root = true) (hroot : root.normalize = root)
    (hpaths : sourcePaths fs root settings (BuildConfig.select fs root none) = paths)
    (hparsed : (paths.filterMap (parseFile? fs)).isEmpty = false) :
    build_ fs root settings = .ok (ofPaths fs root settings paths) := by
  unfold build_
  dsimp only
  rw [hroot, hpaths, hdir, hparsed]
  rfl

/-- A project of one file. -/
def loneFile (text : String) : FileSystem := FileSystem.empty.write ⟨["app", "a.ts"]⟩ (.text text)

theorem list_loneFile (text : String) : (loneFile text).list ⟨["app"]⟩ = ["a.ts"] := by
  dsimp only [FileSystem.list]
  rw [mergeSort_of_pairwise]
  · rfl
  · exact pairwise_singleton _ _

section

variable {foreign : List String} (hlist : fs.list ⟨["app"]⟩ = "a.ts" :: foreign)
  (hforeign : ∀ name ∈ foreign, Settings.default.isVendorDir name = true)
  (hfile : fs.dirAt ⟨["app", "a.ts"]⟩ = false)
  (hshown : IgnoreLevel.skips ((Path.withParents ⟨["app"]⟩).map (IgnoreLevel.load fs))
    ⟨["app", "a.ts"]⟩ false = false)
  (hselect : BuildConfig.select fs ⟨["app"]⟩ none = none)

include hlist hforeign hfile hshown hselect

theorem sourcePaths_of_list :
    sourcePaths fs ⟨["app"]⟩ .default (BuildConfig.select fs ⟨["app"]⟩ none) =
      [⟨["app", "a.ts"]⟩] := by
  have hwalk : fs.walk ⟨["app"]⟩ fs.depthBound (fun name => !Settings.default.isVendorDir name) =
      [⟨["app", "a.ts"]⟩] := by
    have hchild : Path.child ⟨["app"]⟩ "a.ts" = ⟨["app", "a.ts"]⟩ := rfl
    have henter : Settings.default.isVendorDir "a.ts" = false := by decide +kernel
    rw [FileSystem.walk, FileSystem.depthBound, FileSystem.walkFrom, hlist, flatMap_cons,
      flatMap_eq_nil_iff.2, append_nil]
    · simp [hchild, henter, hfile, hshown]
    · intro name hname
      simp [hforeign name hname]
  dsimp only [sourcePaths]
  rw [hwalk, hselect]
  decide +kernel

theorem build_of_list (hdir : fs.isDir ⟨["app"]⟩ = true)
    (hparsed : ([⟨["app", "a.ts"]⟩].filterMap (parseFile? fs)).isEmpty = false) :
    build_ fs ⟨["app"]⟩ .default = .ok (ofPaths fs ⟨["app"]⟩ .default [⟨["app", "a.ts"]⟩]) :=
  build_eq_ofPaths hdir (by decide +kernel)
    (sourcePaths_of_list hlist hforeign hfile hshown hselect) hparsed

end

def loneFileIndex (text : String) : Index :=
  .ofPaths (loneFile text) ⟨["app"]⟩ .default [⟨["app", "a.ts"]⟩]

theorem build_loneFile (text : String) :
    build_ (loneFile text) ⟨["app"]⟩ .default = .ok (loneFileIndex text) :=
  build_of_list (list_loneFile text) nofun rfl rfl rfl rfl rfl

/-- A project of one file that uses a package of two files, which refer to each other. -/
def cyclicPackage : FileSystem :=
  [(["app", "a.ts"], "import 'p';"), (["app", "node_modules", "p", "index.ts"], "import './b';"),
    (["app", "node_modules", "p", "b.ts"], "import './index';")].foldl
    (fun fs (segments, text) => fs.write ⟨segments⟩ (.text text)) .empty

theorem list_cyclicPackage : cyclicPackage.list ⟨["app"]⟩ = ["a.ts", "node_modules"] := by
  dsimp only [FileSystem.list]
  rw [mergeSort_of_pairwise]
  · decide +kernel
  · decide +kernel

def cyclicPackageIndex : Index := .ofPaths cyclicPackage ⟨["app"]⟩ .default [⟨["app", "a.ts"]⟩]

theorem build_cyclicPackage : build_ cyclicPackage ⟨["app"]⟩ .default = .ok cyclicPackageIndex :=
  build_of_list list_cyclicPackage (by decide +kernel) (by decide +kernel) (by decide +kernel) rfl
    (by decide +kernel) (by decide +kernel)

theorem links_cyclicPackage :
    cyclicPackageIndex.links = [⟨0, "p", [1]⟩, ⟨1, "./b", [2]⟩, ⟨2, "./index", [1]⟩] := by
  decide +kernel

/-- Although the two files of the package refer to each other, linking them comes to an end, with a
link for each of the three files. -/
theorem cyclicPackage_closed :
    ∃ idx, build_ cyclicPackage ⟨["app"]⟩ .default = .ok idx ∧
      idx.links = [⟨0, "p", [1]⟩, ⟨1, "./b", [2]⟩, ⟨2, "./index", [1]⟩] ∧
      (∀ l ∈ idx.links, (∀ id ∈ l.targets, id < idx.files.size) ∧ l.targets.Nodup) ∧
      (∀ f ∈ idx.files, ∀ s ∈ SourceFile.moduleSpecifiers f.tree, ∃ l ∈ idx.links,
        l.from_ = f.id ∧ l.specifier = s) ∧
      ∃ st, Linking.Drains ⟨Resolver.new cyclicPackage ⟨["app"]⟩ idx.build, .default⟩ 0
          ⟨scannedFiles cyclicPackage ⟨["app"]⟩ .default, [], 0⟩ st ∧ st.links = idx.links := by
  obtain ⟨-, hentry, hvalid, -, -, st, hrun, -, hst⟩ := build_closed build_cyclicPackage
  have hroot : (⟨["app"]⟩ : Path).normalize = ⟨["app"]⟩ := by decide +kernel
  rw [hroot] at hrun
  refine ⟨_, build_cyclicPackage, links_cyclicPackage, hvalid, fun f hf s hs => ?_, st, hrun, hst⟩
  obtain ⟨l, hl, hkey, -⟩ := hentry f hf s hs
  exact ⟨l, hl, hkey⟩

/-- A project of one file, which imports, declares and exports, and declares a module by name. -/
def loneModule : FileSystem := loneFile ("import \x7b b \x7d from './b';\n" ++
  "export const a = b;\nconst c = 1;\ndeclare module 'm' \x7b export * from './a'; \x7d")

def loneIndex : Index := ofPaths loneModule ⟨["app"]⟩ .default [⟨["app", "a.ts"]⟩]

theorem build_loneModule : build_ loneModule ⟨["app"]⟩ .default = .ok loneIndex := build_loneFile _

end Index

end ScriptAtlas.Project
