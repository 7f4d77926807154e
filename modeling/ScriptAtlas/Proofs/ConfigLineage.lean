import ScriptAtlas.Proofs.NormalPaths

/-!
# Configurations and the ones they extend

A configuration takes over what its bases say, which may have bases themselves. Files that cannot be used
are passed over, so what is merged is a tree of files: the lineage of the configuration.

* `Lineage`, `Lineage.config`: the tree, and the configuration that it merges into;
* `lineage?`: the lineage of a file, given the files that lead to it by extending each other;
* `Tracks`: the visited files of a load are those of the chain, and files that say nothing;
* `toOption_loadFrom`: loading merges the lineage, whatever was visited besides the chain;
* `Merges`: what a configuration takes from its file and what from its bases;
* `load_spec`: when loading fails, and what it gives;
* `strayBases_left_out`: a base is looked for as it is written, but read under its normal form.
-/

namespace ScriptAtlas.Project

open List Storage

/-- A configuration file with what it says, and the bases that are merged into it, in order. -/
inductive Lineage where
  | node (file : Path) (raw : RawBuildConfig) (bases : List Lineage)

namespace Lineage

mutual

/-- The configuration of a file over what its bases say. -/
def config : Lineage → BuildConfig
  | node file raw bases => (merge (.blank file) bases).override_ raw

/-- What is still open is taken over from the bases, from left to right. -/
def merge : BuildConfig → List Lineage → BuildConfig
  | c, [] => c
  | c, base :: rest => merge (c.inherit_ base.config) rest

end

end Lineage

namespace BuildConfig

variable {fs : FileSystem} {isFile : Path → Bool} {chain visited : List Path} {path : Path}
variable {raw : RawBuildConfig} {fuel : Nat}

/-! ## Lineages of files -/

def written? (fs : FileSystem) (path : Path) : Option RawBuildConfig :=
  (fs.readText? path).bind RawBuildConfig.ofText?

/-- The bases that a configuration names, in order, as far as there are such files. -/
def basePaths (isFile : Path → Bool) (dir : Path) (specs : List String) : List Path :=
  specs.filterMap (basePath? isFile dir)

/-- The stored files that are not on a chain. -/
def offChain (fs : FileSystem) (chain : List Path) : Finset Path :=
  (fs.files.map Prod.fst).toFinset \ chain.toFinset

theorem mem_files_of_written? (h : written? fs path.normalize = some raw) :
    path.normalize ∈ fs.files.map Prod.fst := by
  obtain ⟨text, htext, -⟩ := Option.bind_eq_some_iff.1 h
  have hcontent := FileSystem.contentAt?_of_readText? htext
  rw [(Path.isNormal_normalize path).normalize] at hcontent
  obtain ⟨f, hf, -⟩ := Option.map_eq_some_iff.1 hcontent
  have heq : f.1 = path.normalize := by simpa using find?_some hf
  exact heq ▸ mem_map_of_mem (mem_of_find?_eq_some hf)

theorem card_offChain_cons_lt (hnew : path.normalize ∉ chain)
    (h : written? fs path.normalize = some raw) :
    (offChain fs (path.normalize :: chain)).card < (offChain fs chain).card := by
  apply Finset.card_lt_card
  refine Finset.ssubset_iff_of_subset ?_ |>.mpr ⟨path.normalize, ?_, ?_⟩
  · intro q hq
    simp only [offChain, Finset.mem_sdiff, mem_toFinset, mem_cons, not_or] at hq ⊢
    exact ⟨hq.1, hq.2.2⟩
  · simp only [offChain, Finset.mem_sdiff, mem_toFinset]
    exact ⟨mem_files_of_written? h, hnew⟩
  · simp [offChain]

/-- The lineage of a file that is reached over a chain of files, each a base of the next. It has none if
it is on the chain already, or if nothing can be read from it. -/
def lineage? (fs : FileSystem) (isFile : Path → Bool) (chain : List Path) (path : Path) :
    Option Lineage :=
  if path.normalize ∈ chain then none
  else
    match _h : written? fs path.normalize with
    | none => none
    | some raw => some (.node path.normalize raw
        ((basePaths isFile (blank path.normalize).dir raw.extends_).filterMap
          (lineage? fs isFile (path.normalize :: chain))))
termination_by (offChain fs chain).card
decreasing_by exact card_offChain_cons_lt ‹_› ‹_›

theorem lineage?_of_written? (hnew : path.normalize ∉ chain)
    (h : written? fs path.normalize = some raw) :
    lineage? fs isFile chain path = some (.node path.normalize raw
      ((basePaths isFile (blank path.normalize).dir raw.extends_).filterMap
        (lineage? fs isFile (path.normalize :: chain)))) := by
  rw [lineage?, if_neg hnew]
  split
  · next hnone => cases hnone.symm.trans h
  · next hsome =>
    cases hsome.symm.trans h
    rfl

theorem lineage?_eq_none_iff :
    lineage? fs isFile chain path = none ↔
      path.normalize ∈ chain ∨ written? fs path.normalize = none := by
  by_cases hnew : path.normalize ∈ chain
  · rw [lineage?, if_pos hnew]
    exact iff_of_true rfl (.inl hnew)
  · cases h : written? fs path.normalize with
    | none =>
      rw [lineage?, if_neg hnew]
      refine iff_of_true ?_ (.inr rfl)
      split
      · rfl
      · next hsome => cases hsome.symm.trans h
    | some raw =>
      rw [lineage?_of_written? hnew h]
      simp [hnew]

theorem exists_of_lineage? {t : Lineage} (h : lineage? fs isFile chain path = some t) :
    path.normalize ∉ chain ∧ ∃ raw, written? fs path.normalize = some raw ∧
      t = .node path.normalize raw
        ((basePaths isFile (blank path.normalize).dir raw.extends_).filterMap
          (lineage? fs isFile (path.normalize :: chain))) := by
  have hsome : ¬(path.normalize ∈ chain ∨ written? fs path.normalize = none) := by
    rw [← lineage?_eq_none_iff, h]
    exact Option.some_ne_none t
  obtain ⟨hnew, hwritten⟩ := not_or.1 hsome
  obtain ⟨raw, hraw⟩ := Option.ne_none_iff_exists'.1 hwritten
  rw [lineage?_of_written? hnew hraw] at h
  exact ⟨hnew, raw, hraw, (Option.some.inj h).symm⟩

/-! ## Merging -/

/-- The fields for file patterns, in a file and in a configuration. -/
def filePatterns : List ((RawBuildConfig → Option (List String)) × (BuildConfig → Option (List String))) :=
  [(RawBuildConfig.include_, include_), (RawBuildConfig.exclude, exclude),
    (RawBuildConfig.files, files)]

section Inherit

variable (c base : BuildConfig)

@[simp] theorem path_inherit_ : (c.inherit_ base).path = c.path := by
  unfold inherit_
  grind

@[simp] theorem dir_inherit_ : (c.inherit_ base).dir = c.dir := by
  unfold inherit_
  grind

theorem baseUrl_inherit_ : (c.inherit_ base).baseUrl = (c.baseUrl <|> base.baseUrl) := by
  cases h : c.baseUrl <;> simp only [BuildConfig.inherit_, h] <;> grind

theorem pathsBase_inherit_ :
    (c.inherit_ base).pathsBase = if c.baseUrl.isNone then base.pathsBase else c.pathsBase := by
  cases h : c.baseUrl <;> simp only [BuildConfig.inherit_, h] <;> grind

theorem paths_inherit_ :
    (c.inherit_ base).paths = if c.paths.isEmpty then base.paths else c.paths := by
  unfold BuildConfig.inherit_
  grind

theorem patterns_inherit_ {p} (h : p ∈ filePatterns) :
    p.2 (c.inherit_ base) = if base.dir == c.dir then p.2 c <|> p.2 base else p.2 c := by
  simp only [filePatterns, mem_cons, not_mem_nil, or_false] at h
  rcases h with rfl | rfl | rfl <;> unfold inherit_ <;> grind

end Inherit

theorem override_eq (c : BuildConfig) (raw : RawBuildConfig) :
    c.override_ raw =
      { c with
        baseUrl := (raw.baseUrl.map fun text => (c.dir.join text).normalize) <|> c.baseUrl
        paths := raw.paths.getD c.paths
        pathsBase := (raw.baseUrl.map fun text => (c.dir.join text).normalize).getD
          (if raw.paths.isSome && c.baseUrl.isNone then c.dir else c.pathsBase)
        include_ := raw.include_ <|> c.include_
        exclude := raw.exclude <|> c.exclude
        files := raw.files <|> c.files
        references := raw.references.map (referenceTarget c.dir) } := by
  unfold override_
  dsimp only
  cases raw.baseUrl <;> cases raw.paths <;> simp

/-- What a configuration has after it has taken over from bases what was open, one after the other. -/
structure TakesOver (c : BuildConfig) (bases : List BuildConfig) (merged : BuildConfig) : Prop where
  path : merged.path = c.path
  dir : merged.dir = c.dir
  baseUrl : merged.baseUrl = (c.baseUrl <|> bases.findSome? (·.baseUrl))
  pathsBase : merged.pathsBase = if c.baseUrl.isSome then c.pathsBase
    else ((bases.find? (·.baseUrl.isSome) <|> bases.getLast?).map (·.pathsBase)).getD c.pathsBase
  paths : merged.paths = (((c :: bases).map (·.paths)).find? (!·.isEmpty)).getD []
  patterns : ∀ p ∈ filePatterns,
    p.2 merged = (p.2 c <|> (bases.filter (·.dir == c.dir)).findSome? p.2)

theorem takesOver_foldl (c : BuildConfig) (bases : List BuildConfig) :
    TakesOver c bases (bases.foldl inherit_ c) := by
  induction bases generalizing c with
  | nil =>
    refine ⟨rfl, rfl, by simp, by simp, ?_, by simp⟩
    cases h : c.paths <;> simp [h]
  | cons base rest ih =>
    have h := ih (c.inherit_ base)
    rw [foldl_cons]
    constructor
    · rw [h.path, path_inherit_]
    · rw [h.dir, dir_inherit_]
    · rw [h.baseUrl, baseUrl_inherit_, findSome?_cons]
      cases c.baseUrl <;> cases base.baseUrl <;> rfl
    · rw [h.pathsBase, baseUrl_inherit_, pathsBase_inherit_, getLast?_cons]
      cases hc : c.baseUrl <;> cases hb : base.baseUrl <;> simp [hb]
    · rw [h.paths]
      simp only [map_cons, paths_inherit_]
      cases hc : c.paths <;> simp
    · intro p hp
      rw [h.patterns p hp, patterns_inherit_ _ _ hp, dir_inherit_, filter_cons]
      split
      · rw [findSome?_cons]
        cases p.2 c <;> cases p.2 base <;> rfl
      · rfl

theorem merge_eq_foldl (c : BuildConfig) (bases : List Lineage) :
    Lineage.merge c bases = (bases.map Lineage.config).foldl inherit_ c := by
  induction bases generalizing c with
  | nil => rfl
  | cons base rest ih => rw [Lineage.merge, ih, map_cons, foldl_cons]

/-- The configuration of a file over the configurations of its bases. What the file says itself counts
first. The base URL is that of the first base with one, mappings are those of the first base with any, and
file patterns those of the first base in the same directory with any. What mappings are relative to goes
with the base URL; without one it is the directory of the file if this has mappings of its own, and else
what it is in the last base. -/
structure Merges (file : Path) (raw : RawBuildConfig) (bases : List BuildConfig) (c : BuildConfig) :
    Prop where
  path : c.path = file
  dir : c.dir = (blank file).dir
  baseUrl : c.baseUrl = ((raw.baseUrl.map fun text => (c.dir.join text).normalize) <|>
    bases.findSome? (·.baseUrl))
  pathsBase : c.pathsBase = (raw.baseUrl.map fun text => (c.dir.join text).normalize).getD
    (if raw.paths.isSome && (bases.findSome? (·.baseUrl)).isNone then c.dir
      else ((bases.find? (·.baseUrl.isSome) <|> bases.getLast?).map (·.pathsBase)).getD c.dir)
  paths : c.paths = raw.paths.getD (((bases.map (·.paths)).find? (!·.isEmpty)).getD [])
  patterns : ∀ p ∈ filePatterns,
    p.2 c = (p.1 raw <|> (bases.filter (·.dir == c.dir)).findSome? p.2)
  references : c.references = raw.references.map (referenceTarget c.dir)

theorem TakesOver.merges {file : Path} {bases : List BuildConfig} {merged : BuildConfig}
    (h : TakesOver (blank file) bases merged) (raw : RawBuildConfig) :
    Merges file raw bases (merged.override_ raw) := by
  rw [override_eq]
  constructor
  · exact h.path
  · exact h.dir
  · simp [h.baseUrl, blank]
  · simp [h.baseUrl, h.pathsBase, h.dir, blank]
  · simp [h.paths, blank]
  · intro p hp
    have hmerged := h.patterns p hp
    simp only [filePatterns, mem_cons, not_mem_nil, or_false] at hp
    rcases hp with rfl | rfl | rfl <;> dsimp only [blank] at hmerged <;> simp [hmerged, h.dir, blank]
  · rfl

/-! ## Visited files -/

/-- The files on the chain are visited, and what else is visited says nothing. -/
structure Tracks (fs : FileSystem) (visited chain : List Path) : Prop where
  subset : chain ⊆ visited
  rest : ∀ q ∈ visited, q ∈ chain ∨ written? fs q = none

namespace Tracks

theorem nil : Tracks fs [] [] := ⟨List.Subset.refl [], fun _ h => .inl h⟩

/-- A file is looked at and joins the chain. -/
theorem cons (h : Tracks fs visited chain) (p : Path) : Tracks fs (p :: visited) (p :: chain) where
  subset := cons_subset_cons p h.subset
  rest q hq := by
    rcases mem_cons.1 hq with rfl | hq
    · exact .inl mem_cons_self
    · exact (h.rest q hq).imp_left (mem_cons_of_mem p)

/-- A file that says nothing stays behind. -/
theorem cons_of_none (h : Tracks fs visited chain) {p : Path} (hp : written? fs p = none) :
    Tracks fs (p :: visited) chain where
  subset := subset_cons_of_subset p h.subset
  rest q hq := by
    rcases mem_cons.1 hq with rfl | hq
    · exact .inr hp
    · exact h.rest q hq

/-- A file is complete and leaves the chain. -/
theorem of_cons {p : Path} (h : Tracks fs visited (p :: chain)) (hp : p ∉ chain) :
    Tracks fs (visited.filter (· != p)) chain where
  subset q hq := by
    have hne : q ≠ p := fun heq => hp (heq ▸ hq)
    exact mem_filter.2 ⟨h.subset (mem_cons_of_mem p hq), by simpa using hne⟩
  rest q hq := by
    obtain ⟨hq, hne⟩ := mem_filter.1 hq
    refine (h.rest q hq).imp_left fun hmem => ?_
    exact (mem_cons.1 hmem).resolve_left (by simpa using hne)

end Tracks

/-! ## Loading -/

/-- The loader keeps to a chain: below it, it gives the configurations of lineages. -/
def Follows (fs : FileSystem) (isFile : Path → Bool) (chain : List Path) (load : Loader) :
    Prop :=
  ∀ visited path, Tracks fs visited chain →
    Tracks fs (load visited path).2 chain ∧
      (load visited path).1.toOption = (lineage? fs isFile chain path).map Lineage.config

/-- The bases are merged one after the other; those without a lineage are passed over. -/
theorem Follows.foldl_mergeBase {load : Loader} (hload : Follows fs isFile chain load)
    (specs : List String) (c : BuildConfig) (h : Tracks fs visited chain) :
    (specs.foldl (mergeBase isFile load) (c, visited)).1 =
      Lineage.merge c ((basePaths isFile c.dir specs).filterMap (lineage? fs isFile chain)) ∧
    Tracks fs (specs.foldl (mergeBase isFile load) (c, visited)).2 chain := by
  induction specs generalizing c visited with
  | nil => exact ⟨rfl, h⟩
  | cons spec specs ih =>
    cases hbase : basePath? isFile c.dir spec with
    | none =>
      have hstep : mergeBase isFile load (c, visited) spec = (c, visited) := by simp [mergeBase, hbase]
      rw [foldl_cons, hstep, basePaths, filterMap_cons_none hbase]
      exact ih c h
    | some base =>
      obtain ⟨htracks, hresult⟩ := hload visited base h
      rw [foldl_cons, basePaths, filterMap_cons_some hbase]
      cases hrun : load visited base with
      | mk result visited' =>
        rw [hrun] at htracks hresult
        cases result with
        | error e =>
          have hstep : mergeBase isFile load (c, visited) spec = (c, visited') := by
            simp [mergeBase, hbase, hrun]
          have hnone : lineage? fs isFile chain base = none := Option.map_eq_none_iff.1 hresult.symm
          rw [hstep, filterMap_cons_none hnone]
          exact ih c htracks
        | ok d =>
          have hstep : mergeBase isFile load (c, visited) spec = (c.inherit_ d, visited') := by
            simp [mergeBase, hbase, hrun]
          obtain ⟨t, ht, rfl⟩ := Option.map_eq_some_iff.1 hresult.symm
          rw [hstep, filterMap_cons_some ht, Lineage.merge]
          simpa [basePaths] using ih (c.inherit_ t.config) htracks

/-- With fuel for the files off the chain, loading merges the lineage. -/
theorem follows_loadFrom (hfuel : (offChain fs chain).card < fuel) :
    Follows fs isFile chain (loadFrom fs isFile fuel) := by
  induction fuel generalizing chain with
  | zero => exact absurd hfuel (Nat.not_lt_zero _)
  | succ fuel ih =>
    intro visited path h
    have hnone (hstated : path.normalize ∈ chain ∨ written? fs path.normalize = none) :
        lineage? fs isFile chain path = none := lineage?_eq_none_iff.2 hstated
    rw [loadFrom]
    by_cases hvisited : path.normalize ∈ visited
    · rw [if_pos (contains_iff_mem.2 hvisited), hnone (h.rest _ hvisited)]
      exact ⟨h, rfl⟩
    · rw [if_neg (mt contains_iff_mem.1 hvisited)]
      have hnew : path.normalize ∉ chain := fun hmem => hvisited (h.subset hmem)
      dsimp only
      split
      · next hread =>
        have hstated : written? fs path.normalize = none := by simp [written?, hread]
        rw [hnone (.inr hstated)]
        exact ⟨h.cons_of_none hstated, rfl⟩
      · next text hread =>
        split
        · next hparse =>
          have hstated : written? fs path.normalize = none := by simp [written?, hread, hparse]
          rw [hnone (.inr hstated)]
          exact ⟨h.cons_of_none hstated, rfl⟩
        · next raw hparse =>
          have hstated : written? fs path.normalize = some raw := by simp [written?, hread, hparse]
          have hless := card_offChain_cons_lt hnew hstated
          have hbases : Follows fs isFile (path.normalize :: chain) (loadFrom fs isFile fuel) := ih (by omega)
          obtain ⟨hmerged, htracks⟩ :=
            hbases.foldl_mergeBase raw.extends_ (blank path.normalize) (h.cons path.normalize)
          refine ⟨htracks.of_cons hnew, ?_⟩
          rw [lineage?_of_written? hnew hstated, hmerged]
          rfl

theorem card_offChain_le (fs : FileSystem) (chain : List Path) :
    (offChain fs chain).card ≤ fs.files.length :=
  calc (offChain fs chain).card
    _ ≤ (fs.files.map Prod.fst).toFinset.card := Finset.card_le_card Finset.sdiff_subset
    _ ≤ (fs.files.map Prod.fst).length := toFinset_card_le _
    _ = fs.files.length := length_map _

theorem toOption_loadFrom (hfuel : fs.files.length < fuel) (path : Path) :
    (loadFrom fs isFile fuel [] path).1.toOption = (lineage? fs isFile [] path).map Lineage.config :=
  (follows_loadFrom (Nat.lt_of_le_of_lt (card_offChain_le fs []) hfuel) [] path .nil).2

theorem loadFrom_eq_error_iff {e : BuildConfigError} :
    (loadFrom fs isFile (fuel + 1) [] path).1 = .error e ↔
      fs.readText? path.normalize = none ∧ e = .unreadable ∨
        ∃ text, fs.readText? path.normalize = some text ∧ RawBuildConfig.ofText? text = none ∧
          e = .malformed := by
  rw [loadFrom, if_neg (by simp)]
  dsimp only
  split
  · next hread => simp [hread, eq_comm]
  · next text hread =>
    split
    · next hparse => simp [hread, hparse, eq_comm]
    · next raw hparse => simp [hread, hparse]

theorem toOption_eq_some_iff {result : Except BuildConfigError BuildConfig} {c : BuildConfig} :
    result.toOption = some c ↔ result = .ok c := by
  cases result <;> simp [Except.toOption]

theorem loadFrom_eq_loadWith (hfuel : fs.files.length < fuel) (path : Path) :
    (loadFrom fs isFile fuel [] path).1 = loadWith fs isFile path := by
  obtain ⟨fuel, rfl⟩ := Nat.exists_eq_succ_of_ne_zero (Nat.ne_zero_of_lt hfuel)
  have hsame : (loadFrom fs isFile (fuel + 1) [] path).1.toOption =
      (loadWith fs isFile path).toOption :=
    (toOption_loadFrom hfuel path).trans (toOption_loadFrom (by omega) path).symm
  cases hload : loadWith fs isFile path with
  | error e => exact loadFrom_eq_error_iff.2 (loadFrom_eq_error_iff.1 hload)
  | ok c =>
    rw [hload] at hsame
    exact toOption_eq_some_iff.1 hsame

theorem loadWith_eq_ok_iff {c : BuildConfig} :
    loadWith fs isFile path = .ok c ↔ ∃ t, lineage? fs isFile [] path = some t ∧ t.config = c := by
  have hload : (loadWith fs isFile path).toOption =
      (lineage? fs isFile [] path).map Lineage.config := toOption_loadFrom (by omega) path
  rw [← toOption_eq_some_iff, hload, Option.map_eq_some_iff]

/-- Loading a configuration, on every file system and whatever links lead to: `isFile` says at which paths,
as they are written, there is a file. More fuel changes nothing. Loading fails just when the file itself
cannot be read, or when what is read there cannot be parsed. Otherwise it gives the configurations of the
bases merged from left to right, in every file of the lineage. A base is left out just when none of the
paths that it may stand for is a file, when it is on the chain of files that leads to it, or when it cannot
be read or parsed itself. What is read is the normal form of a path. Without links there is a file at a path
if there is one at its normal form and every directory on its way exists. -/
theorem load_spec (fs : FileSystem) (isFile : Path → Bool) (path : Path) :
    (∀ fuel, fs.files.length < fuel →
      (loadFrom fs isFile fuel [] path).1 = loadWith fs isFile path) ∧
    (∀ e, loadWith fs isFile path = .error e ↔
      fs.readText? path.normalize = none ∧ e = .unreadable ∨
        ∃ text, fs.readText? path.normalize = some text ∧ RawBuildConfig.ofText? text = none ∧
          e = .malformed) ∧
    (∀ c, loadWith fs isFile path = .ok c ↔
      ∃ t, lineage? fs isFile [] path = some t ∧ t.config = c) ∧
    (∀ chain q file raw bases, lineage? fs isFile chain q = some (.node file raw bases) →
      file = q.normalize ∧ written? fs file = some raw ∧
        bases = (raw.extends_.filterMap fun spec =>
          (baseCandidates (blank file).dir spec).find? isFile).filterMap
            (lineage? fs isFile (file :: chain)) ∧
        Merges file raw (bases.map Lineage.config) (Lineage.node file raw bases).config) ∧
    (∀ chain q, lineage? fs isFile chain q = none ↔
      q.normalize ∈ chain ∨ written? fs q.normalize = none) ∧
    load fs path = loadWith fs fs.isFile path ∧
    ∀ p, fs.isFile p = true ↔ fs.isFile p.normalize = true ∧ (fs.locate? p).isSome = true := by
  refine ⟨fun fuel hfuel => loadFrom_eq_loadWith hfuel path, fun e => loadFrom_eq_error_iff,
    fun c => loadWith_eq_ok_iff, ?_, fun chain q => lineage?_eq_none_iff, rfl,
    fun p => FileSystem.isFile_iff_normalize⟩
  intro chain q file raw bases h
  obtain ⟨-, raw', hraw, hnode⟩ := exists_of_lineage? h
  cases hnode
  refine ⟨rfl, hraw, rfl, ?_⟩
  rw [Lineage.config, merge_eq_foldl]
  exact (takesOver_foldl _ _).merges raw

/-- `tsconfig.json` has a base whose way leads through a directory that does not exist, and `web.json` one in
a package that has a base two directories up. -/
def strayBases : FileSystem :=
  [(["app", "base.json"], "\x7b \"compilerOptions\": \x7b \"baseUrl\": \"src\" \x7d \x7d"),
    (["app", "tsconfig.json"], "\x7b \"extends\": \"./nope/../base.json\" \x7d"),
    (["app", "web.json"], "\x7b \"extends\": \"@p/q/web.json\" \x7d"),
    (["app", "node_modules", "@p", "q", "web.json"],
      "\x7b \"extends\": \"../../base.json\" \x7d")].foldl
    (fun fs (segments, text) => fs.write ⟨segments⟩ (.text text)) .empty

/-- Where there are files if `app/node_modules/@p/q` is a link to `app/packages/q`: two directories up from
the package is `app`. -/
def isFileLinked (p : Path) : Bool :=
  strayBases.isFile p || p == ⟨["app", "node_modules", "@p", "q", "..", "..", "base.json"]⟩

/-- Both bases mean `app/base.json`, which can be read and parsed. One is left out because there is nothing
on its way, although its normal form would be read; the other because its normal form is read, although
its way leads to the file. -/
theorem strayBases_left_out :
    (written? strayBases ⟨["app", "base.json"]⟩).map (·.baseUrl) = some (some "src") ∧
    (load strayBases ⟨["app", "tsconfig.json"]⟩).toOption.map (·.baseUrl) = some none ∧
    (loadWith strayBases (fun p => strayBases.isFile p.normalize)
      ⟨["app", "tsconfig.json"]⟩).toOption.map (·.baseUrl) = some (some ⟨["app", "src"]⟩) ∧
    isFileLinked ⟨["app", "node_modules", "@p", "q", "..", "..", "base.json"]⟩ = true ∧
    (loadWith strayBases isFileLinked ⟨["app", "web.json"]⟩).toOption.map (·.baseUrl) = some none := by
  decide +kernel

end BuildConfig

end ScriptAtlas.Project
