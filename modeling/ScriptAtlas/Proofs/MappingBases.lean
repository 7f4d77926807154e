import ScriptAtlas.Proofs.ConfigLineage

/-!
# What inherited path mappings are relative to

The targets of path mappings are relative to the base URL in effect and, without one, to a directory. Both
the mappings and the directory are inherited, but not by the same rule: the mappings come from the first
base that has any, the directory from the last base. Where a configuration has several bases, mappings may
end up relative to the directory of a file that does not say them.

* `Lineage.supplier?`: the file whose mappings are taken;
* `Lineage.anchor`: the file whose directory is taken;
* `BuildConfig.basedAt_config`: mappings are relative to the base URL or the directory of the anchor;
* `BuildConfig.load_basedAt_iff`: when that is the directory of the file that says them.
-/

namespace ScriptAtlas.Project

open List Storage

namespace Lineage

def file : Lineage → Path
  | node file _ _ => file

def raw : Lineage → RawBuildConfig
  | node _ raw _ => raw

@[induction_eliminator] theorem induction {P : Lineage → Prop}
    (node : ∀ file raw bases, (∀ b ∈ bases, P b) → P (.node file raw bases)) (t : Lineage) : P t := by
  refine @Lineage.rec P (fun bases => ∀ b ∈ bases, P b) node ?_ ?_ t
  · exact forall_mem_nil P
  · intro base rest hbase hrest
    exact forall_mem_cons.2 ⟨hbase, hrest⟩

mutual

/-- The file whose mappings are taken: the file itself if it says what they are, and else that of the
first base that has any. -/
def supplier? : Lineage → Option Lineage
  | node file raw bases =>
    if raw.paths.isSome then some (node file raw bases) else supplierAmong? bases

def supplierAmong? : List Lineage → Option Lineage
  | [] => none
  | base :: rest => if base.config.paths.isEmpty then supplierAmong? rest else base.supplier?

end

mutual

/-- The file whose directory is taken: the file itself if it says mappings or has no bases, and else that
of the last base. -/
def anchor : Lineage → Path
  | node file raw bases => if raw.paths.isSome then file else anchorAmong file bases

def anchorAmong : Path → List Lineage → Path
  | file, [] => file
  | _, base :: rest => anchorAmong base.anchor rest

end

/-- No file has more than one base. -/
inductive IsLine : Lineage → Prop
  | last (file : Path) (raw : RawBuildConfig) : IsLine (node file raw [])
  | cons (file : Path) (raw : RawBuildConfig) {base : Lineage} (h : IsLine base) :
      IsLine (node file raw [base])

theorem file_eq_anchor_of_paths {file : Path} {raw : RawBuildConfig} {bases : List Lineage} {s : Lineage}
    (hpaths : raw.paths.isSome = true) (hs : (node file raw bases).supplier? = some s) :
    s.file = (node file raw bases).anchor := by
  rw [supplier?, if_pos hpaths] at hs
  cases hs
  rw [anchor, if_pos hpaths, Lineage.file]

theorem IsLine.file_eq_anchor {t s : Lineage} (h : t.IsLine) (hs : t.supplier? = some s) :
    s.file = t.anchor := by
  induction h with
  | last file raw =>
    by_cases hpaths : raw.paths.isSome = true
    · exact file_eq_anchor_of_paths hpaths hs
    · rw [supplier?, if_neg hpaths] at hs
      cases hs
  | @cons file raw base h ih =>
    by_cases hpaths : raw.paths.isSome = true
    · exact file_eq_anchor_of_paths hpaths hs
    · rw [supplier?, if_neg hpaths, supplierAmong?] at hs
      rw [anchor, if_neg hpaths, anchorAmong, anchorAmong]
      split at hs
      · cases hs
      · exact ih hs

theorem exists_of_supplierAmong? {bases : List Lineage} {s : Lineage}
    (h : supplierAmong? bases = some s) : ∃ b ∈ bases, b.supplier? = some s := by
  induction bases with
  | nil => cases h
  | cons base rest ih =>
    rw [supplierAmong?] at h
    split at h
    · obtain ⟨b, hb, hs⟩ := ih h
      exact ⟨b, mem_cons_of_mem base hb, hs⟩
    · exact ⟨base, mem_cons_self, h⟩

end Lineage

namespace BuildConfig

variable {c base : BuildConfig} {dir dir' : Path}

/-! ## One step of inheritance -/

/-- Mappings are relative to the base URL or, without one, to the directory. -/
def BasedAt (c : BuildConfig) (dir : Path) : Prop := c.pathsBase = c.baseUrl.getD dir

theorem basedAt_blank (file : Path) : (blank file).BasedAt (blank file).dir := rfl

theorem BasedAt.inherit_ (hc : c.BasedAt dir) (hbase : base.BasedAt dir') :
    (c.inherit_ base).BasedAt dir' := by
  unfold BasedAt at hc hbase ⊢
  rw [baseUrl_inherit_, pathsBase_inherit_]
  cases hurl : c.baseUrl with
  | none => simpa using hbase
  | some url => simpa [hurl] using hc

theorem BasedAt.override_ (hc : c.BasedAt dir) (raw : RawBuildConfig) :
    (c.override_ raw).BasedAt (if raw.paths.isSome then c.dir else dir) := by
  unfold BasedAt at hc ⊢
  unfold BuildConfig.override_
  dsimp only
  cases raw.baseUrl with
  | some text => cases raw.paths <;> rfl
  | none =>
    cases raw.paths with
    | none => exact hc
    | some paths =>
      cases hurl : c.baseUrl with
      | none => simp
      | some url => simpa [hurl] using hc

/-! ## Lineages -/

theorem basedAt_merge {bases : List Lineage} {file : Path} (hc : c.BasedAt (blank file).dir)
    (hbases : ∀ b ∈ bases, b.config.BasedAt (blank b.anchor).dir) :
    (Lineage.merge c bases).BasedAt (blank (Lineage.anchorAmong file bases)).dir := by
  induction bases generalizing c file with
  | nil => exact hc
  | cons base rest ih =>
    rw [Lineage.merge, Lineage.anchorAmong]
    apply ih
    · exact hc.inherit_ (hbases base mem_cons_self)
    · intro b hb
      exact hbases b (mem_cons_of_mem base hb)

theorem basedAt_config (t : Lineage) : t.config.BasedAt (blank t.anchor).dir := by
  induction t with
  | node file raw bases ih =>
    have hmerged := (basedAt_merge (basedAt_blank file) ih).override_ raw
    rw [merge_eq_foldl, (takesOver_foldl _ _).dir] at hmerged
    rw [Lineage.config, Lineage.anchor, merge_eq_foldl]
    split at hmerged <;> simp_all

theorem paths_merge_of_ne_nil (hc : c.paths ≠ []) (bases : List Lineage) :
    (Lineage.merge c bases).paths = c.paths := by
  induction bases generalizing c with
  | nil => rfl
  | cons base rest ih =>
    have hkept : (c.inherit_ base.config).paths = c.paths := by
      rw [paths_inherit_, if_neg (by simpa using hc)]
    rw [Lineage.merge, ih (hkept ▸ hc), hkept]

/-- What is merged has the mappings of the first base that has any. -/
theorem exists_base_of_paths_merge {bases : List Lineage} (hc : c.paths = [])
    (h : (Lineage.merge c bases).paths ≠ []) :
    ∃ b ∈ bases, b.config.paths = (Lineage.merge c bases).paths ∧
      Lineage.supplierAmong? bases = b.supplier? := by
  induction bases generalizing c with
  | nil => exact absurd hc h
  | cons base rest ih =>
    have htaken : (c.inherit_ base.config).paths = base.config.paths := by
      rw [paths_inherit_, if_pos (by simp [hc])]
    rw [Lineage.merge] at h ⊢
    rw [Lineage.supplierAmong?]
    by_cases hbase : base.config.paths = []
    · obtain ⟨b, hb, hpaths, hsupplier⟩ := ih (htaken.trans hbase) h
      rw [if_pos (by simpa using hbase)]
      exact ⟨b, mem_cons_of_mem base hb, hpaths, hsupplier⟩
    · rw [if_neg (by simpa using hbase)]
      refine ⟨base, mem_cons_self, ?_, rfl⟩
      rw [paths_merge_of_ne_nil (htaken ▸ hbase), htaken]

/-- Mappings have a supplier, which says what they are. -/
theorem exists_supplier (t : Lineage) (h : t.config.paths ≠ []) :
    ∃ s, t.supplier? = some s ∧ s.raw.paths = some t.config.paths := by
  induction t with
  | node file raw bases ih =>
    simp only [Lineage.config, override_eq] at h ⊢
    rw [Lineage.supplier?]
    cases hraw : raw.paths with
    | some paths => exact ⟨_, if_pos rfl, hraw⟩
    | none =>
      rw [hraw] at h
      obtain ⟨b, hb, hpaths, hsupplier⟩ := exists_base_of_paths_merge (c := blank file) rfl h
      obtain ⟨s, hs, hstated⟩ := ih b hb (hpaths ▸ h)
      exact ⟨s, by simp [hsupplier, hs], by simp [hstated, hpaths]⟩

theorem written?_of_supplier? {fs : FileSystem} {chain : List Path} {path : Path} {t s : Lineage}
    (h : lineage? fs fs.isFile chain path = some t) (hs : t.supplier? = some s) :
    written? fs s.file = some s.raw := by
  induction t generalizing chain path with
  | node file raw bases ih =>
    obtain ⟨-, raw', hraw, hnode⟩ := exists_of_lineage? h
    cases hnode
    rw [Lineage.supplier?] at hs
    split at hs
    · cases hs
      exact hraw
    · obtain ⟨b, hb, hs⟩ := Lineage.exists_of_supplierAmong? hs
      obtain ⟨base, -, hbase⟩ := mem_filterMap.1 hb
      exact ih b hb hbase hs

/-! ## Loaded configurations -/

/-- Mappings of a loaded configuration are relative to the base URL if there is one, and else to the
directory of the anchor. That is the directory of the file that says them exactly when the anchor is in the
same directory, as it always is where no file has more than one base. -/
theorem load_basedAt_iff {fs : FileSystem} {path : Path} (hload : load fs path = .ok c)
    (hpaths : c.paths ≠ []) :
    ∃ t s, lineage? fs fs.isFile [] path = some t ∧ t.config = c ∧
      t.supplier? = some s ∧ written? fs s.file = some s.raw ∧ s.raw.paths = some c.paths ∧
      c.BasedAt (blank t.anchor).dir ∧
      (c.BasedAt (blank s.file).dir ↔
        c.baseUrl.isSome ∨ (blank t.anchor).dir = (blank s.file).dir) ∧
      (t.IsLine → c.BasedAt (blank s.file).dir) := by
  obtain ⟨t, ht, rfl⟩ := loadWith_eq_ok_iff.1 hload
  obtain ⟨s, hs, hstated⟩ := exists_supplier t hpaths
  have hbased := basedAt_config t
  refine ⟨t, s, ht, rfl, hs, written?_of_supplier? ht hs, hstated, hbased, ?_, ?_⟩
  · unfold BasedAt at hbased ⊢
    rw [hbased]
    cases t.config.baseUrl <;> simp
  · intro hline
    rw [hline.file_eq_anchor hs]
    exact hbased

/-- Two bases beside each other, of which only the first has mappings. -/
def strayMappings : FileSystem :=
  (((FileSystem.empty.write ⟨["app", "tsconfig.json"]⟩
      (.text "\x7b \"extends\": [\"./a/base.json\", \"./b/base.json\"] \x7d")).write
    ⟨["app", "single.json"]⟩ (.text "\x7b \"extends\": \"./a/base.json\" \x7d")).write
    ⟨["app", "a", "base.json"]⟩
      (.text "\x7b \"compilerOptions\": \x7b \"paths\": \x7b \"@lib/*\": [\"lib/*\"] \x7d \x7d \x7d")).write
    ⟨["app", "b", "base.json"]⟩ (.text "\x7b\x7d")

theorem load_basedAt_single :
    ∃ c, load strayMappings ⟨["app", "single.json"]⟩ = .ok c ∧ c.paths = [("@lib/*", ["lib/*"])] ∧
      ∃ t s, lineage? strayMappings strayMappings.isFile [] ⟨["app", "single.json"]⟩ = some t ∧
        t.supplier? = some s ∧
        c.BasedAt (blank t.anchor).dir ∧
        (c.BasedAt (blank s.file).dir ↔
          c.baseUrl.isSome ∨ (blank t.anchor).dir = (blank s.file).dir) := by
  have hrun : (load strayMappings ⟨["app", "single.json"]⟩).toOption.map (·.paths) =
      some [("@lib/*", ["lib/*"])] := by decide +kernel
  obtain ⟨c, hc, hpaths⟩ := Option.map_eq_some_iff.1 hrun
  have hload := toOption_eq_some_iff.1 hc
  obtain ⟨t, s, ht, -, hs, -, -, hbased, hiff, -⟩ := load_basedAt_iff hload (by simp [hpaths])
  exact ⟨c, hload, hpaths, t, s, ht, hs, hbased, hiff⟩

/-- The mappings are those of one base, and relative to the directory of the other. -/
theorem load_strayMappings :
    ∃ c, load strayMappings ⟨["app", "tsconfig.json"]⟩ = .ok c ∧
      c.paths = [("@lib/*", ["lib/*"])] ∧ c.baseUrl = none ∧ c.pathsBase = ⟨["app", "b"]⟩ ∧
      ∀ file ∈ strayMappings.files.map Prod.fst, ∀ raw ∈ written? strayMappings file,
        raw.paths.isSome → (blank file).dir = ⟨["app", "a"]⟩ := by
  have hrun : (load strayMappings ⟨["app", "tsconfig.json"]⟩).toOption.map
      (fun c => (c.paths, c.baseUrl, c.pathsBase)) =
        some ([("@lib/*", ["lib/*"])], none, ⟨["app", "b"]⟩) := by decide +kernel
  obtain ⟨c, hc, hfields⟩ := Option.map_eq_some_iff.1 hrun
  obtain ⟨hpaths, hurl, hbase⟩ := by simpa using hfields
  refine ⟨c, toOption_eq_some_iff.1 hc, hpaths, hurl, hbase, ?_⟩
  decide +kernel

end BuildConfig

end ScriptAtlas.Project
