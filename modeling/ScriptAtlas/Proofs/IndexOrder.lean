import ScriptAtlas.Proofs.ReportedSymbols

/-!
# The order of an index

An index lists what a scan finds, the files of the user before those that only declare types and each in the
order of the paths. Linking adds further files behind all of these, as it comes upon them. Such a file may be
the user's too, if the walk passes it by or the configuration leaves it out, and then it stands out of order.

* `Path.le_trans`, `Path.le_total`: the order of paths;
* `UserFirst`: the files of the user come first, by path;
* `Index.userFirst_scannedFiles`: what a scan finds is in this order;
* `Index.exists_anywhere_of_userFirst`: what the order is for;
* `Index.userFirst_iff`: when an index is in this order.
-/

namespace ScriptAtlas

open List Project Storage Syntax

namespace Storage.Path

/-! ## The order of paths -/

theorem segmentsLe_cons_iff {x y : String} {a b : List String} :
    segmentsLe (x :: a) (y :: b) = true ↔ x < y ∨ x = y ∧ segmentsLe a b = true := by
  rw [segmentsLe]
  by_cases hxy : x < y
  · simp [hxy]
  · by_cases hyx : y < x
    · have hne : x ≠ y := fun heq => String.lt_irrefl x (heq ▸ hyx)
      simp [hxy, hyx, hne]
    · simp [String.le_antisymm hyx hxy]

theorem segmentsLe_refl (a : List String) : segmentsLe a a = true := by
  induction a with
  | nil => rfl
  | cons x a ih => exact segmentsLe_cons_iff.2 (.inr ⟨rfl, ih⟩)

theorem segmentsLe_trans {a b c : List String} (hab : segmentsLe a b = true)
    (hbc : segmentsLe b c = true) : segmentsLe a c = true := by
  induction a generalizing b c with
  | nil => exact segmentsLe.eq_1 c
  | cons x a ih =>
    cases b with
    | nil => cases hab
    | cons y b =>
      cases c with
      | nil => cases hbc
      | cons z c =>
        rw [segmentsLe_cons_iff] at hab hbc ⊢
        rcases hab with hxy | ⟨rfl, hab⟩
        · rcases hbc with hyz | ⟨rfl, -⟩
          · exact .inl (String.lt_trans hxy hyz)
          · exact .inl hxy
        · exact hbc.imp_right fun hbc => ⟨hbc.1, ih hab hbc.2⟩

theorem segmentsLe_total (a b : List String) : segmentsLe a b = true ∨ segmentsLe b a = true := by
  induction a generalizing b with
  | nil => exact .inl (segmentsLe.eq_1 b)
  | cons x a ih =>
    cases b with
    | nil => exact .inr rfl
    | cons y b =>
      rw [segmentsLe_cons_iff, segmentsLe_cons_iff]
      by_cases hxy : x < y
      · exact .inl (.inl hxy)
      · by_cases hyx : y < x
        · exact .inr (.inl hyx)
        · have heq : x = y := String.le_antisymm hyx hxy
          exact (ih b).imp (fun h => .inr ⟨heq, h⟩) fun h => .inr ⟨heq.symm, h⟩

theorem le_refl (p : Path) : p.le p = true := segmentsLe_refl p.segments

theorem le_trans {p q r : Path} (hpq : p.le q = true) (hqr : q.le r = true) : p.le r = true :=
  segmentsLe_trans hpq hqr

theorem le_total (p q : Path) : p.le q = true ∨ q.le p = true := segmentsLe_total _ _

end Storage.Path

namespace Project

variable {fs : FileSystem} {root : Path} {settings : Settings}

/-- Before a file of the user there are only such files, at paths that come first. -/
def UserFirst (files : List SourceFile) : Prop :=
  files.Pairwise fun f g => g.isUser = true → f.isUser = true ∧ f.path.le g.path = true

theorem pairwise_append_iff_forall {α : Type} {R : α → α → Prop} {a b : List α} :
    (a ++ b).Pairwise R ↔
      a.Pairwise R ∧ ∀ front x back, b = front ++ x :: back → ∀ y ∈ a ++ front, R y x := by
  induction b generalizing a with
  | nil =>
    rw [append_nil]
    refine ⟨fun h => ⟨h, fun front x back heq => ?_⟩, And.left⟩
    simp at heq
  | cons z b ih =>
    rw [← singleton_append, ← append_assoc, ih, pairwise_append]
    constructor
    · rintro ⟨⟨ha, -, hz⟩, hrest⟩
      refine ⟨ha, fun front x back heq y hy => ?_⟩
      cases front with
      | nil =>
        obtain ⟨rfl, -⟩ := List.cons.inj heq
        rw [append_nil] at hy
        exact hz y hy _ (mem_singleton_self _)
      | cons w front =>
        obtain ⟨rfl, hb⟩ := List.cons.inj heq
        exact hrest front x back hb y (by simpa using hy)
    · rintro ⟨ha, hall⟩
      refine ⟨⟨ha, pairwise_singleton _ _, fun y hy x hx => ?_⟩, fun front x back heq y hy => ?_⟩
      · rw [mem_singleton.1 hx]
        exact hall [] z b rfl y (by simpa using hy)
      · exact hall (z :: front) x back (by rw [heq]; rfl) y (by simpa using hy)

/-! ## Scanned files -/

/-- Whether the file at a path is the user's. -/
def isUserPath (root : Path) (settings : Settings) (p : Path) : Bool :=
  p.isWithin root && !isVendorPath root p settings.vendorDirs && !isDeclarationPath p

theorem SourceFile.StoredIn.isUser_eq {f : SourceFile} (h : f.StoredIn fs root settings) :
    f.isUser = isUserPath root settings f.path := by
  obtain ⟨-, text, -, hf⟩ := h
  rw [hf]
  rfl

theorem isUserPath_of_mem_sourcePaths {build : Option BuildConfig} {p : Path}
    (hp : p ∈ sourcePaths fs root settings build) :
    isUserPath root settings p = !isDeclarationPath p := by
  obtain ⟨hwalk, hkept⟩ := mem_filter.1 (mem_mergeSort.1 hp)
  obtain ⟨name, below, -, hsegments⟩ := FileSystem.append_of_mem_walkFrom hwalk
  have hwithin : p.isWithin root = true :=
    Index.isWithin_iff.2 ⟨name :: below, by rw [hsegments, Path.child, append_assoc]; rfl⟩
  have hforeign : isVendorPath root p settings.vendorDirs = false := by
    simp only [Bool.and_eq_true, Bool.not_eq_true'] at hkept
    exact hkept.1.2
  rw [isUserPath, hwithin, hforeign]
  simp

theorem pairwise_sourcePaths (fs : FileSystem) (root : Path) (settings : Settings)
    (build : Option BuildConfig) :
    (sourcePaths fs root settings build).Pairwise fun p q => p.le q = true := by
  apply pairwise_mergeSort
  · intro p q r hpq hqr
    exact Path.le_trans hpq hqr
  · intro p q
    rw [Bool.or_eq_true]
    exact Path.le_total p q

theorem pairwise_indexOrder {parsed : List (Path × Tree)}
    (hsorted : (parsed.map Prod.fst).Pairwise fun p q => p.le q = true)
    (huser : ∀ f ∈ parsed, isUserPath root settings f.1 = !isDeclarationPath f.1) :
    ((indexOrder parsed).map Prod.fst).Pairwise fun p q =>
      isUserPath root settings q = true → isUserPath root settings p = true ∧ p.le q = true := by
  have hcode : ∀ f ∈ parsed.filter (fun f => !isDeclarationPath f.1),
      isUserPath root settings f.1 = true := by
    intro f hf
    obtain ⟨hmem, hcode⟩ := mem_filter.1 hf
    rw [huser f hmem, hcode]
  have hstub : ∀ f ∈ parsed.filter (fun f => isDeclarationPath f.1),
      isUserPath root settings f.1 = false := by
    intro f hf
    obtain ⟨hmem, hstub⟩ := mem_filter.1 hf
    rw [huser f hmem, hstub, Bool.not_true]
  rw [pairwise_map, indexOrder, pairwise_append]
  refine ⟨?_, ?_, ?_⟩
  · refine ((pairwise_map.1 hsorted).filter _).imp_of_mem fun hf _ hle _ => ?_
    exact ⟨hcode _ hf, hle⟩
  · refine ((pairwise_map.1 hsorted).filter _).imp_of_mem fun _ hg _ huser => ?_
    rw [hstub _ hg] at huser
    cases huser
  · intro f _ g hg huser
    rw [hstub g hg] at huser
    cases huser

namespace Index

theorem userFirst_scannedFiles (hfs : fs.IsNormal) (hroot : root.IsNormal) (settings : Settings) :
    UserFirst (scannedFiles fs root settings).toList := by
  have hnormal : ∀ p ∈ sourcePaths fs root settings (BuildConfig.select fs root none), p.IsNormal :=
    fun p hp => isNormal_of_mem_sourcePaths hfs hroot hp
  have hsublist := @map_fst_parseFile? fs _ hnormal
  have hpaths : ((scannedFiles fs root settings).toList.map SourceFile.path).Pairwise fun p q =>
      isUserPath root settings q = true → isUserPath root settings p = true ∧ p.le q = true := by
    rw [scannedFiles, map_path_foldl_push]
    refine pairwise_indexOrder ((pairwise_sourcePaths fs root settings _).sublist hsublist) fun f hf => ?_
    exact isUserPath_of_mem_sourcePaths (hsublist.subset (mem_map_of_mem hf))
  have hstored := storedIn_scannedFiles hfs hroot settings
  refine (pairwise_map.1 hpaths).imp_of_mem fun {f g} hf hg horder huser => ?_
  rw [(hstored g (Array.mem_toList_iff.1 hg)).isUser_eq] at huser
  rw [(hstored f (Array.mem_toList_iff.1 hf)).isUser_eq]
  exact horder huser

/-! ## What the order is for -/

open Query Query.Locate

/-- In an index in order a name without a hint means a declaration in a file of the user, if there is one
there, and then in the first of these by path. -/
theorem exists_anywhere_of_userFirst {idx : Index} (horder : UserFirst idx.files.toList) {name : String}
    {f : SourceFile} (hf : f ∈ idx.userFiles) (hdeclares : declarations f name true ≠ []) :
    ∃ d, anywhere idx name = some d ∧ d.file ∈ idx.userFiles ∧
      ∀ g ∈ idx.userFiles, declarations g name true ≠ [] → d.file.path.le g.path = true := by
  have hpicked {g : SourceFile} (hg : declarations g name true ≠ []) :
      ∃ d, pick (declarations g name true) none = some d := by
    obtain ⟨c, hc⟩ := exists_mem_of_ne_nil _ hg
    obtain ⟨d, hd⟩ := exists_meant_of_mem hc none
    exact ⟨d, pick_eq_some_iff.2 hd⟩
  obtain ⟨hmem, huser⟩ := mem_filter.1 hf
  cases hfound : idx.files.toList.findSome? (fun g => pick (declarations g name true) none) with
  | none =>
    obtain ⟨d, hd⟩ := hpicked hdeclares
    rw [findSome?_eq_none_iff.1 hfound f hmem] at hd
    cases hd
  | some d =>
    obtain ⟨front, first, back, hsplit, hd, hnone⟩ := findSome?_eq_some_iff.1 hfound
    have hfile : d.file = first := ((origin_of_mem_declarations (mem_of_pick hd)).liesIn rfl).file_eq
    -- a file that declares the name is the first one that does or stands behind it
    have hafter {g : SourceFile} (hg : g ∈ idx.files.toList) (hne : declarations g name true ≠ []) :
        g = first ∨ g ∈ back := by
      rw [hsplit, mem_append, mem_cons] at hg
      rcases hg with hg | hg
      · obtain ⟨e, he⟩ := hpicked hne
        rw [hnone g hg] at he
        cases he
      · exact hg
    rw [hsplit] at horder
    have hbehind := (pairwise_cons.1 (pairwise_append.1 horder).2.1).1
    have hfirst : first.isUser = true := by
      rcases hafter hmem hdeclares with rfl | hback
      · exact huser
      · exact (hbehind f hback huser).1
    refine ⟨d, by rw [anywhere, hfound]; rfl, ?_, fun g hg hne => ?_⟩
    · rw [hfile]
      exact mem_filter.2 ⟨by rw [hsplit]; simp, hfirst⟩
    · obtain ⟨hg, hguser⟩ := mem_filter.1 hg
      rw [hfile]
      rcases hafter hg hne with rfl | hback
      · exact Path.le_refl _
      · exact (hbehind g hback hguser).2

/-! ## Whole indexes -/

/-- An index that is built lists what the scan found, which is in order, and behind it what linking added.
It is in order exactly if before every file of the user that linking added there are only files of the user,
at paths that come first; so it is if linking adds no file of the user. In an index in order a name without a
hint means a declaration of the user, if there is one, in the first file by path. -/
theorem userFirst_iff (hfs : fs.IsNormal) {idx : Index} (h : build_ fs root settings = .ok idx) :
    ∃ linked, idx.files.toList = (scannedFiles fs root.normalize settings).toList ++ linked ∧
      UserFirst (scannedFiles fs root.normalize settings).toList ∧
      (UserFirst idx.files.toList ↔ ∀ front g back, linked = front ++ g :: back → g.isUser = true →
        ∀ f ∈ (scannedFiles fs root.normalize settings).toList ++ front,
          f.isUser = true ∧ f.path.le g.path = true) ∧
      ((∀ g ∈ linked, g.isUser = false) → UserFirst idx.files.toList) ∧
      (UserFirst idx.files.toList → ∀ name, ∀ f ∈ idx.userFiles, declarations f name true ≠ [] →
        ∃ d, anywhere idx name = some d ∧ d.file ∈ idx.userFiles ∧
          ∀ g ∈ idx.userFiles, declarations g name true ≠ [] → d.file.path.le g.path = true) := by
  obtain ⟨st, hrun, hfiles, -⟩ := drains_of_build_ h
  obtain ⟨linked, hlinked⟩ := hrun.grows.files
  rw [hfiles] at hlinked
  have hscanned := userFirst_scannedFiles hfs root.isNormal_normalize settings
  have hiff : UserFirst idx.files.toList ↔ ∀ front g back, linked = front ++ g :: back →
      g.isUser = true → ∀ f ∈ (scannedFiles fs root.normalize settings).toList ++ front,
        f.isUser = true ∧ f.path.le g.path = true := by
    rw [hlinked, UserFirst, pairwise_append_iff_forall]
    constructor
    · rintro ⟨-, hall⟩ front g back heq huser f hf
      exact hall front g back heq f hf huser
    · intro hall
      exact ⟨hscanned, fun front g back heq f hf huser => hall front g back heq huser f hf⟩
  refine ⟨linked, hlinked, hscanned, hiff, fun hnone => hiff.2 ?_, ?_⟩
  · intro front g back heq huser
    rw [hnone g (by simp [heq])] at huser
    cases huser
  · intro horder name f hf hdeclares
    exact exists_anywhere_of_userFirst horder hf hdeclares

theorem isNormal_packageCall : packageCall.IsNormal := by
  refine ⟨?_, ?_⟩ <;> decide +kernel

theorem isUser_scannedFiles_packageCall :
    (scannedFiles packageCall ⟨["app"]⟩ .default).toList.map SourceFile.isUser = [true] := by
  unfold scannedFiles
  rw [sourcePaths_packageCall]
  decide +kernel

/-- The file of the package is behind the user's, and the function is found in the user's. -/
theorem packageCall_userFirst :
    packageCallIndex.files.toList.map SourceFile.isUser = [true, false] ∧
    UserFirst packageCallIndex.files.toList ∧
    ∃ d, anywhere packageCallIndex "g" = some d ∧ d.file ∈ packageCallIndex.userFiles := by
  have hroot : (⟨["app"]⟩ : Path).normalize = ⟨["app"]⟩ := by decide +kernel
  have hfiles : packageCallIndex.files.toList.map SourceFile.isUser = [true, false] := by decide +kernel
  have hdeclares : (packageCallIndex.userFiles.any fun f => !(declarations f "g" true).isEmpty) = true := by
    decide +kernel
  obtain ⟨linked, hlinked, -, -, hforeign, hfind⟩ := userFirst_iff isNormal_packageCall build_packageCall
  have hlast : linked.map SourceFile.isUser = [false] := by
    rw [hlinked, map_append, hroot, isUser_scannedFiles_packageCall] at hfiles
    exact (List.cons.inj hfiles).2
  have horder : UserFirst packageCallIndex.files.toList := by
    refine hforeign fun g hg => ?_
    have hmem : g.isUser ∈ linked.map SourceFile.isUser := mem_map_of_mem hg
    rw [hlast] at hmem
    exact mem_singleton.1 hmem
  obtain ⟨f, hf, hne⟩ := any_eq_true.1 hdeclares
  obtain ⟨d, hd, huser, -⟩ := hfind horder "g" f hf (by simpa using hne)
  exact ⟨hfiles, horder, d, hd, huser⟩

/-- A project whose file imports a hidden one. -/
def hiddenImport : FileSystem :=
  [(["app", "a.ts"], "import './.x';"), (["app", ".x.ts"], "export const x = 1;")].foldl
    (fun fs (segments, text) => fs.write ⟨segments⟩ (.text text)) .empty

theorem list_hiddenImport : hiddenImport.list ⟨["app"]⟩ = [".x.ts", "a.ts"] := by
  dsimp only [FileSystem.list]
  rw [mergeSort_of_pairwise]
  · decide +kernel
  · decide +kernel

theorem sourcePaths_hiddenImport :
    sourcePaths hiddenImport ⟨["app"]⟩ .default (BuildConfig.select hiddenImport ⟨["app"]⟩ none) =
      [⟨["app", "a.ts"]⟩] := by
  have hwalk : hiddenImport.walk ⟨["app"]⟩ hiddenImport.depthBound
      (fun name => !Settings.default.isVendorDir name) = [⟨["app", "a.ts"]⟩] := by
    rw [FileSystem.walk, FileSystem.depthBound, FileSystem.walkFrom, list_hiddenImport]
    decide +kernel
  dsimp only [sourcePaths]
  rw [hwalk]
  decide +kernel

def hiddenImportIndex : Index := .ofPaths hiddenImport ⟨["app"]⟩ .default [⟨["app", "a.ts"]⟩]

/-- The walk passes the hidden file by, so linking adds it behind the other, although its path comes
first. -/
theorem hiddenImport_not_userFirst :
    build_ hiddenImport ⟨["app"]⟩ .default = .ok hiddenImportIndex ∧
    hiddenImportIndex.files.toList.map (fun f => (f.path, f.isUser)) =
      [(⟨["app", "a.ts"]⟩, true), (⟨["app", ".x.ts"]⟩, true)] ∧
    ¬UserFirst hiddenImportIndex.files.toList := by
  have hbuild : build_ hiddenImport ⟨["app"]⟩ .default = .ok hiddenImportIndex :=
    build_eq_ofPaths (by decide +kernel) (by decide +kernel) sourcePaths_hiddenImport (by decide +kernel)
  have hfiles : hiddenImportIndex.files.toList.map (fun f => (f.path, f.isUser)) =
      [(⟨["app", "a.ts"]⟩, true), (⟨["app", ".x.ts"]⟩, true)] := by
    decide +kernel
  refine ⟨hbuild, hfiles, fun horder => ?_⟩
  have hpairs : (hiddenImportIndex.files.toList.map fun f => (f.path, f.isUser)).Pairwise
      fun p q => q.2 = true → p.2 = true ∧ p.1.le q.1 = true :=
    pairwise_map.2 horder
  rw [hfiles] at hpairs
  revert hpairs
  decide +kernel

end Index

end Project

end ScriptAtlas
