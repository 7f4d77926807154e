import ScriptAtlas.Proofs.Snapshots
import ScriptAtlas.Proofs.TextCuts

/-!
# Normal paths

A path is normal if no segment of it goes up. Stored paths are normal, a walk shows each file once and
under its normal path, and the candidates of a specifier are normal paths but for one case: the index
file of a package whose name goes up out of its scope.

* `Path.normalize_eq_self_iff`: normal paths are those that normalizing leaves alone;
* `FileSystem.walk_spec`, `FileSystem.nodup_walk`: what a walk shows;
* `Resolver.LeavesScope`: the names that go up, `Resolver.isNormal_or_leavesScope`: the candidates.
-/

namespace ScriptAtlas.Storage

open List Text

variable {above segments : List String} {name text : String}

namespace Path

/-! ## Paths -/

/-- No segment goes up. -/
def IsNormal (p : Path) : Prop := ".." ∉ p.segments

instance (p : Path) : Decidable p.IsNormal := inferInstanceAs (Decidable (¬ _))

variable {p : Path}

theorem foldl_foldSegment (h : ".." ∉ segments) (above : List String) :
    segments.foldl foldSegment above = segments.reverse ++ above := by
  induction segments generalizing above with
  | nil => rfl
  | cons s rest ih =>
    rw [mem_cons, not_or] at h
    rw [foldl_cons, foldSegment, if_neg (Ne.symm h.1), ih h.2, reverse_cons,
      append_assoc, singleton_append]

theorem not_mem_foldl_foldSegment (h : ".." ∉ above) (segments : List String) :
    ".." ∉ segments.foldl foldSegment above := by
  induction segments generalizing above with
  | nil => exact h
  | cons s rest ih =>
    refine ih ?_
    rw [foldSegment]
    split
    · exact fun hmem => h (mem_of_mem_tail hmem)
    · next hs =>
      rw [mem_cons, not_or]
      exact ⟨Ne.symm hs, h⟩

theorem mem_of_mem_foldl_foldSegment {s : String}
    (h : s ∈ segments.foldl foldSegment above) : s ∈ segments ∨ s ∈ above := by
  induction segments generalizing above with
  | nil => exact .inr h
  | cons t rest ih =>
    rcases ih h with hs | hs
    · exact .inl (mem_cons_of_mem t hs)
    · rw [foldSegment] at hs
      split at hs
      · exact .inr (mem_of_mem_tail hs)
      · rcases mem_cons.1 hs with rfl | hs
        · exact .inl mem_cons_self
        · exact .inr hs

theorem normalize_subset (p : Path) : p.normalize.segments ⊆ p.segments := by
  intro s hs
  exact (mem_of_mem_foldl_foldSegment (mem_reverse.1 hs)).resolve_right not_mem_nil

theorem isNormal_normalize (p : Path) : p.normalize.IsNormal := by
  intro hmem
  exact not_mem_foldl_foldSegment not_mem_nil p.segments (mem_reverse.1 hmem)

theorem IsNormal.normalize (h : p.IsNormal) : p.normalize = p := by
  rw [Path.normalize, foldl_foldSegment h, append_nil, reverse_reverse]

theorem normalize_eq_self_iff : p.normalize = p ↔ p.IsNormal :=
  ⟨fun h => h ▸ p.isNormal_normalize, IsNormal.normalize⟩

theorem IsNormal.of_subset {q : Path} (h : p.IsNormal) (hsub : q.segments ⊆ p.segments) :
    q.IsNormal := fun hmem => h (hsub hmem)

theorem IsNormal.child (h : p.IsNormal) (hname : name ≠ "..") :
    (p.child name).IsNormal := by
  rw [IsNormal, Path.child, mem_append, mem_singleton, not_or]
  exact ⟨h, Ne.symm hname⟩

theorem IsNormal.join (h : p.IsNormal) (htext : ".." ∉ components text) :
    (p.join text).IsNormal := by
  rw [Path.join]
  split
  · exact htext
  · rw [IsNormal, mem_append, not_or]
    exact ⟨h, htext⟩

theorem IsNormal.of_parent? (h : p.IsNormal) {dir : Path} (hdir : p.parent? = some dir) :
    dir.IsNormal := by
  rw [parent?] at hdir
  split at hdir
  · cases hdir
  · cases hdir
    exact h.of_subset (dropLast_subset _)

theorem IsNormal.of_mem_withParents (h : p.IsNormal) {dir : Path} (hdir : dir ∈ p.withParents) :
    dir.IsNormal := by
  obtain ⟨n, -, rfl⟩ := mem_map.1 hdir
  exact h.of_subset (take_subset _ _)

theorem normalize_child (p : Path) (hname : name ≠ "..") :
    (p.child name).normalize = p.normalize.child name := by
  simp [Path.normalize, Path.child, foldSegment, hname]

theorem child_inj {q : Path} {a b : String} (h : p.child a = q.child b) : p = q ∧ a = b := by
  obtain ⟨hp, ha⟩ := append_inj' (Path.mk.inj h) rfl
  exact ⟨congrArg Path.mk hp, singleton_inj.1 ha⟩

/-- A text at the end of a segment that does not end in a dot. -/
def EndsInName (suffix : String) : Prop := suffix.toList.getLast?.any (· != '.') = true

instance (suffix : String) : Decidable (EndsInName suffix) := inferInstanceAs (Decidable (_ = _))

theorem EndsInName.append_ne {suffix : String} (h : EndsInName suffix) (stem : String) :
    stem ++ suffix ≠ ".." := by
  intro heq
  obtain ⟨c, hc, hdot⟩ := (Option.any_eq_true _ _).1 h
  have hlast : (stem ++ suffix).toList.getLast? = some c := by
    rw [String.toList_append, getLast?_append, hc, Option.some_or]
  rw [heq] at hlast
  cases hlast
  exact absurd hdot (by decide)

theorem IsNormal.append (h : p.IsNormal) {suffix : String} (hsuffix : EndsInName suffix) :
    (p.append suffix).IsNormal := by
  rw [Path.append]
  split
  · next last _ =>
    refine IsNormal.child (p := ⟨p.segments.dropLast⟩) ?_ (hsuffix.append_ne last)
    exact h.of_subset (dropLast_subset _)
  · rw [IsNormal, mem_singleton]
    intro heq
    exact hsuffix.append_ne "" (by rw [String.empty_append]; exact heq.symm)

end Path

namespace FileSystem

variable {fs : FileSystem}

/-! ## File systems -/

/-- Everything is stored under its normal path. -/
structure IsNormal (fs : FileSystem) : Prop where
  files : ∀ f ∈ fs.files, f.1.IsNormal
  dirs : ∀ d ∈ fs.dirs, d.IsNormal

theorem isNormal_empty : empty.IsNormal where
  files := nofun
  dirs d hd := by
    rw [mem_singleton.1 hd]
    exact not_mem_nil

theorem IsNormal.addDir (h : fs.IsNormal) {p : Path} (hp : p.IsNormal) :
    (fs.addDir p).IsNormal where
  files := h.files
  dirs := by
    refine List.foldlRecOn (motive := fun ds : List Path => ∀ d ∈ ds, d.IsNormal) p.withParents _ h.dirs ?_
    intro ds hds d hd e he
    split at he
    · exact hds e he
    · rcases mem_cons.1 he with rfl | he
      · exact hp.of_mem_withParents hd
      · exact hds e he

theorem IsNormal.write (h : fs.IsNormal) {p : Path} (hp : p.IsNormal) (c : Content) :
    (fs.write p c).IsNormal := by
  have hfiles : ∀ f ∈ (p, c) :: fs.files.filter (·.1 != p), f.1.IsNormal := by
    intro f hf
    rcases mem_cons.1 hf with rfl | hf
    · exact hp
    · exact h.files f (mem_of_mem_filter hf)
  unfold FileSystem.write
  split
  · next dir hdir => exact ⟨hfiles, (h.addDir (hp.of_parent? hdir)).dirs⟩
  · exact ⟨hfiles, h.dirs⟩

theorem IsNormal.remove (h : fs.IsNormal) (p : Path) : (fs.remove p).IsNormal where
  files f hf := h.files f (mem_of_mem_filter hf)
  dirs d hd := h.dirs d (mem_of_mem_filter hd)

theorem eq_normalize_of_locate? {p q : Path} (h : fs.locate? p = some q) : q = p.normalize :=
  follow?_eq h

/-- Every segment stands in a directory that is there; the segments are given in reverse. -/
def Stands (fs : FileSystem) : List String → Prop
  | [] => True
  | s :: above => s ≠ ".." ∧ fs.dirAt ⟨above.reverse⟩ = true ∧ Stands fs above

theorem stands_of_follow? {q : Path} (habove : fs.Stands above)
    (h : fs.follow? above segments = some q) : fs.Stands q.segments.reverse := by
  induction segments generalizing above with
  | nil =>
    cases h
    simpa using habove
  | cons s rest ih =>
    rw [follow?] at h
    split at h
    · next hdir =>
      refine ih ?_ h
      rw [Path.foldSegment]
      split
      · cases above with
        | nil => trivial
        | cons t above => exact habove.2.2
      · next hs => exact ⟨hs, hdir, habove⟩
    · cases h

theorem follow?_append (h : fs.Stands above) (rest : List String) :
    fs.follow? [] (above.reverse ++ rest) = fs.follow? above rest := by
  induction above generalizing rest with
  | nil => rfl
  | cons s above ih =>
    rw [reverse_cons, append_assoc, singleton_append, ih h.2.2, follow?, if_pos h.2.1,
      Path.foldSegment, if_neg h.1]

theorem locate?_normalize {p q : Path} (h : fs.locate? p = some q) : fs.locate? p.normalize = some q := by
  have habove : fs.Stands [] := trivial
  have hfollow := follow?_append (stands_of_follow? habove h) []
  rw [reverse_reverse, append_nil] at hfollow
  rw [← eq_normalize_of_locate? h, locate?, hfollow, follow?, reverse_reverse]

/-- There is a file at a path if there is one at its normal form and the way of the path exists. -/
theorem isFile_iff_normalize {p : Path} :
    fs.isFile p = true ↔ fs.isFile p.normalize = true ∧ (fs.locate? p).isSome = true := by
  unfold isFile
  cases hq : fs.locate? p with
  | none => simp
  | some q => simp [locate?_normalize hq]

theorem contentAt?_of_readText? {p : Path} (h : fs.readText? p = some text) :
    fs.contentAt? p.normalize = some (.text text) := by
  rw [readText?] at h
  split at h
  · next s hread =>
    cases h
    obtain ⟨q, hq, hcontent⟩ := Option.bind_eq_some_iff.1 hread
    rw [← eq_normalize_of_locate? hq, hcontent]
  · cases h

/-! ## Walks -/

theorem IsNormal.ne_of_mem_list (h : fs.IsNormal) {dir : Path}
    (hname : name ∈ fs.list dir) : name ≠ ".." := by
  have hinside : ∀ p : Path, p.IsNormal → dir.below? p = some [name] → name ≠ ".." := by
    rintro p hp hbelow rfl
    rw [Path.below?] at hbelow
    split at hbelow
    · refine hp (mem_of_mem_drop (i := dir.segments.length) ?_)
      rw [Option.some.inj hbelow]
      exact mem_singleton_self _
    · cases hbelow
  unfold FileSystem.list at hname
  rw [mem_eraseDups, mem_mergeSort] at hname
  rcases mem_append.1 hname with hmem | hmem
  · obtain ⟨f, hf, heq⟩ := mem_filterMap.1 hmem
    dsimp only at heq
    split at heq
    · next hbelow => exact hinside f.1 (h.files f hf) (Option.some.inj heq ▸ hbelow)
    · cases heq
  · obtain ⟨d, hd, heq⟩ := mem_filterMap.1 hmem
    split at heq
    · next hbelow => exact hinside d (h.dirs d hd) (Option.some.inj heq ▸ hbelow)
    · cases heq

theorem nodup_list (fs : FileSystem) (dir : Path) : (fs.list dir).Nodup := nodup_eraseDups _

/-- What a name in a directory contributes to a walk: nothing, the files below it, or itself. -/
theorem walkFrom_succ (fs : FileSystem) (enter : String → Bool) (depth : Nat)
    (levels : List IgnoreLevel) (dir : Path) :
    ∃ shown : String → List Path, fs.walkFrom enter (depth + 1) levels dir =
        (fs.list dir).flatMap shown ∧
      ∀ name, shown name = [] ∨ shown name = [dir.child name] ∨
        ∃ levels', shown name = fs.walkFrom enter depth levels' (dir.child name) := by
  refine ⟨_, rfl, fun name => ?_⟩
  dsimp only
  split
  · exact .inl rfl
  · split
    · exact .inr (.inr ⟨_, rfl⟩)
    · exact .inr (.inl rfl)

theorem exists_of_mem_walkFrom_succ {enter : String → Bool} {depth : Nat}
    {levels : List IgnoreLevel} {dir p : Path} (hp : p ∈ fs.walkFrom enter (depth + 1) levels dir) :
    ∃ name ∈ fs.list dir, p = dir.child name ∨
      ∃ levels', p ∈ fs.walkFrom enter depth levels' (dir.child name) := by
  obtain ⟨shown, hwalk, hshown⟩ := walkFrom_succ fs enter depth levels dir
  rw [hwalk] at hp
  obtain ⟨name, hname, hp⟩ := mem_flatMap.1 hp
  refine ⟨name, hname, ?_⟩
  rcases hshown name with heq | heq | ⟨levels', heq⟩ <;> rw [heq] at hp
  · cases hp
  · exact .inl (mem_singleton.1 hp)
  · exact .inr ⟨levels', hp⟩

theorem append_of_mem_walkFrom {enter : String → Bool} {depth : Nat} {levels : List IgnoreLevel}
    {dir p : Path} (hp : p ∈ fs.walkFrom enter depth levels dir) :
    ∃ name below, name ∈ fs.list dir ∧ p.segments = (dir.child name).segments ++ below := by
  induction depth generalizing levels dir with
  | zero => cases hp
  | succ depth ih =>
    obtain ⟨name, hname, rfl | ⟨levels', hp⟩⟩ := exists_of_mem_walkFrom_succ hp
    · exact ⟨name, [], hname, (append_nil _).symm⟩
    · obtain ⟨name', below, -, hbelow⟩ := ih hp
      refine ⟨name, name' :: below, hname, ?_⟩
      rw [hbelow, Path.child, append_assoc, singleton_append]

theorem IsNormal.of_mem_walkFrom (h : fs.IsNormal) {enter : String → Bool} {depth : Nat}
    {levels : List IgnoreLevel} {dir p : Path} (hdir : dir.IsNormal)
    (hp : p ∈ fs.walkFrom enter depth levels dir) : p.IsNormal := by
  induction depth generalizing levels dir with
  | zero => cases hp
  | succ depth ih =>
    obtain ⟨name, hname, hp⟩ := exists_of_mem_walkFrom_succ hp
    have hchild : (dir.child name).IsNormal := hdir.child (h.ne_of_mem_list hname)
    rcases hp with rfl | ⟨levels', hp⟩
    · exact hchild
    · exact ih hchild hp

/-- A walk shows no path twice: what different names of a directory contribute lies below different
paths. -/
theorem nodup_walkFrom (fs : FileSystem) (enter : String → Bool) (depth : Nat)
    (levels : List IgnoreLevel) (dir : Path) : (fs.walkFrom enter depth levels dir).Nodup := by
  induction depth generalizing levels dir with
  | zero => exact nodup_nil
  | succ depth ih =>
    obtain ⟨shown, hwalk, hshown⟩ := walkFrom_succ fs enter depth levels dir
    have hbelow : ∀ name, ∀ p ∈ shown name, ∃ below, p.segments = (dir.child name).segments ++ below := by
      intro name p hp
      rcases hshown name with heq | heq | ⟨levels', heq⟩ <;> rw [heq] at hp
      · cases hp
      · rw [mem_singleton.1 hp]
        exact ⟨[], (append_nil _).symm⟩
      · obtain ⟨name', below, -, hp⟩ := append_of_mem_walkFrom hp
        refine ⟨name' :: below, ?_⟩
        rw [hp, Path.child, append_assoc, singleton_append]
    rw [hwalk, nodup_flatMap]
    refine ⟨fun name _ => ?_, (fs.nodup_list dir).imp fun {a b} hab => ?_⟩
    · rcases hshown name with heq | heq | ⟨levels', heq⟩ <;> rw [heq]
      · exact nodup_nil
      · exact nodup_singleton _
      · exact ih _ _
    · intro p ha hb
      obtain ⟨belowA, ha⟩ := hbelow a p ha
      obtain ⟨belowB, hb⟩ := hbelow b p hb
      obtain ⟨hchild, -⟩ := append_inj (ha.symm.trans hb) (by simp [Path.child])
      exact hab (Path.child_inj (congrArg Path.mk hchild)).2

end FileSystem

end ScriptAtlas.Storage

namespace ScriptAtlas.Project

open List Storage Text

variable {fs : FileSystem} {p q dir : Path}

/-! ## Files by path -/

theorem endsInName_probeExtensions : ∀ e ∈ probeExtensions, Path.EndsInName e := by
  decide +kernel

theorem endsInName_sourceOf : ∀ s ∈ sourceOf, ∀ e ∈ s.2, Path.EndsInName e := by
  decide +kernel

theorem isNormal_of_replaceEnd? {old new : String} (hp : p.IsNormal) (hnew : Path.EndsInName new)
    (h : replaceEnd? p old new = some q) : q.IsNormal := by
  rw [replaceEnd?] at h
  split at h
  · cases h
  · obtain ⟨stem, -, rfl⟩ := Option.map_eq_some_iff.1 h
    refine Path.IsNormal.child (p := ⟨p.segments.dropLast⟩) ?_ (hnew.append_ne stem)
    exact hp.of_subset (dropLast_subset _)

theorem isNormal_of_resolveFile? (h : resolveFile? fs p = some q) : q.IsNormal := by
  have hp := p.isNormal_normalize
  rcases eq_or_eq_of_orElse h with h | h
  · obtain ⟨⟨old, news⟩, hold, hq⟩ := mem_flatMap.1 (mem_of_find?_eq_some h)
    obtain ⟨new, hnew, hq⟩ := mem_filterMap.1 hq
    exact isNormal_of_replaceEnd? hp (endsInName_sourceOf _ hold new hnew) hq
  · rcases eq_or_eq_of_orElse h with h | h
    · split at h
      · cases h
        exact hp
      · cases h
    · obtain ⟨e, he, rfl⟩ := mem_map.1 (mem_of_find?_eq_some h)
      exact hp.append (endsInName_probeExtensions e he)

/-- An index file of a directory. -/
def IsIndexOf (q dir : Path) : Prop := ∃ e ∈ probeExtensions, q = dir.child ("index" ++ e)

theorem isIndexOf_of_resolveIndex? (h : resolveIndex? fs dir = some q) : IsIndexOf q dir := by
  obtain ⟨e, he, rfl⟩ := mem_map.1 (mem_of_find?_eq_some h)
  exact ⟨e, he, rfl⟩

theorem IsIndexOf.isNormal (h : IsIndexOf q dir) (hdir : dir.IsNormal) : q.IsNormal := by
  obtain ⟨e, he, rfl⟩ := h
  exact hdir.child ((endsInName_probeExtensions e he).append_ne "index")

theorem isNormal_of_resolvePath? (h : resolvePath? fs p = some q) : q.IsNormal := by
  unfold resolvePath? at h
  dsimp only at h
  split at h
  · next f hf =>
    cases h
    exact isNormal_of_resolveFile? hf
  · split at h
    · rcases eq_or_eq_of_orElse h with h | h
      · obtain ⟨e, -, he⟩ := exists_of_findSome?_eq_some h
        exact isNormal_of_resolveFile? he
      · exact (isIndexOf_of_resolveIndex? h).isNormal p.isNormal_normalize
    · cases h

/-- The files of a package are at normal paths, but for the index file of a directory whose own path
is not normal. -/
theorem isNormal_or_isIndexOf {subpath : Option String} (h : q ∈ resolvePackage fs dir subpath) :
    q.IsNormal ∨ (subpath = none ∧ IsIndexOf q dir) := by
  unfold resolvePackage at h
  extract_lets manifest key exported entries found at h
  have hexported : ∀ q ∈ exported, q.IsNormal := by
    intro q hq
    dsimp only [exported] at hq
    split at hq
    · cases hq
    · obtain ⟨t, -, ht⟩ := mem_filterMap.1 (mem_eraseDups.1 hq)
      exact isNormal_of_resolvePath? ht
  split at h
  · exact .inl (hexported q h)
  · split at h
    · exact .inl (isNormal_of_resolvePath? (Option.mem_toList.1 h))
    · split at h
      · exact .inr ⟨rfl, isIndexOf_of_resolveIndex? (Option.mem_toList.1 h)⟩
      · obtain ⟨e, -, he⟩ := mem_filterMap.1 (mem_eraseDups.1 h)
        exact .inl (isNormal_of_resolveFile? he)

theorem isNormal_of_mem_resolvePackage {subpath : Option String} (hdir : dir.IsNormal)
    (h : q ∈ resolvePackage fs dir subpath) : q.IsNormal := by
  rcases isNormal_or_isIndexOf h with hq | ⟨-, hq⟩
  · exact hq
  · exact hq.isNormal hdir

theorem isNormal_of_mem_workspacePackages (hfs : fs.IsNormal) {root : Path} (hroot : root.IsNormal)
    {package : String × Path} (h : package ∈ workspacePackages fs root) : package.2.IsNormal := by
  unfold workspacePackages at h
  dsimp only at h
  split at h
  · cases h
  · obtain ⟨file, hfile, hpackage⟩ := mem_filterMap.1 h
    split at hpackage
    · cases hpackage
    · obtain ⟨dir, hdir, hpackage⟩ := Option.bind_eq_some_iff.1 hpackage
      have hnormal : dir.IsNormal := (hfs.of_mem_walkFrom hroot hfile).of_parent? hdir
      obtain ⟨below, -, hpackage⟩ := Option.bind_eq_some_iff.1 hpackage
      split at hpackage
      · cases hpackage
      · split at hpackage
        · cases hpackage
        · obtain ⟨manifest, -, hpackage⟩ := Option.bind_eq_some_iff.1 hpackage
          obtain ⟨name, -, hpackage⟩ := Option.bind_eq_some_iff.1 hpackage
          cases hpackage
          exact hnormal

/-! ## Names that go up -/

theorem eq_of_mem_components {text : String} (hfree : '/' ∉ text.toList)
    (hup : ".." ∈ Path.components text) : text = ".." := by
  rw [Path.components, split_of_not_mem hfree] at hup
  exact (mem_singleton.1 (mem_of_mem_filter hup)).symm

theorem mem_components_append {a b : String} (hfree : '/' ∉ a.toList)
    (hup : ".." ∈ Path.components (a ++ "/" ++ b)) : a = ".." ∨ ".." ∈ Path.components b := by
  have hcut : split '/' (a ++ "/" ++ b) = a :: split '/' b := split_append hfree
  rw [Path.components, hcut] at hup
  obtain ⟨hmem, hkept⟩ := mem_filter.1 hup
  rcases mem_cons.1 hmem with heq | hmem
  · exact .inl heq.symm
  · exact .inr (mem_filter.2 ⟨hmem, hkept⟩)

theorem exists_eq_at_append {a b r : String} (h : a ++ "/" ++ b = "@" ++ r) : ∃ scope, a = "@" ++ scope := by
  have hlist : a.toList ++ '/' :: b.toList = '@' :: r.toList := by
    have := congrArg String.toList h
    simpa using this
  rcases ha : a.toList with _ | ⟨c, cs⟩ <;> rw [ha] at hlist
  · exact absurd (List.cons.inj hlist).1 (by decide)
  · refine ⟨String.ofList cs, String.toList_inj.1 ?_⟩
    rw [ha, (List.cons.inj hlist).1]
    simp

theorem not_mem_components_typesPackageName {scope name : String} (hscope : '/' ∉ scope.toList)
    (hname : '/' ∉ name.toList) :
    ".." ∉ Path.components (typesPackageName ("@" ++ scope ++ "/" ++ name)) := by
  have hafter : after? "@" ("@" ++ scope ++ "/" ++ name) = some (scope ++ "/" ++ name) := by
    rw [after?_eq_some_iff]
    simp only [String.append_assoc]
  have hcut : splitOnce? '/' (scope ++ "/" ++ name) = some (scope, name) :=
    splitOnce?_eq_some_iff.2 ⟨hscope, rfl⟩
  have htypes : typesPackageName ("@" ++ scope ++ "/" ++ name) = scope ++ "__" ++ name := by
    simp only [typesPackageName, hafter, hcut]
  rw [htypes]
  intro hup
  have hfree : '/' ∉ (scope ++ "__" ++ name).toList := by simp [hscope, hname]
  have heq := congrArg String.toList (eq_of_mem_components hfree hup)
  have hmem : '_' ∈ (scope ++ "__" ++ name).toList := by simp
  rw [heq] at hmem
  exact absurd hmem (by decide)

namespace Resolver

variable {specifier : String}

/-- The specifier of a package, without a path inside it, whose name goes up: out of its scope, or out
of the directory of published types. -/
def LeavesScope (specifier : String) : Prop :=
  specifier = "@.." ∨ ∃ scope : String, '/' ∉ scope.toList ∧ specifier = "@" ++ scope ++ "/.."

/-- Of the specifiers without a slash only one goes up. -/
theorem leavesScope_of_not_mem (hne : specifier ≠ "..") (hfree : '/' ∉ specifier.toList)
    (hup : ".." ∈ Path.components specifier ∨ ".." ∈ Path.components (typesPackageName specifier)) :
    LeavesScope specifier := by
  rcases hup with hup | hup
  · exact absurd (eq_of_mem_components hfree hup) hne
  · unfold typesPackageName at hup
    split at hup
    · next rest hrest =>
      rw [after?_eq_some_iff] at hrest
      have hfree' : '/' ∉ rest.toList := fun hmem => hfree (by simp [hrest, hmem])
      rw [splitOnce?_eq_none_iff.2 hfree'] at hup
      rw [eq_of_mem_components hfree' hup] at hrest
      exact .inl hrest
    · exact absurd (eq_of_mem_components hfree hup) hne

/-- A scope never goes up, so of a scope and a name it is the name that does. -/
theorem leavesScope_of_scoped {scope name : String} (hscope : '/' ∉ scope.toList)
    (hname : '/' ∉ name.toList) (hup : ".." ∈ Path.components ("@" ++ scope ++ "/" ++ name) ∨
      ".." ∈ Path.components (typesPackageName ("@" ++ scope ++ "/" ++ name))) :
    LeavesScope ("@" ++ scope ++ "/" ++ name) := by
  rcases hup with hup | hup
  · rcases mem_components_append (by simpa using hscope) hup with heq | hup
    · have hat : '@' ∈ ("@" ++ scope).toList := by simp
      rw [heq] at hat
      exact absurd hat (by decide)
    · rw [eq_of_mem_components hname hup]
      exact .inr ⟨scope, hscope, by simp only [String.append_assoc]; rfl⟩
  · exact absurd hup (not_mem_components_typesPackageName hscope hname)

/-- A package's name goes up only if the whole specifier is such a name. -/
theorem leavesScope_of_mem_components (hrel : isRelative specifier = false)
    (hsub : (PackageSpecifier.ofText specifier).subpath = none)
    (hup : ".." ∈ Path.components (PackageSpecifier.ofText specifier).package ∨
      ".." ∈ Path.components (typesPackageName (PackageSpecifier.ofText specifier).package)) :
    LeavesScope specifier := by
  have hne : specifier ≠ ".." := by
    rintro rfl
    exact absurd hrel (by decide +kernel)
  unfold PackageSpecifier.ofText at hsub hup
  rcases hcut : splitOnce? '/' specifier with _ | ⟨first, rest⟩ <;> simp only [hcut] at hsub hup
  · exact leavesScope_of_not_mem hne (splitOnce?_eq_none_iff.1 hcut) hup
  · obtain ⟨hfirst, hspecifier⟩ := splitOnce?_eq_some_iff.1 hcut
    by_cases hat : beginsWith "@" specifier = true
    · rcases hcut' : splitOnce? '/' rest with _ | ⟨second, sub⟩ <;>
        simp only [if_pos hat, hcut'] at hsub hup
      · obtain ⟨r, hr⟩ := beginsWith_iff.1 hat
        obtain ⟨scope, rfl⟩ := exists_eq_at_append (hspecifier.symm.trans hr)
        rw [hspecifier] at hup ⊢
        exact leavesScope_of_scoped (fun hmem => hfirst (by simp [hmem]))
          (splitOnce?_eq_none_iff.1 hcut') hup
      · cases hsub
    · simp only [if_neg hat] at hsub
      cases hsub

/-! ## Candidates -/

variable {r : Resolver}

theorem isNormal_of_mem_resolveMapped (h : q ∈ r.resolveMapped specifier) :
    q.IsNormal := by
  unfold resolveMapped at h
  split at h
  · cases h
  · next build _ =>
    split at h
    · obtain ⟨b, -, hb⟩ := Option.bind_eq_some_iff.1 (Option.mem_toList.1 h)
      exact isNormal_of_resolvePath? hb
    · unfold mappedFiles at h
      extract_lets fits ordered found at h
      rcases hfind : found.find? (!·.isEmpty) with _ | files <;> rw [hfind] at h
      · cases h
      · obtain ⟨fit, -, rfl⟩ := mem_map.1 (mem_of_find?_eq_some hfind)
        obtain ⟨t, -, ht⟩ := mem_filterMap.1 (mem_eraseDups.1 h)
        exact isNormal_of_resolvePath? ht

/-- The files of an installed package are at normal paths, but for the index file of a package whose
name goes up. -/
theorem isNormal_or_mem_components {spec : PackageSpecifier} (hdir : dir.IsNormal)
    (h : q ∈ r.resolveInstalled spec dir) :
    q.IsNormal ∨ (spec.subpath = none ∧ (∃ d, IsIndexOf q d) ∧
      (".." ∈ Path.components spec.package ∨ ".." ∈ Path.components (typesPackageName spec.package))) := by
  obtain ⟨d, hd, found, hfound, hq⟩ := mem_findSome?_getD h
  have hnormal := hdir.of_mem_withParents hd
  extract_lets installed places at hfound
  have hinstalled : installed.IsNormal := hnormal.child (by decide)
  have htypes : (installed.child "@types").IsNormal := hinstalled.child (by decide)
  split at hfound
  · cases hfound
  · obtain ⟨place, hplace, hfound⟩ := exists_of_findSome?_eq_some hfound
    split at hfound
    · split at hfound
      · cases hfound
      · cases hfound
        rcases isNormal_or_isIndexOf hq with hq | ⟨hsub, hindex⟩
        · exact .inl hq
        · by_cases hup : ".." ∈ Path.components spec.package ∨
              ".." ∈ Path.components (typesPackageName spec.package)
          · exact .inr ⟨hsub, ⟨place, hindex⟩, hup⟩
          · rw [not_or] at hup
            refine .inl (hindex.isNormal ?_)
            rcases mem_pair.1 hplace with rfl | rfl
            · exact hinstalled.join hup.1
            · exact htypes.join hup.2
    · cases hfound

/-- The candidates of a specifier are normal paths, but for an index file where the specifier leaves
its scope. -/
theorem isNormal_or_leavesScope (hroot : r.root.IsNormal)
    (hspaces : ∀ w ∈ r.workspaces, w.2.IsNormal) {file : Path} (hfile : file.IsNormal)
    (h : q ∈ r.resolve specifier file) :
    q.IsNormal ∨ (LeavesScope specifier ∧ ∃ d, IsIndexOf q d) := by
  unfold resolve at h
  extract_lets dir spec local_ at h
  have hdir : dir.IsNormal := by
    dsimp only [dir]
    cases hparent : file.parent? with
    | none => exact hroot
    | some d => exact hfile.of_parent? hparent
  split at h
  · exact .inl (isNormal_of_resolvePath? (Option.mem_toList.1 h))
  · next hrel =>
    rw [Bool.not_eq_true] at hrel
    split at h
    · exact .inl (isNormal_of_resolvePath? (Option.mem_toList.1 h))
    · split at h
      · split at h
        · rcases isNormal_or_mem_components hdir h with hq | ⟨hsub, hindex, hup⟩
          · exact .inl hq
          · exact .inr ⟨leavesScope_of_mem_components hrel hsub hup, hindex⟩
        · dsimp only [local_] at h
          split at h
          · next w _ hfind =>
            exact .inl (isNormal_of_mem_resolvePackage
              (hspaces _ (mem_of_find?_eq_some hfind)) h)
          · cases h
      · exact .inl (isNormal_of_mem_resolveMapped h)

end Resolver

end ScriptAtlas.Project
