import ScriptAtlas.Proofs.NormalPaths

/-!
# Paths that resolve to themselves

A path may be resolved in four ways: to the source that it was compiled from, to itself, to itself with an
extension, or, for a directory, to an entry or an index file. Whichever way a file is found, it is settled:
it is there, and none of the sources that it could have been compiled from is. So it resolves to itself, as
long as its extension is that of a source file.

* `compiledFrom`: the sources that a file may be compiled from;
* `mem_take_probeExtensions`: extensions of sources are tried before those of what is compiled from them;
* `Settled`: a file that is there, at a normal path, and was not compiled from another;
* `settled_of_resolvePath?`: what a path resolves to is settled;
* `resolvePath?_eq_some_self`: it resolves to itself.
-/

namespace ScriptAtlas.Project

open List Storage Text

variable {fs : FileSystem} {p f : Path}

/-! ## Compiled files -/

/-- The sources that a file may be compiled from, best first. -/
def compiledFrom (p : Path) : List Path :=
  sourceOf.flatMap fun s => s.2.filterMap (replaceEnd? p s.1)

theorem resolveFile?_eq (fs : FileSystem) (p : Path) :
    resolveFile? fs p =
      ((compiledFrom p.normalize).find? fs.isFile
        <|> (if fs.isFile p.normalize && isSourcePath p.normalize then some p.normalize else none)
        <|> (probeExtensions.map p.normalize.append).find? fs.isFile) := rfl

theorem replaceEnd?_child (dir : Path) (name old new : String) :
    replaceEnd? (dir.child name) old new =
      (before? old name).map fun stem => dir.child (stem ++ new) := by
  simp [replaceEnd?, Path.child]

theorem exists_child_of_replaceEnd? {old new : String} (h : replaceEnd? p old new = some f) :
    ∃ (dir : Path) (stem : String), f = dir.child (stem ++ new) := by
  rw [replaceEnd?] at h
  split at h
  · cases h
  · obtain ⟨stem, -, rfl⟩ := Option.map_eq_some_iff.1 h
    exact ⟨⟨p.segments.dropLast⟩, stem, rfl⟩

theorem exists_append_eq_child (p : Path) :
    ∃ (dir : Path) (stem : String), ∀ e, p.append e = dir.child (stem ++ e) := by
  cases hlast : p.segments.getLast? with
  | none => exact ⟨.root, "", fun e => by simp [Path.append, hlast, Path.child, Path.root]⟩
  | some last => exact ⟨⟨p.segments.dropLast⟩, last, fun e => by simp [Path.append, hlast, Path.child]⟩

/-! ## The two tables of extensions -/

/-- The end of a compiled file, if it is at the end of an extension that is tried or has this extension at
its own end, is this extension. -/
theorem eq_of_suffix_or_suffix : ∀ e ∈ probeExtensions, ∀ s ∈ sourceOf,
    s.1.toList <:+ e.toList ∨ e.toList <:+ s.1.toList → s.1 = e := by
  decide +kernel

/-- A file name with an extension that is tried ends like a compiled file only if the extension is that of
a compiled file. -/
theorem before?_append {e stem rest : String} {s : String × List String} (he : e ∈ probeExtensions)
    (hs : s ∈ sourceOf) (h : before? s.1 (stem ++ e) = some rest) : s.1 = e ∧ rest = stem := by
  have hname := before?_eq_some_iff.1 h
  have hlist : stem.toList ++ e.toList = rest.toList ++ s.1.toList := by
    simpa using congrArg String.toList hname
  have heq : s.1 = e := by
    refine eq_of_suffix_or_suffix e he s hs ?_
    exact suffix_or_suffix_of_suffix ⟨_, hlist.symm⟩ ⟨_, rfl⟩
  subst heq
  exact ⟨rfl, (String.append_left_inj _ |>.mp hname).symm⟩

theorem mem_take_probeExtensions : ∀ i < probeExtensions.length, ∀ s ∈ sourceOf,
    probeExtensions[i]? = some s.1 → ∀ new ∈ s.2, new ∈ probeExtensions.take i := by
  decide +kernel

/-- The extensions of sources are tried, and nothing with such an extension is compiled. -/
theorem source_mem_probeExtensions : ∀ s ∈ sourceOf, ∀ new ∈ s.2,
    new ∈ probeExtensions ∧ ∀ t ∈ sourceOf, t.1 ≠ new := by
  decide +kernel

theorem exists_of_mem_compiledFrom {dir q : Path} {stem e : String} (he : e ∈ probeExtensions)
    (h : q ∈ compiledFrom (dir.child (stem ++ e))) :
    ∃ s ∈ sourceOf, s.1 = e ∧ ∃ new ∈ s.2, q = dir.child (stem ++ new) := by
  obtain ⟨s, hs, hq⟩ := mem_flatMap.1 h
  obtain ⟨new, hnew, hq⟩ := mem_filterMap.1 hq
  rw [replaceEnd?_child] at hq
  obtain ⟨rest, hrest, rfl⟩ := Option.map_eq_some_iff.1 hq
  obtain ⟨heq, rfl⟩ := before?_append he hs hrest
  exact ⟨s, hs, heq, new, hnew, rfl⟩

/-! ## Settled files -/

/-- A file that is there, at a normal path, and that none of the files there was compiled to. -/
structure Settled (fs : FileSystem) (f : Path) : Prop where
  isNormal : f.IsNormal
  isFile : fs.isFile f = true
  original : ∀ q ∈ compiledFrom f, fs.isFile q = false

theorem Settled.resolvePath? (h : Settled fs f) (hsource : isSourcePath f = true) :
    resolvePath? fs f = some f := by
  have hnone : (compiledFrom f).find? fs.isFile = none :=
    find?_eq_none.2 fun q hq => by simp [h.original q hq]
  have hfile : resolveFile? fs f = some f := by
    rw [resolveFile?_eq, h.isNormal.normalize, hnone, h.isFile, hsource]
    rfl
  rw [Project.resolvePath?, h.isNormal.normalize, hfile]

/-- The first extension that gives a file gives a settled one: the sources that it may be compiled from
would have been found before. -/
theorem original_of_probe {dir : Path} {stem : String}
    (h : (probeExtensions.map fun e => dir.child (stem ++ e)).find? fs.isFile = some f) :
    ∀ q ∈ compiledFrom f, fs.isFile q = false := by
  intro q hq
  rw [find?_map] at h
  obtain ⟨e, he, rfl⟩ := Option.map_eq_some_iff.1 h
  obtain ⟨-, tried, rest, hsplit, htried⟩ := find?_eq_some_iff_append.1 he
  obtain ⟨s, hs, heq, new, hnew, rfl⟩ := exists_of_mem_compiledFrom (mem_of_find?_eq_some he) hq
  have hmem : new ∈ probeExtensions.take tried.length := by
    refine mem_take_probeExtensions tried.length ?_ s hs ?_ new hnew
    · simp [hsplit]
    · simp [hsplit, heq]
  rw [hsplit, take_left' rfl] at hmem
  simpa using htried new hmem

theorem settled_of_resolveFile? (h : resolveFile? fs p = some f) : Settled fs f := by
  have hnormal := isNormal_of_resolveFile? h
  rw [resolveFile?_eq] at h
  cases hcompiled : (compiledFrom p.normalize).find? fs.isFile with
  | some q =>
    rw [hcompiled] at h
    cases h
    obtain ⟨s, hs, hq⟩ := mem_flatMap.1 (mem_of_find?_eq_some hcompiled)
    obtain ⟨new, hnew, hq⟩ := mem_filterMap.1 hq
    obtain ⟨dir, stem, rfl⟩ := exists_child_of_replaceEnd? hq
    obtain ⟨htried, hkept⟩ := source_mem_probeExtensions s hs new hnew
    refine ⟨hnormal, find?_some hcompiled, fun r hr => ?_⟩
    obtain ⟨t, ht, heq, -⟩ := exists_of_mem_compiledFrom htried hr
    exact absurd heq (hkept t ht)
  | none =>
    rw [hcompiled] at h
    rcases eq_or_eq_of_orElse h with h | h
    · cases h
    · rcases eq_or_eq_of_orElse h with h | h
      · split at h
        · next hfile =>
          cases h
          refine ⟨hnormal, (Bool.and_eq_true_iff.1 hfile).1, fun q hq => ?_⟩
          simpa using find?_eq_none.1 hcompiled q hq
        · cases h
      · obtain ⟨dir, stem, happend⟩ := exists_append_eq_child p.normalize
        have hfile := find?_some h
        rw [funext happend] at h
        exact ⟨hnormal, hfile, original_of_probe h⟩

theorem settled_of_resolveIndex? {dir : Path} (hdir : dir.IsNormal)
    (h : resolveIndex? fs dir = some f) : Settled fs f where
  isNormal := (isIndexOf_of_resolveIndex? h).isNormal hdir
  isFile := find?_some h
  original := original_of_probe h

/-- What a path resolves to is settled, whichever way it is found. -/
theorem settled_of_resolvePath? (h : resolvePath? fs p = some f) : Settled fs f := by
  unfold resolvePath? at h
  dsimp only at h
  split at h
  · next hfile =>
    cases h
    exact settled_of_resolveFile? hfile
  · split at h
    · rcases eq_or_eq_of_orElse h with h | h
      · obtain ⟨entry, -, hentry⟩ := exists_of_findSome?_eq_some h
        exact settled_of_resolveFile? hentry
      · exact settled_of_resolveIndex? p.isNormal_normalize h
    · cases h

/-- Resolving a path is idempotent: a source file that a path resolves to resolves to itself. -/
theorem resolvePath?_eq_some_self (h : resolvePath? fs p = some f) (hsource : isSourcePath f = true) :
    resolvePath? fs f = some f :=
  (settled_of_resolvePath? h).resolvePath? hsource

/-- A project in which each way to find a file leads to one. -/
def fourWays : FileSystem :=
  [(["app", "plain.js"], ""), (["app", "plain.mts"], ""), (["app", "source.d.ts"], ""),
    (["app", "source.js"], ""), (["app", "package", "package.json"], "\x7b\"main\": \"../out/main\"\x7d"),
    (["app", "out", "main.jsx"], ""), (["app", "out", "index.cjs"], "")].foldl
    (fun fs (segments, text) => fs.write ⟨segments⟩ (.text text)) .empty

/-- A file found with an extension, in place of what was compiled from it, as the entry of a directory and
as its index resolves to itself. -/
theorem fourWays_settled :
    (resolvePath? fourWays ⟨["app", "plain"]⟩ = some ⟨["app", "plain.mts"]⟩ ∧
      resolvePath? fourWays ⟨["app", "plain.mts"]⟩ = some ⟨["app", "plain.mts"]⟩) ∧
    (resolvePath? fourWays ⟨["app", "source.js"]⟩ = some ⟨["app", "source.d.ts"]⟩ ∧
      resolvePath? fourWays ⟨["app", "source.d.ts"]⟩ = some ⟨["app", "source.d.ts"]⟩) ∧
    (resolvePath? fourWays ⟨["app", "package"]⟩ = some ⟨["app", "out", "main.jsx"]⟩ ∧
      resolvePath? fourWays ⟨["app", "out", "main.jsx"]⟩ = some ⟨["app", "out", "main.jsx"]⟩) ∧
    (resolvePath? fourWays ⟨["app", "out"]⟩ = some ⟨["app", "out", "index.cjs"]⟩ ∧
      resolvePath? fourWays ⟨["app", "out", "index.cjs"]⟩ = some ⟨["app", "out", "index.cjs"]⟩) := by
  have settled {p f : Path} (h : resolvePath? fourWays p = some f ∧ isSourcePath f = true) :
      resolvePath? fourWays p = some f ∧ resolvePath? fourWays f = some f :=
    ⟨h.1, resolvePath?_eq_some_self h.1 h.2⟩
  exact ⟨settled (by decide +kernel), settled (by decide +kernel), settled (by decide +kernel),
    settled (by decide +kernel)⟩

end ScriptAtlas.Project
