import ScriptAtlas.Proofs.IncludedDirectories

/-!
# The normal form of a path

Normalizing can be put off: whether a path is normalized before a text is read from it on, or only
afterwards, the result is the same. So all that looks up files by normal paths agrees on them, at
whatever stage it normalizes.

A path is shown relative to a base: by its segments below it, or with its whole text elsewhere. What is
shown can be read again, so two files are never shown alike.

* `Path.normalize_join_normalize`: normalizing first changes nothing;
* `Path.normalize_compositional`: the laws of the normal form;
* `Path.join_relativeTo`: what is shown leads back to the path;
* `Path.relativeTo_invertible`: the paths that are shown, and those of an index.
-/

namespace ScriptAtlas.Storage.Path

open List Project

theorem normalize_join_normalize (p : Path) (text : String) :
    (p.normalize.join text).normalize = (p.join text).normalize := by
  have hfold : p.normalize.segments.foldl foldSegment [] = p.segments.foldl foldSegment [] := by
    rw [foldl_foldSegment p.isNormal_normalize, normalize, reverse_reverse, append_nil]
  rw [join, join]
  split
  · rfl
  · refine congrArg (fun above : List String => (⟨above.reverse⟩ : Path)) ?_
    rw [foldl_append, foldl_append, hfold]

/-- A step up takes one segment away, and leaves the root where it is. -/
theorem segments_normalize_join_up (p : Path) :
    (p.join "..").normalize.segments = p.normalize.segments.dropLast := by
  have habs : isAbsoluteText ".." = false := by decide
  have hup : components ".." = [".."] := by decide
  rw [join, habs, hup]
  simp [normalize, foldSegment]

theorem isAbsoluteText_text (p : Path) : isAbsoluteText p.text = true :=
  Text.beginsWith_iff.2 ⟨_, rfl⟩

theorem ofText_text {p : Path} (h : p.IsProper) : ofText p.text = p := by
  rw [ofText, text, components_slash_append, components_join h]

/-- For all texts, however they go up and down: normalizing a path before a text is read from it on
makes no difference; normalizing twice is the same as once; no segment of a normal form is empty, `.`
or `..`; a normal form lies at or below the root of the file system, of which its text is one, and a
step up from the root stays there; and a path without `..` is its own normal form. -/
theorem normalize_compositional (a b : String) :
    ((ofText a).join b).normalize = ((ofText a).normalize.join b).normalize ∧
    ((ofText a).join b).normalize.normalize = ((ofText a).join b).normalize ∧
    (∀ s ∈ ((ofText a).join b).normalize.segments, s ≠ "" ∧ s ≠ "." ∧ s ≠ "..") ∧
    (isAbsoluteText ((ofText a).join b).normalize.text = true ∧
      ofText ((ofText a).join b).normalize.text = ((ofText a).join b).normalize) ∧
    ((ofText a).join "..").normalize.segments = (ofText a).normalize.segments.dropLast ∧
    (".." ∉ components a → (ofText a).normalize = ofText a) := by
  have hplain := isPlain_normalize_join (isProper_components a) b
  refine ⟨(normalize_join_normalize _ b).symm, hplain.normal.normalize, fun s hs => ?_,
    ⟨isAbsoluteText_text _, ofText_text hplain.proper⟩, segments_normalize_join_up _,
    IsNormal.normalize⟩
  obtain ⟨hne, hdot, -⟩ := hplain.proper s hs
  exact ⟨hne, hdot, fun hup => hplain.normal (hup ▸ hs)⟩

/-! ## Relative to a base -/

theorem relativeTo_cases (base p : Path) :
    (∃ below, p.segments = base.segments ++ below ∧ base.relativeTo p = Text.join "/" below) ∨
    base.relativeTo p = Text.join "/" ("" :: p.segments) := by
  rw [relativeTo, below?]
  by_cases h : base.segments.isPrefixOf p.segments = true
  · obtain ⟨below, hbelow⟩ := isPrefixOf_iff_prefix.1 h
    exact .inl ⟨below, hbelow.symm, by rw [if_pos h, ← hbelow, drop_left]⟩
  · rw [if_neg h]
    exact .inr rfl

theorem relativeTo_root (base : Path) : base.relativeTo root = "" := by
  rcases relativeTo_cases base root with ⟨below, hroot, hshown⟩ | hshown
  · rw [hshown, (append_eq_nil_iff.1 hroot.symm).2]
    rfl
  · exact hshown

/-- Any other path is shown in such a way that it can be read again. Segments are shown as they are, so
the path need not be normal. -/
theorem join_relativeTo (base : Path) {p : Path} (h : p.IsProper) (hne : p ≠ root) :
    base.join (base.relativeTo p) = p := by
  rcases relativeTo_cases base p with ⟨below, hp, hshown⟩ | hshown
  · have hbelow : IsProper ⟨below⟩ := fun s hs => h s (by simp [hp, hs])
    rw [hshown, join_join base hbelow, ← hp]
  · have hsegments : p.segments ≠ [] := fun hnil => hne (congrArg Path.mk hnil)
    have htext : base.relativeTo p = p.text := by
      rw [hshown, Text.join_cons hsegments, String.empty_append, text]
    rw [htext, join, if_pos p.isAbsoluteText_text, ofText_text h]

theorem relativeTo_inj (base : Path) {p q : Path} (hp : p.IsProper) (hq : q.IsProper)
    (hproot : p ≠ root) (hqroot : q ≠ root) : base.relativeTo p = base.relativeTo q ↔ p = q := by
  refine ⟨fun h => ?_, congrArg _⟩
  rw [← join_relativeTo base hp hproot, h, join_relativeTo base hq hqroot]

/-- For every base: a normal path that is shown relative to the base and read from there on is the path
again, unless it is the root, which is shown like the base; so no two other paths are shown alike, be
they below the base or not. In every index that is built what is shown of a file leads to its path, and
files are shown alike exactly if they are at the same path. -/
theorem relativeTo_invertible (base : Path) :
    (∀ p : Path, p.IsPlain → ((base.join (base.relativeTo p)).normalize = p ↔
      p ≠ root ∨ base.normalize = root)) ∧
    (∀ p q : Path, p.IsPlain → q.IsPlain → p ≠ root → q ≠ root →
      (base.relativeTo p = base.relativeTo q ↔ p = q)) ∧
    ∀ (fs : FileSystem) (settings : Settings) (idx : Index), fs.IsNormal →
      (∀ e ∈ fs.files, e.1.IsProper ∧ e.1 ≠ root) → Index.build_ fs base settings = .ok idx →
      ∀ f ∈ idx.files, (idx.root.join f.relPath).normalize = f.path ∧
        ∀ g ∈ idx.files, f.relPath = g.relPath ↔ f.path = g.path := by
  refine ⟨fun p hp => ?_, fun p q hp hq => relativeTo_inj base hp.proper hq.proper, ?_⟩
  · by_cases hne : p = root
    · subst hne
      have hbase : base.join "" = base := congrArg Path.mk (append_nil _)
      rw [relativeTo_root, hbase]
      simp
    · rw [join_relativeTo base hp.proper hne, hp.normal.normalize]
      simp [hne]
  · intro fs settings idx hfs hfiles h f hf
    have hstored := (Index.distinctBut_of_build_ hfs h).stored
    have hshown : ∀ f ∈ idx.files, f.relPath = idx.root.relativeTo f.path ∧
        f.path.IsProper ∧ f.path ≠ root := by
      intro f hf
      obtain ⟨e, he, hpath⟩ := Index.exists_mem_files_of_storedIn (hstored f hf)
      rw [Index.root_of_build_ h, ← hpath]
      exact ⟨hpath ▸ Index.relPath_eq_of_storedIn (hstored f hf), hfiles e he⟩
    obtain ⟨hrel, hproper, hne⟩ := hshown f hf
    refine ⟨?_, fun g hg => ?_⟩
    · rw [hrel, join_relativeTo _ hproper hne, (hstored f hf).1.normalize]
    · obtain ⟨hrel', hproper', hne'⟩ := hshown g hg
      rw [hrel, hrel', relativeTo_inj _ hproper hproper' hne hne']

/-- A path whose text begins with that of the base, without lying below it, is shown as it is. -/
theorem relativeTo_sibling : relativeTo ⟨["app"]⟩ ⟨["apple", "a.ts"]⟩ = "/apple/a.ts" ∧
    (join ⟨["app"]⟩ "/apple/a.ts").normalize = ⟨["apple", "a.ts"]⟩ := by
  have hshown : relativeTo ⟨["app"]⟩ ⟨["apple", "a.ts"]⟩ = "/apple/a.ts" := by decide
  have hundone := (relativeTo_invertible ⟨["app"]⟩).1 ⟨["apple", "a.ts"]⟩ (by decide)
  rw [hshown] at hundone
  exact ⟨hshown, hundone.2 (.inl (by decide))⟩

end ScriptAtlas.Storage.Path
