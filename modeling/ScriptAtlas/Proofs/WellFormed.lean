import Mathlib.Data.List.Basic
import ScriptAtlas.Project.Index

/-!
# Well-formed indexes

What every index that is built for a project satisfies, whatever the project: files stand at the place
that their number says.

* `Project.Index.files_of_build_`: what adding a parsed file keeps holds of the files of every index
  that is built.
* `Project.Index.wellFormed_of_build_`: every index that is built is well-formed.
-/

namespace ScriptAtlas.Project

open List Storage Syntax

variable {fs : FileSystem} {root : Path} {settings : Settings}

/-- Files with their place as number. -/
def FilesAgree (files : Array SourceFile) : Prop :=
  ∀ (i : Nat) (f : SourceFile), files[i]? = some f → f.id = i

theorem filesAgree_empty : FilesAgree #[] := fun _ _ h => by simp at h

theorem FilesAgree.push {files : Array SourceFile} (h : FilesAgree files) (root : Path)
    (settings : Settings) (path : Path) (tree : Tree) :
    FilesAgree (files.push (SourceFile.new files.size root settings path tree)) := by
  intro i f hf
  rw [Array.getElem?_push] at hf
  split at hf
  · next hi =>
    cases hf
    exact hi.symm
  · exact h i f hf

theorem FilesAgree.pairwise_id {files : Array SourceFile} (h : FilesAgree files) :
    files.toList.Pairwise fun f g => f.id < g.id := by
  refine pairwise_iff_getElem.2 fun i j hi hj hij => ?_
  have hid : ∀ k (hk : k < files.toList.length), files.toList[k].id = k := fun k hk =>
    h k _ (by rw [← Array.getElem?_toList, getElem?_eq_getElem hk])
  rw [hid i hi, hid j hj]
  exact hij

/-- A property of the files of an index is kept when a file with a parsed tree is added. -/
def KeptByAdding (fs : FileSystem) (root : Path) (settings : Settings)
    (P : Array SourceFile → Prop) : Prop :=
  ∀ files p path tree, parseFile? fs p = some (path, tree) → P files →
    P (files.push (SourceFile.new files.size root settings path tree))

theorem keptByAdding_filesAgree :
    KeptByAdding fs root settings FilesAgree :=
  fun _ _ _ _ _ hfiles => hfiles.push _ _ _ _

namespace Linking

section

variable {ctx : Context} {st : Linking} {P : Array SourceFile → Prop}
  (hP : KeptByAdding ctx.resolver.fs ctx.resolver.root ctx.settings P)

include hP

theorem files_reach {candidate : Path} (h : P st.files) : P (st.reach ctx candidate).1.files := by
  unfold reach
  split
  · exact h
  · split
    · exact h
    · split
      · exact h
      · next hparse => exact hP _ _ _ _ hparse h

theorem files_reachAll {candidates : List Path} {targets : List Nat} (h : P st.files) :
    P (reachAll ctx st candidates targets).1.files := by
  induction candidates generalizing st targets with
  | nil => exact h
  | cons candidate rest ih => exact ih (files_reach hP h)

theorem files_linkSpecifiers {file : SourceFile} {specifiers : List String} (h : P st.files) :
    P (specifiers.foldl (linkSpecifier ctx file) st).files := by
  induction specifiers generalizing st with
  | nil => exact h
  | cons specifier rest ih => exact ih (files_reachAll hP h)

theorem files_linkFrom {fuel i : Nat} (h : P st.files) : P (linkFrom ctx fuel i st).files := by
  induction fuel generalizing i st with
  | zero => exact h
  | succ fuel ih =>
    unfold linkFrom
    split
    · exact h
    · exact ih (files_linkSpecifiers hP h)

end

end Linking

namespace Index

variable {idx : Index}

/-- The index of the files at given paths and of those that they lead to. -/
def ofPaths (fs : FileSystem) (root : Path) (settings : Settings) (paths : List Path) : Index :=
  let config := BuildConfig.select fs root none
  let files := (indexOrder (paths.filterMap (parseFile? fs))).foldl (fun files (path, tree) =>
    files.push (SourceFile.new files.size root settings path tree)) #[]
  let ctx : Linking.Context := { resolver := Resolver.new fs root config, settings }
  let linked := Linking.linkAll ctx { files, links := [], added := 0 }
  { root, settings, build := config
    files := linked.files
    links := linked.links
    tokens := .of linked.files
    ambientModules := linked.files.toList.flatMap ambientModulesOf }

theorem eq_ofPaths_of_build_
    (h : build_ fs root settings = .ok idx) : idx = ofPaths fs root.normalize settings
      (sourcePaths fs root.normalize settings (BuildConfig.select fs root.normalize none)) := by
  unfold build_ at h
  split at h
  · cases h
  · dsimp only at h
    split at h
    · cases h
    · cases h
      rfl

/-- What holds without files and is kept when a parsed file is added holds of every index that is
built. -/
theorem files_of_build_
    {P : Array SourceFile → Prop} (h : build_ fs root settings = .ok idx) (hempty : P #[])
    (hP : KeptByAdding fs root.normalize settings P) : P idx.files := by
  rw [eq_ofPaths_of_build_ h]
  refine Linking.files_linkFrom hP (List.foldlRecOn _ _ hempty fun files hfiles p hp => ?_)
  -- the scanned files are parsed ones, only their order is changed
  obtain ⟨source, -, hparse⟩ := mem_filterMap.1
    ((mem_append.1 hp).elim mem_of_mem_filter mem_of_mem_filter)
  exact hP _ _ _ _ hparse hfiles

/-- The files of the index agree with their places. -/
def WellFormed (idx : Index) : Prop := FilesAgree idx.files

theorem wellFormed_of_build_ (h : build_ fs root settings = .ok idx) : idx.WellFormed :=
  files_of_build_ h filesAgree_empty keptByAdding_filesAgree

theorem WellFormed.eq_of_id_eq (h : idx.WellFormed) {f g : SourceFile} (hf : f ∈ idx.files.toList)
    (hg : g ∈ idx.files.toList) (heq : f.id = g.id) : f = g := by
  obtain ⟨i, hi⟩ := mem_iff_getElem?.1 hf
  obtain ⟨j, hj⟩ := mem_iff_getElem?.1 hg
  rw [Array.getElem?_toList] at hi hj
  have hij : i = j := by rw [← h i f hi, ← h j g hj, heq]
  rw [hij] at hi
  exact Option.some.inj (hi.symm.trans hj)

theorem WellFormed.file?_id (h : idx.WellFormed) {f : SourceFile} (hf : f ∈ idx.files.toList) :
    idx.file? f.id = some f := by
  obtain ⟨i, hi⟩ := mem_iff_getElem?.1 hf
  rw [Array.getElem?_toList] at hi
  rw [file?, h i f hi]
  exact hi

/-- The files of a small project, given by name and text. -/
def filesOf (texts : List (String × String)) : Array SourceFile :=
  texts.foldl (fun files (name, text) =>
    files.push (SourceFile.new files.size ⟨["app"]⟩ .default ⟨["app", name]⟩ (Tree.parse text false)))
    #[]

/-- The index of a small project, given by the names and texts of its files and by its links. -/
def ofTexts (texts : List (String × String)) (links : List Link) : Index where
  root := ⟨["app"]⟩
  settings := .default
  build := none
  files := filesOf texts
  links
  tokens := .of (filesOf texts)
  ambientModules := (filesOf texts).toList.flatMap ambientModulesOf

theorem wellFormed_ofTexts (texts : List (String × String)) (links : List Link) :
    (ofTexts texts links).WellFormed :=
  List.foldlRecOn texts _ filesAgree_empty fun _ hfiles _ _ => hfiles.push _ _ _ _

end Index

end ScriptAtlas.Project
