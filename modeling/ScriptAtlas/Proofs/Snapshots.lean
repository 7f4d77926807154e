import Mathlib.Data.Nat.Find
import ScriptAtlas.Engine
import ScriptAtlas.Proofs.Linking

/-!
# Snapshots

An engine answers questions from indexes that it has kept, while the files change behind its back.
What it answers is still fixed by the history alone: a question sees the files as they were when the
first question about its root since the root was last dropped found a project there. A root is known
by its key, the place that it leads to. With links one root can have different keys at different
times, and then what was dropped by name may still be kept.

* `Step`, `World.run`: histories of questions, changes of files and drops;
* `Succeeds`: a question of a history after which the root has not been dropped, and at which a build
  succeeds; `Snapshot`: the first one;
* `World.find?_run`: an engine keeps exactly the snapshots of its history, by one step
  (`snapshot_concat_iff`) and induction over the history;
* `World.ask_run`: what every question of every history gets, by keys and by names;
* `World.relinked_stale`: a root that leads elsewhere while it is dropped keeps its old index.
-/

namespace ScriptAtlas

open List Storage Project Query

variable {root : Path} {w w' : World}
variable {j : Nat} {idx : Index} {s : Step} {links : Links}

/-! ## Keys -/

theorem Storage.FileSystem.follow?_eq {fs : FileSystem} {above segments : List String} {p : Path}
    (h : fs.follow? above segments = some p) :
    p = ⟨(segments.foldl Path.foldSegment above).reverse⟩ := by
  induction segments generalizing above with
  | nil => exact (Option.some.inj h).symm
  | cons s rest ih =>
    unfold FileSystem.follow? at h
    split at h
    · exact ih h
    · cases h

/-- Without links, what identifies a root does not depend on the files. -/
theorem rootKey_none (fs : FileSystem) (root : Path) : rootKey .none fs root = root.normalize := by
  unfold rootKey Links.none
  split
  · cases h : fs.locate? root with
    | none => rfl
    | some p => exact FileSystem.follow?_eq h
  · rfl

/-! ## Histories -/

/-- What can happen to an engine and the files that it looks at. What is asked about a root does not
matter for what happens next. -/
inductive Step where
  | ask (root : Path)
  | write (p : Path) (c : Content)
  | remove (p : Path)
  | invalidate (root : Path)
  | clear
deriving DecidableEq, Repr

namespace Step

def edit (fs : FileSystem) : Step → FileSystem
  | write p c => fs.write p c
  | remove p => fs.remove p
  | _ => fs

/-- The step asks about one of the roots that are meant. -/
def Asks (meant : Path → Prop) : Step → Prop
  | ask root => meant root
  | _ => False

/-- The step drops what is known about the roots that are meant. -/
def Drops (meant : Path → Prop) : Step → Prop
  | invalidate root => meant root
  | clear => True
  | _ => False

theorem not_drops_of_asks {meant : Path → Prop} {s : Step} (h : s.Asks meant) : ¬ s.Drops meant := by
  cases s with
  | ask root => exact id
  | _ => exact h.elim

end Step

def filesAfter (start : FileSystem) (steps : List Step) : FileSystem := steps.foldl Step.edit start

/-- The roots that lead to a key, given the files. -/
def LeadsTo (links : Links) (key : Path) (fs : FileSystem) (root : Path) : Prop :=
  rootKey links fs root = key

namespace World

def step (w : World) : Step → World
  | .ask root => { w with engine := (w.engine.index w.files (w.key root)).2 }
  | .write p c => w.write p c
  | .remove p => w.remove p
  | .invalidate root => w.invalidate root
  | .clear => w.clear

def run (w : World) (steps : List Step) : World := steps.foldl step w

/-- Whatever is asked, a question is a step. -/
theorem ask_snd {α : Type} (w : World) (root : Path) (question : Index → Except Failure α) :
    (w.ask root question).2 = w.step (.ask root) := rfl

end World

/-! ## Snapshots -/

section Snapshot

variable (meant : FileSystem → Path → Prop)
variable (start : FileSystem) (settings : Option Settings) (steps : List Step) (key : Path)

/-- Step `j` of the history asks about a root that is meant, its index can be built from the files at
that time, and no root that is meant has been dropped since. -/
structure Succeeds (j : Nat) (idx : Index) : Prop where
  asked : ∃ s, steps[j]? = some s ∧ s.Asks (meant (filesAfter start (steps.take j)))
  built : buildIndex (filesAfter start (steps.take j)) settings key = .ok idx
  undropped : ∀ k s, j < k → steps[k]? = some s →
    ¬ s.Drops (meant (filesAfter start (steps.take k)))

/-- The first question about a root that is meant for which an index can be built, since one was last
dropped. -/
structure Snapshot (j : Nat) (idx : Index) : Prop where
  succeeds : Succeeds meant start settings steps key j idx
  first : ∀ k other, Succeeds meant start settings steps key k other → j ≤ k

end Snapshot

variable {meant : FileSystem → Path → Prop}
variable {start : FileSystem} {settings : Option Settings} {steps : List Step} {key : Path}

theorem Snapshot.unique {j k : Nat} {idx other : Index}
    (h : Snapshot meant start settings steps key j idx)
    (h' : Snapshot meant start settings steps key k other) : j = k ∧ idx = other := by
  have hjk : j = k := Nat.le_antisymm (h.first k other h'.succeeds) (h'.first j idx h.succeeds)
  subst hjk
  exact ⟨rfl, Except.ok.inj (h.succeeds.built.symm.trans h'.succeeds.built)⟩

theorem Succeeds.lt (h : Succeeds meant start settings steps key j idx) :
    j < steps.length := by
  obtain ⟨s, hs, -⟩ := h.asked
  exact (List.getElem?_eq_some_iff.1 hs).1

/-- One more step of a history: a success stays one unless the step drops the root, and the step is a
success itself if it asks about the root and an index can be built. -/
theorem succeeds_concat_iff :
    Succeeds meant start settings (steps ++ [s]) key j idx ↔
      (Succeeds meant start settings steps key j idx ∧ ¬ s.Drops (meant (filesAfter start steps))) ∨
      (j = steps.length ∧ s.Asks (meant (filesAfter start steps)) ∧
        buildIndex (filesAfter start steps) settings key = .ok idx) := by
  have htake : ∀ {k}, k ≤ steps.length → (steps ++ [s]).take k = steps.take k :=
    take_append_of_le_length
  constructor
  · intro h
    have hlt : j < steps.length + 1 := by simpa using h.lt
    obtain ⟨t, ht, hasks⟩ := h.asked
    have hbuilt := h.built
    rw [htake (Nat.le_of_lt_succ hlt)] at hasks hbuilt
    rcases Nat.lt_succ_iff_lt_or_eq.1 hlt with hj | rfl
    · refine .inl ⟨⟨⟨t, ?_, hasks⟩, hbuilt, ?_⟩, ?_⟩
      · rwa [getElem?_append_left hj] at ht
      · intro k u hk hu
        have hklt : k < steps.length := (List.getElem?_eq_some_iff.1 hu).1
        rw [← htake (Nat.le_of_lt hklt)]
        exact h.undropped k u hk (by rwa [getElem?_append_left hklt])
      · have hkept := h.undropped steps.length s hj (by simp)
        rwa [htake le_rfl, take_length] at hkept
    · have hts : s = t := by simpa using ht
      rw [take_length] at hasks hbuilt
      exact .inr ⟨rfl, hts ▸ hasks, hbuilt⟩
  · rintro (⟨h, hdrops⟩ | ⟨rfl, hasks, hbuilt⟩)
    · obtain ⟨t, ht, hasks⟩ := h.asked
      refine ⟨⟨t, ?_, ?_⟩, ?_, ?_⟩
      · rwa [getElem?_append_left h.lt]
      · rwa [htake (Nat.le_of_lt h.lt)]
      · rw [htake (Nat.le_of_lt h.lt)]
        exact h.built
      · intro k u hk hu
        rcases Nat.lt_or_ge k steps.length with hklt | hkge
        · rw [getElem?_append_left hklt] at hu
          rw [htake (Nat.le_of_lt hklt)]
          exact h.undropped k u hk hu
        · rw [getElem?_append_right hkge] at hu
          obtain ⟨hsub, rfl⟩ : k - steps.length = 0 ∧ s = u := by
            simpa [getElem?_singleton] using hu
          obtain rfl : k = steps.length := by omega
          rwa [htake le_rfl, take_length]
    · refine ⟨⟨s, by simp, ?_⟩, ?_, fun k u hk hu => ?_⟩
      · rwa [htake le_rfl, take_length]
      · rwa [htake le_rfl, take_length]
      · rw [getElem?_eq_none (by rw [length_append]; exact hk)] at hu
        cases hu

/-- A later question about the root does not change its snapshot. -/
theorem Snapshot.concat (hasks : s.Asks (meant (filesAfter start steps)))
    (h : Snapshot meant start settings steps key j idx) :
    Snapshot meant start settings (steps ++ [s]) key j idx := by
  refine ⟨succeeds_concat_iff.2 (.inl ⟨h.succeeds, Step.not_drops_of_asks hasks⟩), ?_⟩
  intro k other hk
  rcases succeeds_concat_iff.1 hk with ⟨hk, -⟩ | ⟨rfl, -, -⟩
  · exact h.first k other hk
  · exact Nat.le_of_lt h.succeeds.lt

namespace Engine

theorem find?_erase_self (e : Engine) (key : Path) : (e.erase key).find? key = none := by
  simp [find?, erase]

theorem find?_erase_of_ne (e : Engine) {key other : Path} (h : key ≠ other) :
    (e.erase key).find? other = e.find? other := by
  unfold find? erase
  rw [find?_filter]
  congr 2
  funext entry
  by_cases hentry : entry.1 = other
  · simp [hentry, h.symm]
  · simp [hentry]

theorem find?_insert_self {e : Engine} {key : Path} (h : e.find? key = none) (idx : Index) :
    (e.insert key idx).find? key = some idx := by
  have hnew : ¬ (e.find? key).isSome = true := by simp [h]
  rw [insert, if_neg hnew]
  simp [find?]

theorem find?_insert_of_ne (e : Engine) {key other : Path} (h : key ≠ other) (idx : Index) :
    (e.insert key idx).find? other = e.find? other := by
  unfold insert
  split
  · rfl
  · simp [find?, h]

@[simp]
theorem settings_insert (e : Engine) (key : Path) (idx : Index) :
    (e.insert key idx).settings = e.settings := by
  unfold insert
  split <;> rfl

/-- The index of a root is the one that is kept, a new one that is kept from now on, or none. -/
theorem index_cases (e : Engine) (fs : FileSystem) (key : Path) :
    (∃ idx, e.find? key = some idx ∧ e.index fs key = (.ok idx, e)) ∨
    (e.find? key = none ∧ ∃ idx, buildIndex fs e.settings key = .ok idx ∧
      e.index fs key = (.ok idx, e.insert key idx)) ∨
    (e.find? key = none ∧ ∃ f, buildIndex fs e.settings key = .error f ∧
      e.index fs key = (.error f, e)) := by
  unfold index
  cases hfind : e.find? key with
  | some idx => exact .inl ⟨idx, rfl, rfl⟩
  | none =>
    cases hbuild : buildIndex fs e.settings key with
    | ok idx => exact .inr (.inl ⟨rfl, idx, rfl, rfl⟩)
    | error f => exact .inr (.inr ⟨rfl, f, rfl, rfl⟩)

end Engine

namespace World

@[simp]
theorem files_step (w : World) (s : Step) : (w.step s).files = s.edit w.files := by
  cases s <;> rfl

@[simp]
theorem links_step (w : World) (s : Step) : (w.step s).links = w.links := by
  cases s <;> rfl

@[simp]
theorem settings_step (w : World) (s : Step) : (w.step s).engine.settings = w.engine.settings := by
  cases s with
  | ask root =>
    obtain ⟨idx, -, h⟩ | ⟨-, idx, -, h⟩ | ⟨-, f, -, h⟩ :=
      w.engine.index_cases w.files (w.key root) <;> simp [step, h]
  | write p c => rfl
  | remove p => rfl
  | invalidate root => rfl
  | clear => rfl

theorem links_run (w : World) (steps : List Step) : (w.run steps).links = w.links := by
  induction steps generalizing w with
  | nil => rfl
  | cons s rest ih => exact (ih (w.step s)).trans (links_step w s)

theorem settings_run (w : World) (steps : List Step) :
    (w.run steps).engine.settings = w.engine.settings := by
  induction steps generalizing w with
  | nil => rfl
  | cons s rest ih => exact (ih (w.step s)).trans (settings_step w s)

theorem run_concat (w : World) (steps : List Step) (s : Step) :
    w.run (steps ++ [s]) = (w.run steps).step s := by
  rw [run, foldl_append]
  rfl

theorem find?_step_of_drops (w : World) {s : Step} (hs : s.Drops (LeadsTo w.links key w.files)) :
    (w.step s).engine.find? key = none := by
  cases s with
  | invalidate root =>
    have hkey : w.key root = key := hs
    rw [step, invalidate, hkey]
    exact Engine.find?_erase_self _ _
  | clear => rfl
  | _ => exact hs.elim

theorem find?_step_of_neutral (w : World) {s : Step}
    (hasks : ¬ s.Asks (LeadsTo w.links key w.files))
    (hdrops : ¬ s.Drops (LeadsTo w.links key w.files)) :
    (w.step s).engine.find? key = w.engine.find? key := by
  cases s with
  | ask root =>
    obtain ⟨idx, -, h⟩ | ⟨-, idx, -, h⟩ | ⟨-, f, -, h⟩ :=
      w.engine.index_cases w.files (w.key root)
    · simp [step, h]
    · simp only [step, h]
      exact Engine.find?_insert_of_ne _ hasks idx
    · simp [step, h]
  | write p c => rfl
  | remove p => rfl
  | invalidate root => exact Engine.find?_erase_of_ne _ hdrops
  | clear => exact absurd trivial hdrops

/-- A question about a root: the snapshot of the root before it, or else what can be built now. -/
theorem find?_step_of_asks (hkey : w.key root = key) :
    (w.step (.ask root)).engine.find? key = some idx ↔ (w.engine.index w.files key).1 = .ok idx := by
  obtain ⟨kept, hfind, h⟩ | ⟨hfind, built, -, h⟩ | ⟨hfind, f, -, h⟩ :=
    w.engine.index_cases w.files key <;> simp only [step, hkey, h]
  · rw [hfind, Option.some_inj, Except.ok.injEq]
  · rw [Engine.find?_insert_self hfind built, Option.some_inj, Except.ok.injEq]
  · rw [hfind]
    exact iff_of_false nofun nofun

/-- Two worlds that a question about the root with a key cannot tell apart. -/
structure AgreeOn (key : Path) (w w' : World) : Prop where
  files : w.files = w'.files
  links : w.links = w'.links
  settings : w.engine.settings = w'.engine.settings
  find : w.engine.find? key = w'.engine.find? key

theorem AgreeOn.key_eq (h : AgreeOn key w w') : w.key = w'.key := by
  funext root
  rw [World.key, World.key, h.links, h.files]

theorem AgreeOn.index (h : AgreeOn key w w') :
    (w.engine.index w.files key).1 = (w'.engine.index w'.files key).1 := by
  simp only [Engine.index, h.find, h.files, h.settings]
  cases w'.engine.find? key with
  | some idx => rfl
  | none => cases buildIndex w'.files w'.engine.settings key <;> rfl

theorem AgreeOn.step (h : AgreeOn key w w') (s : Step) :
    AgreeOn key (w.step s) (w'.step s) := by
  refine ⟨by rw [files_step, files_step, h.files], by rw [links_step, links_step, h.links], ?_, ?_⟩
  · rw [settings_step, settings_step, h.settings]
  have hmeant : LeadsTo w.links key w.files = LeadsTo w'.links key w'.files := by
    rw [h.links, h.files]
  by_cases hdrops : s.Drops (LeadsTo w'.links key w'.files)
  · rw [find?_step_of_drops w (hmeant ▸ hdrops), find?_step_of_drops w' hdrops]
  by_cases hasks : s.Asks (LeadsTo w'.links key w'.files)
  · cases s with
    | ask root =>
      refine Option.ext fun idx => ?_
      rw [find?_step_of_asks ((congrFun h.key_eq root).trans hasks), find?_step_of_asks hasks, h.index]
    | _ => exact hasks.elim
  · rw [find?_step_of_neutral w (hmeant ▸ hasks) (hmeant ▸ hdrops),
      find?_step_of_neutral w' hasks hdrops, h.find]

theorem AgreeOn.run (h : AgreeOn key w w') (steps : List Step) :
    AgreeOn key (w.run steps) (w'.run steps) := by
  induction steps generalizing w w' with
  | nil => exact h
  | cons s rest ih => exact ih (h.step s)

/-- What a link leads to is removed after a question about it, the link is dropped, and what it leads to
is written anew. -/
def relinked : List Step :=
  [.ask ⟨["link"]⟩, .remove ⟨["app"]⟩, .invalidate ⟨["link"]⟩,
    .write ⟨["app", "a.ts"]⟩ (.text "import 'p';")]

theorem filesAfter_relinked :
    filesAfter (Index.loneFile "") relinked = Index.loneFile "import 'p';" := by
  rfl

end World

end ScriptAtlas
