import ScriptAtlas.Proofs.ConfigLineage

/-!
# The configuration that is selected for a directory

A configuration that only refers to others is meant as a last resort. The walk up the directories keeps to
that for the configurations it finds itself, but takes one that is referred to as it is, be it of that kind
or not.

* `BuildConfig.heldAround`: the configurations that the directory and those around it hold;
* `BuildConfig.selectFrom_eq`: the walk as a search in that list;
* `BuildConfig.select_isSolution_iff`: how a configuration that only refers to others is selected;
* `BuildConfig.lastResort_iff`: when it is the last resort.
-/

namespace ScriptAtlas.Project.BuildConfig

open List Storage

variable {fs : FileSystem} {start : Path} {target : Option Path} {c sub : BuildConfig}

/-! ## The walk as a search -/

/-- The configuration that a directory holds, if there is such a file and it can be loaded. -/
def held? (fs : FileSystem) (dir : Path) : Option BuildConfig :=
  if fs.isFile (dir.child fileName) then (load fs (dir.child fileName)).toOption else none

/-- The configurations that a directory and those around it hold, from the inside out. -/
def heldAround (fs : FileSystem) (start : Path) : List BuildConfig :=
  start.withParents.filterMap (held? fs)

/-- What ends the walk at a configuration: itself, or one that it refers to if that is all it does. -/
def settled? (fs : FileSystem) (start : Path) (target : Option Path) (c : BuildConfig) :
    Option BuildConfig :=
  if c.isSolution then coveringReference? fs c start target else some c

theorem settled?_eq_none_iff :
    settled? fs start target c = none ↔
      c.isSolution ∧ coveringReference? fs c start target = none := by
  by_cases hc : c.isSolution <;> simp [settled?, hc]

theorem settled?_eq_some_isSolution_iff :
    settled? fs start target c = some sub ∧ sub.isSolution ↔
      c.isSolution ∧ coveringReference? fs c start target = some sub ∧ sub.isSolution := by
  by_cases hc : c.isSolution
  · simp [settled?, hc]
  · rw [settled?, if_neg hc]
    constructor
    · rintro ⟨⟨⟩, hsub⟩
      exact absurd hsub hc
    · rintro ⟨hsol, -⟩
      exact absurd hsol hc

/-- The walk ends at the first configuration that settles it, and else with the first of all. -/
theorem selectFrom_eq (dirs : List Path) (fallback : Option BuildConfig) :
    selectFrom fs start target dirs fallback =
      ((dirs.filterMap (held? fs)).findSome? (settled? fs start target) <|>
        fallback <|> (dirs.filterMap (held? fs)).head?) := by
  induction dirs generalizing fallback with
  | nil => simp [selectFrom]
  | cons dir rest ih =>
    rw [selectFrom]
    split
    · next hload =>
      have hheld : held? fs dir = none := hload
      rw [ih, filterMap_cons_none hheld]
    · next c hload =>
      have hheld : held? fs dir = some c := hload
      rw [filterMap_cons_some hheld, findSome?_cons, settled?]
      split
      · split
        · next hcover => simp [hcover]
        · next hcover =>
          rw [ih, hcover]
          cases fallback <;> simp
      · simp

theorem select_eq (fs : FileSystem) (start : Path) (target : Option Path) :
    select fs start target =
      ((heldAround fs start).findSome? (settled? fs start target) <|> (heldAround fs start).head?) := by
  rw [select, selectFrom_eq]
  rfl

/-! ## Solutions -/

/-- A configuration that only refers to others is selected in one of two ways: nothing settles the walk and
it is the nearest of all, or the walk is settled by one of its kind that refers to it. -/
theorem select_isSolution_iff :
    select fs start target = some c ∧ c.isSolution ↔
      ((∀ b ∈ heldAround fs start, settled? fs start target b = none) ∧
        (heldAround fs start).head? = some c) ∨
      ∃ below d above, heldAround fs start = below ++ d :: above ∧
        (∀ b ∈ below, settled? fs start target b = none) ∧
        d.isSolution ∧ coveringReference? fs d start target = some c ∧ c.isSolution := by
  simp only [← settled?_eq_some_isSolution_iff, select_eq]
  cases hfound : (heldAround fs start).findSome? (settled? fs start target) with
  | none =>
    have hnone := findSome?_eq_none_iff.1 hfound
    constructor
    · rintro ⟨hhead, -⟩
      exact .inl ⟨hnone, by simpa using hhead⟩
    · rintro (⟨-, hhead⟩ | ⟨below, d, above, hsplit, -, hd, -⟩)
      · exact ⟨by simpa using hhead,
          (settled?_eq_none_iff.1 (hnone c (mem_of_mem_head? hhead))).1⟩
      · have hmem : d ∈ heldAround fs start := by simp [hsplit]
        cases (hnone d hmem).symm.trans hd
  | some s =>
    obtain ⟨below, d, above, hsplit, hd, hbelow⟩ := findSome?_eq_some_iff.1 hfound
    constructor
    · rintro ⟨hs, hc⟩
      cases hs
      exact .inr ⟨below, d, above, hsplit, hbelow, hd, hc⟩
    · rintro (⟨hnone, -⟩ | ⟨below', d', above', hsplit', hbelow', hd', hc⟩)
      · cases (findSome?_eq_none_iff.2 hnone).symm.trans hfound
      · have hfound' := findSome?_eq_some_iff.2 ⟨below', d', above', hsplit', hd', hbelow'⟩
        cases hfound.symm.trans hfound'
        exact ⟨rfl, hc⟩

/-- A configuration that only refers to others is selected only where no directory around holds one that
does more. -/
def LastResort (fs : FileSystem) (start : Path) (target : Option Path) : Prop :=
  ∀ c, select fs start target = some c → c.isSolution →
    ∀ dir ∈ start.withParents, ∀ d, held? fs dir = some d → d.isSolution

theorem lastResort_iff_forall_mem :
    LastResort fs start target ↔
      ∀ c, select fs start target = some c ∧ c.isSolution → ∀ d ∈ heldAround fs start, d.isSolution := by
  constructor
  · rintro h c ⟨hc, hsol⟩ d hd
    obtain ⟨dir, hdir, hheld⟩ := mem_filterMap.1 hd
    exact h c hc hsol dir hdir d hheld
  · intro h c hc hsol dir hdir d hheld
    exact h c ⟨hc, hsol⟩ d (mem_filterMap.2 ⟨dir, hdir, hheld⟩)

/-- Only a referred configuration can break the rule: one that only refers to others itself, taken over a
configuration further up that does more. -/
theorem lastResort_iff (fs : FileSystem) (start : Path) (target : Option Path) :
    LastResort fs start target ↔
      ∀ below c above sub, heldAround fs start = below ++ c :: above →
        (∀ b ∈ below, b.isSolution ∧ coveringReference? fs b start target = none) →
        c.isSolution → coveringReference? fs c start target = some sub → sub.isSolution →
        ∀ d ∈ above, d.isSolution := by
  simp only [lastResort_iff_forall_mem, select_isSolution_iff, settled?_eq_none_iff]
  constructor
  · intro h below c above sub hsplit hbelow hc hcover hsub d hd
    apply h sub (.inr ⟨below, c, above, hsplit, hbelow, hc, hcover, hsub⟩)
    simp [hsplit, hd]
  · rintro h c (⟨hall, -⟩ | ⟨below, e, above, hsplit, hbelow, he, hcover, hc⟩) d hd
    · exact (hall d hd).1
    · rw [hsplit, mem_append, mem_cons] at hd
      rcases hd with hd | rfl | hd
      · exact (hbelow d hd).1
      · exact he
      · exact h below e above c hsplit hbelow he hcover hc d hd

/-- A package that only refers to a library, and is referred to by the directory around it. -/
def nestedSolutions : FileSystem :=
  (((FileSystem.empty.write ⟨["tsconfig.json"]⟩ (.text "\x7b \"include\": [\"app\"] \x7d")).write
    ⟨["app", "tsconfig.json"]⟩
      (.text "\x7b \"references\": [\x7b \"path\": \"./pkg\" \x7d] \x7d")).write
    ⟨["app", "pkg", "tsconfig.json"]⟩
      (.text "\x7b \"references\": [\x7b \"path\": \"./lib\" \x7d] \x7d")).write
    ⟨["app", "pkg", "lib", "tsconfig.json"]⟩ (.text "\x7b \"include\": [\"src\"] \x7d")

/-- The package is selected, although the outermost directory has a configuration of its own. -/
theorem not_lastResort_nestedSolutions : ¬LastResort nestedSolutions ⟨["app", "pkg"]⟩ none := by
  intro h
  have hselect : (select nestedSolutions ⟨["app", "pkg"]⟩ none).any isSolution := by decide +kernel
  have houter : (held? nestedSolutions ⟨[]⟩).any (!·.isSolution) := by decide +kernel
  obtain ⟨c, hc, hsol⟩ := (Option.any_eq_true _ _).1 hselect
  obtain ⟨d, hd, hmore⟩ := (Option.any_eq_true _ _).1 houter
  have hd_sol : d.isSolution := h c hc hsol ⟨[]⟩ (by decide) d hd
  simp [hd_sol] at hmore

end ScriptAtlas.Project.BuildConfig
