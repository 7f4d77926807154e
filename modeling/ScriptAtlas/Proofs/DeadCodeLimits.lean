import ScriptAtlas.Proofs.DeadCodeFilters

/-!
# Limits of a scan for dead code

A scan compares what it has found with its limit behind every finding. So it stops as soon as it has
come upon as many findings as the limit says, but a limit of none lets one finding through.

* `Scan.Tight`: how much a scan under way has found, preserved by one file
  (`tight_scanDeclarations`) and hence by a run (`tight_scanFiles`);
* `detect_eq_take`: a report holds the first findings, sorted;
* `detect_limited`: for every limit, what is reported, and that limits other than none are kept.
-/

namespace ScriptAtlas.Query.DeadCode

open List Project

/-! ## How much is found -/

/-- A scan that goes on has found less than it stops at, and one that has stopped just as much. -/
structure Scan.Tight (cap : Nat) (s : Scan) : Prop where
  below : s.full = false → s.items.length < max 1 cap
  reached : s.full = true → s.items.length = max 1 cap

section Runs

variable (unreferenced : Declaration → Bool) (cap : Nat)

theorem tight_scanDeclarations (s : Scan) (hs : s.full = false) (htight : s.Tight cap)
    (ds : List Declaration) : (scanDeclarations unreferenced cap s ds).Tight cap := by
  induction ds generalizing s with
  | nil => exact htight
  | cons d rest ih =>
    have hbelow := htight.below hs
    unfold scanDeclarations
    by_cases hd : unreferenced d = true
    · simp only [hd, if_true]
      have hlength : (s.items ++ [item d]).length = s.items.length + 1 := by simp
      split
      · next hcap =>
        refine ⟨fun hopen => Bool.noConfusion hopen, fun _ => ?_⟩
        dsimp only at hcap ⊢
        omega
      · next hcap =>
        refine ih { s with declarations := s.declarations + 1, items := s.items ++ [item d] } hs ?_
        refine ⟨fun _ => ?_, fun hfull => absurd hfull (by simp [hs])⟩
        dsimp only at hcap ⊢
        omega
    · simp only [hd, Bool.false_eq_true, if_false]
      exact ih { s with declarations := s.declarations + 1 } hs ⟨htight.below, htight.reached⟩

theorem tight_scanFiles {judged : SourceFile → List Declaration} (s : Scan) (hs : s.full = false)
    (htight : s.Tight cap) (files : List SourceFile) :
    (scanFiles unreferenced judged cap s files).Tight cap := by
  induction files generalizing s with
  | nil => exact htight
  | cons f rest ih =>
    have hfile := tight_scanDeclarations unreferenced cap { s with files := s.files + 1 } hs
      ⟨htight.below, htight.reached⟩ (judged f)
    unfold scanFiles
    dsimp only
    split
    · exact hfile
    · next hopen => exact ih _ (Bool.eq_false_iff.2 hopen) hfile

end Runs

theorem Scan.Covers.items_eq_take {cap : Nat} {items : List Item} {s : Scan} (h : s.Covers cap items)
    (htight : s.Tight cap) : s.items = items.take (max 1 cap) := by
  cases hfull : s.full with
  | true =>
    rw [← htight.reached hfull]
    exact prefix_iff_eq_take.1 h.found
  | false =>
    rw [← h.all hfull]
    exact (take_of_length_le (Nat.le_of_lt (htight.below hfull))).symm

/-! ## Reports -/

def reportOf (ds : List Declaration) : List Item := (ds.map item).mergeSort itemLe

theorem length_reportOf (ds : List Declaration) : (reportOf ds).length = ds.length := by
  simp [reportOf]

section Limits

variable (idx : Index) (options : Options) {include_ exclude : List Pattern.Glob}

/-- A report holds as many of the findings, from the first on, as the limit says, but at least one. -/
theorem detect_eq_take (hinclude : compileGlobs options.include_ = .ok include_)
    (hexclude : compileGlobs options.exclude = .ok exclude)
    (htime : options.time idx.settings ≠ 0) :
    ∃ report, detect idx options = .ok report ∧
      report.items =
        reportOf ((findings idx options include_ exclude).take (max 1 (options.cap idx.settings))) := by
  have htight : (finalScan idx options include_ exclude).Tight (options.cap idx.settings) :=
    tight_scanFiles _ _ _ rfl
      ⟨fun _ => Nat.lt_of_lt_of_le Nat.zero_lt_one (Nat.le_max_left ..), fun hfull => by cases hfull⟩ _
  refine ⟨_, detect_eq_finalScan hinclude hexclude htime, ?_⟩
  rw [reportOf, map_take, (covers_finalScan idx options include_ exclude).items_eq_take htight]

theorem detect_eq_error {f : Failure} (h : compileGlobs options.include_ = .error f ∨
      ∃ include_, compileGlobs options.include_ = .ok include_ ∧
        compileGlobs options.exclude = .error f) :
    detect idx options = .error f := by
  unfold detect
  rcases h with h | ⟨include_, hinclude, hexclude⟩
  · rw [h]
    rfl
  · rw [hinclude, hexclude]
    rfl

theorem length_take_max_le_iff {α : Type} (l : List α) (m : Nat) :
    (l.take (max 1 m)).length ≤ m ↔ m ≠ 0 ∨ l = [] := by
  rw [length_take, ← length_eq_zero_iff]
  omega

end Limits

/-- A scan with a limit reports the first of the findings that there are without one, sorted by file
and line. Patterns that cannot be read are a failure for all limits. Otherwise there is a report for
every limit; it holds as many findings from the first on as the limit says, with the one exception that
a limit of none lets one finding through. So it is the report that the limit asks for, and no longer
than the limit, exactly when the limit is not none or there is nothing to find. -/
theorem detect_limited (idx : Index) (options : Options) (htime : options.time idx.settings ≠ 0) :
    (∃ f, ∀ m, detect idx { options with maxResults := some m } = .error f) ∨
    ∃ include_ exclude, compileGlobs options.include_ = .ok include_ ∧
      compileGlobs options.exclude = .ok exclude ∧
      ∀ m, ∃ report, detect idx { options with maxResults := some m } = .ok report ∧
        report.items = reportOf ((findings idx options include_ exclude).take (max 1 m)) ∧
        (report.items = reportOf ((findings idx options include_ exclude).take m) ↔
          m ≠ 0 ∨ findings idx options include_ exclude = []) ∧
        (report.items.length ≤ m ↔ m ≠ 0 ∨ findings idx options include_ exclude = []) := by
  cases hinclude : compileGlobs options.include_ with
  | error f => exact .inl ⟨f, fun m => detect_eq_error idx _ (.inl hinclude)⟩
  | ok include_ =>
    cases hexclude : compileGlobs options.exclude with
    | error f => exact .inl ⟨f, fun m => detect_eq_error idx _ (.inr ⟨include_, hinclude, hexclude⟩)⟩
    | ok exclude =>
      refine .inr ⟨include_, exclude, rfl, rfl, fun m => ?_⟩
      obtain ⟨report, hreport, hitems⟩ :=
        detect_eq_take idx { options with maxResults := some m } hinclude hexclude htime
      have hitems : report.items =
          reportOf ((findings idx options include_ exclude).take (max 1 m)) := hitems
      have hlength : report.items.length ≤ m ↔
          m ≠ 0 ∨ findings idx options include_ exclude = [] := by
        rw [hitems, length_reportOf]
        exact length_take_max_le_iff _ m
      refine ⟨report, hreport, hitems, ⟨fun hasked => ?_, fun hkept => ?_⟩, hlength⟩
      · refine hlength.1 ?_
        rw [hasked, length_reportOf]
        exact length_take_le m _
      · rw [hitems]
        rcases hkept with hm | hnone
        · rw [Nat.max_eq_right (Nat.pos_of_ne_zero hm)]
        · simp [hnone]

/-! ## A limit of none -/

theorem findings_loneIndex (maxResults timeoutMs : Option Nat) :
    findings Index.loneIndex (.everything maxResults timeoutMs) [] [] ≠ [] := by
  obtain ⟨-, hidx⟩ := Bool.and_eq_true_iff.1
    (show hasHidden "c" Index.loneIndex = true by decide +kernel)
  obtain ⟨f, hf, hidx⟩ := any_eq_true.1 hidx
  obtain ⟨d, hd, hidx⟩ := any_eq_true.1 hidx
  simp only [Bool.and_eq_true, contains_iff_mem] at hidx
  obtain ⟨⟨⟨-, hkind⟩, hfirst⟩, halone⟩ := hidx
  exact ne_nil_of_mem (mem_findings_iff.2
    ⟨f, hf, rfl, mem_scannedDeclarations_everything.2 ⟨hd, hkind⟩, hfirst,
      References.sites_eq_nil_of_isAlone halone⟩)

/-- With a limit of one the variable alone, or what else comes first, is reported. -/
theorem loneModule_limited : ∃ report,
    detect Index.loneIndex (.everything (some 1) none) = .ok report ∧ report.items.length = 1 := by
  rcases detect_limited Index.loneIndex (.everything none none) (by decide) with ⟨f, hf⟩ | h
  · obtain ⟨report, hreport, -⟩ := detect_eq_take Index.loneIndex (.everything (some 1) none)
      (rfl : compileGlobs [] = .ok []) rfl (by decide)
    cases (hf 1).symm.trans hreport
  · obtain ⟨include_, exclude, hinclude, hexclude, hlimits⟩ := h
    cases hinclude
    cases hexclude
    obtain ⟨report, hreport, hitems, -, hlength⟩ := hlimits 1
    refine ⟨report, hreport, Nat.le_antisymm (hlength.2 (.inl Nat.one_ne_zero)) ?_⟩
    rw [hitems, length_reportOf, length_take]
    exact Nat.le_min.2 ⟨Nat.le_max_left .., length_pos_of_ne_nil (findings_loneIndex none none)⟩

/-- With a limit of none an item is reported too. -/
theorem loneModule_overfull : ∃ report,
    detect Index.loneIndex (.everything (some 0) none) = .ok report ∧ report.items.length = 1 := by
  obtain ⟨report, hreport, hitems⟩ := detect_eq_take Index.loneIndex
    (.everything (some 0) none) (rfl : compileGlobs [] = .ok []) rfl (by decide)
  refine ⟨report, hreport, ?_⟩
  rw [hitems, length_reportOf, length_take]
  exact Nat.min_eq_left (length_pos_of_ne_nil (findings_loneIndex (some 0) none))

end ScriptAtlas.Query.DeadCode
