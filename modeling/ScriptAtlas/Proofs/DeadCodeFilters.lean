import Mathlib.Data.List.Flatten
import ScriptAtlas.Proofs.Linking
import ScriptAtlas.Proofs.TopLevel
import ScriptAtlas.Query.DeadCode

/-!
# Options of a scan for dead code

A scan goes through files and declarations, leaves out what its options do not ask for, and stops when
it has found enough. What it finds is nevertheless a part of what the widest scan finds, in the same
order: options only filter.

* `filter_mergeSort`: the sort is stable, so what is left out may be left out before or after it;
* `References.sites_eq_nil_iff`: a search that stops at the first file with a reference finds nothing
  exactly when the full search does;
* `DeadCode.Scan.Covers`: what a scan under way has found, preserved by one file
  (`covers_scanDeclarations`) and hence by a run (`covers_scanFiles`);
* `DeadCode.findings_eq_filter`: the findings of any scan as a part of those of the widest;
* `DeadCode.detect_eq_filter`: the same for reports.
-/

namespace ScriptAtlas

open List Project Project.Index Syntax

/-! ## Stable sorting -/

section Sorting

variable {α : Type} {le : α → α → Bool}

theorem le_of_mem_back (htrans : ∀ a b c, le a b → le b c → le a c)
    (htotal : ∀ a b, le a b || le b a) {a : α} {l front back : List α}
    (h : (a :: l).mergeSort le = front ++ a :: back) : ∀ b ∈ back, le a b = true := by
  have hsorted := pairwise_mergeSort htrans htotal (a :: l)
  rw [h] at hsorted
  exact (pairwise_cons.1 (pairwise_append.1 hsorted).2.1).1

/-- A list that splits into elements with a property and elements without it does so in one way. -/
theorem front_eq_filter {p : α → Bool} {front back : List α} (hfront : ∀ b ∈ front, p b = true)
    (hback : ∀ b ∈ back, p b = false) : (front ++ back).filter p = front := by
  have hnone : back.filter p = [] := filter_eq_nil_iff.2 fun b hb => by simp [hback b hb]
  rw [filter_append, filter_eq_self.2 hfront, hnone, append_nil]

/-- Leaving out elements before sorting or after it comes to the same. -/
theorem filter_mergeSort (htrans : ∀ a b c, le a b → le b c → le a c)
    (htotal : ∀ a b, le a b || le b a) (p : α → Bool) (l : List α) :
    (l.mergeSort le).filter p = (l.filter p).mergeSort le := by
  induction l with
  | nil => simp
  | cons a l ih =>
    obtain ⟨front, back, hsorted, hrest, hfront⟩ := mergeSort_cons htrans htotal a l
    have hback := le_of_mem_back htrans htotal hsorted
    rw [hrest, filter_append] at ih
    by_cases ha : p a = true
    · obtain ⟨front', back', hsorted', hrest', hfront'⟩ :=
        mergeSort_cons htrans htotal a (l.filter p)
      have hback' := le_of_mem_back htrans htotal hsorted'
      -- the element goes where the elements begin that are not smaller: there is one such place
      have hsame : front.filter p ++ back.filter p = front' ++ back' := ih.trans hrest'
      have hfronts : front.filter p = front' := by
        have hleft : (front.filter p ++ back.filter p).filter (fun b => !le a b) = front.filter p :=
          front_eq_filter (fun b hb => hfront b (mem_of_mem_filter hb))
            fun b hb => by simp [hback b (mem_of_mem_filter hb)]
        have hright : (front' ++ back').filter (fun b => !le a b) = front' :=
          front_eq_filter hfront' fun b hb => by simp [hback' b hb]
        rw [← hleft, hsame, hright]
      have hbacks : back.filter p = back' := by
        rw [hfronts] at hsame
        exact append_cancel_left hsame
      rw [hsorted, filter_append, filter_cons_of_pos ha, filter_cons_of_pos ha,
        hsorted', hfronts, hbacks]
    · rw [hsorted, filter_append, filter_cons_of_neg ha, filter_cons_of_neg ha, ih]

end Sorting

namespace Project.Index

variable {fs : Storage.FileSystem} {root : Storage.Path} {settings : Settings} {idx : Index}

theorem settings_of_build_ (h : build_ fs root settings = .ok idx) : idx.settings = settings := by
  rw [eq_ofPaths_of_build_ h]
  rfl

theorem isTest_of_build_ (h : build_ fs root settings = .ok idx) :
    ∀ f ∈ idx.files, f.isTest = isTestFile idx.settings.testFilePatterns f.relPath := by
  rw [settings_of_build_ h]
  refine files_of_build_
    (P := fun files => ∀ f ∈ files, f.isTest = isTestFile settings.testFilePatterns f.relPath) h
    (by simp) fun files p path tree _ hfiles f hf => ?_
  rcases Array.mem_push.1 hf with hf | rfl
  · exact hfiles f hf
  · rfl

end Project.Index

namespace Query

theorem locationLe_iff {a b : String × Nat} :
    locationLe a b = true ↔ a.1 < b.1 ∨ a.1 = b.1 ∧ a.2 ≤ b.2 := by
  unfold locationLe
  by_cases hlt : a.1 < b.1
  · simp [hlt]
  · by_cases hgt : b.1 < a.1
    · have hne : a.1 ≠ b.1 := fun heq => String.lt_irrefl a.1 (heq ▸ hgt)
      simp [hlt, hgt, hne]
    · simp [String.le_antisymm hgt hlt]

theorem locationLe_trans (a b c : String × Nat) (hab : locationLe a b = true)
    (hbc : locationLe b c = true) : locationLe a c = true := by
  rw [locationLe_iff] at hab hbc ⊢
  rcases hab with hab | ⟨hab, hab'⟩
  · rcases hbc with hbc | ⟨hbc, -⟩
    · exact .inl (String.lt_trans hab hbc)
    · exact .inl (hbc ▸ hab)
  · rw [hab]
    exact hbc.imp_right fun hbc => ⟨hbc.1, hab'.trans hbc.2⟩

theorem locationLe_total (a b : String × Nat) : (locationLe a b || locationLe b a) = true := by
  rw [Bool.or_eq_true, locationLe_iff, locationLe_iff]
  by_cases hlt : a.1 < b.1
  · exact .inl (.inl hlt)
  · by_cases hgt : b.1 < a.1
    · exact .inr (.inl hgt)
    · have heq : a.1 = b.1 := String.le_antisymm hgt hlt
      exact (Nat.le_total a.2 b.2).imp (fun hle => .inr ⟨heq, hle⟩) fun hle => .inr ⟨heq.symm, hle⟩

/-! ## Searches that stop early -/

namespace References

/-- All references but those in lists of exports without a source. -/
def outsideLists : SearchOptions := { everywhere with skipLocalExports := true }

theorem inFiles_eq_nil_iff (search : SourceFile → List ReferenceSite) (firstOnly : Bool)
    (files : List SourceFile) :
    inFiles search firstOnly files = [] ↔ ∀ f ∈ files, search f = [] := by
  induction files with
  | nil => simp [inFiles]
  | cons f files ih =>
    rw [forall_mem_cons, ← ih, inFiles.eq_2]
    by_cases hfound : (firstOnly && !(search f).isEmpty) = true
    · have hne : search f ≠ [] := by simpa using (Bool.and_eq_true_iff.1 hfound).2
      simp [hfound, hne]
    · simp [hfound]

/-- The files in which a search looks for a symbol. -/
def searchedFiles (idx : Index) (target : Symbol) : List SourceFile :=
  (idx.filesWithAnyToken (searchNames idx target.name)).filter (·.isUser)

theorem sites_eq_nil_iff (idx : Index) (target : Symbol) (firstOnly : Bool) :
    (find idx target { outsideLists with firstOnly }).sites = [] ↔
      ∀ f ∈ searchedFiles idx target,
        inFile idx (searchNames idx target.name) target.keys true f = [] := by
  have hsites : (find idx target { outsideLists with firstOnly }).sites =
      (inFiles (inFile idx (searchNames idx target.name) target.keys true) firstOnly
        ((idx.filesWithAnyToken (searchNames idx target.name)).filter fun f =>
          f.isUser && (true || !f.isTest))).mergeSort siteLe := rfl
  have hnil {l : List ReferenceSite} : l.mergeSort siteLe = [] ↔ l = [] := by
    rw [← length_eq_zero_iff, length_mergeSort, length_eq_zero_iff]
  rw [hsites, hnil, inFiles_eq_nil_iff]
  simp only [Bool.true_or, Bool.and_true, searchedFiles]

/-- Whether no identifier refers to a symbol but those that name its declarations. -/
def isAlone (idx : Index) (target : Symbol) : Bool :=
  idx.files.toList.all fun f => (SourceFile.identifiers f.tree).all fun n =>
    !refersTo idx target.keys f n || target.keys.contains ⟨f.id, n.startByte⟩

theorem sites_eq_nil_of_isAlone {idx : Index} {target : Symbol} (h : isAlone idx target = true) :
    (find idx target outsideLists).sites = [] := by
  refine (sites_eq_nil_iff idx target false).2 fun f hf => ?_
  have hfile := Index.mem_files_of_mem_filterMap_file? (mem_of_mem_filter hf)
  refine map_eq_nil_iff.2 (filter_eq_nil_iff.2 fun n hn hrefers => ?_)
  obtain ⟨hn, hcandidate⟩ := mem_filter.1 hn
  have halone := all_eq_true.1 (all_eq_true.1 h f hfile) n hn
  rw [hrefers, Bool.not_true, Bool.false_or, contains_iff_mem] at halone
  simp [isCandidate, halone] at hcandidate

end References

namespace DeadCode

theorem isUnreferenced_iff {idx : Index} {d : Declaration} :
    isUnreferenced idx d = true ↔
      (References.find idx (idx.merged d) References.outsideLists).sites = [] := by
  have hfull := References.sites_eq_nil_iff idx (idx.merged d) false
  have hfirst := References.sites_eq_nil_iff idx (idx.merged d) true
  exact List.isEmpty_iff.trans (hfirst.trans hfull.symm)

/-! ## Scans -/

/-- A scan has found the first of the given items, all of them unless it is full, and enough if it
is. -/
structure Scan.Covers (cap : Nat) (items : List Item) (s : Scan) : Prop where
  found : s.items <+: items
  all : s.full = false → s.items = items
  enough : s.full = true → cap ≤ s.items.length

theorem Scan.Covers.of_open {cap : Nat} {s : Scan} (hs : s.full = false) : s.Covers cap s.items :=
  ⟨prefix_rfl, fun _ => rfl, fun hfull => absurd hfull (by simp [hs])⟩

theorem Scan.Covers.items_eq {cap : Nat} {items : List Item} {s : Scan} (h : s.Covers cap items)
    (hlt : s.items.length < cap) : s.items = items := by
  refine h.all (Bool.eq_false_iff.2 fun hfull => ?_)
  have henough := h.enough hfull
  omega

section Runs

variable (unreferenced : Declaration → Bool) (cap : Nat)

theorem covers_scanDeclarations (s : Scan) (hs : s.full = false) (ds : List Declaration) :
    (scanDeclarations unreferenced cap s ds).Covers cap
      (s.items ++ (ds.filter unreferenced).map item) := by
  induction ds generalizing s with
  | nil => simpa [scanDeclarations] using Scan.Covers.of_open hs
  | cons d rest ih =>
    unfold scanDeclarations
    by_cases hd : unreferenced d = true
    · rw [filter_cons_of_pos hd, map_cons, append_cons]
      simp only [hd, if_true]
      split
      · next hcap => exact ⟨prefix_append _ _, nofun, fun _ => hcap⟩
      · exact ih { s with declarations := s.declarations + 1, items := s.items ++ [item d] } hs
    · rw [filter_cons_of_neg hd]
      simp only [hd, Bool.false_eq_true, if_false]
      exact ih { s with declarations := s.declarations + 1 } hs

theorem covers_scanFiles {judged : SourceFile → List Declaration} (s : Scan) (hs : s.full = false)
    (files : List SourceFile) :
    (scanFiles unreferenced judged cap s files).Covers cap
      (s.items ++ (files.flatMap fun f => (judged f).filter unreferenced).map item) := by
  induction files generalizing s with
  | nil => simpa [scanFiles] using Scan.Covers.of_open hs
  | cons f rest ih =>
    have hfile := covers_scanDeclarations unreferenced cap { s with files := s.files + 1 } hs
      (judged f)
    rw [flatMap_cons, map_append, ← append_assoc]
    unfold scanFiles
    dsimp only
    split
    · next hfull =>
      exact ⟨hfile.found.trans (prefix_append _ _), fun hopen => absurd hfull (by simp [hopen]),
        hfile.enough⟩
    · next hopen =>
      have hopen := Bool.eq_false_iff.2 hopen
      rw [← hfile.all hopen]
      exact ih _ hopen

end Runs

/-! ## Findings -/

/-- What is to be reported, in the order of the scan. -/
def findings (idx : Index) (options : Options) (include_ exclude : List Pattern.Glob) :
    List Declaration :=
  (idx.userFiles.filter (scansFile options include_ exclude)).flatMap fun f =>
    (judgedDeclarations idx options f).filter (isUnreferenced idx)

namespace Options

def cap (options : Options) (settings : Settings) : Nat :=
  options.maxResults.getD settings.deadCodeMaxResults

def time (options : Options) (settings : Settings) : Nat :=
  options.timeoutMs.getD settings.deadCodeTimeoutMs

def everything (maxResults timeoutMs : Option Nat) : Options :=
  { inclusive := true, includeTests := true, kinds := [], include_ := [], exclude := []
    maxResults, timeoutMs }

/-- Whether the options ask for an item, by its file, its kind and whether it is exported. -/
def admits (options : Options) (testFilePatterns : List String)
    (include_ exclude : List Pattern.Glob) (i : Item) : Bool :=
  (options.includeTests || !isTestFile testFilePatterns i.file)
    && (include_.isEmpty || include_.any (·.accepts i.file))
    && !exclude.any (·.accepts i.file)
    && (options.kinds.isEmpty || options.kinds.contains i.kind)
    && (i.exported || options.inclusive)

end Options

theorem flatMap_filter {α β : Type} (p : α → Bool) (g : α → List β) (l : List α) :
    (l.filter p).flatMap g = l.flatMap fun a => if p a then g a else [] := by
  induction l with
  | nil => rfl
  | cons a l ih => by_cases ha : p a = true <;> simp [ha, ih]

def itemLe (a b : Item) : Bool := locationLe (a.file, a.line) (b.file, b.line)

section Detection

variable {idx : Index} {options : Options} {include_ exclude : List Pattern.Glob}
variable (idx options include_ exclude) in
def finalScan : Scan :=
  scanFiles (isUnreferenced idx) (judgedDeclarations idx options) (options.cap idx.settings)
    { items := [], files := 0, declarations := 0, full := false }
    (idx.userFiles.filter (scansFile options include_ exclude))

variable (idx options include_ exclude) in
theorem covers_finalScan : (finalScan idx options include_ exclude).Covers (options.cap idx.settings)
    ((findings idx options include_ exclude).map item) :=
  covers_scanFiles (isUnreferenced idx) _ ⟨[], 0, 0, false⟩ rfl _

variable (hinclude : compileGlobs options.include_ = .ok include_)
  (hexclude : compileGlobs options.exclude = .ok exclude) (htime : options.time idx.settings ≠ 0)

include hinclude hexclude htime

theorem detect_eq_finalScan :
    detect idx options = .ok
      { items := (finalScan idx options include_ exclude).items.mergeSort itemLe
        summary :=
          { scannedFiles := (finalScan idx options include_ exclude).files
            scannedDeclarations := (finalScan idx options include_ exclude).declarations
            found := (finalScan idx options include_ exclude).items.length
            partly := (finalScan idx options include_ exclude).full
            timedOut := false } } := by
  have hexpired : Deadline.expired ⟨options.time idx.settings⟩ = false := by
    simpa [Deadline.expired] using htime
  unfold detect
  rw [hinclude, hexclude]
  change (if Deadline.expired ⟨options.time idx.settings⟩ = true then _ else _) = _
  rw [hexpired]
  rfl

/-- A scan reports no more than its findings, and all of them when it has found less than is
enough. -/
theorem detect_eq_ok :
    ∃ report, detect idx options = .ok report ∧
      report.items.length ≤ (findings idx options include_ exclude).length ∧
      (report.items.length < options.cap idx.settings →
        report.items = ((findings idx options include_ exclude).map item).mergeSort itemLe) := by
  have hcovers := covers_finalScan idx options include_ exclude
  refine ⟨_, detect_eq_finalScan hinclude hexclude htime, ?_, fun hlt => ?_⟩
  · simpa using hcovers.found.length_le
  · rw [length_mergeSort] at hlt
    exact congrArg (List.mergeSort · itemLe) (hcovers.items_eq hlt)

end Detection

theorem itemLe_trans (a b c : Item) : itemLe a b = true → itemLe b c = true → itemLe a c = true :=
  locationLe_trans _ _ _

theorem itemLe_total (a b : Item) : (itemLe a b || itemLe b a) = true := locationLe_total _ _

section Filtering

variable {idx : Index} {testFilePatterns : List String}

theorem judgedDeclarations_eq_filter (options : Options) (maxResults timeoutMs : Option Nat)
    (f : SourceFile) :
    judgedDeclarations idx options f =
      (judgedDeclarations idx (.everything maxResults timeoutMs) f).filter fun d =>
        (options.kinds.isEmpty || options.kinds.contains d.effectiveKind)
          && (d.isExported || options.inclusive) := by
  unfold judgedDeclarations scannedDeclarations
  simp only [filter_filter]
  refine filter_congr fun d _ => ?_
  simp only [Options.everything, isEmpty_nil, Bool.true_or, Bool.or_true, Bool.and_true]
  ac_rfl

theorem mem_findings_iff {options : Options} {include_ exclude : List Pattern.Glob}
    {d : Declaration} :
    d ∈ findings idx options include_ exclude ↔
      ∃ f ∈ idx.userFiles, scansFile options include_ exclude f = true ∧
        d ∈ scannedDeclarations options f ∧ (idx.merged d).first.sameAs d = true ∧
        (References.find idx (idx.merged d) References.outsideLists).sites = [] := by
  simp only [findings, judgedDeclarations, mem_flatMap, mem_filter, isUnreferenced_iff,
    and_assoc]

theorem length_findings_le (options : Options) (include_ exclude : List Pattern.Glob) :
    (findings idx options include_ exclude).length ≤
      (idx.userFiles.flatMap SourceFile.topDeclarations).length := by
  have hfiles : List.Sublist (findings idx options include_ exclude)
      ((idx.userFiles.filter (scansFile options include_ exclude)).flatMap
        SourceFile.topDeclarations) := by
    refine List.Sublist.flatMap_right _ fun f _ => ?_
    exact filter_sublist.trans (filter_sublist.trans filter_sublist)
  exact (hfiles.trans (filter_sublist.flatMap SourceFile.topDeclarations)).length_le

theorem length_items_le {options : Options} {include_ exclude : List Pattern.Glob}
    (hinclude : compileGlobs options.include_ = .ok include_)
    (hexclude : compileGlobs options.exclude = .ok exclude) (htime : options.time idx.settings ≠ 0)
    {report : Report} (h : detect idx options = .ok report) :
    report.items.length ≤ (idx.userFiles.flatMap SourceFile.topDeclarations).length := by
  obtain ⟨report', h', hle, -⟩ := detect_eq_ok hinclude hexclude htime
  obtain rfl := Except.ok.inj (h.symm.trans h')
  exact hle.trans (length_findings_le options include_ exclude)

theorem mem_scannedDeclarations_everything {maxResults timeoutMs : Option Nat} {f : SourceFile}
    {d : Declaration} :
    d ∈ scannedDeclarations (.everything maxResults timeoutMs) f ↔
      d ∈ f.topDeclarations ∧ d.kind ∈ scannedKinds := by
  simp [scannedDeclarations, SourceFile.topDeclarations, Options.everything]

/-- The findings of a scan are those of the widest scan that its options ask for. -/
theorem findings_eq_filter
    (htests : ∀ f ∈ idx.files, f.isTest = isTestFile testFilePatterns f.relPath) (options : Options)
    (include_ exclude : List Pattern.Glob) (maxResults timeoutMs : Option Nat) :
    findings idx options include_ exclude =
      (findings idx (.everything maxResults timeoutMs) [] []).filter fun d =>
        options.admits testFilePatterns include_ exclude (item d) := by
  have hall : idx.userFiles.filter (scansFile (.everything maxResults timeoutMs) [] []) =
      idx.userFiles := filter_eq_self.2 fun _ _ => rfl
  unfold findings
  rw [hall, filter_flatMap, flatMap_filter]
  refine flatMap_congr fun f hf => ?_
  have htest := htests f (Array.mem_toList_iff.1 (mem_of_mem_filter hf))
  have hadmits : ∀ d ∈ (judgedDeclarations idx (.everything maxResults timeoutMs) f).filter
        (isUnreferenced idx),
      options.admits testFilePatterns include_ exclude (item d) =
        (scansFile options include_ exclude f &&
          ((options.kinds.isEmpty || options.kinds.contains d.effectiveKind)
            && (d.isExported || options.inclusive))) := by
    intro d hd
    have hfile : d.file = f := SourceFile.file_of_mem_topDeclarations
      (mem_of_mem_filter (mem_of_mem_filter (mem_of_mem_filter hd)))
    simp only [Options.admits, scansFile, item, hfile, htest, Bool.and_assoc]
  -- what is left out with its file is left out declaration by declaration
  rw [judgedDeclarations_eq_filter options maxResults timeoutMs, filter_comm,
    filter_congr hadmits]
  by_cases hscans : scansFile options include_ exclude f = true <;> simp [hscans]

end Filtering

/-- The options of a scan only filter. With patterns that can be read and time to scan, a scan and the
widest scan both give a report; and when neither has come upon as many items as are enough, the items
of the first are those items of the second, in the same order, that the options ask for. The widest
scan reports exactly the declarations directly in the user's files that are of a scanned kind, come
first among those they belong together with, and are referred to nowhere, which the search that does
not stop at the first reference confirms. -/
theorem detect_eq_filter {fs : Storage.FileSystem} {root : Storage.Path} {settings : Settings}
    {idx : Index} (h : Index.build_ fs root settings = .ok idx) (options : Options)
    {include_ exclude : List Pattern.Glob}
    (hinclude : compileGlobs options.include_ = .ok include_)
    (hexclude : compileGlobs options.exclude = .ok exclude) (maxResults timeoutMs : Option Nat)
    (htime : options.time settings ≠ 0)
    (htime' : (Options.everything maxResults timeoutMs).time settings ≠ 0) :
    ∃ report all, detect idx options = .ok report ∧
      detect idx (.everything maxResults timeoutMs) = .ok all ∧
      (all.items.length < (Options.everything maxResults timeoutMs).cap settings →
        (report.items.length < options.cap settings →
          report.items =
            all.items.filter (options.admits settings.testFilePatterns include_ exclude)) ∧
        ∀ i, i ∈ all.items ↔ ∃ f ∈ idx.userFiles, ∃ d ∈ f.topDeclarations,
          d.kind ∈ scannedKinds ∧ (idx.merged d).first.sameAs d = true ∧
          (References.find idx (idx.merged d) References.outsideLists).sites = [] ∧ i = item d) := by
  obtain rfl := settings_of_build_ h
  obtain ⟨report, hreport, -, hitems⟩ := detect_eq_ok hinclude hexclude htime
  have hnone : compileGlobs [] = .ok [] := rfl
  obtain ⟨all, hall, -, hallItems⟩ := detect_eq_ok hnone hnone htime'
  refine ⟨report, all, hreport, hall, fun hcap' => ⟨fun hcap => ?_, fun i => ?_⟩⟩
  · rw [hitems hcap, hallItems hcap', filter_mergeSort itemLe_trans itemLe_total, filter_map,
      findings_eq_filter (isTest_of_build_ h) options include_ exclude maxResults timeoutMs]
    rfl
  · rw [hallItems hcap', mem_mergeSort, mem_map]
    constructor
    · rintro ⟨d, hd, rfl⟩
      obtain ⟨f, hf, -, hd, hfirst, hsites⟩ := mem_findings_iff.1 hd
      obtain ⟨htop, hkind⟩ := mem_scannedDeclarations_everything.1 hd
      exact ⟨f, hf, d, htop, hkind, hfirst, hsites, rfl⟩
    · rintro ⟨f, hf, d, htop, hkind, hfirst, hsites, rfl⟩
      have hd : d ∈ scannedDeclarations (.everything maxResults timeoutMs) f :=
        mem_scannedDeclarations_everything.2 ⟨htop, hkind⟩
      exact ⟨d, mem_findings_iff.2 ⟨f, hf, rfl, hd, hfirst, hsites⟩, rfl⟩

/-- Whether a project has few declarations, and among them one with the given name that is not exported
and that is alone. -/
def hasHidden (name : String) (idx : Index) : Bool :=
  (idx.userFiles.flatMap SourceFile.topDeclarations).length < 500
    && idx.userFiles.any fun f => f.topDeclarations.any fun d =>
      d.name == name && !d.isExported && scannedKinds.contains d.kind
        && (idx.merged d).first.sameAs d && References.isAlone idx (idx.merged d)

/-- In the project of one file the widest scan reports the variable that is not exported, which the
scan by default leaves out. -/
theorem loneModule_filtered : ∃ report all,
    Index.build_ Index.loneModule ⟨["app"]⟩ .default = .ok Index.loneIndex ∧
      detect Index.loneIndex .default = .ok report ∧
      detect Index.loneIndex (.everything none none) = .ok all ∧
      report.items =
        all.items.filter (Options.default.admits Settings.default.testFilePatterns [] []) ∧
      ∃ i ∈ all.items, i.name = "c" ∧ i ∉ report.items := by
  have h := Index.build_loneModule
  obtain ⟨hfew, hidx⟩ := Bool.and_eq_true_iff.1
    (show hasHidden "c" Index.loneIndex = true by decide +kernel)
  obtain ⟨f, hf, hidx⟩ := any_eq_true.1 hidx
  obtain ⟨d, hd, hidx⟩ := any_eq_true.1 hidx
  simp only [Bool.and_eq_true, beq_iff_eq, Bool.not_eq_true', contains_iff_mem,
    decide_eq_true_eq] at hidx hfew
  obtain ⟨⟨⟨⟨hname, hhidden⟩, hkind⟩, hfirst⟩, halone⟩ := hidx
  have hsites := References.sites_eq_nil_of_isAlone halone
  have hglobs : compileGlobs [] = .ok [] := rfl
  obtain ⟨report, all, hreport, hall, hitems⟩ :=
    detect_eq_filter h .default hglobs hglobs none none (by decide) (by decide)
  have hcap : report.items.length < 500 :=
    Nat.lt_of_le_of_lt (length_items_le hglobs hglobs (by decide) hreport) hfew
  have hcap' : all.items.length < 500 :=
    Nat.lt_of_le_of_lt (length_items_le hglobs hglobs (by decide) hall) hfew
  obtain ⟨hfilter, hmem⟩ := hitems hcap'
  refine ⟨report, all, h, hreport, hall, hfilter hcap, item d,
    (hmem (item d)).2 ⟨f, hf, d, hd, hkind, hfirst, hsites, rfl⟩, hname, ?_⟩
  rw [hfilter hcap, mem_filter]
  simp [Options.admits, Options.default, item, hhidden]

end DeadCode

end Query

end ScriptAtlas
