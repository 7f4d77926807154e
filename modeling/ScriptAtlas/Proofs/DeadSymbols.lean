import ScriptAtlas.Proofs.DeadCodeFilters

/-!
# Dead code and declarations that belong together

What several declarations make together is judged at the first of them. Directly in a file the
declarations that belong together are those with one name, imports included, as long as none of them
gives its own name another meaning inside itself. A scan that leaves out the first one, for its kind or
because it is not exported, therefore leaves out all of them.

* `Declaration.isShadowed`: a declaration inside which its name means something else;
* `Index.declarations_merged`: what belongs together with a declaration directly in a file;
* `DeadCode.symbol_reported_iff`: what nothing refers to is reported just when its first declaration is
  to be judged.
-/

namespace ScriptAtlas

open List Project Syntax

theorem Symbol.eq_of_declarations {s t : Symbol} (h : s.declarations = t.declarations) : s = t := by
  cases s
  cases t
  obtain ⟨rfl, rfl⟩ := List.cons.inj h
  rfl

/-! ## Names that a file decides -/

namespace Scope

variable {file : SourceFile} {place scope : Node} {name : String} {meaning : Meaning}

theorem local_of_path {inner outer : List Node}
    (hpath : place :: place.ancestors = inner ++ scope :: outer)
    (hinner : ∀ s ∈ inner, (declarations file s meaning).any (·.name == name) = false)
    (hscope : (declarations file scope meaning).filter (·.name == name) ≠ []) :
    local_ file place name meaning = (declarations file scope meaning).filter (·.name == name) := by
  have hnone : ∀ s ∈ inner, (declarations file s meaning).filter (·.name == name) = [] := by
    intro s hs
    exact filter_eq_nil_iff.2 (any_eq_false.1 (hinner s hs))
  unfold local_
  rw [hpath]
  clear hpath hinner
  induction inner with
  | nil =>
    have hsome : ((declarations file scope meaning).filter (·.name == name)).isEmpty = false :=
      isEmpty_eq_false_iff.2 hscope
    simp only [nil_append, findSome?_cons, hsome, Bool.false_eq_true, if_false,
      Option.getD_some]
  | cons s inner ih =>
    have hs := hnone s mem_cons_self
    rw [cons_append, findSome?_cons_of_isNone]
    · exact ih fun t ht => hnone t (mem_cons_of_mem _ ht)
    · simp [hs]

end Scope

/-- What a file declares under a name, imports included. -/
def Project.SourceFile.namesakes (f : SourceFile) (name : String) : List Declaration :=
  (Scope.declarations f f.root .any).filter (·.name == name)

/-- Whether the name of a declaration means something else inside the declaration, or around it below
its file. -/
def Declaration.isShadowed (d : Declaration) : Bool :=
  ((d.node :: d.node.ancestors).takeWhile (!·.hasKind .program)).any fun scope =>
    (Scope.declarations d.file scope .any).any (·.name == d.name)

namespace Project.SourceFile

variable {f : SourceFile} {d : Declaration}

theorem mem_namesakes_of_mem_topDeclarations (ht : f.tree.IsParsed) (h : d ∈ f.topDeclarations) :
    d ∈ f.namesakes d.name := by
  have hlist : d ∈ Scope.listDeclarations f f.root .any :=
    mem_filter.2 ⟨mem_append_left _ h, rfl⟩
  have hroot : f.root.kind? = some .program := ht.kind?_root
  refine mem_filter.2 ⟨mem_filter.2 ⟨?_, rfl⟩, beq_self_eq_true _⟩
  rw [hroot]
  exact mem_append_left _ (mem_append_left _ hlist)

theorem file_of_mem_namesakes {name : String} (h : d ∈ f.namesakes name) : d.file = f :=
  (Scope.liesIn_of_mem_declarations rfl (mem_of_mem_filter h)).file_eq

/-- The name of a declaration that nothing shadows means at the declaration what its file declares
under it. -/
theorem local_of_mem_topDeclarations (ht : f.tree.IsParsed) (h : d ∈ f.topDeclarations)
    (hclear : d.isShadowed = false) :
    Scope.local_ f d.node d.name .any = f.namesakes d.name := by
  obtain ⟨wrappers, hpath, hkinds⟩ := ancestors_of_mem_topDeclarations ht h
  have hbelow : ∀ s ∈ d.node :: wrappers, (!s.hasKind .program) = true := by
    refine forall_mem_cons.2 ⟨?_, fun w hw => ?_⟩
    · obtain ⟨stmt, -, hmakes⟩ := exists_makes_of_mem_topDeclarations h
      rw [Node.hasKind_of_hasKindIn hmakes.hasKindIn (by decide)]
      rfl
    · rw [Node.hasKind_of_hasKindIn (hkinds w hw) (by decide)]
      rfl
  have hfile : (!f.root.hasKind .program) = false := by
    rw [Node.hasKind, root, ht.kind?_root]
    rfl
  have hway : d.node :: d.node.ancestors = (d.node :: wrappers) ++ [f.root] := by
    rw [hpath, cons_append]
  refine Scope.local_of_path hway ?_
    (ne_nil_of_mem (mem_namesakes_of_mem_topDeclarations ht h))
  rw [Declaration.isShadowed, hway, takeWhile_append_of_pos hbelow,
    takeWhile_cons_of_neg (by simp [hfile]), append_nil, file_of_mem_topDeclarations h,
    any_eq_false] at hclear
  exact fun s hs => Bool.eq_false_iff.2 (hclear s hs)

end Project.SourceFile

namespace Project.Index

variable (idx : Index) {f : SourceFile} {d e : Declaration}

/-- With a declaration directly in a file that nothing shadows belongs what the file declares under
its name. -/
theorem declarations_merged (ht : f.tree.IsParsed) (h : d ∈ f.topDeclarations)
    (hkind : d.kind ∈ Query.DeadCode.scannedKinds) (hclear : d.isShadowed = false) :
    (idx.merged d).declarations = f.namesakes d.name := by
  have hfile := SourceFile.file_of_mem_topDeclarations h
  have hmem := SourceFile.mem_namesakes_of_mem_topDeclarations ht h
  obtain ⟨s, hs⟩ : ∃ s, Symbol.ofList? (f.namesakes d.name) = some s := by
    cases hlist : f.namesakes d.name with
    | nil =>
      rw [hlist] at hmem
      cases hmem
    | cons e es => exact ⟨⟨e, es⟩, rfl⟩
  have hdecls := (Symbol.ofList?_eq_some_iff _ _).1 hs
  have hresolve : idx.resolveName d.file d.node d.name .any = some s := by
    rw [resolveName, hfile, SourceFile.local_of_mem_topDeclarations ht h hclear, hs]
    rfl
  have hcontains : s.contains d = true := by
    refine any_eq_true.2 ⟨d, hdecls ▸ hmem, ?_⟩
    simp [Declaration.sameAs]
  have hmember : ∀ k ∈ Query.DeadCode.scannedKinds, k.isMember = false := by decide
  have howner : d.owner? = none := by
    rw [Declaration.owner?, hmember d.kind hkind]
    rfl
  rw [← hdecls, merged, howner]
  dsimp only
  split
  iterate 3
    next heq =>
      rw [heq] at hkind
      exact absurd hkind (by decide)
  · have hfilter : (some s).filter (·.contains d) = some s := Option.filter_some_pos hcontains
    rw [hresolve, hfilter, Option.getD_some]

theorem merged_eq_of_name_eq (ht : f.tree.IsParsed) (hd : d ∈ f.topDeclarations)
    (he : e ∈ f.topDeclarations) (hname : e.name = d.name)
    (hkind : d.kind ∈ Query.DeadCode.scannedKinds) (hkind' : e.kind ∈ Query.DeadCode.scannedKinds)
    (hclear : d.isShadowed = false) (hclear' : e.isShadowed = false) :
    idx.merged e = idx.merged d := by
  apply Symbol.eq_of_declarations
  rw [declarations_merged idx ht hd hkind hclear, declarations_merged idx ht he hkind' hclear', hname]

end Project.Index

/-! ## What a scan reports -/

namespace Query.DeadCode

theorem mem_scannedDeclarations {options : Options} {f : SourceFile} {d : Declaration}
    (h : d ∈ scannedDeclarations options f) : d ∈ f.topDeclarations ∧ d.kind ∈ scannedKinds := by
  obtain ⟨htop, hjudged⟩ := mem_filter.1 h
  simp only [Bool.and_eq_true, contains_iff_mem] at hjudged
  exact ⟨htop, hjudged.1.1⟩

section Symbols

variable {idx : Index} {options : Options} {include_ exclude : List Pattern.Glob} {f : SourceFile}
  {d : Declaration}

/-- What nothing refers to is found at its first declaration or not at all. -/
theorem exists_mem_findings_iff (ht : f.tree.IsParsed) (hf : f ∈ idx.userFiles)
    (hscans : scansFile options include_ exclude f = true) (hd : d ∈ scannedDeclarations options f)
    (hclear : ∀ e ∈ f.topDeclarations, e.name = d.name → e.isShadowed = false)
    (hsites : (References.find idx (idx.merged d) References.outsideLists).sites = []) :
    (∃ e ∈ (idx.merged d).declarations, e ∈ findings idx options include_ exclude) ↔
      ∃ e ∈ (idx.merged d).declarations,
        (idx.merged d).first.sameAs e = true ∧ e ∈ scannedDeclarations options f := by
  obtain ⟨htop, hkind⟩ := mem_scannedDeclarations hd
  have hmerged := idx.declarations_merged ht htop hkind (hclear d htop rfl)
  -- the scanned declarations among those that belong together agree on what that is
  have hsame : ∀ e ∈ (idx.merged d).declarations, e ∈ scannedDeclarations options f →
      idx.merged e = idx.merged d := by
    intro e he hscanned
    obtain ⟨htop', hkind'⟩ := mem_scannedDeclarations hscanned
    rw [hmerged] at he
    have hname : e.name = d.name := eq_of_beq (mem_filter.1 he).2
    exact idx.merged_eq_of_name_eq ht htop htop' hname hkind hkind' (hclear d htop rfl)
      (hclear e htop' hname)
  constructor
  · rintro ⟨e, he, hfound⟩
    obtain ⟨g, -, -, hscanned, hfirst, -⟩ := mem_findings_iff.1 hfound
    have hfile : g = f := by
      rw [← SourceFile.file_of_mem_topDeclarations (mem_scannedDeclarations hscanned).1]
      exact SourceFile.file_of_mem_namesakes (hmerged ▸ he)
    rw [hfile] at hscanned
    exact ⟨e, he, hsame e he hscanned ▸ hfirst, hscanned⟩
  · rintro ⟨e, he, hfirst, hscanned⟩
    have hmerge := hsame e he hscanned
    exact ⟨e, he, mem_findings_iff.2
      ⟨f, hf, hscans, hscanned, hmerge ▸ hfirst, hmerge ▸ hsites⟩⟩

end Symbols

/-- Whether what several declarations make together is reported depends on the first of them. With
patterns that can be read and time to scan, a scan gives a report; when it has not come upon as many
items as are enough, and nothing refers to what a declaration directly in a scanned file belongs to,
then one of the declarations that belong together is reported exactly when the scan is to judge the
first of them, by its kind and whether it is exported. No declaration of that name directly in the file
may give the name another meaning inside itself. -/
theorem symbol_reported_iff {idx : Index} (hparsed : idx.Parsed) (options : Options)
    {include_ exclude : List Pattern.Glob}
    (hinclude : compileGlobs options.include_ = .ok include_)
    (hexclude : compileGlobs options.exclude = .ok exclude)
    (htime : options.time idx.settings ≠ 0) :
    ∃ report, detect idx options = .ok report ∧
      (report.items.length < options.cap idx.settings →
        report.items = ((findings idx options include_ exclude).map item).mergeSort itemLe ∧
        ∀ f ∈ idx.userFiles, scansFile options include_ exclude f = true →
          ∀ d ∈ scannedDeclarations options f,
            (∀ e ∈ f.topDeclarations, e.name = d.name → e.isShadowed = false) →
            (References.find idx (idx.merged d) References.outsideLists).sites = [] →
            ((∃ e ∈ (idx.merged d).declarations, e ∈ findings idx options include_ exclude) ↔
              ∃ e ∈ (idx.merged d).declarations,
                (idx.merged d).first.sameAs e = true ∧ e ∈ scannedDeclarations options f)) := by
  obtain ⟨report, hreport, -, hitems⟩ := detect_eq_ok hinclude hexclude htime
  refine ⟨report, hreport, fun hcap => ⟨hitems hcap, ?_⟩⟩
  intro f hf hscans d hd hclear hsites
  exact exists_mem_findings_iff (hparsed f (mem_of_mem_filter hf)) hf hscans hd hclear hsites

/-! ## Two parts under one name -/

/-- Whether a scan by default is to judge a declaration that is alone and not shadowed, but not the
first of those that belong together. -/
def hasLaterPart (idx : Index) : Bool :=
  idx.userFiles.any fun f => scansFile .default [] [] f
    && (scannedDeclarations .default f).any fun d => !(idx.merged d).first.sameAs d
      && f.topDeclarations.all (fun e => e.name != d.name || !e.isShadowed)
      && References.isAlone idx (idx.merged d)

theorem exists_of_hasLaterPart {idx : Index} (h : hasLaterPart idx = true) :
    ∃ f ∈ idx.userFiles, scansFile .default [] [] f = true ∧
      ∃ d ∈ scannedDeclarations .default f, (idx.merged d).first.sameAs d = false ∧
        (∀ e ∈ f.topDeclarations, e.name = d.name → e.isShadowed = false) ∧
        (References.find idx (idx.merged d) References.outsideLists).sites = [] := by
  obtain ⟨f, hf, h⟩ := any_eq_true.1 h
  obtain ⟨hscans, h⟩ := Bool.and_eq_true_iff.1 h
  obtain ⟨d, hd, h⟩ := any_eq_true.1 h
  simp only [Bool.and_eq_true, Bool.not_eq_true', all_eq_true, Bool.or_eq_true,
    bne_iff_ne] at h
  obtain ⟨⟨hlater, hclear⟩, halone⟩ := h
  refine ⟨f, hf, hscans, d, hd, hlater, fun e he hname => ?_,
    References.sites_eq_nil_of_isAlone halone⟩
  exact (hclear e he).resolve_left (not_not_intro hname)

/-- A file with an interface in two parts. -/
def twoParts : Index :=
  .ofTexts [("a.ts",
    "export interface Box \x7b a: string \x7d\nexport interface Box \x7b b: number \x7d")] []

/-- The interface is reported, by the first of its parts. -/
theorem twoParts_reported : ∃ report, detect twoParts .default = .ok report ∧
    ∃ f ∈ twoParts.userFiles, ∃ d ∈ scannedDeclarations .default f,
      (twoParts.merged d).first.sameAs d = false ∧
      ∃ e ∈ (twoParts.merged d).declarations, item e ∈ report.items := by
  have hparsed : twoParts.Parsed := Index.parsed_ofTexts _ _
  obtain ⟨f, hf, hscans, d, hd, hlater, hclear, hsites⟩ :=
    exists_of_hasLaterPart (show hasLaterPart twoParts = true by decide +kernel)
  have hglobs : compileGlobs [] = .ok [] := rfl
  have htime : Options.default.time twoParts.settings ≠ 0 := by decide
  obtain ⟨report, hreport, hitems⟩ := symbol_reported_iff hparsed .default hglobs hglobs htime
  have hcap : report.items.length < 500 :=
    Nat.lt_of_le_of_lt (length_items_le hglobs hglobs htime hreport) (by decide +kernel)
  obtain ⟨hsorted, hreported⟩ := hitems hcap
  -- the first part is to be judged too, and has the same name
  have hfirst : twoParts.userFiles.all fun f => (scannedDeclarations .default f).all fun d =>
      (scannedDeclarations .default f).any fun e =>
        e.name == d.name && (twoParts.merged d).first.sameAs e := by decide +kernel
  obtain ⟨e, hscanned, hsame⟩ :=
    any_eq_true.1 (all_eq_true.1 (all_eq_true.1 hfirst f hf) d hd)
  obtain ⟨hname, hsame⟩ := Bool.and_eq_true_iff.1 hsame
  have ht : f.tree.IsParsed := hparsed f (mem_of_mem_filter hf)
  obtain ⟨htop, hkind⟩ := mem_scannedDeclarations hd
  have he : e ∈ (twoParts.merged d).declarations := by
    rw [twoParts.declarations_merged ht htop hkind (hclear d htop rfl), ← eq_of_beq hname]
    exact SourceFile.mem_namesakes_of_mem_topDeclarations ht (mem_scannedDeclarations hscanned).1
  obtain ⟨e, he, hfound⟩ := (hreported f hf hscans d hd hclear hsites).2 ⟨e, he, hsame, hscanned⟩
  refine ⟨report, hreport, f, hf, d, hd, hlater, e, he, ?_⟩
  rw [hsorted, mem_mergeSort]
  exact mem_map_of_mem hfound

/-- A file with a constant and a type that share a name; only the type is exported. -/
def sharedName : Index := .ofTexts [("a.ts", "const Box = 1;\nexport type Box = string;")] []

/-- The exported type, which nothing refers to, is judged at the constant, which is not exported: the
report is empty. -/
theorem sharedName_unreported : ∃ report, detect sharedName .default = .ok report ∧
    report.items = [] ∧
    ∃ f ∈ sharedName.userFiles, scansFile .default [] [] f = true ∧
      ∃ d ∈ scannedDeclarations .default f, (sharedName.merged d).first.sameAs d = false ∧
        (References.find sharedName (sharedName.merged d) References.outsideLists).sites = [] := by
  obtain ⟨f, hf, hscans, d, hd, hlater, -, hsites⟩ :=
    exists_of_hasLaterPart (show hasLaterPart sharedName = true by decide +kernel)
  have hglobs : compileGlobs [] = .ok [] := rfl
  have htime : Options.default.time sharedName.settings ≠ 0 := by decide
  obtain ⟨report, hreport, hle, -⟩ := detect_eq_ok hglobs hglobs htime
  have hnone : findings sharedName .default [] [] = [] := by
    have hjudged : sharedName.userFiles.all fun g =>
        (judgedDeclarations sharedName .default g).isEmpty := by decide +kernel
    refine flatMap_eq_nil_iff.2 fun g hg => ?_
    rw [List.isEmpty_iff.1 (all_eq_true.1 hjudged g (mem_of_mem_filter hg))]
    rfl
  rw [hnone] at hle
  exact ⟨report, hreport, eq_nil_of_length_eq_zero (Nat.le_zero.1 hle), f, hf, hscans, d, hd,
    hlater, hsites⟩

end Query.DeadCode

end ScriptAtlas
