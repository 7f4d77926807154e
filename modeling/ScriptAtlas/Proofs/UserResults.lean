import ScriptAtlas.Proofs.DeadCodeFilters
import ScriptAtlas.Proofs.DepthLimits
import ScriptAtlas.Query.Callbacks
import ScriptAtlas.Query.Hierarchy
import ScriptAtlas.Query.TypeFlow

/-!
# Results lie in the user's files

Resolution goes through whatever files an index has, those of packages and those that only declare
types included. What the queries show lies in files of the user all the same.

* `Index.mem_userFiles_iff`: which files are the user's;
* `CallTree.target_of_occurs`: what holds of the ends of all edges holds of all nodes of a call tree;
* `TypeFlow.touch_placed`: the declarations that a type is made of stand in the files of the index;
* `Index.results_in_userFiles`: the results of all queries on every index that is built.
-/

namespace ScriptAtlas

open List Project Syntax Storage

namespace Project.Index

variable {fs : FileSystem} {root : Path} {settings : Settings} {idx : Index}

/-! ## Files -/

theorem root_of_build_ (h : build_ fs root settings = .ok idx) : idx.root = root.normalize := by
  rw [eq_ofPaths_of_build_ h]
  rfl

theorem isUser_of_build_ (h : build_ fs root settings = .ok idx) :
    ∀ f ∈ idx.files, f.isUser =
      (f.path.isWithin idx.root && !isVendorPath idx.root f.path idx.settings.vendorDirs
        && !isDeclarationPath f.path) := by
  rw [root_of_build_ h, settings_of_build_ h]
  refine files_of_build_ (P := fun files => ∀ f ∈ files, f.isUser =
    (f.path.isWithin root.normalize && !isVendorPath root.normalize f.path settings.vendorDirs
      && !isDeclarationPath f.path)) h (fun f hf => absurd hf (Array.not_mem_empty f)) ?_
  intro files p path tree _ hfiles f hf
  rcases Array.mem_push.1 hf with hf | rfl
  · exact hfiles f hf
  · rfl

theorem isWithin_iff {p dir : Path} :
    p.isWithin dir = true ↔ ∃ below, p.segments = dir.segments ++ below := by
  rw [Path.isWithin, isPrefixOf_iff_prefix]
  exact exists_congr fun _ => eq_comm

theorem isVendorPath_append {p dir : Path} {below : List String} {vendorDirs : List String}
    (h : p.segments = dir.segments ++ below) :
    isVendorPath dir p vendorDirs = below.any vendorDirs.contains := by
  have hprefix : dir.segments.isPrefixOf p.segments = true := by
    rw [ isPrefixOf_iff_prefix]
    exact ⟨below, h.symm⟩
  rw [isVendorPath, Path.below?, if_pos hprefix, h, drop_left, Option.getD_some]

/-- The files of the user are those under the root, with no foreign directory on the way from it, that
do not only declare types. -/
theorem mem_userFiles_iff (h : build_ fs root settings = .ok idx) {f : SourceFile} :
    f ∈ idx.userFiles ↔ f ∈ idx.files ∧
      (∃ below, f.path.segments = idx.root.segments ++ below ∧
        ∀ s ∈ below, s ∉ idx.settings.vendorDirs) ∧ isDeclarationPath f.path = false := by
  rw [userFiles, mem_filter, Array.mem_toList_iff]
  refine and_congr_right fun hf => ?_
  rw [isUser_of_build_ h f hf, Bool.and_eq_true, Bool.and_eq_true, Bool.not_eq_true',
    Bool.not_eq_true', isWithin_iff]
  refine and_congr_left fun _ => ?_
  constructor
  · rintro ⟨⟨below, hbelow⟩, hvendor⟩
    refine ⟨below, hbelow, ?_⟩
    rw [isVendorPath_append hbelow, any_eq_false] at hvendor
    exact fun s hs hmem => hvendor s hs (contains_iff_mem.2 hmem)
  · rintro ⟨below, hbelow, hfree⟩
    refine ⟨⟨below, hbelow⟩, ?_⟩
    rw [isVendorPath_append hbelow, any_eq_false]
    exact fun s hs hmem => hfree s hs (contains_iff_mem.1 hmem)

theorem mem_userFiles_of_isUser {f : SourceFile} (hf : f ∈ idx.files.toList) (huser : f.isUser = true) :
    f ∈ idx.userFiles := mem_filter.2 ⟨hf, huser⟩

end Project.Index

namespace Declaration

/-- The declaration stands in a file of the user. -/
structure InUserFile (d : Declaration) (idx : Index) : Prop where
  placed : d.PlacedIn idx
  user : d.file ∈ idx.userFiles

theorem PlacedIn.inUserFile {d : Declaration} {idx : Index} (hd : d.PlacedIn idx)
    (huser : d.isUser = true) : d.InUserFile idx :=
  ⟨hd, Index.mem_userFiles_of_isUser hd.1 huser⟩

end Declaration

namespace Query

variable {idx : Index} {d : Declaration}

/-- A pointer to a declaration in a file of the user. -/
def PointsToUser (idx : Index) (r : SymbolRef) : Prop := ∃ d : Declaration, d.InUserFile idx ∧ r = d.ref

/-- Gathering elements, some of them left out, gathers nothing else. -/
theorem mem_of_mem_gathered {α : Type} {leavesOut : List α → α → Bool} {l acc : List α} {a : α}
    (h : a ∈ l.foldl (fun acc a => if leavesOut acc a then acc else acc ++ [a]) acc) :
    a ∈ acc ∨ a ∈ l := by
  induction l generalizing acc with
  | nil => exact .inl h
  | cons b rest ih =>
    rcases ih h with h | h
    · dsimp only at h
      split at h
      · exact .inl h
      · rcases mem_append.1 h with h | h
        · exact .inl h
        · exact .inr (mem_singleton.1 h ▸ mem_cons_self)
    · exact .inr (mem_cons_of_mem b h)

/-! ## References -/

namespace References

theorem mem_userFiles_of_mem_sites {target : Symbol} {options : SearchOptions} {s : ReferenceSite}
    (h : s ∈ (find idx target options).sites) : s.file ∈ idx.userFiles := by
  unfold find at h
  dsimp only at h
  split at h
  · cases h
  · obtain ⟨f, hf, hs⟩ := exists_of_mem_inFiles (mem_mergeSort.1 h)
    obtain ⟨hcandidate, hscanned⟩ := mem_filter.1 hf
    obtain ⟨node, -, rfl⟩ := mem_map.1 hs
    rw [Bool.and_eq_true] at hscanned
    exact Index.mem_userFiles_of_isUser (Index.mem_files_of_mem_filterMap_file? hcandidate) hscanned.1

theorem mem_userFiles_of_mem_byFile {sites : List ReferenceSite}
    (hsites : ∀ s ∈ sites, s.file ∈ idx.userFiles) {r : FileReferences} (h : r ∈ byFile sites) :
    ∃ f ∈ idx.userFiles, r.filePath = f.relPath := by
  obtain ⟨path, hpath, rfl⟩ := mem_map.1 h
  obtain ⟨s, hs, rfl⟩ := mem_map.1 (mem_eraseDups.1 hpath)
  exact ⟨s.file, hsites s hs, rfl⟩

theorem file_of_reExport? {names : List String} {keys : List DeclarationKey} {file : SourceFile}
    {source : Option Node} {spec : Node} {e : ReExport}
    (h : reExport? idx names keys file source spec = some e) : e.file = file.relPath := by
  unfold reExport? at h
  obtain ⟨name, -, h⟩ := Option.bind_eq_some_iff.1 h
  dsimp only at h
  split at h
  · cases h
  · obtain ⟨symbol, -, h⟩ := Option.bind_eq_some_iff.1 h
    split at h
    · rw [← Option.some.inj h]
    · cases h

theorem mem_userFiles_of_mem_reExports {target : Symbol} {e : ReExport} (h : e ∈ reExports idx target) :
    ∃ f ∈ idx.userFiles, e.file = f.relPath := by
  obtain ⟨f, hf, he⟩ := mem_flatMap.1 (mem_mergeSort.1 h)
  obtain ⟨hcandidate, huser⟩ := mem_filter.1 hf
  have hfile := Index.mem_files_of_mem_filterMap_file? hcandidate
  refine ⟨f, Index.mem_userFiles_of_isUser hfile huser, ?_⟩
  obtain ⟨stmt, -, he⟩ := mem_flatMap.1 he
  split at he
  · cases he
  · obtain ⟨spec, -, he⟩ := mem_filterMap.1 he
    exact file_of_reExport? he

end References

/-! ## Calls -/

namespace CallTree

variable {α κ : Type} [BEq κ] {key : α → κ} {edges : α → List (CallEdge α)}

/-- What is kept along edges and holds of their ends holds of every node of a tree, however deep. -/
theorem target_of_occurs {P Q : α → Prop} (hedges : ∀ a, P a → ∀ e ∈ edges a, P e.target ∧ Q e.target)
    {fuel : Nat} {budget : Option Nat} {path : List κ} {a : α} (ha : P a) {t : CallTree α}
    {above : List (CallTree α)} (h : Occurs (unfold key edges fuel budget path a) t above) :
    Q t.target := by
  induction fuel generalizing budget path a above with
  | zero => exact absurd h not_occurs_nil
  | succ fuel ih =>
    have hnode : ∀ r ∈ unfold key edges (fuel + 1) budget path a, Q r.target ∧
        ∀ above, Occurs r.children t above → Q t.target := by
      intro r hr
      obtain ⟨e, he, rfl⟩ := mem_map.1 hr
      obtain ⟨hP, hQ⟩ := hedges a ha e he
      split
      · exact ⟨hQ, fun above h => absurd h not_occurs_nil⟩
      · split
        · exact ⟨hQ, fun above h => absurd h not_occurs_nil⟩
        · exact ⟨hQ, fun above h => ih hP h⟩
    cases h with
    | root h => exact (hnode t h).1
    | inside hr h => exact (hnode _ hr).2 _ h

end CallTree

namespace Calls

theorem isUser_of_target? {file : SourceFile} {owner n : Node} {line : Nat}
    (h : target? idx file owner n = some (d, line)) : d.isUser = true := by
  unfold target? at h
  obtain ⟨callee, -, h⟩ := Option.bind_eq_some_iff.1 h
  obtain ⟨⟨enclosing, name⟩, -, h⟩ := Option.bind_eq_some_iff.1 h
  dsimp only at h
  split at h
  · cases h
  · obtain ⟨token, -, h⟩ := Option.bind_eq_some_iff.1 h
    obtain ⟨s, -, h⟩ := Option.bind_eq_some_iff.1 h
    split at h
    · next huser =>
      rw [← (Prod.mk.inj (Option.some.inj h)).1]
      exact (Bool.and_eq_true_iff.1 huser).1
    · cases h

theorem callees_inUserFile (hd : d.PlacedIn idx) {e : CallEdge Declaration}
    (h : e ∈ callees idx d) : e.target.InUserFile idx := by
  obtain ⟨owner, body, n, line, -, -, htarget⟩ := exists_target_of_mem_callees h
  exact (callees_placed hd h).inUserFile (isUser_of_target? htarget)

theorem callers_inUserFile {e : CallEdge Declaration} (h : e ∈ callers idx d) :
    e.target.InUserFile idx := by
  refine ⟨callers_placed h, ?_⟩
  obtain ⟨call, hcall, heq⟩ := exists_call_of_mem_edges (mem_mergeSort.1 h)
  obtain ⟨site, hsite, hcall⟩ := mem_filterMap.1 hcall
  obtain ⟨caller, hcaller, rfl⟩ := Option.map_eq_some_iff.1 hcall
  have hfound := mem_of_mem_filter hsite
  have hfile : caller.file = site.file :=
    (callerAt?_liesIn (References.placed_of_mem_sites hfound).2 hcaller).1
  rw [heq, hfile]
  exact References.mem_userFiles_of_mem_sites hfound

/-- Every node of both trees of a declaration stands in a file of the user. -/
theorem inUserFile_of_occurs (hd : d.PlacedIn idx) {options : Options}
    {t : CallTree Declaration} {above : List (CallTree Declaration)}
    (h : CallTree.Occurs (hierarchy idx d options).outgoing t above ∨
      CallTree.Occurs (hierarchy idx d options).incoming t above) : t.target.InUserFile idx := by
  unfold hierarchy at h
  dsimp only at h
  rcases h with h | h
  · split at h
    · exact absurd h CallTree.not_occurs_nil
    · refine CallTree.target_of_occurs (P := (·.PlacedIn idx)) (Q := (·.InUserFile idx))
        (fun a ha e he => ?_) hd h
      exact ⟨callees_placed ha he, callees_inUserFile ha he⟩
  · split at h
    · exact absurd h CallTree.not_occurs_nil
    · refine CallTree.target_of_occurs (P := (·.PlacedIn idx)) (Q := (·.InUserFile idx))
        (fun a _ e he => ?_) hd h
      exact ⟨callers_placed he, callers_inUserFile he⟩

end Calls

/-! ## Types -/

namespace TypeFlow

def Touched.PlacedIn (s : Touched) (idx : Index) : Prop := ∀ d ∈ s.found, d.PlacedIn idx

theorem Touched.PlacedIn.add {s : Touched} (hs : s.PlacedIn idx)
    (hd : d.PlacedIn idx) : (s.add d).PlacedIn idx := by
  intro e he
  rcases mem_append.1 he with he | he
  · exact hs e he
  · rwa [mem_singleton.1 he]

mutual

theorem touch_placed (t : StaticType) {s : Touched} (ht : t.PlacedIn idx) (hs : s.PlacedIn idx) :
    (touch t s).PlacedIn idx :=
  match t with
  | .instanceOf d args => touchAll_placed args ht.2 (hs.add ht.1)
  | .aliasOf d target args => by
    have hargs : (touchAll args (s.add d)).PlacedIn idx := touchAll_placed args ht.2.2 (hs.add ht.1)
    rw [touch]
    split
    · exact hargs
    · exact touch_placed target ht.2.1 hargs
  | .enumLiteral d => by
    rw [touch]
    split
    · next owner howner => exact hs.add ((Declaration.liesIn_of_container? ht.2 howner).placed ht.1)
    · exact hs
  | .valueOf d => by
    rw [touch]
    split
    · exact hs.add ht
    · exact hs
  | .named _ args => touchAll_placed args ht hs
  | .union members => touchAll_placed members ht hs
  | .intersection members => touchAll_placed members ht hs
  | .tuple members => touchAll_placed members ht hs
  | .array element => touch_placed element ht hs
  | .function parameters result =>
    touch_placed result ht.2 (touchParameters_placed parameters ht.1 hs)
  | .primitive _ | .literal _ | .typeParameter _ | .object _ _ | .unknown => hs

theorem touchAll_placed (ts : List StaticType) {s : Touched} (hts : StaticType.AllPlaced idx ts)
    (hs : s.PlacedIn idx) : (touchAll ts s).PlacedIn idx :=
  match ts with
  | [] => hs
  | t :: ts => touchAll_placed ts hts.2 (touch_placed t hts.1 hs)

theorem touchParameters_placed (ps : List (String × StaticType)) {s : Touched}
    (hps : StaticType.ParametersPlaced idx ps) (hs : s.PlacedIn idx) :
    (touchParameters ps s).PlacedIn idx :=
  match ps with
  | [] => hs
  | (_, t) :: ps => touchParameters_placed ps hps.2 (touch_placed t hps.1 hs)

end

theorem namedDeclarations_placed {file : SourceFile} (hf : file ∈ idx.files.toList) {node : Node}
    (hn : node.tree = file.tree) (h : d ∈ namedDeclarations idx file node) :
    d.PlacedIn idx := by
  obtain ⟨n, hmem, h⟩ := mem_flatMap.1 h
  have hnt := (Node.tree_of_mem_descendants (mem_of_mem_filter hmem)).trans hn
  cases hs : idx.resolveAt? file n with
  | none =>
    rw [hs] at h
    cases h
  | some s =>
    rw [hs] at h
    exact Index.resolveAt?_placed hf hnt hs d h

theorem inUserFile_of_reported? {d e : Declaration} (hd : d.PlacedIn idx) (h : reported? d = some e) :
    e.InUserFile idx := by
  obtain ⟨heq, hkept⟩ := Option.filter_eq_some_iff.1 h
  have huser : e.isUser = true := by
    rw [Bool.and_eq_true, Bool.and_eq_true] at hkept
    exact hkept.1.2
  refine Declaration.PlacedIn.inUserFile ?_ huser
  split at heq
  · exact (Declaration.liesIn_of_container? hd.2 heq).placed hd.1
  · rwa [← Option.some.inj heq]

theorem mem_of_mem_sortedSet {rs : List SymbolRef} {r : SymbolRef} (h : r ∈ SymbolRef.sortedSet rs) :
    r ∈ rs :=
  (mem_of_mem_gathered (mem_mergeSort.1 h)).resolve_left not_mem_nil

theorem entry_pointsToUser {file : SourceFile} (hf : file ∈ idx.files.toList) {name : String}
    {written : Option Node} (hwritten : ∀ n, written = some n → n.tree = file.tree) {t : StaticType}
    (ht : t.PlacedIn idx) : ∀ r ∈ (entry idx file name written t).resolvedTypes, PointsToUser idx r := by
  intro r hr
  obtain ⟨e, he, rfl⟩ := mem_map.1 (mem_of_mem_sortedSet hr)
  obtain ⟨d, hd, hreported⟩ := mem_filterMap.1 he
  refine ⟨e, inUserFile_of_reported? ?_ hreported, rfl⟩
  rcases mem_append.1 hd with hd | hd
  · cases hw : written with
    | none =>
      rw [hw] at hd
      cases hd
    | some n =>
      rw [hw] at hd
      exact namedDeclarations_placed hf (hwritten n hw) hd
  · exact touch_placed t ht (fun d hd => absurd hd not_mem_nil) d hd

theorem signature?_placed (hd : d.PlacedIn idx) {s : Signature}
    (h : signature? idx d = some s) : s.PlacedIn idx := by
  have hknown := Inference.upTo_placed idx (Inference.fuel idx)
  exact Inference.callSignatures_placed hknown (hknown.declaration d hd _) s (mem_of_head? h)

theorem callable?_placed {d c : Declaration} (hd : d.PlacedIn idx) (h : callable? d = some c) :
    c.PlacedIn idx := by
  unfold callable? at h
  split at h
  · obtain ⟨n, hn, h⟩ := Option.bind_eq_some_iff.1 h
    have hnt := (Declaration.tree_of_constructorNode? hn).trans hd.2.node_tree
    exact (Declaration.liesIn_of_ofNode? h hnt).placed hd.1
  · split at h
    · rwa [← Option.some.inj h]
    · cases h

section

variable {file : SourceFile} (hf : file ∈ idx.files.toList) {function : Node}
  (hn : function.tree = file.tree) {s : Option Signature}
  (hs : ∀ sig, s = some sig → sig.PlacedIn idx) {e : Entry}

include hf hn hs

theorem parameterEntries_pointsToUser
    (he : e ∈ parameterEntries idx file function s) : ∀ r ∈ e.resolvedTypes, PointsToUser idx r := by
  obtain ⟨k, hk⟩ := mem_iff_getElem?.1 he
  obtain ⟨i, p, -, hmem, rfl⟩ := getElem?_zipWith_eq_some.1 hk
  have hp := (Node.tree_of_mem_parameters (mem_of_getElem? hmem)).trans hn
  refine entry_pointsToUser hf (fun n h => (Node.tree_of_field? h).trans hp) ?_
  refine StaticType.getD_placed fun t ht => ?_
  obtain ⟨q, hq, rfl⟩ := Option.map_eq_some_iff.1 ht
  obtain ⟨sig, hsig, hq⟩ := Option.bind_eq_some_iff.1 hq
  exact (hs sig hsig).1 q (mem_of_getElem? hq)

theorem resultEntry?_pointsToUser
    (he : resultEntry? idx file function s = some e) : ∀ r ∈ e.resolvedTypes, PointsToUser idx r := by
  unfold resultEntry? at he
  dsimp only at he
  split at he
  · rw [← Option.some.inj he]
    refine entry_pointsToUser hf (fun n h => (Node.tree_of_field? h).trans hn) ?_
    refine StaticType.getD_placed fun t ht => ?_
    obtain ⟨sig, hsig, rfl⟩ := Option.map_eq_some_iff.1 ht
    exact (hs sig hsig).2
  · cases he

end

theorem report_pointsToUser (hd : d.PlacedIn idx) :
    (∀ e ∈ (report idx d).parameters ++ (report idx d).returnType.toList, ∀ r ∈ e.resolvedTypes,
      PointsToUser idx r) ∧
    ∀ r ∈ (report idx d).referencedTypes, PointsToUser idx r := by
  have hentries : ∀ e ∈ (report idx d).parameters ++ (report idx d).returnType.toList,
      ∀ r ∈ e.resolvedTypes, PointsToUser idx r := by
    unfold report
    extract_lets callable function s parameters returnType
    have hs : ∀ sig, s = some sig → sig.PlacedIn idx := by
      intro sig hsig
      obtain ⟨c, hc, hsig⟩ := Option.bind_eq_some_iff.1 hsig
      exact signature?_placed (callable?_placed hd hc) hsig
    have hfunction : ∀ c f, function = some (c, f) → c.file ∈ idx.files.toList ∧
        f.tree = c.file.tree := by
      intro c f h
      obtain ⟨c', hc, h⟩ := Option.bind_eq_some_iff.1 h
      obtain ⟨f', hf, h⟩ := Option.map_eq_some_iff.1 h
      obtain ⟨rfl, rfl⟩ := Prod.mk.inj h
      have hplaced := callable?_placed hd hc
      exact ⟨hplaced.1, (Node.tree_of_functionNode? hf).trans hplaced.2.node_tree⟩
    clear_value function s
    intro e he
    rcases mem_append.1 he with he | he
    · dsimp only [parameters] at he
      split at he
      · exact absurd he not_mem_nil
      · obtain ⟨hf, hn⟩ := hfunction _ _ rfl
        exact parameterEntries_pointsToUser hf hn hs he
    · dsimp only [returnType] at he
      split at he
      · exact absurd he not_mem_nil
      · obtain ⟨hf, hn⟩ := hfunction _ _ rfl
        split at he
        · exact absurd he not_mem_nil
        · exact resultEntry?_pointsToUser hf hn hs (Option.mem_toList.1 he)
  refine ⟨hentries, fun r hr => ?_⟩
  obtain ⟨e, he, hr⟩ := mem_flatMap.1 (mem_of_mem_sortedSet hr)
  exact hentries e he r hr

end TypeFlow

namespace Hierarchy

theorem edges_placed {target : Symbol} {e : Edge} (h : e ∈ edges idx target) :
    e.child.PlacedIn idx := by
  obtain ⟨child, hchild, he⟩ := mem_flatMap.1 h
  obtain ⟨parent, -, rfl⟩ := mem_map.1 he
  obtain ⟨f, hf, hchild⟩ := mem_flatMap.1 hchild
  obtain ⟨n, hn, hchild⟩ := mem_filterMap.1 hchild
  have hnt := Node.tree_of_mem_nodes (mem_of_mem_filter hn)
  exact (Declaration.liesIn_of_ofNode? hchild hnt).placed
    (Index.mem_files_of_mem_filterMap_file? (mem_of_mem_filter hf))

theorem subtypes_pointToUser {deadline : Deadline} {r : SymbolRef}
    (h : r ∈ (report idx d deadline).subtypes) : PointsToUser idx r := by
  unfold report at h
  extract_lets heritage target candidates found children at h
  obtain ⟨child, hchild, rfl⟩ := mem_map.1 (mem_mergeSort.1 h)
  refine ⟨child, ?_, rfl⟩
  have hmem := (mem_of_mem_gathered hchild).resolve_left not_mem_nil
  obtain ⟨hmem, huser⟩ := mem_filter.1 hmem
  obtain ⟨key, -, hmem⟩ := mem_flatMap.1 hmem
  obtain ⟨e, he, rfl⟩ := mem_map.1 (mem_reverse.1 hmem)
  have hfound := mem_of_mem_filter he
  dsimp only [found] at hfound
  split at hfound
  · exact absurd hfound not_mem_nil
  · exact (edges_placed hfound).inUserFile huser

end Hierarchy

namespace Callbacks

theorem mem_userFiles_of_mem_usages {u : Usage} (h : u ∈ (report idx d).usages) :
    ∃ f ∈ idx.userFiles, u.filePath = f.relPath := by
  obtain ⟨site, hsite, hu⟩ := mem_filterMap.1 (mem_mergeSort.1 h)
  obtain ⟨passed, -, rfl⟩ := Option.map_eq_some_iff.1 hu
  exact ⟨site.file, References.mem_userFiles_of_mem_sites hsite, rfl⟩

end Callbacks

namespace DeadCode

theorem mem_userFiles_of_mem_items {options : Options} {report : Report}
    (h : detect idx options = .ok report) {i : Item} (hi : i ∈ report.items) :
    ∃ f ∈ idx.userFiles, i.file = f.relPath := by
  unfold detect at h
  cases hinclude : compileGlobs options.include_ with
  | error e =>
    rw [hinclude] at h
    cases h
  | ok include_ =>
    cases hexclude : compileGlobs options.exclude with
    | error e =>
      rw [hinclude, hexclude] at h
      cases h
    | ok exclude =>
      rw [hinclude, hexclude] at h
      change (if Deadline.expired ⟨options.time idx.settings⟩ = true then _ else _) = _ at h
      split at h
      · rw [← Except.ok.inj h] at hi
        exact absurd hi not_mem_nil
      · rw [← Except.ok.inj h] at hi
        -- a scan finds no more than there is to find in the files that it goes through
        have hcovers : (scanFiles (isUnreferenced idx) (judgedDeclarations idx options)
            (options.cap idx.settings) ⟨[], 0, 0, false⟩
            (idx.userFiles.filter (scansFile options include_ exclude))).Covers _ _ :=
          covers_scanFiles _ _ _ rfl _
        have hitem := hcovers.found.subset (mem_mergeSort.1 hi)
        obtain ⟨d, hd, rfl⟩ := mem_map.1 hitem
        obtain ⟨f, hf, hd⟩ := mem_flatMap.1 hd
        refine ⟨f, mem_of_mem_filter hf, ?_⟩
        have hscanned := mem_of_mem_filter (mem_of_mem_filter hd)
        obtain ⟨pair, -, hmake⟩ := mem_filterMap.1 (mem_of_mem_filter hscanned)
        obtain ⟨kind, -, rfl⟩ := Option.map_eq_some_iff.1 hmake
        rfl

end DeadCode

/-! ## All queries -/

theorem exists_of_map_eq_ok {ε α β : Type} {f : α → β} {x : Except ε α} {b : β}
    (h : x.map f = .ok b) : ∃ a, x = .ok a ∧ f a = b := by
  cases x with
  | error e => cases h
  | ok a => exact ⟨a, rfl, Except.ok.inj h⟩

theorem exists_of_bind_eq_ok {ε α β : Type} {f : α → Except ε β} {x : Except ε α} {b : β}
    (h : x.bind f = .ok b) : ∃ a, x = .ok a ∧ f a = .ok b := by
  cases x with
  | error e => cases h
  | ok a => exact ⟨a, rfl, h⟩

/-- In every index that is built, the files of the user are those under the root, with no foreign
directory on the way from it, that do not only declare types; and whatever is asked, every node of a
call tree at any depth, every type that flows through a callable, every file with references and every
file that re-exports, every subtype, every place where a callable is passed and every declaration that
is not used lies in one of them. -/
theorem results_in_userFiles {fs : FileSystem} {root : Path} {settings : Settings} {idx : Index}
    (h : Index.build_ fs root settings = .ok idx) :
    (∀ f, f ∈ idx.userFiles ↔ f ∈ idx.files ∧
      (∃ below, f.path.segments = idx.root.segments ++ below ∧
        ∀ s ∈ below, s ∉ idx.settings.vendorDirs) ∧ isDeclarationPath f.path = false) ∧
    (∀ q options found, callHierarchy idx q options = .ok found → ∀ t above,
      CallTree.Occurs found.outgoing t above ∨ CallTree.Occurs found.incoming t above →
        t.target.InUserFile idx) ∧
    (∀ q found, typeFlow idx q = .ok found →
      (∀ e ∈ found.parameters ++ found.returnType.toList, ∀ r ∈ e.resolvedTypes, PointsToUser idx r) ∧
      ∀ r ∈ found.referencedTypes, PointsToUser idx r) ∧
    (∀ q options found, references idx q options = .ok found →
      (∀ r ∈ found.files, ∃ f ∈ idx.userFiles, r.filePath = f.relPath) ∧
      ∀ e ∈ found.reExports, ∃ f ∈ idx.userFiles, e.file = f.relPath) ∧
    (∀ q options found, typeHierarchy idx q options = .ok found →
      ∀ r ∈ found.subtypes, PointsToUser idx r) ∧
    (∀ q found, callbacks idx q = .ok found →
      ∀ u ∈ found.usages, ∃ f ∈ idx.userFiles, u.filePath = f.relPath) ∧
    ∀ options found, DeadCode.detect idx options = .ok found →
      ∀ i ∈ found.items, ∃ f ∈ idx.userFiles, i.file = f.relPath := by
  refine ⟨fun f => Index.mem_userFiles_iff h, ?_, ?_, ?_, ?_, ?_, ?_⟩
  · intro q options found hfound t above ht
    obtain ⟨d, hd, rfl⟩ := exists_of_map_eq_ok hfound
    exact Calls.inUserFile_of_occurs (locateCallable_placed hd) ht
  · intro q found hfound
    obtain ⟨d, hd, rfl⟩ := exists_of_map_eq_ok hfound
    exact TypeFlow.report_pointsToUser (locateCallable_placed hd)
  · intro q options found hfound
    obtain ⟨d, -, rfl⟩ := exists_of_map_eq_ok hfound
    refine ⟨fun r hr => ?_, fun e he => References.mem_userFiles_of_mem_reExports he⟩
    exact References.mem_userFiles_of_mem_byFile
      (fun s hs => References.mem_userFiles_of_mem_sites hs) hr
  · intro q options found hfound r hr
    obtain ⟨d, -, hfound⟩ := exists_of_bind_eq_ok hfound
    split at hfound
    · rw [← Except.ok.inj hfound] at hr
      exact Hierarchy.subtypes_pointToUser hr
    · cases hfound
  · intro q found hfound u hu
    obtain ⟨d, -, rfl⟩ := exists_of_map_eq_ok hfound
    exact Callbacks.mem_userFiles_of_mem_usages hu
  · intro options found hfound i hi
    exact DeadCode.mem_userFiles_of_mem_items hfound hi

/-- A project with a function that calls one of a package and one of its own, which calls it back. -/
def packageCall : FileSystem :=
  [(["app", "a.ts"], "import \x7b f \x7d from 'p'; function g() \x7b f(); h(); \x7d function h() \x7b g(); \x7d"),
    (["app", "node_modules", "p", "index.ts"], "export function f() \x7b\x7d")].foldl
    (fun fs (segments, text) => fs.write ⟨segments⟩ (.text text)) .empty

theorem list_packageCall : packageCall.list ⟨["app"]⟩ = ["a.ts", "node_modules"] := by
  dsimp only [FileSystem.list]
  rw [mergeSort_of_pairwise]
  · decide +kernel
  · decide +kernel

theorem sourcePaths_packageCall :
    sourcePaths packageCall ⟨["app"]⟩ .default (BuildConfig.select packageCall ⟨["app"]⟩ none) =
      [⟨["app", "a.ts"]⟩] :=
  Index.sourcePaths_of_list list_packageCall (by decide +kernel) (by decide +kernel) (by decide +kernel) rfl

def packageCallIndex : Index := .ofPaths packageCall ⟨["app"]⟩ .default [⟨["app", "a.ts"]⟩]

theorem build_packageCall :
    Index.build_ packageCall ⟨["app"]⟩ .default = .ok packageCallIndex :=
  Index.build_eq_ofPaths (by decide +kernel) (by decide +kernel) sourcePaths_packageCall
    (by decide +kernel)

/-- The function of the package is in the index and is called, but the tree of calls leads to functions
in the user's file only. -/
theorem packageCall_inUserFiles :
    packageCallIndex.files.toList.map SourceFile.relPath = ["a.ts", "node_modules/p/index.ts"] ∧
    ∃ found, callHierarchy packageCallIndex ⟨"g", none, none⟩ ⟨-1, .outgoing⟩ = .ok found ∧
      found.outgoing.map (fun t => (t.target.name, t.children.map fun s => s.target.name)) =
        [("h", ["g"])] ∧
      ∀ t above, CallTree.Occurs found.outgoing t above → t.target.file ∈ packageCallIndex.userFiles := by
  have heval : (packageCallIndex.files.toList.map SourceFile.relPath,
      (callHierarchy packageCallIndex ⟨"g", none, none⟩ ⟨-1, .outgoing⟩).toOption.map
        fun found => found.outgoing.map fun t =>
          (t.target.name, t.children.map fun s => s.target.name)) =
      (["a.ts", "node_modules/p/index.ts"], some [("h", ["g"])]) := by
    decide +kernel
  obtain ⟨hfiles, heval⟩ := Prod.mk.inj heval
  refine ⟨hfiles, ?_⟩
  cases hfound : callHierarchy packageCallIndex ⟨"g", none, none⟩ ⟨-1, .outgoing⟩ with
  | error e =>
    rw [hfound] at heval
    cases heval
  | ok found =>
    rw [hfound] at heval
    obtain ⟨-, hcalls, -⟩ := results_in_userFiles build_packageCall
    refine ⟨found, rfl, Option.some.inj heval, fun t above ht => ?_⟩
    exact (hcalls _ _ found hfound t above (.inl ht)).user

end Query

end ScriptAtlas
