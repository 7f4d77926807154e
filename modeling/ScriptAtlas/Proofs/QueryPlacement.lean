import ScriptAtlas.Proofs.ResolutionPlacement
import ScriptAtlas.Query.CallTree

/-!
# Where the declarations of queries lie

What a query finds is declared in a file of the project.

* `locateDeclaration_arises`, `locateCallable_placed`: the declaration that a query by name means;
* `References.placed_of_mem_sites`: the places of references are tokens of files of the project;
* `Calls.callees_placed`, `Calls.callers_placed`: what a declaration of the project calls and what
  calls it.
-/

namespace ScriptAtlas

open List Project Syntax Syntax.Node

variable {callee n owner : Node} {q : SymbolQuery}

theorem Symbol.implementation_mem (s : Symbol) : s.implementation ∈ s.declarations := by
  unfold implementation
  cases hfind : s.declarations.find? (·.hasBody) with
  | none => exact mem_cons_self
  | some d => exact mem_of_find?_eq_some hfind

theorem Symbol.PlacedIn.implementation {s : Symbol} {idx : Index} (h : s.PlacedIn idx) :
    s.implementation.PlacedIn idx :=
  h _ s.implementation_mem

theorem Declaration.tree_of_constructorNode? {d : Declaration} {c : Node}
    (h : d.constructorNode? = some c) : c.tree = d.node.tree := by
  obtain ⟨p, hp, rfl⟩ := Option.map_eq_some_iff.1 h
  exact (listed_typeMembers (mem_of_find?_eq_some hp)).tree

theorem Project.Index.mem_files_of_findFile? {idx : Index} {hint : String} {file : SourceFile}
    (h : idx.findFile? hint = some file) : file ∈ idx.files.toList := by
  rw [Array.mem_toList_iff]
  simp only [findFile?] at h
  split at h
  · exact (of_fileByPath?_eq_some h).1
  · rcases eq_or_eq_of_orElse h with h | h
    · exact (of_fileByPath?_eq_some h).1
    · exact Array.mem_of_find?_eq_some h

namespace Query

/-! ## Locating -/

namespace Locate

variable {idx : Index}
variable {d : Declaration} {file : SourceFile} {name : String}

theorem mem_of_firstLeast {α : Type} {lt : α → α → Bool} {l : List α} {a : α}
    (h : firstLeast lt l = some a) : a ∈ l := by
  cases l with
  | nil => cases h
  | cons b rest =>
    cases h
    -- the best element so far is always one of those already seen
    have fold : ∀ (l : List α) (best : α),
        l.foldl (fun best b => if lt b best then b else best) best ∈ best :: l := by
      intro l
      induction l with
      | nil => exact fun best => mem_cons_self
      | cons c l ih =>
        intro best
        rw [foldl_cons]
        rcases mem_cons.1 (ih (if lt c best then c else best)) with h | h
        · rw [h]
          split <;> simp
        · exact mem_cons_of_mem _ (mem_cons_of_mem _ h)
    exact fold rest b

theorem mem_of_pick {candidates : List Declaration} {line : Option Nat}
    (h : pick candidates line = some d) : d ∈ candidates := by
  rcases eq_or_eq_of_orElse h with h | h
  · have hmem := mem_of_firstLeast h
    split at hmem
    · exact mem_of_mem_filter hmem
    · cases hmem
  · exact mem_of_firstLeast h

theorem origin_of_mem_declarations {primary : Bool} (h : d ∈ declarations file name primary) :
    Declaration.Origin file file.tree d := by
  obtain ⟨n, hn, h⟩ := mem_filterMap.1 h
  split at h
  · next kind nameNode hkind hname =>
    split at h
    · cases h
    · cases h
      exact .listed (tree_of_mem_nodes hn) (.own hname) (by rw [Declaration.make?, hkind]; rfl)
  · cases h

theorem arises_of_mem_bindings (hf : file ∈ idx.files.toList) (h : d ∈ bindings file name) :
    d.ArisesIn idx := by
  obtain ⟨n, hn, h⟩ := mem_filterMap.1 h
  obtain ⟨hn, hk⟩ := mem_filter.1 (mem_of_mem_filter hn)
  exact .name hf (tree_of_mem_nodes hn) hk h

theorem inFile_arises {line : Option Nat} (hf : file ∈ idx.files.toList)
    (h : inFile idx file name line = some d) : d.ArisesIn idx := by
  obtain ⟨e, he, rfl⟩ := Option.map_eq_some_iff.1 h
  have he : e.ArisesIn idx := by
    have hmem := mem_of_pick he
    split at hmem
    · exact arises_of_mem_bindings hf hmem
    · exact .origin hf (origin_of_mem_declarations hmem)
  unfold throughImport
  split
  · exact (Index.resolveSymbol_arises (Symbol.forall_single he)).first
  · exact he

theorem anywhere_arises (h : anywhere idx name = some d) : d.ArisesIn idx := by
  rcases eq_or_eq_of_orElse h with h | h
  · obtain ⟨file, hf, h⟩ := exists_of_findSome?_eq_some h
    exact .origin hf (origin_of_mem_declarations (mem_of_pick h))
  · obtain ⟨file, hf, h⟩ := exists_of_findSome?_eq_some h
    exact inFile_arises hf h

theorem memberOf_arises {owner : Declaration} (ho : owner.PlacedIn idx)
    (h : memberOf idx owner name = some d) : d.ArisesIn idx := by
  have typed (h : ((owner.ownMembers name).head? <|> (idx.typeMember owner name).head?) = some d) :
      d.ArisesIn idx := by
    rcases eq_or_eq_of_orElse h with h | h
    · exact Declaration.arises_of_mem_ownMembers ho (mem_of_head? h)
    · exact arises_of_mem_typeMember (Inference.upTo_placed idx _).member ho (mem_of_head? h)
  unfold memberOf at h
  split at h
  iterate 3 exact typed h
  exact Index.arises_of_mem_namespaceMember ho (mem_of_head? h)

theorem upTo_arises {fuel : Nat} (h : upTo idx fuel q = .ok d) :
    d.ArisesIn idx := by
  induction fuel generalizing q d with
  | zero => cases h
  | succ fuel ih =>
    unfold upTo at h
    generalize Text.trim q.name = name at h
    dsimp only at h
    split at h
    · cases h
    · split at h
      · next e hfound =>
        cases h
        split at hfound
        · split at hfound
          · next owner howner => exact memberOf_arises (ih howner).placed hfound
          · cases hfound
        · split at hfound
          · next file hfile =>
            obtain ⟨hint, -, hfile⟩ := Option.bind_eq_some_iff.1 hfile
            exact inFile_arises (Index.mem_files_of_findFile? hfile) hfound
          · exact anywhere_arises hfound
      · cases h

end Locate

theorem locateDeclaration_arises {idx : Index} {d : Declaration}
    (h : locateDeclaration idx q = .ok d) : d.ArisesIn idx :=
  Locate.upTo_arises h

theorem locateCallable_placed {idx : Index} {d : Declaration}
    (h : locateCallable idx q = .ok d) : d.PlacedIn idx := by
  unfold locateCallable at h
  cases hlocate : locateDeclaration idx q with
  | error e =>
    rw [hlocate] at h
    cases h
  | ok e =>
    rw [hlocate] at h
    cases h
    exact (Index.merged_placed (locateDeclaration_arises hlocate).placed).implementation

/-! ## References -/

namespace References

theorem exists_of_mem_inFiles {search : SourceFile → List ReferenceSite} {firstOnly : Bool}
    {files : List SourceFile} {s : ReferenceSite} (h : s ∈ inFiles search firstOnly files) :
    ∃ f ∈ files, s ∈ search f := by
  induction files with
  | nil => cases h
  | cons f files ih =>
    rw [inFiles] at h
    split at h
    · exact ⟨f, mem_cons_self, h⟩
    · rcases mem_append.1 h with h | h
      · exact ⟨f, mem_cons_self, h⟩
      · obtain ⟨g, hg, h⟩ := ih h
        exact ⟨g, mem_cons_of_mem _ hg, h⟩

theorem placed_of_mem_sites {idx : Index} {target : Symbol} {options : SearchOptions}
    {s : ReferenceSite} (h : s ∈ (find idx target options).sites) :
    s.file ∈ idx.files.toList ∧ s.node.tree = s.file.tree := by
  unfold find at h
  split at h
  · cases h
  · obtain ⟨f, hf, h⟩ := exists_of_mem_inFiles (mem_mergeSort.1 h)
    obtain ⟨n, hn, rfl⟩ := mem_map.1 h
    have hnode := mem_of_mem_filter (mem_of_mem_filter (mem_of_mem_filter hn))
    exact ⟨Index.mem_files_of_mem_filterMap_file? (mem_of_mem_filter hf), tree_of_mem_nodes hnode⟩

end References

/-! ## Calls -/

namespace Calls

variable {idx : Index}
variable {d : Declaration} {file : SourceFile} {e : CallEdge Declaration}

theorem tree_of_bodyOf? {body : Node} (h : bodyOf? d = some (owner, body)) :
    body.tree = d.node.tree := by
  unfold bodyOf? at h
  split at h
  · obtain ⟨c, hc, h⟩ := Option.bind_eq_some_iff.1 h
    obtain ⟨b, hb, h⟩ := Option.map_eq_some_iff.1 h
    cases h
    exact (tree_of_field? hb).trans (Declaration.tree_of_constructorNode? hc)
  · obtain ⟨b, hb, h⟩ := Option.map_eq_some_iff.1 h
    cases h
    obtain ⟨f, hf, hb⟩ := Option.bind_eq_some_iff.1 hb
    exact (tree_of_field? hb).trans (tree_of_functionNode? hf)

theorem tree_of_calleeOf? (h : calleeOf? n = some callee) :
    callee.tree = n.tree := by
  unfold calleeOf? at h
  split at h
  · exact tree_of_field? h
  · exact tree_of_field? h
  · cases h

theorem tree_of_calleeName? {token : Node} (h : calleeName? callee = some token) :
    token.tree = callee.tree := by
  unfold calleeName? at h
  split at h
  · cases h
    rfl
  · exact tree_of_field? h
  · cases h

theorem tree_of_calledName {token : Node} (hcallee : calleeOf? n = some callee)
    (htoken : calleeName? callee.unwrap = some token) : token.tree = n.tree :=
  (tree_of_calleeName? htoken).trans ((tree_unwrap callee).trans (tree_of_calleeOf? hcallee))

/-- Everything that has to hold for a call in a callable to have a target. -/
theorem target?_eq_some {line : Nat}
    (h : target? idx file owner n = some (d, line)) :
    ∃ callee enclosing name token s, calleeOf? n = some callee ∧
      n.enclosingCallable? = some (enclosing, name) ∧ (enclosing == owner) = true ∧
      calleeName? callee.unwrap = some token ∧ idx.resolveAt? file token = some s ∧
      s.implementation = d ∧ token.line = line := by
  obtain ⟨callee, hcallee, h⟩ := Option.bind_eq_some_iff.1 h
  obtain ⟨⟨enclosing, name⟩, henclosing, h⟩ := Option.bind_eq_some_iff.1 h
  dsimp only at h
  split at h
  · cases h
  next howner =>
  obtain ⟨token, htoken, h⟩ := Option.bind_eq_some_iff.1 h
  obtain ⟨s, hs, h⟩ := Option.bind_eq_some_iff.1 h
  split at h
  · cases h
    exact ⟨callee, enclosing, name, token, s, hcallee, henclosing, by simpa [bne] using howner,
      htoken, hs, rfl, rfl⟩
  · cases h

theorem target?_placed {call : Declaration × Nat} (hf : file ∈ idx.files.toList)
    (hn : n.tree = file.tree) (h : target? idx file owner n = some call) : call.1.PlacedIn idx := by
  obtain ⟨callee, -, -, token, s, hcallee, -, -, htoken, hs, himplementation, -⟩ :=
    target?_eq_some h
  have ht := (tree_of_calledName hcallee htoken).trans hn
  exact himplementation ▸ (Index.resolveAt?_placed hf ht hs).implementation

theorem target_of_mem_foldl_addCall {calls : List (Declaration × Nat)}
    {edges : List (CallEdge Declaration)} (h : e ∈ calls.foldl addCall edges) :
    (∃ call ∈ calls, e.target = call.1) ∨ ∃ e' ∈ edges, e.target = e'.target := by
  induction calls generalizing edges with
  | nil => exact Or.inr ⟨e, h, rfl⟩
  | cons call calls ih =>
    rcases ih h with ⟨c, hc, heq⟩ | ⟨e', he', heq⟩
    · exact Or.inl ⟨c, mem_cons_of_mem _ hc, heq⟩
    · unfold addCall at he'
      split at he'
      · obtain ⟨e₀, he₀, rfl⟩ := mem_map.1 he'
        refine Or.inr ⟨e₀, he₀, heq.trans ?_⟩
        split <;> rfl
      · rcases mem_append.1 he' with he' | he'
        · exact Or.inr ⟨e', he', heq⟩
        · rw [mem_singleton.1 he'] at heq
          exact Or.inl ⟨call, mem_cons_self, heq⟩

theorem exists_call_of_mem_edges {calls : List (Declaration × Nat)} {lines : List Nat → List Nat}
    (h : e ∈ (calls.foldl addCall []).map fun e => { e with lines := lines e.lines }) :
    ∃ call ∈ calls, e.target = call.1 := by
  obtain ⟨e₀, he₀, rfl⟩ := mem_map.1 h
  rcases target_of_mem_foldl_addCall he₀ with hcall | ⟨_, hnil, -⟩
  · exact hcall
  · cases hnil

theorem exists_target_of_mem_callees (h : e ∈ callees idx d) :
    ∃ owner body n line, bodyOf? d = some (owner, body) ∧
      n ∈ body.descendants ∧ target? idx d.file owner n = some (e.target, line) := by
  unfold callees at h
  split at h
  · cases h
  · rename_i owner body hbody
    obtain ⟨call, hcall, heq⟩ := exists_call_of_mem_edges h
    obtain ⟨n, hn, htarget⟩ := mem_filterMap.1 hcall
    exact ⟨owner, body, n, call.2, hbody, hn, heq ▸ htarget⟩

theorem tree_of_mem_body (hd : d.LiesIn file) {body : Node}
    (hbody : bodyOf? d = some (owner, body)) (hn : n ∈ body.descendants) :
    n.tree = file.tree :=
  (tree_of_mem_descendants hn).trans ((tree_of_bodyOf? hbody).trans hd.node_tree)

theorem callees_placed (hd : d.PlacedIn idx) (h : e ∈ callees idx d) : e.target.PlacedIn idx := by
  obtain ⟨owner, body, n, line, hbody, hn, htarget⟩ := exists_target_of_mem_callees h
  exact target?_placed hd.1 (tree_of_mem_body hd.2 hbody hn) htarget

theorem callerAt?_liesIn {site : ReferenceSite} (hsite : site.node.tree = site.file.tree)
    (h : callerAt? site = some d) :
    d.LiesIn site.file := by
  obtain ⟨⟨owner, name⟩, hp, rfl⟩ := Option.map_eq_some_iff.1 h
  have hpair := pairIn_enclosingCallable? hp
  dsimp only
  cases hname : (Declaration.ofName? site.file name).filter (·.node == owner) with
  | none => exact ⟨rfl, hpair.1.trans hsite, hpair.2.trans hsite⟩
  | some d =>
    exact Declaration.liesIn_of_ofName? (Option.filter_eq_some_iff.1 hname).1
      (hpair.2.trans hsite)

theorem callers_placed (h : e ∈ callers idx d) :
    e.target.PlacedIn idx := by
  obtain ⟨call, hcall, heq⟩ := exists_call_of_mem_edges (mem_mergeSort.1 h)
  obtain ⟨site, hsite, hcaller⟩ := mem_filterMap.1 hcall
  obtain ⟨caller, hat, rfl⟩ := Option.map_eq_some_iff.1 hcaller
  obtain ⟨hf, ht⟩ := References.placed_of_mem_sites (mem_of_mem_filter hsite)
  exact heq ▸ (callerAt?_liesIn ht hat).placed hf

end Calls

end Query

end ScriptAtlas
