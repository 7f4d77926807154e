import ScriptAtlas.Proofs.CallSites
import ScriptAtlas.Proofs.ReferenceSearch

/-!
# Calls seen from both ends

What a declaration calls is read off its body; what calls a declaration is read off the places that
refer to it. Every call in the body of a function that goes by a name is found again from the other
end, at the same line, when its token is one that the search for references looks at.

* `Project.Index.Parsed`: the files of an index are parsed texts, as in every index that is built;
* `Calls.records_callees_iff`, `Calls.records_callers_iff`: which calls the two lists record;
* `Calls.callees_made`, `Calls.callers_known`: the ends of calls are known declarations, so that the
  theorem applies along whole call trees;
* `Calls.callers_of_callees`: the calls of a callable under the name to which they are attributed.
-/

namespace ScriptAtlas

open List Project Syntax

/-! ## Parsed projects -/

namespace Project

def FilesParsed (files : Array SourceFile) : Prop := ∀ f ∈ files.toList, f.tree.IsParsed

theorem filesParsed_empty : FilesParsed #[] := nofun

theorem FilesParsed.push {files : Array SourceFile} (h : FilesParsed files) {file : SourceFile}
    (hfile : file.tree.IsParsed) : FilesParsed (files.push file) := by
  intro f hf
  rw [Array.toList_push] at hf
  rcases mem_append.1 hf with hf | hf
  · exact h f hf
  · exact mem_singleton.1 hf ▸ hfile

namespace Index

def Parsed (idx : Index) : Prop := FilesParsed idx.files

theorem parsed_of_build_ {fs : Storage.FileSystem} {root : Storage.Path} {settings : Settings}
    {idx : Index} (h : build_ fs root settings = .ok idx) : idx.Parsed := by
  refine files_of_build_ h filesParsed_empty fun files p path tree hparse hfiles => ?_
  obtain ⟨text, -, heq⟩ := Option.map_eq_some_iff.1 hparse
  cases heq
  exact hfiles.push ⟨text, _, rfl⟩

theorem parsed_ofTexts (texts : List (String × String)) (links : List Link) :
    (ofTexts texts links).Parsed :=
  List.foldlRecOn texts _ filesParsed_empty fun _ hfiles p _ => hfiles.push ⟨p.2, false, rfl⟩

theorem key_mem_keys_merged (idx : Index) (d : Declaration) : d.key ∈ (idx.merged d).keys := by
  rcases idx.merged_cases d with h | ⟨hcontains, -⟩
  · simp [h, Symbol.keys]
  · obtain ⟨e, he, hsame⟩ := any_eq_true.1 hcontains
    exact mem_map.2 ⟨e, he, beq_iff_eq.1 hsame⟩

end Index

end Project

namespace Declaration.PlacedIn

variable {idx : Index} {a b d : Declaration}

theorem node_parsed (h : d.PlacedIn idx) (hparsed : idx.Parsed) : d.node.tree.IsParsed :=
  h.2.node_tree ▸ hparsed _ h.1

theorem name_parsed (h : d.PlacedIn idx) (hparsed : idx.Parsed) : d.nameNode.tree.IsParsed :=
  h.2.name_tree ▸ hparsed _ h.1

theorem of_key_eq (ha : a.PlacedIn idx) (hb : b.PlacedIn idx) (hwell : idx.WellFormed)
    (hkey : a.key = b.key) : a.file = b.file ∧ a.nameNode.tree = b.nameNode.tree ∧
      a.nameNode.startByte = b.nameNode.startByte := by
  have hfile : a.file = b.file := hwell.eq_of_id_eq ha.1 hb.1 (congrArg DeclarationKey.file hkey)
  refine ⟨hfile, ?_, congrArg DeclarationKey.start hkey⟩
  rw [ha.2.name_tree, hb.2.name_tree, hfile]

end Declaration.PlacedIn

namespace Query

open Syntax.Node

/-! ## Recorded calls -/

namespace References

theorem mem_sortedLines {lines : List Nat} {l : Nat} : l ∈ sortedLines lines ↔ l ∈ lines := by
  rw [sortedLines, mem_eraseDups, mem_mergeSort]

theorem sites_within {idx : Index} {target : Symbol} {milliseconds : Nat}
    (h : milliseconds ≠ 0) : (find idx target (SearchOptions.within milliseconds)).sites =
      (find idx target everywhere).sites := by
  have hexpired : (SearchOptions.within milliseconds).expired = false := beq_false_of_ne h
  rw [find, find, hexpired]
  rfl

end References

namespace Calls

/-- Edges record a call of a declaration at a line. -/
def Records (edges : List (CallEdge Declaration)) (key : DeclarationKey) (line : Nat) : Prop :=
  ∃ e ∈ edges, e.target.key = key ∧ line ∈ e.lines

section

variable {edges : List (CallEdge Declaration)} {key : DeclarationKey} {line : Nat}

theorem records_addCall {call : Declaration × Nat} :
    Records (addCall edges call) key line ↔
      Records edges key line ∨ call.1.key = key ∧ call.2 = line := by
  unfold addCall
  split
  · next hany =>
    obtain ⟨e, he, hsame⟩ := any_eq_true.1 hany
    constructor
    · rintro ⟨e', he', hkey, hline⟩
      obtain ⟨e₀, he₀, rfl⟩ := mem_map.1 he'
      by_cases hsame₀ : e₀.target.sameAs call.1 = true
      · rw [if_pos hsame₀] at hkey hline
        rcases mem_append.1 hline with hline | hline
        · exact .inl ⟨e₀, he₀, hkey, hline⟩
        · exact .inr ⟨(beq_iff_eq.1 hsame₀).symm.trans hkey, (mem_singleton.1 hline).symm⟩
      · rw [if_neg hsame₀] at hkey hline
        exact .inl ⟨e₀, he₀, hkey, hline⟩
    · rintro (⟨e₀, he₀, hkey, hline⟩ | ⟨hkey, hline⟩)
      · refine ⟨_, mem_map_of_mem he₀, ?_⟩
        split
        · exact ⟨hkey, mem_append_left _ hline⟩
        · exact ⟨hkey, hline⟩
      · refine ⟨_, mem_map_of_mem he, ?_⟩
        rw [if_pos hsame]
        exact ⟨(beq_iff_eq.1 hsame).trans hkey, by simp [hline]⟩
  · constructor
    · rintro ⟨e, he, hkey, hline⟩
      rcases mem_append.1 he with he | he
      · exact .inl ⟨e, he, hkey, hline⟩
      · cases mem_singleton.1 he
        exact .inr ⟨hkey, (mem_singleton.1 hline).symm⟩
    · rintro (⟨e, he, hkey, hline⟩ | ⟨hkey, hline⟩)
      · exact ⟨e, mem_append_left _ he, hkey, hline⟩
      · exact ⟨_, mem_append_right _ (mem_singleton_self _), hkey, by simp [hline]⟩

theorem records_foldl_addCall {calls : List (Declaration × Nat)} :
    Records (calls.foldl addCall edges) key line ↔
      Records edges key line ∨ ∃ call ∈ calls, call.1.key = key ∧ call.2 = line := by
  induction calls generalizing edges with
  | nil => simp
  | cons call calls ih =>
    rw [foldl_cons, ih, records_addCall, exists_mem_cons_iff, or_assoc]

theorem records_sorted :
    Records (edges.map fun e => { e with lines := References.sortedLines e.lines }) key line ↔
      Records edges key line := by
  simp only [Records, mem_map, exists_exists_and_eq_and, References.mem_sortedLines]

theorem records_edges_iff {calls : List (Declaration × Nat)} :
    Records ((calls.foldl addCall []).map fun e =>
      { e with lines := References.sortedLines e.lines }) key line ↔
      ∃ call ∈ calls, call.1.key = key ∧ call.2 = line := by
  rw [records_sorted, records_foldl_addCall]
  exact or_iff_right fun ⟨_, h, _⟩ => nomatch h

end

variable {idx : Index} {f g : Declaration} {token : Node} {line : Nat}

/-- In the body of a callable stands a call or a construction at a line that targets a declaration, and
the token names what is called. -/
def CallsBy (idx : Index) (f : Declaration) (token : Node) (g : Declaration) (line : Nat) : Prop :=
  ∃ owner body n callee d, bodyOf? f = some (owner, body) ∧ n ∈ body.descendants ∧
    calleeOf? n = some callee ∧ calleeName? callee.unwrap = some token ∧
    target? idx f.file owner n = some (d, line) ∧ d.key = g.key

/-- What a declaration calls is recorded line by line, for every call in its body. -/
theorem records_callees_iff :
    Records (callees idx f) g.key line ↔ ∃ token, CallsBy idx f token g line := by
  unfold callees
  cases hbody : bodyOf? f with
  | none =>
    refine iff_of_false (fun ⟨_, h, _⟩ => nomatch h) ?_
    rintro ⟨token, owner, body, n, callee, d, h, -⟩
    cases hbody.symm.trans h
  | some p =>
    obtain ⟨owner, body⟩ := p
    refine records_edges_iff.trans ⟨?_, ?_⟩
    · rintro ⟨⟨d, l⟩, hcall, hkey, rfl⟩
      obtain ⟨n, hn, htarget⟩ := mem_filterMap.1 hcall
      obtain ⟨callee, enclosing, name, token, s, hcallee, -, -, htoken, -⟩ :=
        target?_eq_some htarget
      exact ⟨token, owner, body, n, callee, d, hbody, hn, hcallee, htoken, htarget, hkey⟩
    · rintro ⟨token, owner', body', n, callee, d, hbody', hn, -, -, htarget, hkey⟩
      cases hbody.symm.trans hbody'
      exact ⟨(d, line), mem_filterMap.2 ⟨n, hn, htarget⟩, hkey, rfl⟩

/-- What calls a declaration is recorded line by line, for every call among its references. -/
theorem records_callers_iff {key : DeclarationKey} :
    Records (callers idx g) key line ↔
      ∃ site ∈ (References.find idx (idx.merged g)
          (SearchOptions.within idx.settings.referenceTimeoutMs)).sites,
        site.kind = .called ∧ site.line = line ∧ ∃ d, callerAt? site = some d ∧ d.key = key := by
  have hsort : Records (callers idx g) key line ↔ _ :=
    exists_congr fun e => and_congr_left fun _ => mem_mergeSort
  refine hsort.trans (records_edges_iff.trans ⟨?_, ?_⟩)
  · rintro ⟨call, hcall, hkey, hline⟩
    obtain ⟨site, hsite, hcaller⟩ := mem_filterMap.1 hcall
    obtain ⟨d, hd, rfl⟩ := Option.map_eq_some_iff.1 hcaller
    obtain ⟨hsite, hkind⟩ := mem_filter.1 hsite
    exact ⟨site, hsite, beq_iff_eq.1 hkind, hline, d, hd, hkey⟩
  · rintro ⟨site, hsite, hkind, hline, d, hd, hkey⟩
    refine ⟨(d, site.line), mem_filterMap.2 ⟨site, ?_, by rw [hd]; rfl⟩, hkey, hline⟩
    exact mem_filter.2 ⟨hsite, by rw [hkind]; rfl⟩

/-! ## Known ends -/

theorem callees_made (hparsed : idx.Parsed) (hf : f.PlacedIn idx) {e : CallEdge Declaration}
    (h : e ∈ callees idx f) : e.target.Made := by
  obtain ⟨owner, body, n, l, hbody, hn, htarget⟩ := exists_target_of_mem_callees h
  obtain ⟨callee, -, -, token, s, hcallee, -, -, htoken, hs, himplementation, -⟩ :=
    target?_eq_some htarget
  have ht : n.tree.IsParsed := tree_of_mem_body hf.2 hbody hn ▸ hparsed _ hf.1
  have hidentifier := (leadsTo_of_isNamedBy ht hcallee (isNamedBy_of_calleeName? htoken)).isIdentifier
  have htree := (tree_of_calledName hcallee htoken).trans (tree_of_mem_body hf.2 hbody hn)
  exact himplementation ▸ (Index.resolveAt?_arises hf.1 htree hs hidentifier _ s.implementation_mem).made

/-- What calls a declaration goes by the name to which its calls are attributed. -/
theorem callers_known {e : CallEdge Declaration} (h : e ∈ callers idx g) : e.target.Known := by
  obtain ⟨call, hcall, heq⟩ := exists_call_of_mem_edges (mem_mergeSort.1 h)
  obtain ⟨site, hsite, hcaller⟩ := mem_filterMap.1 hcall
  obtain ⟨caller, hat, rfl⟩ := Option.map_eq_some_iff.1 hcaller
  obtain ⟨-, htree⟩ := References.placed_of_mem_sites (mem_of_mem_filter hsite)
  obtain ⟨-, henclosing⟩ := enclosingCallable?_of_callerAt? htree hat
  obtain ⟨function, -, hfunction⟩ := exists_of_findSome?_eq_some henclosing
  exact heq ▸ .inr ⟨function, hfunction⟩

/-! ## From the call to the reference -/

section

variable {file : SourceFile} {n callee : Node} (hwell : idx.WellFormed) (hparsed : idx.Parsed)
  (hfile : file ∈ idx.files.toList)

include hwell hparsed hfile

/-- A called name is not the name of the declarations of what is called. -/
theorem key_notMem_merged (hg : g.PlacedIn idx) (hmade : g.Made)
    (htree : token.tree = file.tree) (hleads : token.LeadsTo n) :
    (⟨file.id, token.startByte⟩ : DeclarationKey) ∉ (idx.merged g).keys := by
  intro hmem
  obtain ⟨d, hd, hkey⟩ := mem_map.1 hmem
  obtain ⟨hplace, hlies⟩ := Index.merged_placed hg d hd
  cases hwell.eq_of_id_eq hplace hfile (congrArg DeclarationKey.file hkey)
  have ht := hparsed _ hfile
  have hname := (Index.merged_made hg hmade hd).formed.isName (hlies.node_tree ▸ ht) (hlies.name_tree ▸ ht)
  exact startByte_ne_of_leadsTo (htree ▸ ht) hname hleads (hlies.name_tree.trans htree.symm)
    (congrArg DeclarationKey.start hkey)

theorem mem_sites_of_calleeName? (huser : file.isUser = true) (hg : g.PlacedIn idx)
    (hmade : g.Made) (hn : n.tree = file.tree) (hcallee : calleeOf? n = some callee)
    (htoken : calleeName? callee.unwrap = some token) {s : Symbol}
    (hs : idx.resolveAt? file token = some s) (hkey : s.implementation.key = g.key)
    (hname : token.text ∈ References.searchNames idx (idx.merged g).name) :
    (⟨file, token⟩ : ReferenceSite) ∈
      (References.find idx (idx.merged g) References.everywhere).sites := by
  have hnamed := isNamedBy_of_calleeName? htoken
  have hleads := leadsTo_of_isNamedBy (hn ▸ hparsed _ hfile) hcallee hnamed
  have htree : token.tree = file.tree := (tree_of_isNamedBy hcallee hnamed).trans hn
  have hidentifier : token ∈ SourceFile.identifiers file.tree := by
    obtain ⟨hident, -, w, hpath, -⟩ := hleads
    refine mem_filter.2 ⟨htree ▸ mem_nodes_of_lt ?_, hident⟩
    exact lt_size_of_mem_ancestors (m := n) (by simp [hpath])
  refine References.mem_sites_iff.2 ⟨?_, huser, hidentifier, hname, ?_,
    References.isAliasName_of_leadsTo hleads, References.refersTo_iff.2 ⟨s, hs, ?_⟩⟩
  · exact (Index.mem_filesWithAnyToken_iff hwell).2 ⟨hfile, token, hidentifier, hname⟩
  · exact key_notMem_merged hwell hparsed hfile hg hmade htree hleads
  · exact ⟨s.implementation, s.implementation_mem, hkey ▸ idx.key_mem_keys_merged g⟩

end

/-! ## From the body to the callers -/

theorem bodyOf?_of_ne_classType {owner body : Node} (hclass : f.kind ≠ .classType)
    (h : bodyOf? f = some (owner, body)) : owner = f.node := by
  rw [bodyOf?, if_neg (by simpa using hclass)] at h
  obtain ⟨b, -, hb⟩ := Option.map_eq_some_iff.1 h
  cases hb
  rfl

/-- A call in the body of a function is recorded among the callers of its target, under the name to
which the calls of the function are attributed. -/
theorem records_callers_of_callsBy (hwell : idx.WellFormed) (hparsed : idx.Parsed)
    (htime : idx.settings.referenceTimeoutMs ≠ 0) (hf : f.PlacedIn idx) (huser : f.isUser = true)
    (hclass : f.kind ≠ .classType) (hg : g.PlacedIn idx) (hmade : g.Made)
    (h : CallsBy idx f token g line)
    (hname : token.text ∈ References.searchNames idx (idx.merged g).name) :
    ∃ name, f.node.IsCallableAs name ∧
      Records (callers idx g) ⟨f.file.id, name.startByte⟩ line := by
  obtain ⟨owner, body, n, callee, d, hbody, hn, hcallee, htoken, htarget, hkey⟩ := h
  cases bodyOf?_of_ne_classType hclass hbody
  obtain ⟨callee', enclosing, name, token', s, hcallee', henclosing, howner, htoken', hs, rfl, rfl⟩ :=
    target?_eq_some htarget
  cases hcallee.symm.trans hcallee'
  cases htoken.symm.trans htoken'
  have htree := tree_of_mem_body hf.2 hbody hn
  have ht : n.tree.IsParsed := htree ▸ hparsed _ hf.1
  have hnamed := isNamedBy_of_calleeName? htoken
  have hleads := leadsTo_of_isNamedBy ht hcallee hnamed
  refine ⟨name, ?_, ?_⟩
  · -- the callable around the call is the function itself
    have hsame : enclosing.tree = f.node.tree :=
      (pairIn_enclosingCallable? henclosing).1.trans (htree.trans hf.2.node_tree.symm)
    cases Node.eq_of_beq howner hsame
    obtain ⟨function, -, hfunction⟩ := exists_of_findSome?_eq_some henclosing
    exact isCallableAs_of_asCallable? hfunction
  · have hsite := mem_sites_of_calleeName? hwell hparsed hf.1 huser hg hmade htree hcallee htoken hs
      hkey hname
    rw [← References.sites_within htime] at hsite
    have hcaller : ∃ d, callerAt? ⟨f.file, token⟩ = some d ∧ d.key = ⟨f.file.id, name.startByte⟩ :=
      key_of_callerAt? ((tree_of_isNamedBy hcallee hnamed).trans htree)
        (hleads.enclosingCallable?_eq.trans henclosing)
    exact records_callers_iff.2
      ⟨_, hsite, classify_of_isNamedBy ht hcallee hnamed, rfl, hcaller⟩

/-- Every line at which a function calls something comes from a call in its body. If the token of the
call is one that the search for references looks at, the call is found again from the other end, at
the same line, under the name to which the calls of the function are attributed. By this name the
function is known, unless it goes by a keyword. -/
theorem callers_of_callees (hwell : idx.WellFormed) (hparsed : idx.Parsed)
    (htime : idx.settings.referenceTimeoutMs ≠ 0) (hf : f.PlacedIn idx) (hknown : f.Known)
    (huser : f.isUser = true) (hclass : f.kind ≠ .classType) {e : CallEdge Declaration}
    (he : e ∈ callees idx f) (hline : line ∈ e.lines) :
    (∃ token, CallsBy idx f token e.target line) ∧
      ∀ token, CallsBy idx f token e.target line →
        token.text ∈ References.searchNames idx (idx.merged e.target).name →
        ∃ c ∈ callers idx e.target, line ∈ c.lines ∧
          (f.nameNode.isNamed = true → c.target.key = f.key) ∧
          ∃ name, f.node.IsCallableAs name ∧ c.target.key = ⟨f.file.id, name.startByte⟩ := by
  refine ⟨records_callees_iff.1 ⟨e, he, rfl, hline⟩, fun token hcall hname => ?_⟩
  obtain ⟨name, hcallable, c, hc, hkey, hcline⟩ := records_callers_of_callsBy hwell hparsed htime hf
    huser hclass (callees_placed hf he) (callees_made hparsed hf he) hcall hname
  refine ⟨c, hc, hcline, fun hnamed => ?_, name, hcallable, hkey⟩
  have ht : f.node.tree.IsParsed := hf.2.node_tree ▸ hparsed _ hf.1
  rw [hkey, ← hknown.nameNode_eq ht hnamed hcallable]
  rfl

/-! ## Small projects -/

/-- A function that the user wrote, whose body has a call by a token that is spelled like everything
that the body calls. -/
def isPlainCaller (idx : Index) (f : Declaration) : Bool :=
  f.isUser && f.kind != .classType && (bodyOf? f).any fun (owner, body) =>
    body.descendants.any fun n =>
      (target? idx f.file owner n).isSome &&
        ((calleeOf? n).bind fun callee => calleeName? callee.unwrap).any fun token =>
          (body.descendants.filterMap (target? idx f.file owner)).all fun call =>
            (idx.merged call.1).name == token.text

theorem exists_of_isPlainCaller (hwell : idx.WellFormed) (h : isPlainCaller idx f = true) :
    f.isUser = true ∧ f.kind ≠ .classType ∧ ∃ e ∈ callees idx f, ∃ line ∈ e.lines,
      ∃ token, CallsBy idx f token e.target line ∧
        token.text ∈ References.searchNames idx (idx.merged e.target).name := by
  simp only [isPlainCaller, Bool.and_eq_true, Option.any_eq_true, any_eq_true,
    Option.isSome_iff_exists, Option.bind_eq_some_iff, all_eq_true, mem_filterMap,
    bne_iff_ne] at h
  obtain ⟨⟨huser, hclass⟩, ⟨owner, body⟩, hbody, n, hn, ⟨⟨d, line⟩, htarget⟩, token,
    ⟨callee, hcallee, htoken⟩, hnames⟩ := h
  have hcall : CallsBy idx f token d line :=
    ⟨owner, body, n, callee, d, hbody, hn, hcallee, htoken, htarget, rfl⟩
  obtain ⟨e, he, hkey, hline⟩ := records_callees_iff.2 ⟨token, hcall⟩
  refine ⟨huser, hclass, e, he, line, hline, token, ?_, ?_⟩
  · exact ⟨owner, body, n, callee, d, hbody, hn, hcallee, htoken, htarget, hkey.symm⟩
  · obtain ⟨owner', body', m, l, hbody', hm, htarget'⟩ := exists_target_of_mem_callees he
    cases hbody.symm.trans hbody'
    have hname : (idx.merged e.target).name = token.text :=
      beq_iff_eq.1 (hnames (e.target, l) ⟨m, hm, htarget'⟩)
    rw [hname]
    exact (References.mem_searchNames_iff hwell).2 .refl

theorem exists_ok_of_any {ε α : Type} {e : Except ε α} {p : α → Bool}
    (h : e.toOption.any p = true) : ∃ a, e = .ok a ∧ p a = true := by
  cases e with
  | error _ => cases h
  | ok a => exact ⟨a, rfl, h⟩

theorem exists_located {name : String} {p : Declaration → Bool}
    (h : (locateDeclaration idx ⟨name, none, none⟩).toOption.any p = true) :
    ∃ f, f.PlacedIn idx ∧ f.Known ∧ p f = true := by
  obtain ⟨f, hlocate, hp⟩ := exists_ok_of_any h
  have harises := locateDeclaration_arises hlocate
  exact ⟨f, harises.placed, .inl harises.made.formed, hp⟩

/-- A project in which a function value calls a member of a module, in parentheses. -/
def memberCall : Index :=
  .ofTexts [("lib.ts", "export function g() \x7b\x7d"),
    ("main.ts", "import * as lib from './lib';\nexport const f = () => \x7b\n  (lib.g)();\n\x7d;")]
    [⟨1, "./lib", [0]⟩]

/-- The call is found from both ends. -/
theorem memberCall_found : memberCall.settings.referenceTimeoutMs ≠ 0 ∧
    ∃ f e line token, f.PlacedIn memberCall ∧ f.Known ∧ f.isUser = true ∧ f.kind ≠ .classType ∧
      f.nameNode.isNamed = true ∧ e ∈ callees memberCall f ∧ line ∈ e.lines ∧
      CallsBy memberCall f token e.target line ∧
      token.text ∈ References.searchNames memberCall (memberCall.merged e.target).name ∧
      ∃ c ∈ callers memberCall e.target, c.target.key = f.key ∧ line ∈ c.lines := by
  have hlocated : ((locateDeclaration memberCall ⟨"f", none, none⟩).toOption.any fun f =>
      isPlainCaller memberCall f && f.nameNode.isNamed) = true := by decide +kernel
  have hwell : memberCall.WellFormed := Index.wellFormed_ofTexts _ _
  have htime : memberCall.settings.referenceTimeoutMs ≠ 0 := by decide +kernel
  obtain ⟨f, hf, hknown, hcheck⟩ := exists_located hlocated
  obtain ⟨hplain, hnamed⟩ := Bool.and_eq_true_iff.1 hcheck
  obtain ⟨huser, hclass, e, he, line, hline, token, hcall, hname⟩ :=
    exists_of_isPlainCaller hwell hplain
  obtain ⟨-, hcallers⟩ := callers_of_callees hwell (Index.parsed_ofTexts _ _) htime hf hknown huser
    hclass he hline
  obtain ⟨c, hc, hcline, hkey, -⟩ := hcallers token hcall hname
  exact ⟨htime, f, e, line, token, hf, hknown, huser, hclass, hnamed, he, hline, hcall, hname, c, hc,
    hkey hnamed, hcline⟩

/-- A project with a function value that is exported as a whole module. -/
def exportedValue : Index :=
  .ofTexts [("lib.ts", "export function g() \x7b\x7d"),
    ("m.ts", "import \x7b g \x7d from './lib';\nexport = function n() \x7b g(); \x7d;"),
    ("main.ts", "import m from './m';\nm();")]
    [⟨1, "./lib", [0]⟩, ⟨2, "./m", [1]⟩]

/-- The function value goes by the keyword before it, its calls are attributed to its own name: from
the other end the call is not found under the same key. -/
theorem exportedValue_not_found : exportedValue.settings.referenceTimeoutMs ≠ 0 ∧
    ∃ f e line token, f.PlacedIn exportedValue ∧ f.Known ∧ f.isUser = true ∧ f.kind ≠ .classType ∧
      e ∈ callees exportedValue f ∧ line ∈ e.lines ∧ CallsBy exportedValue f token e.target line ∧
      token.text ∈ References.searchNames exportedValue (exportedValue.merged e.target).name ∧
      ¬ ∃ c ∈ callers exportedValue e.target, c.target.key = f.key ∧ line ∈ c.lines := by
  have hlocated : ((locateDeclaration exportedValue ⟨"m", none, none⟩).toOption.any fun f =>
      isPlainCaller exportedValue f && exportedValue.files.toList.all fun file =>
        (SourceFile.identifiers file.tree).all fun t =>
          (callerAt? ⟨file, t⟩).all (·.key != f.key)) = true := by decide +kernel
  have hwell : exportedValue.WellFormed := Index.wellFormed_ofTexts _ _
  have htime : exportedValue.settings.referenceTimeoutMs ≠ 0 := by decide +kernel
  obtain ⟨f, hf, hknown, hcheck⟩ := exists_located hlocated
  obtain ⟨hplain, hkeys⟩ := Bool.and_eq_true_iff.1 hcheck
  obtain ⟨huser, hclass, e, he, line, hline, token, hcall, hname⟩ :=
    exists_of_isPlainCaller hwell hplain
  refine ⟨htime, f, e, line, token, hf, hknown, huser, hclass, he, hline, hcall, hname, ?_⟩
  intro hrecords
  obtain ⟨⟨file, t⟩, hsite, -, -, d, hd, hkey⟩ := records_callers_iff.1 hrecords
  rw [References.sites_within htime] at hsite
  obtain ⟨hfile, -, ht, -⟩ := References.mem_sites_iff.1 hsite
  have hfile := Index.mem_files_of_mem_filterMap_file? hfile
  have hne := all_eq_true.1 (all_eq_true.1 hkeys file hfile) t ht
  rw [hd, Option.all_some, bne_iff_ne] at hne
  exact hne hkey

end Calls

end Query

end ScriptAtlas
