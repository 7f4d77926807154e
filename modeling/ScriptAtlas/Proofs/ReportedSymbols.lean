import ScriptAtlas.Proofs.Hints

/-!
# Asking for a reported symbol

The pointer to a declaration that a result shows has a name, a file and a line, and so it is a query
again. Which declaration that query means follows from the order in which candidates are preferred.

* `Locate.firstLeast_eq_some_iff`: the choice among candidates;
* `Locate.Meant`: the candidate that is meant at a line, or without one;
* `SymbolRef.FoundIn`: the query for a pointer gives the pointer back;
* `reported_foundIn_iff`: when this is so, for every declaration in a file of the user.
-/

namespace ScriptAtlas

open List Project Syntax Storage Text

/-! ## Pointers and owners -/

namespace Declaration

variable {d : Declaration} {f : SourceFile}

theorem displayName_with_file (d : Declaration) (f : SourceFile) :
    ({ d with file := f } : Declaration).displayName = d.displayName := by
  have hofNode (n : Node) : (ofNode? f n).map name = (ofNode? d.file n).map name := by
    simp only [ofNode?, Option.map_bind, Function.comp_def, Option.map_map]
    rfl
  have howner : (({ d with file := f } : Declaration).owner?).map name = d.owner?.map name := by
    simp only [owner?, container?]
    split
    · rw [Option.map_bind, Option.map_bind]
      exact congrArg _ (funext hofNode)
    · rfl
  have hshown (e : Declaration) :
      e.displayName = ((e.owner?.map name).elim e.name fun owner => owner ++ "." ++ e.name) := by
    unfold displayName
    cases e.owner? <;> rfl
  rw [hshown, hshown, howner]
  rfl

theorem ref_with_file (h : f.relPath = d.file.relPath) :
    ({ d with file := f } : Declaration).ref = d.ref := by
  unfold ref
  rw [displayName_with_file]
  exact congrArg (fun path => Query.SymbolRef.mk _ path _ _) h

theorem LiesIn.with_file (hd : d.LiesIn d.file) (h : f.tree = d.file.tree) :
    ({ d with file := f } : Declaration).LiesIn f :=
  ⟨rfl, hd.node_tree.trans h.symm, hd.name_tree.trans h.symm⟩

theorem kind_of_owner? {o : Declaration} (h : d.owner? = some o) :
    o.kind = .classType ∨ o.kind = .interfaceType ∨ o.kind = .enumType := by
  unfold owner? at h
  split at h
  · exact kind_of_container? h
  · cases h

end Declaration

namespace Query

namespace Locate

variable {idx : Index} {file : SourceFile} {name : String} {d : Declaration}

/-! ## The choice among candidates -/

/-- The first element of a list that no other one is less than. -/
def FirstLeast {α : Type} (lt : α → α → Bool) (l : List α) (a : α) : Prop :=
  ∃ front back, l = front ++ a :: back ∧ (∀ b ∈ front, lt a b = true) ∧ ∀ b ∈ back, lt b a = false

/-- The order of a choice: what is less than one element is also less than all that are not less
than that one. -/
structure IsChoice {α : Type} (lt : α → α → Bool) : Prop where
  asymm : ∀ {a b}, lt a b = true → lt b a = false
  weak : ∀ {a b c}, lt a b = true → lt c b = false → lt a c = true

section

variable {α : Type} {lt : α → α → Bool} {l done : List α} {a b : α}

theorem FirstLeast.mem (h : FirstLeast lt l a) : a ∈ l := by
  obtain ⟨front, back, rfl, -⟩ := h
  simp

/-- One comparison keeps the first least element of what was seen. -/
theorem FirstLeast.step (hlt : IsChoice lt) (h : FirstLeast lt done a) (b : α) :
    FirstLeast lt (done ++ [b]) (if lt b a then b else a) := by
  obtain ⟨front, back, rfl, hfront, hback⟩ := h
  split
  · next hless =>
    refine ⟨front ++ a :: back, [], by simp, fun c hc => ?_, by simp⟩
    rcases mem_append.1 hc with hc | hc
    · exact hlt.weak hless (hlt.asymm (hfront c hc))
    · rcases mem_cons.1 hc with rfl | hc
      · exact hless
      · exact hlt.weak hless (hback c hc)
  · next hless =>
    refine ⟨front, back ++ [b], by simp, hfront, fun c hc => ?_⟩
    rcases mem_append.1 hc with hc | hc
    · exact hback c hc
    · rw [mem_singleton.1 hc]
      exact Bool.eq_false_iff.2 hless

theorem FirstLeast.foldl (hlt : IsChoice lt) (h : FirstLeast lt done a) (rest : List α) :
    FirstLeast lt (done ++ rest) (rest.foldl (fun best b => if lt b best then b else best) a) := by
  induction rest generalizing done a with
  | nil => simpa using h
  | cons b rest ih =>
    have hrun := ih (h.step hlt b)
    rwa [append_assoc] at hrun

theorem FirstLeast.unique (ha : FirstLeast lt l a) (hb : FirstLeast lt l b) : a = b := by
  obtain ⟨front, back, rfl, hfront, hback⟩ := ha
  obtain ⟨front', back', heq, hfront', hback'⟩ := hb
  rcases append_eq_append_iff.1 heq with ⟨mid, rfl, hmid⟩ | ⟨mid, rfl, hmid⟩
  · cases mid with
    | nil => exact (List.cons.inj hmid).1
    | cons c mid =>
      obtain ⟨rfl, rfl⟩ := List.cons.inj hmid
      have hless := hfront' a (by simp)
      rw [hback b (by simp)] at hless
      cases hless
  · cases mid with
    | nil => exact (List.cons.inj hmid).1.symm
    | cons c mid =>
      obtain ⟨rfl, rfl⟩ := List.cons.inj hmid
      have hless := hfront b (by simp)
      rw [hback' a (by simp)] at hless
      cases hless

theorem firstLeast_eq_some_iff (hlt : IsChoice lt) :
    firstLeast lt l = some a ↔ FirstLeast lt l a := by
  have hfound {b : α} {rest : List α} : FirstLeast lt (b :: rest)
      (rest.foldl (fun best b => if lt b best then b else best) b) :=
    FirstLeast.foldl hlt ⟨[], [], rfl, by simp, by simp⟩ rest
  cases l with
  | nil =>
    refine iff_of_false (by simp [firstLeast]) fun h => ?_
    cases h.mem
  | cons b rest =>
    rw [firstLeast, Option.some.injEq]
    constructor
    · rintro rfl
      exact hfound
    · exact hfound.unique

end

theorem isChoice_isCloser : IsChoice isCloser where
  asymm {a b} h := by
    simp only [isCloser, Bool.or_eq_true, Bool.and_eq_true, decide_eq_true_eq, beq_iff_eq] at h
    simp only [isCloser, Bool.or_eq_false_iff, Bool.and_eq_false_iff, decide_eq_false_iff_not,
      beq_eq_false_iff_ne]
    omega
  weak {a b c} h hn := by
    simp only [isCloser, Bool.or_eq_true, Bool.and_eq_true, decide_eq_true_eq, beq_iff_eq] at h ⊢
    simp only [isCloser, Bool.or_eq_false_iff, Bool.and_eq_false_iff, decide_eq_false_iff_not,
      beq_eq_false_iff_ne] at hn
    omega

/-- Prefers the better kind. -/
def isBetter (a b : Declaration) : Bool := priority a.kind < priority b.kind

theorem isChoice_isBetter : IsChoice isBetter where
  asymm {a b} h := by
    simp only [isBetter, decide_eq_true_eq, decide_eq_false_iff_not] at h ⊢
    omega
  weak {a b c} h hn := by
    simp only [isBetter, decide_eq_true_eq, decide_eq_false_iff_not] at h hn ⊢
    omega

/-- Whether a line is one of a declaration. -/
def isAround (line : Nat) (d : Declaration) : Bool := d.node.line ≤ line && line ≤ d.node.endLine

/-- The candidate that is meant. -/
inductive Meant (candidates : List Declaration) (line : Option Nat) (d : Declaration) : Prop
  /-- Of those around the line it is the closest. -/
  | around (l : Nat) (hline : line = some l)
      (h : FirstLeast isCloser (candidates.filter (isAround l)) d)
  /-- None is around the line, and of all it is the first of the best kind. -/
  | best (hnone : ∀ l, line = some l → candidates.filter (isAround l) = [])
      (h : FirstLeast isBetter candidates d)

theorem pick_none (candidates : List Declaration) :
    pick candidates none = firstLeast isBetter candidates := rfl

theorem pick_some (candidates : List Declaration) (l : Nat) : pick candidates (some l) =
    (firstLeast isCloser (candidates.filter (isAround l)) <|> firstLeast isBetter candidates) := rfl

section

variable {candidates : List Declaration} {line : Option Nat} {d : Declaration}

theorem pick_eq_some_iff : pick candidates line = some d ↔ Meant candidates line d := by
  have hbest := firstLeast_eq_some_iff (l := candidates) (a := d) isChoice_isBetter
  cases line with
  | none =>
    rw [pick_none, hbest]
    refine ⟨fun h => .best nofun h, fun h => ?_⟩
    cases h with
    | around l hline h => cases hline
    | best hnone h => exact h
  | some l =>
    rw [pick_some]
    cases haround : candidates.filter (isAround l) with
    | nil =>
      refine hbest.trans ⟨fun h => .best (fun l' hl => Option.some.inj hl ▸ haround) h, fun h => ?_⟩
      cases h with
      | around l' hline h =>
        obtain rfl := Option.some.inj hline
        rw [haround] at h
        cases h.mem
      | best hnone h => exact h
    | cons c rest =>
      have hclosest : FirstLeast isCloser (c :: rest) d ↔ (firstLeast isCloser (c :: rest)
          <|> firstLeast isBetter candidates) = some d :=
        (firstLeast_eq_some_iff isChoice_isCloser).symm
      rw [← hclosest, ← haround]
      refine ⟨fun h => .around l rfl h, fun h => ?_⟩
      cases h with
      | around l' hline h =>
        obtain rfl := Option.some.inj hline
        exact h
      | best hnone h =>
        rw [hnone l rfl] at haround
        cases haround

theorem exists_meant_of_mem (h : d ∈ candidates) (line : Option Nat) :
    ∃ c, Meant candidates line c := by
  have hsome : (pick candidates line).isSome = true := by
    cases candidates with
    | nil => cases h
    | cons c rest =>
      cases line with
      | none => rfl
      | some l =>
        rw [pick_some]
        cases firstLeast isCloser ((c :: rest).filter (isAround l)) <;> rfl
  obtain ⟨c, hc⟩ := Option.isSome_iff_exists.1 hsome
  exact ⟨c, pick_eq_some_iff.1 hc⟩

/-- A candidate is meant at a line of its own if it is closer than every other one there. -/
theorem meant_of_closest {l : Nat} (hd : d ∈ candidates) (hline : isAround l d = true)
    (h : ∀ c ∈ candidates, isAround l c = true → c = d ∨ isCloser d c = true) :
    Meant candidates (some l) d := by
  have haround : d ∈ candidates.filter (isAround l) := mem_filter.2 ⟨hd, hline⟩
  obtain ⟨c, hc⟩ := exists_meant_of_mem hd (some l)
  cases hc with
  | best hnone hbest =>
    rw [hnone l rfl] at haround
    cases haround
  | around l' hl hfirst =>
    obtain rfl := Option.some.inj hl
    obtain ⟨hmem, hat⟩ := mem_filter.1 hfirst.mem
    rcases h c hmem hat with rfl | hcloser
    · exact .around l rfl hfirst
    -- the one that was chosen is no farther than any other, so there is none that is closer
    · obtain ⟨front, back, heq, hfront, hback⟩ := hfirst
      rw [heq] at haround
      rcases mem_append.1 haround with hd | hd
      · rw [isChoice_isCloser.asymm (hfront d hd)] at hcloser
        cases hcloser
      · rcases mem_cons.1 hd with rfl | hd
        · exact .around l rfl ⟨front, back, heq, hfront, hback⟩
        · rw [hback d hd] at hcloser
          cases hcloser

end

/-! ## The candidates of a file -/

/-- The candidates for a name in a file: the declarations of that name, or else what binds it. -/
def candidates (file : SourceFile) (name : String) : List Declaration :=
  if (declarations file name false).isEmpty then bindings file name
  else declarations file name false

theorem inFile_eq_some_iff {line : Option Nat} {e : Declaration} :
    inFile idx file name line = some e ↔
      ∃ c, Meant (candidates file name) line c ∧ throughImport idx c = e := by
  have hin : inFile idx file name line =
      (pick (candidates file name) line).map (throughImport idx) := rfl
  rw [hin, Option.map_eq_some_iff]
  exact exists_congr fun c => and_congr_left fun _ => pick_eq_some_iff

theorem mem_declarations_iff :
    d ∈ declarations file name false ↔ d.file = file ∧ d.node ∈ file.tree.nodes ∧
      d.node.declarationKind? = some d.kind ∧ d.node.declarationName? = some d.nameNode ∧
      d.name = name := by
  unfold declarations
  rw [mem_filterMap]
  constructor
  · rintro ⟨n, hn, h⟩
    split at h
    · next kind nameNode hkind hname =>
      split at h
      · cases h
      · next hkeep =>
        cases h
        have hname' : nameNode.bareText = name := by simpa using hkeep
        exact ⟨rfl, hn, hkind, hname, hname'⟩
    · cases h
  · rintro ⟨rfl, hn, hkind, hname, rfl⟩
    refine ⟨d.node, hn, ?_⟩
    simp [hkind, hname, Declaration.name]

theorem mem_candidates_of_declarationName? (hd : d.LiesIn d.file)
    (hkind : d.node.declarationKind? = some d.kind)
    (hname : d.node.declarationName? = some d.nameNode) : d ∈ candidates d.file d.name := by
  obtain ⟨k, hk, hne⟩ := Node.exists_kind_ne_program (Option.isSome_of_eq_some hkind)
  have hlabel : d.node.label ≠ .named .program := by
    intro hlabel
    rw [Node.kind?, hlabel] at hk
    exact hne (Option.some.inj hk).symm
  have hnode : d.node ∈ d.file.tree.nodes := by
    rw [← hd.node_tree]
    exact Node.mem_nodes_of_lt (Node.lt_size_of_label_ne hlabel)
  have hmem : d ∈ declarations d.file d.name false :=
    mem_declarations_iff.2 ⟨rfl, hnode, hkind, hname, rfl⟩
  rw [candidates, if_neg]
  · exact hmem
  · intro hempty
    rw [List.isEmpty_iff.1 hempty] at hmem
    cases hmem

theorem isAround_of_mem_candidates (ht : file.tree.IsParsed) (h : d ∈ candidates file name) :
    isAround d.line d = true := by
  have hspans : d.node.Spans d.nameNode := by
    unfold candidates at h
    split at h
    · obtain ⟨token, htoken, h⟩ := mem_filterMap.1 h
      obtain ⟨hname, hnode, k, hk, hne⟩ := Declaration.mem_ancestors_of_ofName? h
      obtain ⟨htree, hident⟩ := mem_filter.1 (mem_of_mem_filter htoken)
      rw [hname]
      refine Node.spans_of_mem_ancestors (Node.tree_of_mem_nodes htree ▸ ht) ?_ hnode hk hne
      intro hcomment
      rw [hcomment] at hident
      cases hident
    · obtain ⟨-, hnode, hkind, hname, -⟩ := mem_declarations_iff.1 h
      exact Node.spans_of_declarationName? (Node.tree_of_mem_nodes hnode ▸ ht)
        (Option.isSome_of_eq_some hkind) hname
  rw [isAround, Bool.and_eq_true, decide_eq_true_eq, decide_eq_true_eq]
  exact hspans

theorem liesIn_of_mem_candidates (h : d ∈ candidates file name) : d.LiesIn file := by
  unfold candidates at h
  split at h
  · obtain ⟨token, htoken, h⟩ := mem_filterMap.1 h
    exact Declaration.liesIn_of_ofName? h
      (Node.tree_of_mem_nodes (mem_of_mem_filter (mem_of_mem_filter htoken)))
  · exact (origin_of_mem_declarations h).liesIn rfl

theorem throughImport_of_isAlias (h : d.isAlias = false) :
    throughImport idx d = d := by
  rw [throughImport, if_neg (Bool.not_eq_true _ ▸ h)]

/-- The first member of its own that has the name is the member of a type. -/
theorem memberOf_of_head? {o m : Declaration}
    (hkind : o.kind = .classType ∨ o.kind = .interfaceType ∨ o.kind = .enumType)
    (h : (o.ownMembers name).head? = some m) : memberOf idx o name = some m := by
  unfold memberOf
  rcases hkind with hkind | hkind | hkind <;>
  · rw [hkind, h]
    rfl

end Locate

/-! ## Names and places -/

variable {idx : Index} {f : SourceFile} {hint : String} {line : Option Nat} {e : Declaration}

namespace Locate

/-- A plain name means a candidate of the file. -/
theorem upTo_word {name : String} (hname : IsWord name) (hfile : idx.findFile? hint = some f)
    (fuel : Nat) : upTo idx (fuel + 1) ⟨name, some hint, line⟩ = .ok e ↔
      inFile idx f name line = some e := by
  have hsplit : splitLast? '.' name = none := splitLast?_eq_none_iff.2 hname.dotless
  have hne : (name == "") = false := by simpa using hname.nonempty
  unfold upTo
  simp only [hname.trimmed, hne, hsplit, Option.filter_none, Option.bind_some, hfile]
  cases inFile idx f name line <;> simp

theorem upTo_of_splitLast? {q : SymbolQuery} {owner member : String} (htrim : trim q.name = q.name)
    (hne : q.name ≠ "") (hsplit : splitLast? '.' q.name = some (owner, member)) (ho : owner ≠ "")
    (hm : member ≠ "") (fuel : Nat) : upTo idx (fuel + 1) q = .ok e ↔
      ∃ o, upTo idx fuel ⟨owner, q.file, none⟩ = .ok o ∧ memberOf idx o member = some e := by
  have hempty : (q.name == "") = false := by simpa using hne
  have hsides : (owner != "" && member != "") = true := by simp [ho, hm]
  generalize howner : upTo idx fuel ⟨owner, q.file, none⟩ = located
  unfold upTo
  simp only [htrim, hempty, hsplit, Option.filter_some, hsides, if_true, howner]
  cases located with
  | error failure => simp
  | ok o => cases hmember : memberOf idx o member <;> simp [hmember]

/-- A dotted name means a member of what its first part means; the line does not count. -/
theorem upTo_dotted {owner member : String} (ho : IsWord owner) (hm : IsWord member)
    (hfile : idx.findFile? hint = some f) (fuel : Nat) :
    upTo idx (fuel + 2) ⟨owner ++ "." ++ member, some hint, line⟩ = .ok e ↔
      ∃ o, inFile idx f owner none = some o ∧ memberOf idx o member = some e := by
  have hne : owner ++ "." ++ member ≠ "" := by
    intro hempty
    have hlist := congrArg String.toList hempty
    simp at hlist
  have hstep : upTo idx (fuel + 2) ⟨owner ++ "." ++ member, some hint, line⟩ = .ok e ↔
      ∃ o, upTo idx (fuel + 1) ⟨owner, some hint, none⟩ = .ok o ∧ memberOf idx o member = some e :=
    upTo_of_splitLast? (q := ⟨owner ++ "." ++ member, some hint, line⟩) (ho.trim_dotted hm) hne
      hm.splitLast?_dotted ho.nonempty hm.nonempty (fuel + 1)
  refine hstep.trans ?_
  exact exists_congr fun o => and_congr_left fun _ => upTo_word ho hfile fuel

end Locate

open Locate

theorem locateDeclaration_word {name : String} (hname : IsWord name)
    (hfile : idx.findFile? hint = some f) :
    locateDeclaration idx ⟨name, some hint, line⟩ = .ok e ↔ ∃ c,
      Meant (candidates f name) line c ∧ throughImport idx c = e :=
  (upTo_word hname hfile _).trans inFile_eq_some_iff

theorem locateDeclaration_dotted {owner member : String} (ho : IsWord owner) (hm : IsWord member)
    (hfile : idx.findFile? hint = some f) :
    locateDeclaration idx ⟨owner ++ "." ++ member, some hint, line⟩ = .ok e ↔ ∃ c,
      Meant (candidates f owner) none c ∧
      memberOf idx (throughImport idx c) member = some e := by
  obtain ⟨k, hk⟩ : ∃ k, (owner ++ "." ++ member).length = k + 1 := by
    refine ⟨owner.length + member.length, ?_⟩
    have hdot : ".".length = 1 := rfl
    rw [String.length_append, String.length_append, hdot]
    omega
  rw [locateDeclaration, hk, upTo_dotted ho hm hfile]
  constructor
  · rintro ⟨o, hin, hmember⟩
    obtain ⟨c, hc, rfl⟩ := inFile_eq_some_iff.1 hin
    exact ⟨c, hc, hmember⟩
  · rintro ⟨c, hc, hmember⟩
    exact ⟨_, inFile_eq_some_iff.2 ⟨c, hc, rfl⟩, hmember⟩

/-! ## Pointers as queries -/

/-- The query for what a pointer points to. -/
def SymbolRef.query (r : SymbolRef) : SymbolQuery := ⟨r.name, some r.filePath, some r.line⟩

/-- The query for what a pointer points to gives the pointer back. -/
def SymbolRef.FoundIn (idx : Index) (r : SymbolRef) : Prop :=
  ∃ found, locate idx r.query = .ok found ∧ found.symbol = r

theorem SymbolRef.foundIn_iff {r : SymbolRef} :
    r.FoundIn idx ↔ ∃ e, locateDeclaration idx r.query = .ok e ∧ e.ref = r := by
  unfold FoundIn locate
  constructor
  · rintro ⟨found, hfound, hr⟩
    obtain ⟨e, he, rfl⟩ := exists_of_map_eq_ok hfound
    exact ⟨e, he, hr⟩
  · rintro ⟨e, he, hr⟩
    rw [he]
    exact ⟨_, rfl, hr⟩

/-! ## Asking for what was reported -/

section

variable {d : Declaration} (hname : IsWord d.name) (hfile : idx.findFile? d.file.relPath = some f)
  (hpath : f.relPath = d.file.relPath)

variable {o : Declaration}

theorem query_ref_of_owner?_eq_none (h : d.owner? = none) :
    d.ref.query = ⟨d.name, some d.file.relPath, some d.line⟩ := by
  unfold SymbolRef.query Declaration.ref Declaration.displayName
  rw [h]

theorem query_ref_of_owner? (h : d.owner? = some o) :
    d.ref.query = ⟨o.name ++ "." ++ d.name, some d.file.relPath, some d.line⟩ := by
  unfold SymbolRef.query Declaration.ref Declaration.displayName
  rw [h]

include hname hfile

theorem foundIn_iff_meant (hnone : d.owner? = none) : d.ref.FoundIn idx ↔
    ∃ c, Meant (candidates f d.name) (some d.line) c ∧
      (throughImport idx c).ref = d.ref := by
  rw [SymbolRef.foundIn_iff, query_ref_of_owner?_eq_none hnone]
  constructor
  · rintro ⟨e, he, href⟩
    obtain ⟨c, hc, rfl⟩ := (locateDeclaration_word hname hfile).1 he
    exact ⟨c, hc, href⟩
  · rintro ⟨c, hc, href⟩
    exact ⟨_, (locateDeclaration_word hname hfile).2 ⟨c, hc, rfl⟩, href⟩

theorem foundIn_iff_member (ho : d.owner? = some o) (hoName : IsWord o.name) :
    d.ref.FoundIn idx ↔ ∃ c, Meant (candidates f o.name) none c ∧
      ∃ m, memberOf idx (throughImport idx c) d.name = some m ∧ m.ref = d.ref := by
  rw [SymbolRef.foundIn_iff, query_ref_of_owner? ho]
  constructor
  · rintro ⟨e, he, href⟩
    obtain ⟨c, hc, hmember⟩ := (locateDeclaration_dotted hoName hname hfile).1 he
    exact ⟨c, hc, e, hmember, href⟩
  · rintro ⟨c, hc, m, hmember, href⟩
    exact ⟨m, (locateDeclaration_dotted hoName hname hfile).2 ⟨c, hc, hmember⟩, href⟩

theorem exists_locate_of_mem_candidates (hnone : d.owner? = none) {c : Declaration}
    (hc : c ∈ candidates f d.name) : ∃ found, locate idx d.ref.query = .ok found := by
  obtain ⟨b, hb⟩ := exists_meant_of_mem hc (some d.line)
  have hlocate := (locateDeclaration_word hname hfile).2 ⟨b, hb, rfl⟩
  rw [query_ref_of_owner?_eq_none hnone, locate, hlocate]
  exact ⟨_, rfl⟩

include hpath

theorem foundIn_of_closest (hnone : d.owner? = none) (ht : f.tree.IsParsed)
    (hmem : { d with file := f } ∈ candidates f d.name)
    (halias : ({ d with file := f } : Declaration).isAlias = false)
    (hcloser : ∀ c ∈ candidates f d.name, isAround d.line c = true →
      c = { d with file := f } ∨ isCloser d c = true) : d.ref.FoundIn idx := by
  have hmeant := meant_of_closest hmem (isAround_of_mem_candidates ht hmem) hcloser
  refine (foundIn_iff_meant hname hfile hnone).2 ⟨_, hmeant, ?_⟩
  rw [throughImport_of_isAlias halias]
  exact Declaration.ref_with_file hpath

theorem foundIn_of_first_member (ho : d.owner? = some o) (hoName : IsWord o.name)
    (hmeant : Meant (candidates f o.name) none { o with file := f })
    (hfirst : (({ o with file := f } : Declaration).ownMembers d.name).head? =
      some { d with file := f }) :
    d.ref.FoundIn idx := by
  refine (foundIn_iff_member hname hfile ho hoName).2 ⟨_, hmeant, { d with file := f }, ?_,
    Declaration.ref_with_file hpath⟩
  have hkind := Declaration.kind_of_owner? ho
  have halias : ({ o with file := f } : Declaration).isAlias = false := by
    rcases hkind with hkind | hkind | hkind <;> simp [Declaration.isAlias, hkind]
  rw [throughImport_of_isAlias halias]
  exact memberOf_of_head? hkind hfirst

end

/-- The pointer to a declaration in a file of the user, asked for again, leads to that file. Without
an owner it is given back if the candidate that is meant at its line has it. A declaration with a name
of its own is a candidate, to ask for a candidate never fails, and the closest one is found. With an
owner it is given back if what the owner's name means, at no line, has a member with it: so if that is
the owner, the first member of each name is found. -/
theorem reported_foundIn_iff {fs : FileSystem} (hfs : fs.IsNormal)
    (hproper : ∀ p ∈ fs.files, p.1.IsProper) {root : Path} {settings : Settings}
    (h : Index.build_ fs root settings = .ok idx) {d : Declaration} (hd : d.PlacedIn idx)
    (huser : d.isUser = true) (hname : IsWord d.name)
    (howner : ∀ o, d.owner? = some o → IsWord o.name) :
    ∃ f ∈ idx.files, f = { d.file with id := f.id } ∧
      ((idx.files.toList.map SourceFile.path).Nodup → f = d.file) ∧
      (d.owner? = none →
        (d.ref.FoundIn idx ↔ ∃ c, Meant (candidates f d.name) (some d.line) c ∧
          (throughImport idx c).ref = d.ref) ∧
        (d.node.declarationKind? = some d.kind → d.node.declarationName? = some d.nameNode →
          { d with file := f } ∈ candidates f d.name) ∧
        ({ d with file := f } ∈ candidates f d.name →
          (∃ found, locate idx d.ref.query = .ok found) ∧
          (d.isAlias = false → (∀ c ∈ candidates f d.name, isAround d.line c = true →
            c = { d with file := f } ∨ isCloser d c = true) → d.ref.FoundIn idx))) ∧
      ∀ o, d.owner? = some o →
        (d.ref.FoundIn idx ↔ ∃ c, Meant (candidates f o.name) none c ∧
          ∃ m, memberOf idx (throughImport idx c) d.name = some m ∧ m.ref = d.ref) ∧
        (Meant (candidates f o.name) none { o with file := f } →
          (({ o with file := f } : Declaration).ownMembers d.name).head? =
            some { d with file := f } → d.ref.FoundIn idx) := by
  obtain ⟨hmem, hlies⟩ := hd
  obtain ⟨f, hf, hfile, hsame, hnodup⟩ :=
    Index.findFile?_relPath hfs hproper h (Array.mem_toList_iff.1 hmem) huser
  have hpath : f.relPath = d.file.relPath := by
    rw [hsame]
  have htree : f.tree = d.file.tree := by
    rw [hsame]
  have ht : f.tree.IsParsed := Index.parsed_of_build_ h f (Array.mem_toList_iff.2 hf)
  refine ⟨f, hf, hsame, hnodup, fun hnone => ⟨foundIn_iff_meant hname hfile hnone, ?_, ?_⟩, ?_⟩
  · intro hkind hown
    exact mem_candidates_of_declarationName? (d := { d with file := f }) (hlies.with_file htree)
      hkind hown
  · intro hcandidate
    refine ⟨exists_locate_of_mem_candidates hname hfile hnone hcandidate, fun halias hcloser => ?_⟩
    exact foundIn_of_closest hname hfile hpath hnone ht hcandidate halias hcloser
  · intro o ho
    refine ⟨foundIn_iff_member hname hfile ho (howner o ho), fun hmeant hfirst => ?_⟩
    exact foundIn_of_first_member hname hfile hpath ho (howner o ho) hmeant hfirst

theorem isNormal_loneFile (text : String) : (Index.loneFile text).IsNormal :=
  FileSystem.isNormal_empty.write (by decide) _

theorem isProper_loneFile (text : String) : ∀ p ∈ (Index.loneFile text).files, p.1.IsProper := by
  intro p hp
  obtain rfl : p = (⟨["app", "a.ts"]⟩, .text text) := mem_singleton.1 hp
  have hsegments : Path.IsProper ⟨["app", "a.ts"]⟩ := by decide
  exact hsegments

/-- The index of a project with two functions of one name, on two lines, and a method. -/
def namesakes : Index := .loneFileIndex ("function a() \x7b function f() \x7b\x7d \x7d\n" ++
  "function b() \x7b function f() \x7b\x7d \x7d\nclass C \x7b m() \x7b\x7d \x7d")

/-- The second of the functions is found at its line, and the method by its dotted name. -/
theorem namesakes_found : (∃ d : Declaration, d.PlacedIn namesakes ∧ d.isUser = true ∧
      d.ref = ⟨"f", "a.ts", 2, false⟩ ∧ d.ref.FoundIn namesakes) ∧
    ∃ d : Declaration, d.PlacedIn namesakes ∧ d.isUser = true ∧
      d.ref = ⟨"C.m", "a.ts", 3, false⟩ ∧ d.ref.FoundIn namesakes := by
  have heval : namesakes.files.toList.head?.bind (fun f =>
      (candidates f "f").getLast?.bind fun d => (candidates f "m").head?.bind fun e =>
      e.owner?.bind fun o => (pick (candidates f o.name) none).bind fun c =>
      (memberOf namesakes (throughImport namesakes c) e.name).map fun m =>
        (d.name == "f" && d.owner?.isNone && d.isUser && d.ref == ⟨"f", "a.ts", 2, false⟩
          && !d.isAlias && ((candidates f "f").filter (isAround d.line)).length == 1
          && namesakes.files.toList.map SourceFile.path == [⟨["app", "a.ts"]⟩],
        e.name == "m" && o.name == "C" && e.isUser && e.ref == ⟨"C.m", "a.ts", 3, false⟩
          && m.ref == e.ref)) = some (true, true) := by
    decide +kernel
  simp only [Option.bind_eq_some_iff, Option.map_eq_some_iff, Prod.mk.injEq, Bool.and_eq_true,
    beq_iff_eq, Bool.not_eq_true', Option.isNone_iff_eq_none] at heval
  obtain ⟨f, hf, d, hd, e, he, o, ho, c, hc, m, hm,
    ⟨⟨⟨⟨⟨⟨hdname, hdowner⟩, hduser⟩, hdref⟩, hdalias⟩, hone⟩, hpaths⟩,
    ⟨⟨⟨hename, honame⟩, heuser⟩, heref⟩, hmref⟩ := heval
  have hnodup : (namesakes.files.toList.map SourceFile.path).Nodup := by
    rw [hpaths]
    exact nodup_singleton _
  have hdmem := mem_of_getLast? hd
  have hdlies := liesIn_of_mem_candidates hdmem
  have hparsed := Index.parsed_of_build_ (Index.build_loneFile _) f (mem_of_head? hf)
  have hdaround := isAround_of_mem_candidates hparsed hdmem
  have helies := liesIn_of_mem_candidates (mem_of_head? he)
  have hdplaced : d.PlacedIn namesakes := hdlies.placed (mem_of_head? hf)
  have heplaced : e.PlacedIn namesakes := helies.placed (mem_of_head? hf)
  have hword : IsWord "f" ∧ IsWord "m" ∧ IsWord "C" := by
    refine ⟨⟨?_, ?_, ?_⟩, ⟨?_, ?_, ?_⟩, ?_, ?_, ?_⟩ <;> decide
  refine ⟨⟨d, hdplaced, hduser, hdref, ?_⟩, e, heplaced, heuser, heref, ?_⟩
  · obtain ⟨g, -, -, hsame, hplain, -⟩ := reported_foundIn_iff (isNormal_loneFile _)
      (isProper_loneFile _) (Index.build_loneFile _) hdplaced hduser (hdname ▸ hword.1)
      (by simp [hdowner])
    obtain rfl : d.file = g := (hsame hnodup).symm
    obtain rfl : d.file = f := hdlies.file_eq
    obtain ⟨-, -, hclosest⟩ := hplain hdowner
    obtain ⟨only, honly⟩ := length_eq_one_iff.1 hone
    rw [hdname] at hclosest
    refine (hclosest hdmem).2 hdalias fun b hb hat => .inl ?_
    have hbonly : b ∈ [only] := honly ▸ mem_filter.2 ⟨hb, hat⟩
    have hdonly : d ∈ [only] := honly ▸ mem_filter.2 ⟨hdmem, hdaround⟩
    exact (mem_singleton.1 hbonly).trans (mem_singleton.1 hdonly).symm
  · obtain ⟨g, -, -, hsame, -, hmember⟩ := reported_foundIn_iff (isNormal_loneFile _)
      (isProper_loneFile _) (Index.build_loneFile _) heplaced heuser (hename ▸ hword.2.1)
      (fun o' ho' => by rw [← Option.some.inj (ho.symm.trans ho'), honame]; exact hword.2.2)
    obtain rfl : e.file = g := (hsame hnodup).symm
    rw [helies.file_eq] at hmember
    exact (hmember o ho).1.2 ⟨c, pick_eq_some_iff.1 hc, m, hm, hmref⟩

/-- The index of a project with a class that has both accessors of a property. -/
def accessorPair : Index :=
  .loneFileIndex "class C \x7b\n  get v() \x7b return 1; \x7d\n  set v(x) \x7b\x7d\n\x7d"

/-- To ask for the second accessor gives the first one, and the second one among those that belong
to it. -/
theorem accessorPair_not_found :
    (locate accessorPair ⟨"C.v", some "a.ts", some 3⟩).toOption.map
      (fun found => (found.symbol, found.merged)) =
        some (⟨"C.v", "a.ts", 2, false⟩, [⟨"C.v", "a.ts", 3, false⟩]) ∧
    ¬ SymbolRef.FoundIn accessorPair ⟨"C.v", "a.ts", 3, false⟩ := by
  have heval : (locate accessorPair ⟨"C.v", some "a.ts", some 3⟩).toOption.map
      (fun found => (found.symbol, found.merged)) =
        some (⟨"C.v", "a.ts", 2, false⟩, [⟨"C.v", "a.ts", 3, false⟩]) := by
    decide +kernel
  refine ⟨heval, ?_⟩
  rintro ⟨found, hfound, hsymbol⟩
  have hquery : locate accessorPair ⟨"C.v", some "a.ts", some 3⟩ = .ok found := hfound
  rw [hquery] at heval
  have hother : found.symbol = ⟨"C.v", "a.ts", 2, false⟩ :=
    (Prod.mk.inj (Option.some.inj heval)).1
  rw [hother] at hsymbol
  cases hsymbol

end Query

end ScriptAtlas
