import ScriptAtlas.Proofs.ExportPlacement
import ScriptAtlas.Symbol.Inference

/-!
# Where resolved declarations lie

Whatever a token of a project stands for, through imports, qualified names, heritage and types, is
declared in a file of the project.

* `Project.Index.mem_or_arises_of_mem_resolveSymbol`: what an alias leads to arises in the project.
* `StaticType.PlacedIn`: all declarations that a type speaks of lie in files of the project.
* `Inference.PlacedIn`: answers about values that lead to declarations of the project only; kept by
  `Inference.upTo`.
* `Project.Index.resolveAt?_placed`, `Project.Index.resolveAt?_arises`: what a token stands for lies in
  the project, and what an identifier stands for arises there.
-/

namespace ScriptAtlas

open List Project Syntax Syntax.Node

variable {node : Node}

/-! ## Aliases and qualified names -/

/-- What every hop keeps, a chain of aliases keeps. -/
theorem followAliases_of_hop {hop : Declaration → Option Symbol} {P : Symbol → Prop}
    (hhop : ∀ s t, P s → hop s.first = some t → P t) {fuel : Nat} {seen : List DeclarationKey}
    {s t : Symbol} (hs : P s) (h : followAliases hop fuel seen s = some t) : P t := by
  induction fuel generalizing seen s with
  | zero => cases h
  | succ fuel ih =>
    unfold followAliases at h
    split at h
    · cases h
      exact hs
    · split at h
      · cases h
      · obtain ⟨u, hu, h⟩ := Option.bind_eq_some_iff.1 h
        exact ih (hhop s u hs hu) h

namespace Project.Index

variable {idx : Index}
variable {s : Symbol} {file : SourceFile}

theorem resolveImport_cases {d : Declaration} (h : idx.resolveImport d = some s) :
    s = .single d ∨ s.ArisesIn idx := by
  obtain ⟨specifier, -, h⟩ := Option.bind_eq_some_iff.1 h
  split at h
  · exact .inl (Option.some.inj h).symm
  · rcases eq_or_eq_of_orElse h with h | h
    · obtain ⟨target, -, h⟩ := exists_of_findSome?_eq_some h
      exact .inr (Symbol.forall_of_ofList? h fun e => arises_of_mem_answer?_getD)
    · exact .inr (Symbol.forall_of_ofList? h fun e => arises_of_mem_answer?_getD)

theorem mem_or_arises_of_aliasTarget? {t : Symbol} (h : idx.aliasTarget? s = some t) :
    ∀ d ∈ t.declarations, d ∈ s.declarations ∨ d.ArisesIn idx := by
  refine followAliases_of_hop (P := fun t => ∀ d ∈ t.declarations, d ∈ s.declarations ∨ d.ArisesIn idx)
    (fun u t hu h => ?_) (fun _ => .inl) h
  rcases resolveImport_cases h with rfl | h
  · exact Symbol.forall_single (hu u.first mem_cons_self)
  · exact fun d hd => .inr (h d hd)

theorem mem_or_arises_of_mem_resolveSymbol :
    ∀ d ∈ (idx.resolveSymbol s).declarations, d ∈ s.declarations ∨ d.ArisesIn idx := by
  unfold resolveSymbol
  split
  · cases h : idx.aliasTarget? s with
    | none => exact fun _ => .inl
    | some t => exact mem_or_arises_of_aliasTarget? h
  · exact fun _ => .inl

theorem resolveSymbol_placed (hs : s.PlacedIn idx) : (idx.resolveSymbol s).PlacedIn idx := fun d hd =>
  (mem_or_arises_of_mem_resolveSymbol d hd).elim (hs d) Declaration.ArisesIn.placed

theorem resolveSymbol_arises (hs : s.ArisesIn idx) : (idx.resolveSymbol s).ArisesIn idx := fun d hd =>
  (mem_or_arises_of_mem_resolveSymbol d hd).elim (hs d) id

/-- A member of a module is asked for, and a part of a declaration is read off. -/
theorem namespaceMember_eq (d : Declaration) (name : String) : idx.namespaceMember d name =
    match Export.moduleBehind? d with
    | some specifier => (idx.answer? (.specifier d.file.id specifier name)).getD []
    | none => Export.partsNamed d name := by
  unfold namespaceMember Export.member
  cases Export.moduleBehind? d with
  | none => rfl
  | some specifier =>
    dsimp only
    cases idx.answer? (.specifier d.file.id specifier name) <;> rfl

theorem arises_of_mem_namespaceMember {d e : Declaration} {name : String} (hd : d.PlacedIn idx)
    (h : e ∈ idx.namespaceMember d name) : e.ArisesIn idx := by
  rw [namespaceMember_eq] at h
  split at h
  · exact arises_of_mem_answer?_getD h
  · exact Export.arises_of_mem_partsNamed hd h

theorem exportEntrySymbol?_arises {spec : Node} (hf : file ∈ idx.files.toList)
    (hspec : spec.tree = file.tree) (h : idx.exportEntrySymbol? file spec = some s) :
    s.ArisesIn idx := by
  obtain ⟨stmt, hstmt, h⟩ := Option.bind_eq_some_iff.1 h
  obtain ⟨inner, -, h⟩ := Option.bind_eq_some_iff.1 h
  obtain ⟨list, hlist, hstmt⟩ := Option.bind_eq_some_iff.1 hstmt
  have hst := (tree_of_parent? hstmt).trans ((tree_of_parent? hlist).trans hspec)
  split at h
  · exact Symbol.forall_of_ofList? h fun e => arises_of_mem_answer?_getD
  · exact resolveName_arises hf hst h

theorem resolveQualifiedUpTo_arises {fuel : Nat} (hf : file ∈ idx.files.toList)
    (hn : node.tree = file.tree) (h : idx.resolveQualifiedUpTo file fuel node = some s) :
    s.ArisesIn idx := by
  induction fuel generalizing node s with
  | zero => cases h
  | succ fuel ih =>
    unfold resolveQualifiedUpTo at h
    split at h
    · cases h
    · cases h
    · next left right more hchildren =>
      have hleft : left.tree = file.tree :=
        (tree_of_mem_namedChildren (by rw [hchildren]; simp)).trans hn
      obtain ⟨space, hspace, h⟩ := Option.bind_eq_some_iff.1 h
      have hspace : space.ArisesIn idx := by
        split at hspace
        iterate 2 exact resolveName_arises hf hleft hspace
        iterate 3 exact ih hleft hspace
        cases hspace
      refine Symbol.forall_of_ofList? h fun e he => ?_
      obtain ⟨d, hd, he⟩ := mem_flatMap.1 he
      exact arises_of_mem_namespaceMember (resolveSymbol_arises hspace d hd).placed he

theorem resolveQualified_arises (hf : file ∈ idx.files.toList)
    (hn : node.tree = file.tree) (h : idx.resolveQualified file node = some s) : s.ArisesIn idx :=
  resolveQualifiedUpTo_arises hf hn h

end Project.Index

/-! ## Types -/

namespace StaticType

mutual

/-- All declarations that the type speaks of lie in files of the project. -/
def PlacedIn (idx : Index) : StaticType → Prop
  | instanceOf d args => d.PlacedIn idx ∧ AllPlaced idx args
  | aliasOf d target args => d.PlacedIn idx ∧ target.PlacedIn idx ∧ AllPlaced idx args
  | typeParameter d | enumLiteral d | valueOf d => d.PlacedIn idx
  | named _ args => AllPlaced idx args
  | union members | intersection members | tuple members => AllPlaced idx members
  | array element => element.PlacedIn idx
  | function parameters result => ParametersPlaced idx parameters ∧ result.PlacedIn idx
  | object file node => file ∈ idx.files.toList ∧ node.tree = file.tree
  | primitive _ | literal _ | unknown => True

def AllPlaced (idx : Index) : List StaticType → Prop
  | [] => True
  | t :: ts => t.PlacedIn idx ∧ AllPlaced idx ts

def ParametersPlaced (idx : Index) : List (String × StaticType) → Prop
  | [] => True
  | (_, t) :: ps => t.PlacedIn idx ∧ ParametersPlaced idx ps

end

variable {idx : Index}

theorem allPlaced_iff {ts : List StaticType} :
    AllPlaced idx ts ↔ ∀ t ∈ ts, t.PlacedIn idx := by
  induction ts with
  | nil => simp [AllPlaced]
  | cons t ts ih => simp [AllPlaced, ih]

theorem parametersPlaced_iff {ps : List (String × StaticType)} :
    ParametersPlaced idx ps ↔ ∀ p ∈ ps, p.2.PlacedIn idx := by
  induction ps with
  | nil => simp [ParametersPlaced]
  | cons p ps ih => simp [ParametersPlaced, ih]

theorem oneOf_placed {ts : List StaticType} (h : ∀ t ∈ ts, t.PlacedIn idx) :
    (oneOf ts).PlacedIn idx := by
  have hfilter : ∀ t ∈ ts.filter (!·.isUnknown), t.PlacedIn idx :=
    fun t ht => h t (mem_of_mem_filter ht)
  unfold oneOf
  split
  · trivial
  · next t heq => exact hfilter t (by rw [heq]; simp)
  · exact allPlaced_iff.2 hfilter

theorem element_placed {t : StaticType} (h : t.PlacedIn idx) : t.element.PlacedIn idx := by
  unfold element
  split
  · exact h
  · trivial

theorem getD_placed {o : Option StaticType} (h : ∀ t, o = some t → t.PlacedIn idx) :
    (o.getD .unknown).PlacedIn idx := by
  cases o with
  | none => trivial
  | some t => exact h t rfl

end StaticType

def Signature.PlacedIn (idx : Index) (s : Signature) : Prop :=
  (∀ p ∈ s.parameters, p.2.PlacedIn idx) ∧ s.result.PlacedIn idx

theorem StaticType.ofSignature_placed {idx : Index} {s : Signature} (h : s.PlacedIn idx) :
    (StaticType.ofSignature s).PlacedIn idx :=
  ⟨StaticType.parametersPlaced_iff.2 h.1, h.2⟩

def ExpressionTypes.PlacedIn (idx : Index) (values : ExpressionTypes) : Prop :=
  ∀ file ∈ idx.files.toList, ∀ e : Node, e.tree = file.tree → ∀ levels,
    (values file e levels).PlacedIn idx

def MemberSymbols.AriseIn (idx : Index) (members : MemberSymbols) : Prop :=
  ∀ file ∈ idx.files.toList, ∀ node : Node, node.tree = file.tree → ∀ s,
    members file node = some s → s.ArisesIn idx

section

variable {idx : Index} {values : ExpressionTypes} (hvalues : ExpressionTypes.PlacedIn idx values)
  {file : SourceFile} (hf : file ∈ idx.files.toList)

include hvalues hf

theorem inferredResult_placed {function : Node} (hn : function.tree = file.tree) (levels : Nat) :
    (inferredResult values file function levels).PlacedIn idx := by
  cases levels with
  | zero => trivial
  | succ levels =>
    rw [inferredResult]
    split
    · trivial
    · next body hbody =>
      have hbt := (tree_of_field? hbody).trans hn
      have hinner : (if body.hasKind .statementBlock then
          StaticType.oneOf ((returnedExpressions function body).map fun e => values file e levels)
          else values file body levels).PlacedIn idx := by
        split
        · refine StaticType.oneOf_placed fun t ht => ?_
          obtain ⟨e, he, rfl⟩ := mem_map.1 ht
          obtain ⟨n, hn', he⟩ := mem_filterMap.1 he
          have hnt := tree_of_mem_descendants (mem_of_mem_filter hn')
          exact hvalues file hf e ((tree_of_head?_namedChildren he).trans (hnt.trans hbt)) levels
        · exact hvalues file hf body hbt levels
      have hwrapped : ∀ t : StaticType, t.PlacedIn idx → StaticType.PlacedIn idx
          (if function.hasToken "async" && !t.isUnknown then .named "Promise" [t] else t) := by
        intro t ht
        split
        · exact ⟨ht, trivial⟩
        · exact ht
      exact hwrapped _ hinner

theorem signatureOf_placed {annotated : Node → StaticType}
    (hannotated : ∀ n : Node, n.tree = file.tree → (annotated n).PlacedIn idx) {function : Node}
    (hn : function.tree = file.tree) (levels : Nat) :
    (signatureOf values annotated file function levels).PlacedIn idx := by
  constructor
  · intro p hp
    obtain ⟨param, hparam, rfl⟩ := mem_map.1 hp
    have hpt := (tree_of_mem_parameters hparam).trans hn
    dsimp only
    split
    · next a ha => exact hannotated _ ((tree_of_field? ha).trans hpt)
    · next d _ hd => exact hvalues file hf _ ((tree_of_field? hd).trans hpt) levels
    · trivial
  · unfold signatureOf
    dsimp only
    split
    · next a ha => exact hannotated _ ((tree_of_field? ha).trans hn)
    · exact inferredResult_placed hvalues hf hn levels

end

namespace Annotation

variable {idx : Index}
variable {file : SourceFile}

theorem ofDeclaration_placed {d : Declaration} {args : List StaticType} (hd : d.PlacedIn idx)
    (hargs : ∀ t ∈ args, t.PlacedIn idx) : (ofDeclaration d args).PlacedIn idx := by
  have hall := StaticType.allPlaced_iff.2 hargs
  unfold ofDeclaration
  split
  iterate 3 exact ⟨hd, hall⟩
  · exact hd
  · exact hd
  · exact hd
  · exact hall

theorem nameSymbol?_arises {nameNode : Node} {s : Symbol} (hf : file ∈ idx.files.toList)
    (hn : nameNode.tree = file.tree) (h : nameSymbol? idx file nameNode = some s) :
    s.ArisesIn idx := by
  obtain ⟨t, ht, rfl⟩ := Option.map_eq_some_iff.1 h
  refine Index.resolveSymbol_arises ?_
  split at ht
  · exact Index.resolveQualified_arises hf hn ht
  · exact Index.resolveName_arises hf hn ht

theorem flatten_placed {inner? : StaticType → Option (List StaticType)} {members : List StaticType}
    (hinner : ∀ t ts, inner? t = some ts → t.PlacedIn idx → ∀ u ∈ ts, u.PlacedIn idx)
    (h : ∀ t ∈ members, t.PlacedIn idx) : ∀ t ∈ flatten inner? members, t.PlacedIn idx := by
  intro t ht
  obtain ⟨m, hm, ht⟩ := mem_flatMap.1 ht
  cases hinner' : inner? m with
  | none =>
    rw [hinner', Option.getD_none, mem_singleton] at ht
    exact ht ▸ h m hm
  | some ts =>
    rw [hinner', Option.getD_some] at ht
    exact hinner m ts hinner' (h m hm) t ht

theorem ofName_placed {expand : Declaration → Node → StaticType} {expanding : List DeclarationKey}
    {nameNode : Node} {args : List StaticType}
    (hexpand : ∀ d v, d.PlacedIn idx → v.tree = d.file.tree → (expand d v).PlacedIn idx)
    (hf : file ∈ idx.files.toList) (hn : nameNode.tree = file.tree)
    (hargs : ∀ t ∈ args, t.PlacedIn idx) :
    (ofName idx expand file expanding nameNode args).PlacedIn idx := by
  have hall := StaticType.allPlaced_iff.2 hargs
  unfold ofName
  split
  · exact hall
  · next s hs =>
    have hd := (nameSymbol?_arises hf hn hs).first.placed
    dsimp only
    split
    · exact ofDeclaration_placed hd hargs
    · split
      · exact ⟨hd, trivial, hall⟩
      · refine ⟨hd, ?_, hall⟩
        split
        · next v hv => exact hexpand _ v hd ((tree_of_field? hv).trans hd.2.node_tree)
        · trivial

theorem typeUpTo_placed {values : ExpressionTypes} (hvalues : ExpressionTypes.PlacedIn idx values)
    {fuel : Nat} (hf : file ∈ idx.files.toList) {expanding : List DeclarationKey}
    (hn : node.tree = file.tree) :
    (typeUpTo idx values fuel file expanding node).PlacedIn idx := by
  induction fuel generalizing file expanding node with
  | zero => trivial
  | succ fuel ih =>
    have hchild : ∀ c ∈ node.namedChildren,
        (typeUpTo idx values fuel file expanding c).PlacedIn idx :=
      fun c hc => ih hf ((tree_of_mem_namedChildren hc).trans hn)
    have hchildren : ∀ t ∈ node.namedChildren.map (typeUpTo idx values fuel file expanding),
        t.PlacedIn idx := by
      intro t ht
      obtain ⟨c, hc, rfl⟩ := mem_map.1 ht
      exact hchild c hc
    have hhead : ((node.namedChildren.head?.map (typeUpTo idx values fuel file expanding)).getD
        .unknown).PlacedIn idx := by
      refine StaticType.getD_placed fun t ht => ?_
      obtain ⟨c, hc, rfl⟩ := Option.map_eq_some_iff.1 ht
      exact hchild c (mem_of_head? hc)
    have hexpand : ∀ (d : Declaration) (v : Node), d.PlacedIn idx → v.tree = d.file.tree →
        (typeUpTo idx values fuel d.file (d.key :: expanding) v).PlacedIn idx :=
      fun d v hd hv => ih hd.1 hv
    rw [typeUpTo]
    split
    -- What only wraps another type.
    iterate 7 exact hhead
    · trivial
    iterate 2 trivial
    -- Names, with arguments or without.
    iterate 2 exact ofName_placed hexpand hf hn (by simp)
    · split
      · next nameNode hname =>
        refine ofName_placed hexpand hf ((tree_of_field? hname).trans hn) fun t ht => ?_
        cases hlist : node.field? .typeArguments with
        | none => simp [hlist] at ht
        | some list =>
          rw [hlist, Option.map_some, Option.getD_some] at ht
          obtain ⟨c, hc, rfl⟩ := mem_map.1 ht
          exact ih hf ((tree_of_mem_namedChildren hc).trans ((tree_of_field? hlist).trans hn))
      · trivial
    -- What is made of several types.
    iterate 2
      refine StaticType.allPlaced_iff.2 (flatten_placed (fun t ts hts ht => ?_) hchildren)
      split at hts
      · cases hts
        exact StaticType.allPlaced_iff.1 ht
      · cases hts
    · refine StaticType.getD_placed fun t ht => ?_
      obtain ⟨c, hc, rfl⟩ := Option.map_eq_some_iff.1 ht
      exact hchild c (mem_of_head? hc)
    · exact StaticType.allPlaced_iff.2 hchildren
    iterate 2
      exact StaticType.ofSignature_placed
        (signatureOf_placed hvalues hf (fun n hn => ih hf hn) hn (inferenceLevels - 1))
    · exact ⟨hf, hn⟩
    · refine StaticType.getD_placed fun t ht => ?_
      obtain ⟨c, hc, rfl⟩ := Option.map_eq_some_iff.1 ht
      exact hvalues file hf c ((tree_of_head?_namedChildren hc).trans hn) inferenceLevels
    iterate 5 trivial

end Annotation

theorem annotatedType_placed {idx : Index} {values : ExpressionTypes}
    (hvalues : ExpressionTypes.PlacedIn idx values) {file : SourceFile}
    (hf : file ∈ idx.files.toList) (hn : node.tree = file.tree) :
    (annotatedType idx values file node).PlacedIn idx :=
  Annotation.typeUpTo_placed hvalues hf hn

/-! ## Heritage -/

theorem firstInherited_mem {α β κ : Type} [BEq κ] {key : α → κ} {own : α → List β}
    {parents : α → List α} {P : α → Prop} {Q : β → Prop} (hown : ∀ a, P a → ∀ b ∈ own a, Q b)
    (hparents : ∀ a, P a → ∀ p ∈ parents a, P p) {fuel : Nat} {a : α} {visited : List κ} (ha : P a) :
    ∀ b ∈ (firstInherited key own parents fuel a visited).1, Q b := by
  induction fuel generalizing a visited with
  | zero => simp [firstInherited]
  | succ fuel ih =>
    unfold firstInherited
    split
    · simp
    · split
      · exact hown a ha
      · refine List.foldlRecOn (motive := fun r : List β × List κ => ∀ b ∈ r.1, Q b) (parents a) _
          (by simp) ?_
        rintro ⟨found, visited⟩ hfound p hp
        dsimp only
        split
        · exact ih (hparents a ha p hp)
        · exact hfound

section

variable {idx : Index} {members : MemberSymbols} (hmembers : members.AriseIn idx)

theorem memberHolders_placed {d e : Declaration} (hd : d.PlacedIn idx)
    (h : e ∈ memberHolders idx d) : e.PlacedIn idx := by
  unfold memberHolders at h
  split at h
  · exact Index.merged_placed hd e (mem_of_mem_filter h)
  · rw [mem_singleton.1 h]
    exact hd

theorem enclosingClass?_arises {file : SourceFile} {d : Declaration}
    (hf : file ∈ idx.files.toList) (hn : node.tree = file.tree)
    (h : enclosingClass? file node = some d) : d.ArisesIn idx := by
  obtain ⟨c, hc, h⟩ := Option.bind_eq_some_iff.1 h
  exact .node hf ((tree_of_findAncestor? hc).trans hn) h

theorem heritageNodes_tree {n e : Node}
    (h : e ∈ (HeritageNodes.of n).extends_ ∨ e ∈ (HeritageNodes.of n).implements) :
    e.tree = n.tree := by
  have hpart : ∀ part ∈ n.namedChildren, e ∈ (HeritageNodes.ofPart part).extends_ ∨
      e ∈ (HeritageNodes.ofPart part).implements → e.tree = n.tree := by
    intro part hmem he
    refine Eq.trans ?_ (tree_of_mem_namedChildren hmem)
    unfold HeritageNodes.ofPart at he
    split at he
    · rcases he with he | he
      · obtain ⟨clause, hclause, he⟩ := mem_filterMap.1 he
        have hct := tree_of_mem_namedChildren (mem_of_mem_filter hclause)
        rcases eq_or_eq_of_orElse he with he | he
        · exact (tree_of_field? he).trans hct
        · exact (tree_of_head?_namedChildren he).trans hct
      · obtain ⟨clause, hclause, he⟩ := mem_flatMap.1 he
        exact (tree_of_mem_namedChildren he).trans
          (tree_of_mem_namedChildren (mem_of_mem_filter hclause))
    · rcases he with he | he
      · simp at he
      · exact tree_of_mem_namedChildren he
    · simp at he
  rcases h with h | h
  · obtain ⟨parts, hparts, he⟩ := mem_flatMap.1 h
    obtain ⟨part, hmem, rfl⟩ := mem_map.1 hparts
    exact hpart part hmem (Or.inl he)
  · obtain ⟨parts, hparts, he⟩ := mem_flatMap.1 h
    obtain ⟨part, hmem, rfl⟩ := mem_map.1 hparts
    exact hpart part hmem (Or.inr he)

include hmembers

theorem heritageSymbolUpTo_arises {file : SourceFile} (hf : file ∈ idx.files.toList) {fuel : Nat}
    (hn : node.tree = file.tree) {s : Symbol}
    (h : heritageSymbolUpTo idx members file fuel node = some s) :
    ∀ d ∈ s.declarations, d.ArisesIn idx ∧ isBaseKind d.kind = true := by
  induction fuel generalizing node with
  | zero => cases h
  | succ fuel ih =>
    have hresolved {o : Option Symbol} (ho : ∀ t, o = some t → t.ArisesIn idx)
        (h : (o.bind fun t => (idx.resolveSymbol t).filterKind? isBaseKind) = some s) :
        ∀ d ∈ s.declarations, d.ArisesIn idx ∧ isBaseKind d.kind = true := by
      obtain ⟨t, ht, h⟩ := Option.bind_eq_some_iff.1 h
      refine Symbol.forall_of_ofList? h fun d hd => ?_
      obtain ⟨hd, hkind⟩ := mem_filter.1 hd
      exact ⟨Index.resolveSymbol_arises (ho t ht) d hd, hkind⟩
    rw [heritageSymbolUpTo] at h
    split at h
    iterate 2 exact hresolved (fun _ => Index.resolveName_arises hf hn) h
    · obtain ⟨name, hname, h⟩ := Option.bind_eq_some_iff.1 h
      exact ih ((tree_of_field? hname).trans hn) h
    · exact hresolved (hmembers file hf node hn) h
    iterate 2 exact hresolved (fun _ => Index.resolveQualified_arises hf hn) h
    · cases h

theorem heritageOf_arises {d : Declaration} (hd : d.PlacedIn idx) {s : Symbol}
    (hs : s ∈ (heritageOf idx members d).symbols) :
    ∀ e ∈ s.declarations, e.ArisesIn idx ∧ isBaseKind e.kind = true := by
  rcases mem_append.1 hs with hs | hs
  · obtain ⟨e, he, h⟩ := Option.bind_eq_some_iff.1 (Option.mem_toList.1 hs)
    exact heritageSymbolUpTo_arises hmembers hd.1
      ((heritageNodes_tree (Or.inl (mem_of_head? he))).trans hd.2.node_tree) h
  · obtain ⟨e, he, h⟩ := mem_filterMap.1 hs
    exact heritageSymbolUpTo_arises hmembers hd.1
      ((heritageNodes_tree (Or.inr he)).trans hd.2.node_tree) h

theorem arises_of_mem_typeMember {d e : Declaration} {name : String} (hd : d.PlacedIn idx)
    (h : e ∈ typeMember idx members d name) : e.ArisesIn idx := by
  refine firstInherited_mem (P := (·.PlacedIn idx)) (Q := (·.ArisesIn idx)) (fun a ha b hb => ?_)
    (fun a ha b hb => ?_) hd e h
  · obtain ⟨holder, hholder, hb⟩ := mem_flatMap.1 hb
    exact Declaration.arises_of_mem_ownMembers (memberHolders_placed ha hholder) hb
  · obtain ⟨holder, hholder, hb⟩ := mem_flatMap.1 hb
    obtain ⟨s, hs, hb⟩ := mem_flatMap.1 hb
    exact (heritageOf_arises hmembers (memberHolders_placed ha hholder) hs b hb).1.placed

end

/-! ## Tokens -/

section

variable {idx : Index} {members : MemberSymbols} (hmembers : members.AriseIn idx)
  {file : SourceFile} (hf : file ∈ idx.files.toList) {s : Symbol} {token : Node}

include hf

theorem importEntrySymbol?_arises {spec : Node} (hs : spec.tree = file.tree)
    (h : importEntrySymbol? idx file spec token = some s) : s.ArisesIn idx := by
  obtain ⟨name, hname, h⟩ := Option.bind_eq_some_iff.1 h
  obtain ⟨d, hd, h⟩ := Option.bind_eq_some_iff.1 h
  have harises : d.ArisesIn idx := .origin hf (.listed hs (.own hname) hd)
  split at h
  · rcases Index.resolveImport_cases h with rfl | h
    · exact Symbol.forall_single harises
    · exact h
  · cases h
    exact Symbol.forall_single harises

include hmembers

theorem usedSymbol?_arises {parent : Node} (hp : parent.tree = file.tree)
    (ht : token.tree = file.tree) (h : usedSymbol? idx members file parent token = some s) :
    s.ArisesIn idx := by
  unfold usedSymbol? at h
  split at h
  · exact hmembers file hf parent hp s h
  · split at h
    · exact Index.resolveQualified_arises hf hp h
    · split at h
      iterate 3 exact Index.resolveName_arises hf ht h
      · obtain ⟨c, hc, rfl⟩ := Option.map_eq_some_iff.1 h
        exact Symbol.forall_single (enclosingClass?_arises hf ht hc)
      · cases h

/-- A token stands for what it names, with all that belongs together with that, or for something that
arises in the project. -/
theorem symbolAt?_cases (ht : token.tree = file.tree)
    (h : symbolAt? idx members file token = some s) :
    (∃ d, Declaration.ofName? file token = some d ∧ s = idx.merged d) ∨ s.ArisesIn idx := by
  obtain ⟨parent, hparent, h⟩ := Option.bind_eq_some_iff.1 h
  have hp := (tree_of_parent? hparent).trans ht
  split at h
  · exact .inr (importEntrySymbol?_arises hf hp h)
  · split at h
    · exact .inr (Index.exportEntrySymbol?_arises hf hp h)
    · split at h
      · next d hd => exact .inl ⟨d, hd, (Option.some.inj h).symm⟩
      · exact .inr (usedSymbol?_arises hmembers hf hp ht h)

theorem resolveAt?_placed (ht : token.tree = file.tree)
    (h : resolveAt? idx members file token = some s) : s.PlacedIn idx := by
  obtain ⟨t, hsym, rfl⟩ := Option.map_eq_some_iff.1 h
  refine Index.resolveSymbol_placed ?_
  rcases symbolAt?_cases hmembers hf ht hsym with ⟨d, hd, rfl⟩ | ht
  · exact Index.merged_placed ((Declaration.liesIn_of_ofName? hd ht).placed hf)
  · exact ht.placed

end

/-! ## Values -/

namespace Inference

variable {file : SourceFile} {d : Declaration}

structure PlacedIn (idx : Index) (known : Inference) : Prop where
  expression : ExpressionTypes.PlacedIn idx known.expression
  declaration : ∀ d, d.PlacedIn idx → ∀ levels, (known.declaration d levels).PlacedIn idx
  member : known.member.AriseIn idx

variable {idx : Index} {known : Inference} (hknown : known.PlacedIn idx)

include hknown

theorem annotated_placed (hf : file ∈ idx.files.toList) (hn : node.tree = file.tree) :
    (annotated idx known file node).PlacedIn idx :=
  annotatedType_placed hknown.expression hf hn

theorem signature_placed (hf : file ∈ idx.files.toList) {function : Node}
    (hn : function.tree = file.tree) (levels : Nat) :
    (signature idx known file function levels).PlacedIn idx :=
  signatureOf_placed hknown.expression hf (fun _ => annotated_placed hknown hf) hn levels

theorem callMembers_placed (hf : file ∈ idx.files.toList) {holder : Node}
    (hn : holder.tree = file.tree) (levels : Nat) :
    ∀ s ∈ callMembers idx known file holder levels, s.PlacedIn idx := by
  intro s hs
  obtain ⟨m, hm, rfl⟩ := mem_map.1 hs
  refine signature_placed hknown hf ((tree_of_mem_namedChildren
    (mem_of_mem_filter hm)).trans ?_) levels
  cases hbody : holder.typeBody? with
  | none => exact hn
  | some body => exact (tree_of_typeBody? hbody).trans hn

theorem callSignatures_placed {levels : Nat} {t : StaticType} (ht : t.PlacedIn idx) :
    ∀ s ∈ callSignatures idx known levels t, s.PlacedIn idx := by
  induction levels generalizing t with
  | zero => simp [callSignatures]
  | succ levels ih =>
    intro s hs
    have hmembers : ∀ ms : List StaticType, StaticType.AllPlaced idx ms →
        s ∈ ms.flatMap (callSignatures idx known levels) → s.PlacedIn idx := by
      intro ms hms hs
      obtain ⟨m, hm, hs⟩ := mem_flatMap.1 hs
      exact ih (StaticType.allPlaced_iff.1 hms m hm) s hs
    cases t with
    | function parameters result =>
      rw [mem_singleton.1 hs]
      exact ⟨StaticType.parametersPlaced_iff.1 ht.1, ht.2⟩
    | aliasOf d target args => exact ih ht.2.1 s hs
    | union members => exact hmembers members ht hs
    | intersection members => exact hmembers members ht hs
    | instanceOf d args =>
      rw [callSignatures] at hs
      split at hs
      · exact callMembers_placed hknown ht.1.1 ht.1.2.node_tree levels s hs
      · simp at hs
    | object file node => exact callMembers_placed hknown ht.1 ht.2 levels s hs
    | _ => simp [callSignatures] at hs

theorem arises_of_mem_membersOf {name : String} {levels : Nat} {t : StaticType} (ht : t.PlacedIn idx) :
    ∀ d ∈ membersOf idx known name levels t, d.ArisesIn idx := by
  induction levels generalizing t with
  | zero => simp [membersOf]
  | succ levels ih =>
    intro d hd
    have hmembers : ∀ ms : List StaticType, StaticType.AllPlaced idx ms →
        d ∈ (ms.findSome? fun m =>
          let found := membersOf idx known name levels m
          if found.isEmpty then none else some found).getD [] → d.ArisesIn idx := by
      intro ms hms hd
      obtain ⟨m, hm, found, hfound, hd⟩ := mem_findSome?_getD hd
      dsimp only at hfound
      split at hfound
      · cases hfound
      · cases hfound
        exact ih (StaticType.allPlaced_iff.1 hms m hm) d hd
    cases t with
    | instanceOf e args =>
      rw [membersOf] at hd
      split at hd
      · simp at hd
      · exact arises_of_mem_typeMember hknown.member ht.1 hd
    | aliasOf e target args => exact ih ht.2.1 d hd
    | typeParameter e =>
      rw [membersOf] at hd
      split at hd
      · next bound hbound =>
        obtain ⟨constraint, hconstraint, hbound⟩ := Option.bind_eq_some_iff.1 hbound
        refine ih (annotated_placed hknown ht.1 ?_) d hd
        exact (tree_of_head?_namedChildren hbound).trans
          ((tree_of_field? hconstraint).trans ht.2.node_tree)
      · simp at hd
    | union members => exact hmembers members ht hd
    | intersection members => exact hmembers members ht hd
    | valueOf e => exact Index.arises_of_mem_namespaceMember ht hd
    | object file node =>
      obtain ⟨m, hm, hd⟩ := mem_filterMap.1 hd
      obtain ⟨n, hn, hd⟩ := Option.bind_eq_some_iff.1 hd
      have hmt := (tree_of_mem_namedChildren (mem_of_mem_filter hm)).trans ht.2
      split at hd
      · exact .origin ht.1 (.listed hmt (.part hn) hd)
      · cases hd
    | _ => simp [membersOf] at hd

theorem memberSymbol_arises : (memberSymbol idx known).AriseIn idx := by
  intro file hf node hn s h
  obtain ⟨object, hobject, h⟩ := Option.bind_eq_some_iff.1 h
  obtain ⟨property, -, h⟩ := Option.bind_eq_some_iff.1 h
  obtain ⟨o, ho, rfl⟩ := Option.map_eq_some_iff.1 hobject
  have hot : o.unwrap.tree = file.tree := by
    rw [tree_unwrap]
    exact (tree_of_field? ho).trans hn
  dsimp only at h
  split at h
  · obtain ⟨c, hc, h⟩ := Option.bind_eq_some_iff.1 h
    have hc := (enclosingClass?_arises hf hot hc).placed
    exact Symbol.forall_of_ofList? h fun d => arises_of_mem_typeMember hknown.member hc
  · obtain ⟨c, hc, h⟩ := Option.bind_eq_some_iff.1 h
    obtain ⟨base, hbase, h⟩ := Option.bind_eq_some_iff.1 h
    have hbase := heritageOf_arises hknown.member (enclosingClass?_arises hf hot hc).placed
      (mem_append_left _ (Option.mem_toList.2 hbase)) base.first mem_cons_self
    exact Symbol.forall_of_ofList? h fun d => arises_of_mem_typeMember hknown.member hbase.1.placed
  · exact Symbol.forall_of_ofList? h
      (arises_of_mem_membersOf hknown (hknown.expression file hf _ hot inferenceLevels))

theorem loopVariableType_placed (hd : d.PlacedIn idx) (levels : Nat) :
    (loopVariableType known d levels).PlacedIn idx := by
  unfold loopVariableType
  split
  · trivial
  · split
    · trivial
    · next right hright =>
      have htype := hknown.expression d.file hd.1 right
        ((tree_of_field? hright).trans hd.2.node_tree) levels
      split
      · next element heq =>
        rw [heq] at htype
        exact htype
      · next name first rest heq =>
        rw [heq] at htype
        split
        · exact htype.1
        · trivial
      · trivial

theorem bindingType_placed (hd : d.PlacedIn idx) (levels : Nat) :
    (bindingType idx known d levels).PlacedIn idx := by
  unfold bindingType
  split
  · exact loopVariableType_placed hknown hd levels
  · split
    · trivial
    · split
      · next a ha =>
        exact annotated_placed hknown hd.1 ((tree_of_field? ha).trans hd.2.node_tree)
      · next f _ hfunction =>
        exact StaticType.ofSignature_placed (signature_placed hknown hd.1
          ((tree_of_functionNode? hfunction).trans hd.2.node_tree) levels)
      · next v _ _ hv =>
        exact hknown.expression d.file hd.1 v ((tree_of_field? hv).trans hd.2.node_tree) levels
      · trivial

omit hknown in
theorem functionNode_tree (hd : d.PlacedIn idx) :
    (d.node.functionNode?.getD d.node).tree = d.file.tree := by
  cases h : d.node.functionNode? with
  | none => exact hd.2.node_tree
  | some f => exact (tree_of_functionNode? h).trans hd.2.node_tree

theorem declarationType_placed (hd : d.PlacedIn idx) (levels : Nat) :
    (declarationType idx known d levels).PlacedIn idx := by
  have hfunction : ∀ levels, (StaticType.ofSignature (signature idx known d.file
      (d.node.functionNode?.getD d.node) levels)).PlacedIn idx := fun levels =>
    StaticType.ofSignature_placed
      (signature_placed hknown hd.1 (functionNode_tree hd) levels)
  cases levels with
  | zero => trivial
  | succ levels =>
    rw [declarationType]
    split
    iterate 3 exact hd
    iterate 3 trivial
    · exact hd
    · split
      · split
        · next s hs =>
          split
          · trivial
          · have hfirst := Index.mem_or_arises_of_aliasTarget? hs s.first mem_cons_self
            refine hknown.declaration _ (hfirst.elim (fun hmem => ?_) Declaration.ArisesIn.placed) levels
            exact mem_singleton.1 hmem ▸ hd
        · trivial
      · exact hd
    iterate 3 exact hfunction levels
    · have hsig := signature_placed hknown hd.1 hd.2.node_tree levels
      dsimp only
      split
      · refine StaticType.getD_placed fun t ht => ?_
        obtain ⟨p, hp, rfl⟩ := Option.map_eq_some_iff.1 ht
        exact hsig.1 p (mem_of_head? hp)
      · exact hsig.2
    iterate 3 exact bindingType_placed hknown hd levels

section

variable {file : SourceFile} (hf : file ∈ idx.files.toList) {e : Node} (he : e.tree = file.tree)

include hf he

theorem assertedType_placed {asserted : Option Node}
    (ha : ∀ a, asserted = some a → a.tree = file.tree) (levels : Nat) :
    (assertedType idx known file e asserted levels).PlacedIn idx := by
  unfold assertedType
  split
  · next a => exact annotated_placed hknown hf (ha a rfl)
  · exact hknown.expression file hf _ ((tree_unwrap e).trans he) levels

theorem constructedType_placed (levels : Nat) :
    (constructedType idx known file e levels).PlacedIn idx := by
  unfold constructedType
  split
  · trivial
  · next c hc =>
    have htype := hknown.expression file hf c ((tree_of_field? hc).trans he) levels
    have hargs : ∀ t ∈ ((e.field? .typeArguments).map fun l =>
        l.namedChildren.map (annotated idx known file)).getD [], t.PlacedIn idx := by
      intro t ht
      cases hlist : e.field? .typeArguments with
      | none => simp [hlist] at ht
      | some list =>
        rw [hlist, Option.map_some, Option.getD_some] at ht
        obtain ⟨a, ha, rfl⟩ := mem_map.1 ht
        exact annotated_placed hknown hf ((tree_of_mem_namedChildren ha).trans
          ((tree_of_field? hlist).trans he))
    dsimp only
    split
    · next d heq =>
      rw [heq] at htype
      split
      · exact ⟨htype, StaticType.allPlaced_iff.2 hargs⟩
      · trivial
    · trivial

theorem expressionType_placed (levels : Nat) :
    (expressionType idx known file e levels).PlacedIn idx := by
  cases levels with
  | zero => trivial
  | succ levels =>
    have hpart : ∀ part : Node, part.tree = e.tree →
        (known.expression file part levels).PlacedIn idx :=
      fun part hp => hknown.expression file hf part (hp.trans he) levels
    have hpart? : ∀ part : Option Node, (∀ p, part = some p → p.tree = e.tree) →
        ((part.map fun p => known.expression file p levels).getD .unknown).PlacedIn idx := by
      intro part hp
      refine StaticType.getD_placed fun t ht => ?_
      obtain ⟨p, hsome, rfl⟩ := Option.map_eq_some_iff.1 ht
      exact hpart p (hp p hsome)
    have hsignature : (StaticType.ofSignature (signature idx known file e levels)).PlacedIn idx :=
      StaticType.ofSignature_placed (signature_placed hknown hf he levels)
    rw [expressionType]
    dsimp only
    split
    iterate 3 exact hpart _ (tree_unwrap e)
    · refine assertedType_placed hknown hf he (fun a ha => ?_) levels
      exact (tree_of_mem_parts (mem_of_getElem? ha)).trans he
    · refine assertedType_placed hknown hf he (fun a ha => ?_) levels
      obtain ⟨list, hlist, ha⟩ := Option.bind_eq_some_iff.1 ha
      exact (tree_of_head?_namedChildren ha).trans
        ((tree_of_find?_namedChildren hlist).trans he)
    -- Names stand for declarations, and those have types.
    · split
      · next s hs =>
        exact hknown.declaration _ (resolveAt?_placed hknown.member hf he hs).first levels
      · trivial
    · refine StaticType.getD_placed fun t ht => ?_
      obtain ⟨c, hc, rfl⟩ := Option.map_eq_some_iff.1 ht
      exact ⟨(enclosingClass?_arises hf he hc).placed, trivial⟩
    · exact constructedType_placed hknown hf he levels
    · split
      · trivial
      · next f hfunction =>
        refine StaticType.getD_placed fun t ht => ?_
        obtain ⟨sig, hsig, rfl⟩ := Option.map_eq_some_iff.1 ht
        exact (callSignatures_placed hknown (hpart f (tree_of_field? hfunction)) sig
          (mem_of_head? hsig)).2
    · split
      · next s hs =>
        have harises := Index.resolveSymbol_arises (hknown.member file hf e he s hs)
        exact hknown.declaration _ harises.first.placed levels
      · trivial
    -- Types of parts.
    · exact StaticType.element_placed (hpart? _ fun _ => tree_of_field?)
    · have htype := hpart? e.namedChildren.head? fun _ => tree_of_head?_namedChildren
      split
      · next name first rest heq =>
        rw [heq] at htype
        split
        · exact htype.1
        · exact htype
      · exact htype
    · refine StaticType.oneOf_placed fun t ht => ?_
      obtain ⟨p, hp, rfl⟩ := mem_map.1 ht
      rcases mem_append.1 hp with hp | hp
      iterate 2 exact hpart p (tree_of_field? (Option.mem_toList.1 hp))
    · split
      · exact hpart? _ fun _ => tree_of_field?
      · split
        · trivial
        · trivial
    · exact hpart? _ fun _ => tree_of_head?_parts
    iterate 7 trivial
    iterate 3 exact hsignature
    · refine StaticType.getD_placed fun t ht => ?_
      obtain ⟨d, hd, rfl⟩ := Option.map_eq_some_iff.1 ht
      exact (Declaration.liesIn_of_ofNode? hd he).placed hf
    · trivial

end

omit hknown in
theorem upTo_placed (idx : Index) (fuel : Nat) : (upTo idx fuel).PlacedIn idx := by
  induction fuel with
  | zero => exact ⟨fun _ _ _ _ _ => trivial, fun _ _ _ => trivial, fun _ _ _ _ _ h => nomatch h⟩
  | succ fuel ih =>
    exact ⟨fun _ hf _ he levels => expressionType_placed ih hf he levels,
      fun _ hd levels => declarationType_placed ih hd levels, memberSymbol_arises ih⟩

end Inference

namespace Project.Index

variable {idx : Index} {file : SourceFile} {token : Node} {s : Symbol} (hf : file ∈ idx.files.toList)
  (ht : token.tree = file.tree) (h : idx.resolveAt? file token = some s)

include hf ht h

theorem resolveAt?_placed : s.PlacedIn idx :=
  ScriptAtlas.resolveAt?_placed (Inference.upTo_placed idx _).member hf ht h

theorem resolveAt?_arises (hk : token.kind?.any Kind.isIdentifier = true) : s.ArisesIn idx := by
  obtain ⟨t, hsym, rfl⟩ := Option.map_eq_some_iff.1 h
  refine resolveSymbol_arises ?_
  rcases symbolAt?_cases (Inference.upTo_placed idx _).member hf ht hsym with ⟨d, hd, rfl⟩ | ht
  · have hd : d.ArisesIn idx := .name hf ht hk hd
    exact fun e he => (eq_or_arises_of_mem_merged hd.placed he).elim (· ▸ hd) id
  · exact ht

end Project.Index

end ScriptAtlas

