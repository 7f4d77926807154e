import Mathlib.Data.List.Nodup
import Mathlib.Data.List.Induction
import ScriptAtlas.Proofs.ReferenceSearch
import ScriptAtlas.Proofs.Skeletons
import ScriptAtlas.Query.Confusables

/-!
# Pairs of confusable names

* `Declares`, `Overlooked`: what a tree declares, and what of it a report does not look at;
* `mem_firstDeclarations_iff`, `pairwise_firstDeclarations`: the first declaration of each name, in order;
* `filter_pairsOf`: two names with one skeleton make one pair;
* `of_mem_pairsOf`: nothing else makes a pair;
* `report_confusables`: the pairs of a report, and `bareParameter_missed`: one that it misses.
-/

namespace ScriptAtlas.Query

open List

variable {a b : Declared} {ds l : List Declared}

namespace Severity

theorem foldl_max_spec (l : List Severity) (s : Severity) :
    l.foldl max s ∈ s :: l ∧ ∀ x ∈ s :: l, x.rank ≤ (l.foldl max s).rank := by
  induction l generalizing s with
  | nil => simp
  | cons a l ih =>
    obtain ⟨hmem, hle⟩ := ih (s.max a)
    have hmax : (s.max a = s ∨ s.max a = a) ∧ s.rank ≤ (s.max a).rank ∧ a.rank ≤ (s.max a).rank := by
      cases s <;> cases a <;> decide
    have hfirst := hle _ mem_cons_self
    refine ⟨?_, ?_⟩
    · rcases mem_cons.1 hmem with h | h
      · rw [foldl_cons, h]
        rcases hmax.1 with h | h <;> simp [h]
      · exact mem_cons_of_mem _ (mem_cons_of_mem _ h)
    · intro x hx
      rcases mem_cons.1 hx with rfl | hx
      · exact Nat.le_trans hmax.2.1 hfirst
      · rcases mem_cons.1 hx with rfl | hx
        · exact Nat.le_trans hmax.2.2 hfirst
        · exact hle x (mem_cons_of_mem _ hx)

theorem max?_eq_none_iff {l : List Severity} : max? l = none ↔ l = [] := by
  cases l <;> simp [max?]

theorem max?_eq_some {l : List Severity} {s : Severity} (h : max? l = some s) :
    s ∈ l ∧ ∀ x ∈ l, x.rank ≤ s.rank := by
  cases l with
  | nil => cases h
  | cons a l =>
    cases h
    exact foldl_max_spec l a

end Severity

namespace Confusables

open Project Syntax Text

/-! ## Declared names -/

/-- A node of a syntax tree declares a token as a name. -/
inductive Declares : Node → Node → Prop
  /-- A declaration that has no pattern goes by its own name. -/
  | own {n name : Node} (hkind : n.declarationKind?.isSome = true)
      (hpattern : n.kind?.bind Node.bindingField? = none) (h : n.declarationName? = some name) :
      Declares n name
  /-- A variable, a parameter, a loop over values or the handler of an error binds the names of its
  pattern. -/
  | bound {n pattern name : Node} {f : Field} (hkind : n.kind?.bind Node.bindingField? = some f)
      (hpattern : n.field? f = some pattern) (h : name ∈ pattern.bindingNames) : Declares n name
  /-- The parameter of an arrow may be a bare name. -/
  | bare {arrow n : Node} (harrow : arrow.hasKind .arrowFunction = true)
      (h : arrow.field? .parameter = some n) (hkind : n.hasKind .identifier = true) : Declares n n
  /-- A function that is an expression may have a name. -/
  | inner {n name : Node} (hkind : n.hasKindIn [.functionExpression, .generatorFunction] = true)
      (h : n.field? .name = some name) : Declares n name

/-- Nodes at which no declared names are looked for: loops over values, handlers of errors, functions
that are expressions, and bare names other than those of imports. -/
def Overlooked (n : Node) : Prop :=
  n.hasKindIn [.forInStatement, .catchClause, .functionExpression, .generatorFunction] = true ∨
    n.hasKind .identifier = true ∧ n.parentHasKind .importClause = false

/-- What a tree declares and is not overlooked, without names in quotes, in the order of the nodes. -/
structure Collects (tree : Tree) (found : List (Node × Node)) : Prop where
  ordered : found.Pairwise fun p q => p.1.id ≤ q.1.id
  mem_iff : ∀ n name, (n, name) ∈ found ↔ n ∈ tree.nodes ∧ Declares n name ∧ ¬ Overlooked n ∧
    name.hasKind .string = false

section Tokens

variable {n name : Node}

theorem declarationKind?_of_overlooked (h : Overlooked n) : n.declarationKind? = none := by
  rcases h with h | ⟨hk, hparent⟩
  · obtain ⟨k, hk, h⟩ := (Option.any_eq_true _ _).1 h
    simp only [contains_iff_mem, mem_cons, not_mem_nil, or_false] at h
    rcases h with rfl | rfl | rfl | rfl <;> simp [Node.declarationKind?, hk]
  · simp [Node.declarationKind?, beq_iff_eq.1 hk, hparent]

theorem declares_of_mem_nameTokens (hkind : n.declarationKind?.isSome = true)
    (hname : name ∈ nameTokens n) : Declares n name := by
  have hbound {f : Field} (hbind : n.kind?.bind Node.bindingField? = some f)
      (h : name ∈ ((n.field? f).map Node.bindingNames).getD []) : Declares n name := by
    cases hfield : n.field? f with
    | none => simp [hfield] at h
    | some pattern => exact .bound hbind hfield (by simpa [hfield] using h)
  unfold nameTokens at hname
  split at hname
  iterate 3 next hk => exact hbound (by rw [hk]; rfl) hname
  · next hvariable hrequired hoptional =>
    refine .own hkind ?_ (Option.mem_toList.1 hname)
    cases hk : n.kind? with
    | none => rfl
    | some k =>
      rw [Option.bind_some]
      unfold Node.bindingField?
      split
      · exact absurd hk hvariable
      · exact absurd hk hrequired
      · exact absurd hk hoptional
      iterate 2 simp [Node.declarationKind?, hk] at hkind
      · rfl

theorem mem_nameTokens_of_declares (h : Declares n name) (hseen : ¬ Overlooked n) :
    n.declarationKind?.isSome = true ∧ name ∈ nameTokens n := by
  cases h with
  | own hkind hpattern h =>
    refine ⟨hkind, ?_⟩
    unfold nameTokens
    split
    iterate 3 next hk => simp [hk, Node.bindingField?] at hpattern
    · exact Option.mem_toList.2 h
  | bound hkind hpattern h =>
    obtain ⟨k, hk, hf⟩ := Option.bind_eq_some_iff.1 hkind
    unfold Node.bindingField? at hf
    split at hf <;> cases hf
    · simp [Node.declarationKind?, nameTokens, hk, hpattern, h]
    iterate 2
      refine ⟨?_, by simp [nameTokens, hk, hpattern, h]⟩
      simp only [Node.declarationKind?, hk]
      split <;> rfl
    iterate 2 exact absurd (.inl (by simp [Node.hasKindIn, hk])) hseen
  | bare harrow h hkind =>
    have hk : n.kind? = some .identifier := beq_iff_eq.1 hkind
    have hparent : n.parentHasKind .importClause = true := by
      by_contra hparent
      exact hseen (.inr ⟨hkind, Bool.eq_false_iff.2 hparent⟩)
    simp [Node.declarationKind?, nameTokens, Node.declarationName?, hk, hparent]
  | inner hkind h =>
    obtain ⟨k, hk, hmem⟩ := (Option.any_eq_true _ _).1 hkind
    refine absurd (.inl ?_) hseen
    rw [Node.hasKindIn, hk]
    simp at hmem
    rcases hmem with rfl | rfl <;> rfl

end Tokens

theorem exists_collects (file : SourceFile) : ∃ found, Collects file.tree found ∧
    declaredNames file = found.map fun p => ⟨p.2.text, p.2.line, scopeOf p.1⟩ := by
  refine ⟨(file.tree.nodes.filter (·.declarationKind?.isSome)).flatMap fun n =>
    ((nameTokens n).filter (!·.hasKind .string)).map fun name => (n, name), ⟨?_, ?_⟩, ?_⟩
  · have hnodes : file.tree.nodes.Pairwise fun m n => m.id < n.id := pairwise_map.2 pairwise_lt_range
    refine pairwise_flatMap.2 ⟨fun n _ => pairwise_map.2 (pairwise_of_forall fun _ _ => le_rfl), ?_⟩
    refine (hnodes.filter _).imp fun hlt p hp q hq => ?_
    obtain ⟨-, -, rfl⟩ := mem_map.1 hp
    obtain ⟨-, -, rfl⟩ := mem_map.1 hq
    exact Nat.le_of_lt hlt
  · intro n name
    simp only [mem_flatMap, mem_filter, mem_map, Prod.mk.injEq, Bool.not_eq_true']
    constructor
    · rintro ⟨m, ⟨hm, hkind⟩, token, ⟨htoken, hstring⟩, rfl, rfl⟩
      refine ⟨hm, declares_of_mem_nameTokens hkind htoken, fun hover => ?_, hstring⟩
      simp [declarationKind?_of_overlooked hover] at hkind
    · rintro ⟨hn, hdeclares, hseen, hstring⟩
      obtain ⟨hkind, htoken⟩ := mem_nameTokens_of_declares hdeclares hseen
      exact ⟨n, ⟨hn, hkind⟩, name, ⟨htoken, hstring⟩, rfl, rfl⟩
  · simp [declaredNames, map_flatMap, Function.comp_def]

/-! ## First declarations -/

def place (declared : List Declared) (name : String) : Nat := declared.findIdx (·.name == name)

theorem foldl_firstDeclarations (ds acc : List Declared) :
    ds.foldl (fun acc d => if acc.any (·.name == d.name) then acc else acc ++ [d]) acc =
      acc ++ (firstDeclarations ds).filter fun x => !acc.any (·.name == x.name) := by
  induction ds generalizing acc with
  | nil => simp [firstDeclarations]
  | cons d ds ih =>
    have hcons : firstDeclarations (d :: ds) = [d] ++ (firstDeclarations ds).filter
        fun x => !List.any [d] (·.name == x.name) := ih [d]
    rw [hcons, foldl_cons]
    split
    · next h =>
      have hsame : ∀ x ∈ firstDeclarations ds, (!acc.any (·.name == x.name)) =
          (!acc.any (·.name == x.name) && !List.any [d] (·.name == x.name)) := by
        intro x _
        by_cases hx : d.name = x.name
        · simp [← hx, h]
        · simp [hx]
      rw [ih acc, filter_append, filter_filter, filter_congr hsame]
      simp [h]
    · next h =>
      rw [ih (acc ++ [d]), filter_append, filter_filter]
      simp [h]

theorem firstDeclarations_cons (d : Declared) (ds : List Declared) :
    firstDeclarations (d :: ds) = d :: (firstDeclarations ds).filter (d.name != ·.name) := by
  have h := foldl_firstDeclarations ds [d]
  simpa [firstDeclarations, bne] using h

theorem mem_firstDeclarations_iff :
    a ∈ firstDeclarations ds ↔ ds.find? (·.name == a.name) = some a := by
  induction ds with
  | nil => simp [firstDeclarations]
  | cons d ds ih =>
    rw [firstDeclarations_cons, mem_cons, mem_filter, ih]
    by_cases hname : d.name = a.name
    · simp [hname, eq_comm (a := a)]
    · have hne : a ≠ d := fun h => hname (h ▸ rfl)
      simp [hname, hne]

theorem pairwise_firstDeclarations (ds : List Declared) :
    (firstDeclarations ds).Pairwise fun a b => place ds a.name < place ds b.name := by
  induction ds with
  | nil => simp [firstDeclarations]
  | cons d ds ih =>
    rw [firstDeclarations_cons, pairwise_cons]
    have hplace {x : Declared} (hx : x ∈ (firstDeclarations ds).filter (d.name != ·.name)) :
        place (d :: ds) x.name = place ds x.name + 1 := by
      have hne : d.name ≠ x.name := by simpa using (mem_filter.1 hx).2
      simp [place, findIdx_cons, beq_false_of_ne hne]
    refine ⟨fun b hb => ?_, (ih.filter _).imp_of_mem fun ha hb h => ?_⟩
    · rw [hplace hb]
      simp [place, findIdx_cons]
    · rw [hplace ha, hplace hb]
      exact Nat.succ_lt_succ h

theorem names_firstDeclarations (ds : List Declared) :
    (firstDeclarations ds).Pairwise fun a b => a.name ≠ b.name :=
  (pairwise_firstDeclarations ds).imp fun h heq => absurd h (by rw [heq]; exact Nat.lt_irrefl _)

theorem pair_sublist_firstDeclarations
    (ha : a ∈ firstDeclarations ds) (hb : b ∈ firstDeclarations ds)
    (h : place ds a.name < place ds b.name) : [a, b].Sublist (firstDeclarations ds) := by
  have hsorted := pairwise_firstDeclarations ds
  generalize firstDeclarations ds = l at ha hb hsorted
  induction hsorted with
  | nil => cases ha
  | @cons d l hd _ ih =>
    rcases mem_cons.1 ha with rfl | ha
    · rcases mem_cons.1 hb with rfl | hb
      · exact absurd h (Nat.lt_irrefl _)
      · exact (singleton_sublist.2 hb).cons_cons a
    · rcases mem_cons.1 hb with rfl | hb
      · exact absurd h (Nat.lt_asymm (hd a ‹_›))
      · exact (ih ‹_› hb).cons d

/-! ## Pairs -/

def Pair.joins (p : Pair) (x y : String) : Bool :=
  p.first == x && p.second == y || p.first == y && p.second == x

theorem exists_of_mem_pairsIn {s : String} {p : Pair} (h : p ∈ pairsIn s l) :
    ∃ a b, [a, b].Sublist l ∧ p = pairOf s a b := by
  induction l with
  | nil => cases h
  | cons d l ih =>
    rcases mem_append.1 h with h | h
    · obtain ⟨b, hb, rfl⟩ := mem_map.1 h
      exact ⟨d, b, (singleton_sublist.2 hb).cons_cons d, rfl⟩
    · obtain ⟨a, b, hab, hp⟩ := ih h
      exact ⟨a, b, hab.cons d, hp⟩

theorem filter_name_eq (hl : l.Pairwise fun a b => a.name ≠ b.name)
    (hb : b ∈ l) : l.filter (·.name == b.name) = [b] := by
  induction hl with
  | nil => cases hb
  | @cons d l hd _ ih =>
    rcases mem_cons.1 hb with rfl | hmem
    · rw [filter_cons_of_pos (by simp), filter_eq_nil_iff.2]
      intro c hc
      simpa using (hd c hc).symm
    · rw [filter_cons_of_neg (by simpa using hd b hmem), ih hmem]

theorem filter_pairsIn {s : String}
    (hl : l.Pairwise fun a b => a.name ≠ b.name) (hab : [a, b].Sublist l) :
    (pairsIn s l).filter (·.joins a.name b.name) = [pairOf s a b] := by
  induction hl with
  | nil => cases hab
  | @cons d l hd hl ih =>
    rw [pairsIn, filter_append, filter_map]
    cases hab with
    | cons _ hab =>
      have ha := hd a (hab.subset (by simp))
      have hb := hd b (hab.subset (by simp))
      rw [ih hab, filter_eq_nil_iff.2 fun c _ => by simp [Pair.joins, pairOf, ha, hb]]
      rfl
    | cons_cons _ hb =>
      have hfirst : l.filter ((·.joins a.name b.name) ∘ pairOf s a) = l.filter (·.name == b.name) :=
        filter_congr fun c hc => by simp [Pair.joins, pairOf, (hd c hc).symm]
      have hrest : (pairsIn s l).filter (·.joins a.name b.name) = [] := by
        refine filter_eq_nil_iff.2 fun p hp => ?_
        obtain ⟨x, y, hxy, rfl⟩ := exists_of_mem_pairsIn hp
        have hx := hd x (hxy.subset (by simp))
        have hy := hd y (hxy.subset (by simp))
        simp [Pair.joins, pairOf, hx.symm, hy.symm]
      rw [hrest, hfirst, filter_name_eq hl (singleton_sublist.1 hb)]
      rfl

theorem flatMap_eq_of_nodup {α β : Type} {l : List α} {f : α → List β} {x : α} (hl : l.Nodup)
    (hx : x ∈ l) (h : ∀ y ∈ l, y ≠ x → f y = []) : l.flatMap f = f x := by
  induction hl with
  | nil => cases hx
  | @cons y l hy _ ih =>
    rw [flatMap_cons]
    rcases mem_cons.1 hx with rfl | hmem
    · rw [flatMap_eq_nil_iff.2 fun z hz => h z (mem_cons_of_mem _ hz) (hy z hz).symm,
        append_nil]
    · rw [h y mem_cons_self (hy x hmem), nil_append,
        ih hmem fun z hz => h z (mem_cons_of_mem _ hz)]

/-- The first declarations of the names with a skeleton. -/
def withSkeleton (ds : List Declared) (s : String) : List Declared :=
  (firstDeclarations ds).filter (skeleton ·.name == s)

theorem perm_pairsOf (ds : List Declared) : ∃ skeletons : List String, skeletons.Nodup ∧
    (∀ d ∈ firstDeclarations ds, skeleton d.name ∈ skeletons) ∧
    (pairsOf ds).Perm (skeletons.flatMap fun s => pairsIn s (withSkeleton ds s)) := by
  have hgroup (s : String) : ((((firstDeclarations ds).map fun d => (skeleton d.name, d)).filter
      (·.1 == s)).map Prod.snd) = withSkeleton ds s := by
    simp [filter_map, Function.comp_def, withSkeleton]
  refine ⟨((firstDeclarations ds).map (skeleton ·.name)).eraseDups.mergeSort fun a b => !(b < a),
    ?_, fun d hd => ?_, ?_⟩
  · exact (mergeSort_perm _ _).nodup_iff.2 (nodup_eraseDups _)
  · simpa using ⟨d, hd, rfl⟩
  · unfold pairsOf
    simp only [hgroup, map_map]
    exact mergeSort_perm _ _

theorem filter_pairsOf (ha : a ∈ firstDeclarations ds)
    (hb : b ∈ firstDeclarations ds) (hplace : place ds a.name < place ds b.name)
    (hskeleton : skeleton a.name = skeleton b.name) :
    (pairsOf ds).filter (·.joins a.name b.name) = [pairOf (skeleton a.name) a b] := by
  obtain ⟨skeletons, hnodup, hmem, hperm⟩ := perm_pairsOf ds
  have hsub : [a, b].Sublist (withSkeleton ds (skeleton a.name)) := by
    simpa [hskeleton, withSkeleton] using (pair_sublist_firstDeclarations ha hb hplace).filter
      (skeleton ·.name == skeleton a.name)
  rw [← perm_singleton, ← filter_pairsIn ((names_firstDeclarations ds).filter _) hsub]
  refine (hperm.filter _).trans (List.Perm.of_eq ?_)
  rw [filter_flatMap]
  refine flatMap_eq_of_nodup hnodup (hmem a ha) fun s _ hs => filter_eq_nil_iff.2 fun p hp => ?_
  obtain ⟨x, y, hxy, rfl⟩ := exists_of_mem_pairsIn hp
  have hx : skeleton x.name = s := by simpa using (mem_filter.1 (hxy.subset (by simp))).2
  have hxa : x.name ≠ a.name := fun h => hs (by rw [← hx, h])
  have hxb : x.name ≠ b.name := fun h => hs (by rw [← hx, h, hskeleton])
  simp [Pair.joins, pairOf, hxa, hxb]

theorem of_mem_pairsOf {p : Pair} (hp : p ∈ pairsOf ds) :
    ∃ a ∈ firstDeclarations ds, ∃ b ∈ firstDeclarations ds, a.name ≠ b.name ∧
      skeleton a.name = skeleton b.name ∧ p.first = a.name ∧ p.second = b.name := by
  obtain ⟨skeletons, -, -, hperm⟩ := perm_pairsOf ds
  obtain ⟨s, -, hp⟩ := mem_flatMap.1 (hperm.mem_iff.1 hp)
  obtain ⟨a, b, hab, rfl⟩ := exists_of_mem_pairsIn hp
  have hne : a.name ≠ b.name :=
    (pairwise_cons.1 (((names_firstDeclarations ds).filter _).sublist hab)).1 b (by simp)
  obtain ⟨ha, hsa⟩ := mem_filter.1 (hab.subset (by simp : a ∈ [a, b]))
  obtain ⟨hb, hsb⟩ := mem_filter.1 (hab.subset (by simp : b ∈ [a, b]))
  exact ⟨a, ha, b, hb, hne, (eq_of_beq hsa).trans (eq_of_beq hsb).symm, rfl, rfl⟩

/-! ## The report -/

theorem severity_identifierReport (pairs : List Pair) (d : Declared) :
    (identifierReport pairs d).severity = .critical ↔ (∃ c ∈ d.name.toList, isInvisible c = true) ∨
      ∃ p ∈ pairs, p.first = d.name ∨ p.second = d.name := by
  have hany : (d.name.toList.any isBidiControl || d.name.toList.any isZeroWidth ||
      pairs.any fun p => p.first == d.name || p.second == d.name) = true ↔
      (∃ c ∈ d.name.toList, isInvisible c = true) ∨
        ∃ p ∈ pairs, p.first = d.name ∨ p.second = d.name := by
    simp [isInvisible, and_or_left, exists_or]
  rw [← hany, identifierReport]
  split
  · next h => exact iff_of_true rfl h
  · next h => exact iff_of_false (by split <;> simp) h

/-- The declared names of a report are those that the tree of the file declares and that are not
overlooked, in the order of the tree. Two of them with one skeleton make one pair, the name that is
declared first coming first, and nothing else makes a pair; a name that is not plain is critical exactly
if it hides a character or is in a pair; and the severity of the whole is the worst there is. -/
theorem report_confusables (file : SourceFile) :
    (∃ found, Collects file.tree found ∧
      declaredNames file = found.map fun p => ⟨p.2.text, p.2.line, scopeOf p.1⟩) ∧
    (∀ a b, (declaredNames file).find? (·.name == a.name) = some a →
      (declaredNames file).find? (·.name == b.name) = some b →
      place (declaredNames file) a.name < place (declaredNames file) b.name →
      skeleton a.name = skeleton b.name →
      (report file).pairs.filter (·.joins a.name b.name) = [pairOf (skeleton a.name) a b]) ∧
    (∀ p ∈ (report file).pairs, p.first ≠ p.second ∧ skeleton p.first = skeleton p.second ∧
      p.first ∈ (declaredNames file).map (·.name) ∧ p.second ∈ (declaredNames file).map (·.name)) ∧
    (report file).identifiers.map (·.name) =
      ((declaredNames file).map (·.name)).filter (!isAscii ·) ∧
    (∀ i ∈ (report file).identifiers, i.severity = .critical ↔
      (∃ c ∈ i.name.toList, isInvisible c = true) ∨
        ∃ p ∈ (report file).pairs, p.first = i.name ∨ p.second = i.name) ∧
    ((report file).maxSeverity = none ↔
      (report file).identifiers = [] ∧ (report file).pairs = []) ∧
    ∀ s, (report file).maxSeverity = some s →
      s ∈ (report file).identifiers.map (·.severity) ++ (report file).pairs.map (·.severity) ∧
      ∀ x ∈ (report file).identifiers.map (·.severity) ++ (report file).pairs.map (·.severity),
        x.rank ≤ s.rank := by
  refine ⟨exists_collects file, fun a b ha hb => filter_pairsOf (mem_firstDeclarations_iff.2 ha)
    (mem_firstDeclarations_iff.2 hb), fun p hp => ?_, ?_, fun i hi => ?_, ?_,
    fun s => Severity.max?_eq_some⟩
  · obtain ⟨a, ha, b, hb, hne, hskeleton, hfirst, hsecond⟩ := of_mem_pairsOf hp
    rw [hfirst, hsecond]
    exact ⟨hne, hskeleton,
      mem_map_of_mem (mem_of_find?_eq_some (mem_firstDeclarations_iff.1 ha)),
      mem_map_of_mem (mem_of_find?_eq_some (mem_firstDeclarations_iff.1 hb))⟩
  · simp [report, identifierReport, filter_map, Function.comp_def]
  · obtain ⟨d, -, rfl⟩ := mem_map.1 hi
    exact severity_identifierReport _ d
  · simp [report, Severity.max?_eq_none_iff]

/-- A file with a variable and a bare parameter that looks like it. -/
def bareParameter : SourceFile :=
  .new 0 ⟨["app"]⟩ .default ⟨["app", "a.ts"]⟩ (Tree.parse "const c = 1;\nconst f = \u0441 => \u0441;" false)

/-- Both names are declared and have one skeleton, but no pair joins them. -/
theorem bareParameter_missed :
    (∃ m ∈ bareParameter.tree.nodes, ∃ name, Declares m name ∧ name.text = "c") ∧
    (∃ n ∈ bareParameter.tree.nodes, ∃ name, Declares n name ∧ name.text = "\u0441") ∧
    skeleton "\u0441" = skeleton "c" ∧
    ∀ p ∈ (report bareParameter).pairs, p.joins "c" "\u0441" = false := by
  have hnames : (declaredNames bareParameter).map (·.name) = ["c", "f"] := by decide +kernel
  have harrow : bareParameter.tree.nodes.any (fun n => n.hasKind .arrowFunction &&
      (n.field? .parameter).any fun p => p.hasKind .identifier && p.text == "\u0441" &&
        p.id < p.tree.size) = true := by decide +kernel
  refine ⟨?_, ?_, (startsAfresh_of_mem_lookAlikes (b := "") (p := ('\u0441', 'c')) ?_).2.2, ?_⟩
  · obtain ⟨found, hfound, hdeclared⟩ := exists_collects bareParameter
    have hmem : "c" ∈ (declaredNames bareParameter).map (·.name) := hnames ▸ mem_cons_self
    rw [hdeclared, map_map] at hmem
    obtain ⟨⟨m, name⟩, hm, htext⟩ := mem_map.1 hmem
    obtain ⟨hm, hdeclares, -⟩ := (hfound.mem_iff m name).1 hm
    exact ⟨m, hm, name, hdeclares, htext⟩
  · obtain ⟨arrow, hnode, h⟩ := any_eq_true.1 harrow
    simp only [Bool.and_eq_true, Option.any_eq_true, beq_iff_eq, decide_eq_true_eq] at h
    obtain ⟨hkind, p, hp, ⟨hidentifier, htext⟩, hlt⟩ := h
    have htree := (Node.tree_of_field? hp).trans (Node.tree_of_mem_nodes hnode)
    have hmem : p ∈ p.tree.nodes := mem_map.2 ⟨p.id, mem_range.2 hlt, rfl⟩
    exact ⟨p, htree ▸ hmem, p, .bare hkind hp hidentifier, htext⟩
  · decide +kernel
  · intro p hp
    obtain ⟨a, ha, b, hb, -, -, hfirst, hsecond⟩ := of_mem_pairsOf hp
    have hplain {d : Declared} (hd : d ∈ firstDeclarations (declaredNames bareParameter)) :
        d.name ≠ "\u0441" := by
      have hmem := mem_map_of_mem (f := (·.name)) (mem_of_find?_eq_some (mem_firstDeclarations_iff.1 hd))
      rw [hnames] at hmem
      intro h
      simp [h] at hmem
    simp [Pair.joins, hfirst, hsecond, hplain ha, hplain hb]

end Confusables

end ScriptAtlas.Query
