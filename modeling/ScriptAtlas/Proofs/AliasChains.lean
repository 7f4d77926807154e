import ScriptAtlas.Proofs.CallTrees
import ScriptAtlas.Proofs.NamePlaces

/-!
# Chains of aliases

An import stands for an export that may be an import again. Following such a chain remembers the aliases
that were passed. A chain that starts one alias later is followed with fewer of them in memory, and still
it ends at the same symbol, since the key of an alias decides where it leads.

* `walk?`: where a number of hops arrives;
* `ArrivesAt`, `Breaks`, `Returns`: what can become of a chain;
* `Keyed`: symbols on which a hop depends by the key of an alias only;
* `followAliases_eq_some_iff`, `followAliases_eq_none_iff`: with enough fuel, following a chain finds its
  end if there is one, and nothing if the chain breaks or returns;
* `Project.Index.aliasTarget?_spec`: chains of a project.
-/

namespace ScriptAtlas

open List Project Syntax
open Query.CallTree (Suffices)

variable {seen : List DeclarationKey} {fuel : Nat}

/-! ## Walks -/

section Walks

/-- The symbol at which a number of hops arrives, every one of them from an alias. -/
def walk? (hop : Declaration → Option Symbol) : Nat → Symbol → Option Symbol
  | 0, s => some s
  | k + 1, s => if s.first.isAlias then (hop s.first).bind (walk? hop k) else none

variable {hop : Declaration → Option Symbol} {s t u v : Symbol} {i j k : Nat}

theorem walk?_succ_eq_some_iff : walk? hop (k + 1) s = some t ↔
    s.first.isAlias = true ∧ ∃ u, hop s.first = some u ∧ walk? hop k u = some t := by
  rw [walk?]
  split
  · next halias => simp [halias, Option.bind_eq_some_iff]
  · next halias => simp [halias]

theorem walk?_add (hop : Declaration → Option Symbol) (i k : Nat) (s : Symbol) :
    walk? hop (i + k) s = (walk? hop i s).bind (walk? hop k) := by
  induction i generalizing s with
  | zero => rw [Nat.zero_add, walk?, Option.bind_some]
  | succ i ih =>
    rw [Nat.succ_add, walk?, walk?]
    split
    · rw [Option.bind_assoc]
      simp only [ih]
    · rfl

/-- The chain ends at a symbol that is no alias, the first such symbol on it. -/
def ArrivesAt (hop : Declaration → Option Symbol) (s t : Symbol) : Prop :=
  t.first.isAlias = false ∧ ∃ k, walk? hop k s = some t

/-- A hop from an alias of the chain fails. -/
def Breaks (hop : Declaration → Option Symbol) (s : Symbol) : Prop :=
  ∃ k u, walk? hop k s = some u ∧ u.first.isAlias = true ∧ hop u.first = none

/-- The chain comes back to an alias that it has passed. -/
def Returns (hop : Declaration → Option Symbol) (s : Symbol) : Prop :=
  ∃ i j u v, i < j ∧ walk? hop i s = some u ∧ walk? hop j s = some v ∧
    u.first.isAlias = true ∧ v.first.isAlias = true ∧ u.first.key = v.first.key

/-- A walk that has not come to the end of the chain yet still comes to it. -/
theorem exists_rest (ht : t.first.isAlias = false) (hk : walk? hop k s = some t)
    (hi : walk? hop i s = some u) : ∃ d, k = i + d ∧ walk? hop d u = some t := by
  rcases Nat.le_total i k with hle | hle
  · obtain ⟨d, rfl⟩ := Nat.exists_eq_add_of_le hle
    rw [walk?_add, hi, Option.bind_some] at hk
    exact ⟨d, rfl, hk⟩
  · obtain ⟨d, rfl⟩ := Nat.exists_eq_add_of_le hle
    rw [walk?_add, hk, Option.bind_some] at hi
    cases d with
    | zero =>
      cases hi
      exact ⟨0, rfl, rfl⟩
    | succ d => exact absurd (walk?_succ_eq_some_iff.1 hi).1 (by simp [ht])

/-- How far the end is depends on the alias only. -/
theorem length_unique (hs : s.first.isAlias = true) (hfirst : s.first = u.first)
    (ht : t.first.isAlias = false) (hv : v.first.isAlias = false) (hi : walk? hop i s = some t)
    (hj : walk? hop j u = some v) : i = j := by
  cases i with
  | zero =>
    cases hi
    cases ht.symm.trans hs
  | succ i =>
    cases j with
    | zero =>
      cases hj
      rw [← hfirst, hs] at hv
      cases hv
    | succ j =>
      obtain ⟨-, x, hx, hi⟩ := walk?_succ_eq_some_iff.1 hi
      obtain ⟨-, y, hy, hj⟩ := walk?_succ_eq_some_iff.1 hj
      rw [hfirst, hy] at hx
      cases hx
      -- both walks go on from one symbol
      obtain ⟨d, hd, -⟩ := exists_rest ht hi hj
      obtain ⟨d', hd', -⟩ := exists_rest hv hj hi
      omega

theorem arrivesAt_iff_of_hop (hs : s.first.isAlias = true) (hu : hop s.first = some u) :
    ArrivesAt hop s t ↔ ArrivesAt hop u t := by
  constructor
  · rintro ⟨ht, _ | k, hk⟩
    · cases hk
      cases hs.symm.trans ht
    · obtain ⟨-, x, hx, hk⟩ := walk?_succ_eq_some_iff.1 hk
      cases hu.symm.trans hx
      exact ⟨ht, k, hk⟩
  · rintro ⟨ht, k, hk⟩
    exact ⟨ht, k + 1, walk?_succ_eq_some_iff.2 ⟨hs, u, hu, hk⟩⟩

theorem Breaks.of_hop (hs : s.first.isAlias = true) (hu : hop s.first = some u) (h : Breaks hop u) :
    Breaks hop s := by
  obtain ⟨k, v, hk, hv⟩ := h
  exact ⟨k + 1, v, walk?_succ_eq_some_iff.2 ⟨hs, u, hu, hk⟩, hv⟩

theorem Returns.of_hop (hs : s.first.isAlias = true) (hu : hop s.first = some u)
    (h : Returns hop u) : Returns hop s := by
  obtain ⟨i, j, x, y, hij, hi, hj, h⟩ := h
  exact ⟨i + 1, j + 1, x, y, Nat.succ_lt_succ hij, walk?_succ_eq_some_iff.2 ⟨hs, u, hu, hi⟩,
    walk?_succ_eq_some_iff.2 ⟨hs, u, hu, hj⟩, h⟩

theorem ArrivesAt.not_breaks (h : ArrivesAt hop s t) : ¬Breaks hop s := by
  obtain ⟨ht, k, hk⟩ := h
  rintro ⟨i, u, hi, hu, hnone⟩
  obtain ⟨d, -, hd⟩ := exists_rest ht hk hi
  cases d with
  | zero =>
    cases hd
    cases hu.symm.trans ht
  | succ d =>
    obtain ⟨-, x, hx, -⟩ := walk?_succ_eq_some_iff.1 hd
    cases hnone.symm.trans hx

end Walks

/-! ## Following a chain -/

/-- Symbols among which hops stay, with finitely many keys of aliases that tell the aliases apart. -/
structure Keyed (hop : Declaration → Option Symbol) (keys : List DeclarationKey)
    (P : Symbol → Prop) : Prop where
  stays : ∀ {s t}, P s → hop s.first = some t → P t
  mem : ∀ {s}, P s → s.first.isAlias = true → s.first.key ∈ keys
  eq : ∀ {s t}, P s → P t → s.first.isAlias = true → t.first.isAlias = true →
    s.first.key = t.first.key → s.first = t.first

/-- What is found is the end of the chain. -/
theorem arrivesAt_of_followAliases {hop : Declaration → Option Symbol}
    {s t : Symbol} (h : followAliases hop fuel seen s = some t) :
    ArrivesAt hop s t := by
  induction fuel generalizing seen s with
  | zero => cases h
  | succ fuel ih =>
    unfold followAliases at h
    split at h
    · next halias =>
      cases h
      exact ⟨by simpa using halias, 0, rfl⟩
    · next halias =>
      split at h
      · cases h
      · obtain ⟨u, hu, h⟩ := Option.bind_eq_some_iff.1 h
        exact (arrivesAt_iff_of_hop (by simpa using halias) hu).2 (ih h)

namespace Keyed

variable {hop : Declaration → Option Symbol} {keys : List DeclarationKey} {P : Symbol → Prop}
  (hP : Keyed hop keys P)

include hP

theorem of_walk? {s t : Symbol} {k : Nat} (hs : P s) (h : walk? hop k s = some t) : P t := by
  induction k generalizing s with
  | zero =>
    cases h
    exact hs
  | succ k ih =>
    obtain ⟨-, u, hu, h⟩ := walk?_succ_eq_some_iff.1 h
    exact ih (hP.stays hs hu) h

theorem not_returns_of_arrivesAt {s t : Symbol} (hs : P s) (h : ArrivesAt hop s t) :
    ¬Returns hop s := by
  obtain ⟨ht, k, hk⟩ := h
  rintro ⟨i, j, u, v, hij, hi, hj, hu, hv, hkey⟩
  have hfirst := hP.eq (hP.of_walk? hs hi) (hP.of_walk? hs hj) hu hv hkey
  obtain ⟨d, hd, hdu⟩ := exists_rest ht hk hi
  obtain ⟨e, he, hev⟩ := exists_rest ht hk hj
  have hde := length_unique hu hfirst ht ht hdu hev
  omega

/-- The end of a chain is found while the aliases in memory are farther from their end. -/
theorem followAliases_of_walk? {k : Nat} {s t : Symbol} (hs : P s)
    (hfuel : Suffices keys fuel seen) (ht : t.first.isAlias = false) (hk : walk? hop k s = some t)
    (hseen : ∀ u v j, P u → u.first.isAlias = true → u.first.key ∈ seen → v.first.isAlias = false →
      walk? hop j u = some v → k < j) : followAliases hop fuel seen s = some t := by
  induction k generalizing fuel seen s with
  | zero =>
    cases hk
    obtain ⟨fuel, rfl⟩ := Nat.exists_eq_succ_of_ne_zero hfuel.pos.ne'
    simp [followAliases, ht]
  | succ k ih =>
    obtain ⟨fuel, rfl⟩ := Nat.exists_eq_succ_of_ne_zero hfuel.pos.ne'
    obtain ⟨halias, x, hx, hkx⟩ := walk?_succ_eq_some_iff.1 hk
    have hnew : s.first.key ∉ seen := fun hmem =>
      absurd (hseen s t (k + 1) hs halias hmem ht hk) (Nat.lt_irrefl _)
    have hrest : followAliases hop fuel (s.first.key :: seen) x = some t := by
      refine ih (hP.stays hs hx) (hfuel.cons (hP.mem hs halias) hnew) hkx ?_
      intro u v j hu hualias hmem hv hj
      rcases mem_cons.1 hmem with hkey | hmem
      · have hfirst := hP.eq hs hu halias hualias hkey.symm
        have hlength := length_unique halias hfirst ht hv hk hj
        omega
      · exact Nat.lt_of_succ_lt (hseen u v j hu hualias hmem hv hj)
    simp [followAliases, halias, hnew, hx, hrest]

/-- A chain that is given up breaks, or returns to an alias that it has passed or that was in
memory. -/
theorem breaks_or_returns {s : Symbol} (hs : P s)
    (hfuel : Suffices keys fuel seen) (h : followAliases hop fuel seen s = none) :
    Breaks hop s ∨ Returns hop s ∨
      ∃ k u, walk? hop k s = some u ∧ u.first.isAlias = true ∧ u.first.key ∈ seen := by
  induction fuel generalizing seen s with
  | zero => exact absurd hfuel.pos (Nat.lt_irrefl 0)
  | succ fuel ih =>
    unfold followAliases at h
    split at h
    · cases h
    · next halias =>
      have halias : s.first.isAlias = true := by simpa using halias
      split at h
      · next hmem => exact .inr (.inr ⟨0, s, rfl, halias, contains_iff_mem.1 hmem⟩)
      · next hnew =>
        cases hhop : hop s.first with
        | none => exact .inl ⟨0, s, rfl, halias, hhop⟩
        | some x =>
          rw [hhop, Option.bind_some] at h
          have hnew : s.first.key ∉ seen := fun hmem => hnew (contains_iff_mem.2 hmem)
          rcases ih (hP.stays hs hhop) (hfuel.cons (hP.mem hs halias) hnew) h with
            hbreaks | hreturns | ⟨k, u, hk, hu, hmem⟩
          · exact .inl (hbreaks.of_hop halias hhop)
          · exact .inr (.inl (hreturns.of_hop halias hhop))
          · have hwalk : walk? hop (k + 1) s = some u :=
              walk?_succ_eq_some_iff.2 ⟨halias, x, hhop, hk⟩
            rcases mem_cons.1 hmem with hkey | hmem
            · exact .inr (.inl ⟨0, k + 1, s, u, Nat.succ_pos k, rfl, hwalk, halias, hu, hkey.symm⟩)
            · exact .inr (.inr ⟨k + 1, u, hwalk, hu, hmem⟩)

theorem followAliases_eq_some_iff {s t : Symbol} (hs : P s)
    (hfuel : keys.length < fuel) : followAliases hop fuel [] s = some t ↔ ArrivesAt hop s t := by
  refine ⟨arrivesAt_of_followAliases, fun ⟨ht, k, hk⟩ => ?_⟩
  refine hP.followAliases_of_walk? hs ⟨nodup_nil, nil_subset _, hfuel⟩ ht hk ?_
  intro u v j _ _ hmem
  cases hmem

theorem followAliases_eq_none_iff {s : Symbol} (hs : P s)
    (hfuel : keys.length < fuel) :
    followAliases hop fuel [] s = none ↔ Breaks hop s ∨ Returns hop s := by
  constructor
  · intro h
    rcases hP.breaks_or_returns hs ⟨nodup_nil, nil_subset _, hfuel⟩ h with
      hbreaks | hreturns | ⟨k, u, -, -, hmem⟩
    · exact .inl hbreaks
    · exact .inr hreturns
    · cases hmem
  · intro h
    refine Option.eq_none_iff_forall_ne_some.2 fun t ht => ?_
    have harrives := arrivesAt_of_followAliases ht
    exact h.elim harrives.not_breaks (hP.not_returns_of_arrivesAt hs harrives)

end Keyed

/-! ## Chains of a project -/

namespace Project.Index

variable {idx : Index}

/-- The places of a project at which a node begins. -/
def nodeKeys (idx : Index) : List DeclarationKey :=
  idx.files.toList.flatMap fun f => f.tree.nodes.map fun n => ⟨f.id, n.startByte⟩

theorem length_nodeKeys (idx : Index) : idx.nodeKeys.length = idx.nodeCount := by
  rw [nodeKeys, nodeCount_eq_length, length_flatMap, length_flatMap]
  simp only [length_map]

/-- The symbols of a project whose first declaration is as it is made from its node. -/
theorem keyed_resolveImport (hwell : idx.WellFormed) (hparsed : idx.Parsed) :
    Keyed idx.resolveImport idx.nodeKeys fun s => s.first.PlacedIn idx ∧ s.first.Made where
  stays hs h := by
    rcases resolveImport_cases h with rfl | h
    · exact hs
    · exact ⟨h.first.placed, h.first.made⟩
  mem {s} hs halias := by
    have hname := (hs.2.foundBy_of_isAlias hparsed hs.1 halias).2.mem_nodes (hs.1.node_parsed hparsed)
    rw [hs.1.2.node_tree] at hname
    exact mem_flatMap.2 ⟨_, hs.1.1, mem_map_of_mem hname⟩
  eq hs ht := Declaration.Made.eq_of_isAlias hwell hparsed hs.1 ht.1 hs.2 ht.2

theorem isAlias_of_aliasTarget? {s t : Symbol} (h : idx.aliasTarget? s = some t) :
    t.first.isAlias = false :=
  (arrivesAt_of_followAliases h).1

theorem resolveSymbol_idem (s : Symbol) :
    idx.resolveSymbol (idx.resolveSymbol s) = idx.resolveSymbol s := by
  by_cases halias : s.first.isAlias = true
  · cases htarget : idx.aliasTarget? s with
    | none =>
      have hself : idx.resolveSymbol s = s := by simp [resolveSymbol, halias, htarget]
      rw [hself, hself]
    | some t =>
      have hend : idx.resolveSymbol s = t := by simp [resolveSymbol, halias, htarget]
      rw [hend, resolveSymbol, isAlias_of_aliasTarget? htarget]
      rfl
  · have hself : idx.resolveSymbol s = s := by simp [resolveSymbol, halias]
    rw [hself, hself]

/-- What a chain of aliases comes to. More fuel changes nothing. The chain has a target just when it
ends, and none just when it breaks or returns to an alias. It comes to the same one hop later, and what a
symbol stands for stands for itself. -/
theorem aliasTarget?_spec (hwell : idx.WellFormed) (hparsed : idx.Parsed) {s : Symbol}
    (hplaced : s.first.PlacedIn idx) (hmade : s.first.Made) (halias : s.first.isAlias = true) :
    (∀ fuel, idx.nodeCount < fuel →
      followAliases idx.resolveImport fuel [] s = idx.aliasTarget? s) ∧
    (∀ t, idx.aliasTarget? s = some t ↔ ArrivesAt idx.resolveImport s t) ∧
    (idx.aliasTarget? s = none ↔ Breaks idx.resolveImport s ∨ Returns idx.resolveImport s) ∧
    (∀ u, idx.resolveImport s.first = some u → idx.aliasTarget? s = idx.aliasTarget? u) ∧
    ∀ u, idx.resolveSymbol (idx.resolveSymbol u) = idx.resolveSymbol u := by
  have hkeyed := keyed_resolveImport hwell hparsed
  have hs : s.first.PlacedIn idx ∧ s.first.Made := ⟨hplaced, hmade⟩
  have hsome {fuel : Nat} {u : Symbol} (hu : u.first.PlacedIn idx ∧ u.first.Made)
      (hfuel : idx.nodeCount < fuel) (t : Symbol) :
      followAliases idx.resolveImport fuel [] u = some t ↔ ArrivesAt idx.resolveImport u t :=
    hkeyed.followAliases_eq_some_iff hu (idx.length_nodeKeys ▸ hfuel)
  refine ⟨fun fuel hfuel => Option.ext fun t => ?_, hsome hs (Nat.lt_succ_self _),
    hkeyed.followAliases_eq_none_iff hs (idx.length_nodeKeys ▸ Nat.lt_succ_self _),
    fun u hu => Option.ext fun t => ?_, resolveSymbol_idem⟩
  · exact (hsome hs hfuel t).trans (hsome hs (Nat.lt_succ_self _) t).symm
  · refine (hsome hs (Nat.lt_succ_self _) t).trans ?_
    rw [arrivesAt_iff_of_hop halias hu]
    exact (hsome (hkeyed.stays hs hu) (Nat.lt_succ_self _) t).symm

/-- The imports of one export in a project. -/
def aliases (idx : Index) : List Declaration :=
  idx.files.toList.flatMap fun f =>
    (f.tree.nodes.filterMap (Declaration.ofNode? f)).filter Declaration.isAlias

theorem of_mem_aliases {d : Declaration} (h : d ∈ idx.aliases) :
    d.PlacedIn idx ∧ d.Made ∧ d.isAlias = true := by
  obtain ⟨f, hf, h⟩ := mem_flatMap.1 h
  obtain ⟨hmem, halias⟩ := mem_filter.1 h
  obtain ⟨n, hn, hd⟩ := mem_filterMap.1 hmem
  have hlies := Declaration.liesIn_of_ofNode? hd (Node.tree_of_mem_nodes hn)
  exact ⟨hlies.placed hf, Declaration.made_of_ofNode? hd, halias⟩

/-- A project with a chain of imports that ends, and one that runs into a ring of two. -/
def lasso : Index :=
  .ofTexts [("main.ts", "import \x7b x, z \x7d from './a';"),
    ("a.ts", "import \x7b y as x, z \x7d from './b';\nexport \x7b x, z \x7d;"),
    ("b.ts", "import \x7b z \x7d from './a';\nexport \x7b z \x7d;\nexport const y = 1;")]
    [⟨0, "./a", [1]⟩, ⟨1, "./b", [2]⟩, ⟨2, "./a", [1]⟩]

/-- The one chain ends at the constant, the other has no end, also when it is followed from the ring. -/
theorem lasso_targets : ∃ s t u v : Symbol,
    (s.first.PlacedIn lasso ∧ s.first.Made ∧ s.first.isAlias = true) ∧
    ArrivesAt lasso.resolveImport s t ∧ t.name = "y" ∧
    (u.first.PlacedIn lasso ∧ u.first.Made ∧ u.first.isAlias = true) ∧
    (Breaks lasso.resolveImport u ∨ Returns lasso.resolveImport u) ∧
    lasso.resolveImport u.first = some v ∧ lasso.aliasTarget? v = none := by
  have heval : (lasso.aliases.take 2).map (fun d => ((lasso.aliasTarget? (.single d)).map Symbol.name,
      (lasso.resolveImport d).isSome)) = [(some "y", true), (none, true)] := by
    decide +kernel
  obtain ⟨d, rest, htake, hd, hrest⟩ := map_eq_cons_iff.1 heval
  obtain ⟨e, more, rfl, he, -⟩ := map_eq_cons_iff.1 hrest
  have hmem {x : Declaration} (hx : x ∈ lasso.aliases.take 2) := of_mem_aliases (mem_of_mem_take hx)
  obtain ⟨hdplaced, hdmade, hdalias⟩ := hmem (x := d) (by simp [htake])
  obtain ⟨heplaced, hemade, healias⟩ := hmem (x := e) (by simp [htake])
  obtain ⟨t, ht, hname⟩ := Option.map_eq_some_iff.1 (Prod.mk.inj hd).1
  have hnone := Option.map_eq_none_iff.1 (Prod.mk.inj he).1
  obtain ⟨v, hv⟩ := Option.isSome_iff_exists.1 (Prod.mk.inj he).2
  have hwell : lasso.WellFormed := wellFormed_ofTexts _ _
  have hparsed : lasso.Parsed := parsed_ofTexts _ _
  obtain ⟨-, hsome, -⟩ := aliasTarget?_spec hwell hparsed (s := .single d) hdplaced hdmade hdalias
  obtain ⟨-, -, hgone, hlater, -⟩ :=
    aliasTarget?_spec hwell hparsed (s := .single e) heplaced hemade healias
  exact ⟨.single d, t, .single e, v, ⟨hdplaced, hdmade, hdalias⟩, (hsome t).1 ht, hname,
    ⟨heplaced, hemade, healias⟩, hgone.1 hnone, hv, (hlater v hv).symm.trans hnone⟩

end Project.Index

end ScriptAtlas
