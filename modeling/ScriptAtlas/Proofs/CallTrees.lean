import Mathlib.Data.List.Nodup
import Mathlib.Data.List.Perm.Subperm
import ScriptAtlas.Proofs.QueryPlacement
import ScriptAtlas.Proofs.WellFormed

/-!
# Call trees without a limit

A call tree without a limit of depth is the unfolding of the call graph from its root, cut exactly
where a key comes back on the way down.

* `CallTree.CutUnfolding`: what it means for a forest to be such an unfolding;
* `CallTree.cutUnfolding_unfold`: the unfolding of a relation whose keys all lie in a finite list is
  one, as soon as the fuel exceeds the number of keys, and more fuel changes nothing;
* `Calls.hierarchy_cutUnfolding`: both trees of a declaration are cut unfoldings, of what it calls and
  of what calls it.

The keys of the declarations of a project are counted by `Calls.declarationKeys`.
-/

namespace ScriptAtlas.Query

open List

namespace CallTree

variable {α κ : Type}
variable {above : List (CallTree α)} {fuel : Nat}

/-! ## Nodes and the way down to them -/

def target : CallTree α → α
  | node target _ _ _ => target

def mark : CallTree α → CallMark
  | node _ _ mark _ => mark

def children : CallTree α → List (CallTree α)
  | node _ _ _ children => children

def edge : CallTree α → CallEdge α
  | node target lines _ _ => ⟨target, lines⟩

/-- The node stands somewhere in the forest, below the given nodes, nearest first. -/
inductive Occurs : List (CallTree α) → CallTree α → List (CallTree α) → Prop
  | root {forest : List (CallTree α)} {t : CallTree α} (h : t ∈ forest) : Occurs forest t []
  | inside {forest : List (CallTree α)} {r t : CallTree α} {above : List (CallTree α)}
      (hr : r ∈ forest) (h : Occurs r.children t above) : Occurs forest t (above ++ [r])

theorem not_occurs_nil {t : CallTree α} : ¬ Occurs [] t above := by
  intro h
  cases h with
  | root h => exact not_mem_nil h
  | inside hr _ => exact not_mem_nil hr

theorem Occurs.parent {forest : List (CallTree α)} {t s : CallTree α}
    (h : Occurs forest t (s :: above)) : Occurs forest s above := by
  generalize hup : s :: above = up at h
  induction h generalizing above with
  | root _ => cases hup
  | @inside forest r t up' hr h ih =>
    cases up' with
    | nil =>
      cases hup
      exact .root hr
    | cons s' rest =>
      cases hup
      exact .inside hr (ih rfl)

/-! ## Cut unfoldings -/

/-- A node that is marked exactly if its key is on the path, with nothing below it then and
everything that its target leads to otherwise. -/
structure CutAt (key : α → κ) (edges : α → List (CallEdge α)) (path : List κ) (t : CallTree α) :
    Prop where
  cyclic_iff : t.mark = .cyclic ↔ key t.target ∈ path
  children_of_cyclic : t.mark = .cyclic → t.children = []
  children_of_open : t.mark ≠ .cyclic → t.children.map edge = edges t.target
  not_limited : t.mark ≠ .depthLimited

/-- The forest begins with everything that the root leads to, every node is cut exactly if its key is
that of the root or of a node above it, and so no key comes twice on a way down through open nodes. -/
structure CutUnfolding (key : α → κ) (edges : α → List (CallEdge α)) (root : α)
    (forest : List (CallTree α)) : Prop where
  roots : forest.map edge = edges root
  cutAt : ∀ t above, Occurs forest t above →
    CutAt key edges (above.map (fun s => key s.target) ++ [key root]) t
  nodup : ∀ t above, Occurs forest t above → (∀ s ∈ t :: above, s.mark ≠ .cyclic) →
    ((t :: above).map (fun s => key s.target) ++ [key root]).Nodup

theorem nodup_of_cutAt {key : α → κ} {edges : α → List (CallEdge α)} {root : α}
    {forest : List (CallTree α)}
    (hcut : ∀ t above, Occurs forest t above →
      CutAt key edges (above.map (fun s => key s.target) ++ [key root]) t)
    {t : CallTree α} (h : Occurs forest t above) (hopen : ∀ s ∈ t :: above, s.mark ≠ .cyclic) :
    ((t :: above).map (fun s => key s.target) ++ [key root]).Nodup := by
  induction above generalizing t with
  | nil =>
    have hnew := mt (hcut t [] h).cyclic_iff.2 (hopen t mem_cons_self)
    exact nodup_cons.2 ⟨hnew, nodup_singleton _⟩
  | cons s above ih =>
    have hnew := mt (hcut t (s :: above) h).cyclic_iff.2 (hopen t mem_cons_self)
    exact nodup_cons.2 ⟨hnew, ih h.parent fun r hr => hopen r (mem_cons_of_mem _ hr)⟩

/-! ## Fuel -/

/-- The path repeats nothing, and the fuel is enough for all keys that are not on it. -/
structure Suffices (keys : List κ) (fuel : Nat) (path : List κ) : Prop where
  nodup : path.Nodup
  subset : path ⊆ keys
  lt : keys.length < fuel + path.length

theorem Suffices.pos {keys path : List κ} (h : Suffices keys fuel path) :
    0 < fuel := by
  have hle : path.length ≤ keys.length := (h.nodup.subperm h.subset).length_le
  have hlt := h.lt
  omega

theorem Suffices.cons {keys path : List κ} (h : Suffices keys (fuel + 1) path) {k : κ}
    (hk : k ∈ keys) (hnew : k ∉ path) : Suffices keys fuel (k :: path) where
  nodup := nodup_cons.2 ⟨hnew, h.nodup⟩
  subset := cons_subset.2 ⟨hk, h.subset⟩
  lt := by
    have hlt := h.lt
    rw [length_cons]
    omega

theorem Suffices.succ {keys path : List κ} (h : Suffices keys fuel path) :
    Suffices keys (fuel + 1) path where
  nodup := h.nodup
  subset := h.subset
  lt := by
    have hlt := h.lt
    omega

/-! ## One level of an unfolding -/

section Unfold

variable [BEq κ] {key : α → κ} {edges : α → List (CallEdge α)}
variable {fuel : Nat} {path : List κ} {e : CallEdge α}

/-- The node that a call becomes below a path. -/
def grow (key : α → κ) (edges : α → List (CallEdge α)) (fuel : Nat) (path : List κ)
    (e : CallEdge α) : CallTree α :=
  if path.contains (key e.target) then .node e.target e.lines .cyclic []
  else .node e.target e.lines .none (unfold key edges fuel none (key e.target :: path) e.target)

theorem unfold_succ (fuel : Nat) (path : List κ) (a : α) :
    unfold key edges (fuel + 1) none path a = (edges a).map (grow key edges fuel path) := by
  rw [unfold]
  rfl

@[simp]
theorem edge_grow (fuel : Nat) (path : List κ) (e : CallEdge α) :
    (grow key edges fuel path e).edge = e := by
  unfold grow
  split <;> rfl

@[simp]
theorem target_grow (fuel : Nat) (path : List κ) (e : CallEdge α) :
    (grow key edges fuel path e).target = e.target := by
  unfold grow
  split <;> rfl

theorem map_edge_unfold (hfuel : 0 < fuel) (path : List κ) (a : α) :
    (unfold key edges fuel none path a).map edge = edges a := by
  obtain ⟨n, rfl⟩ := Nat.exists_eq_succ_of_ne_zero (Nat.ne_of_gt hfuel)
  rw [unfold_succ, map_map]
  exact (map_congr_left fun e _ => edge_grow n path e).trans (map_id _)

variable [LawfulBEq κ]

theorem grow_of_mem (h : key e.target ∈ path) :
    grow key edges fuel path e = .node e.target e.lines .cyclic [] :=
  if_pos (contains_iff_mem.2 h)

theorem grow_of_not_mem (h : key e.target ∉ path) :
    grow key edges fuel path e =
      .node e.target e.lines .none
        (unfold key edges fuel none (key e.target :: path) e.target) :=
  if_neg (mt contains_iff_mem.1 h)

/-! ## Whole unfoldings -/

variable {P : α → Prop} {keys : List κ}

theorem cutAt_grow (hfuel : Suffices keys (fuel + 1) path) (hk : key e.target ∈ keys) :
    CutAt key edges path (grow key edges fuel path e) := by
  by_cases h : key e.target ∈ path
  · rw [grow_of_mem h]
    exact ⟨iff_of_true rfl h, fun _ => rfl, fun hopen => absurd rfl hopen, nofun⟩
  · rw [grow_of_not_mem h]
    exact ⟨iff_of_false nofun h, nofun, fun _ => map_edge_unfold (hfuel.cons hk h).pos _ _, nofun⟩

variable (hclosed : ∀ a, P a → ∀ e ∈ edges a, P e.target) (hkeys : ∀ a, P a → key a ∈ keys) {a : α}

include hclosed hkeys

/-- Every node of an unfolding is cut exactly by what is above it and by the path that the unfolding
starts from. -/
theorem cutAt_of_occurs (ha : P a) (hfuel : Suffices keys fuel path)
    {t : CallTree α} {above : List (CallTree α)}
    (h : Occurs (unfold key edges fuel none path a) t above) :
    CutAt key edges (above.map (fun s => key s.target) ++ path) t := by
  induction fuel generalizing path a above with
  | zero => exact absurd hfuel.pos (Nat.lt_irrefl 0)
  | succ fuel ih =>
    rw [unfold_succ] at h
    cases h with
    | root ht =>
      obtain ⟨e, he, rfl⟩ := mem_map.1 ht
      exact cutAt_grow hfuel (hkeys _ (hclosed a ha e he))
    | @inside _ r _ above hr hinside =>
      obtain ⟨e, he, rfl⟩ := mem_map.1 hr
      have hP := hclosed a ha e he
      by_cases hmem : key e.target ∈ path
      · rw [grow_of_mem hmem] at hinside
        exact absurd hinside not_occurs_nil
      · rw [grow_of_not_mem hmem] at hinside
        have hcut := ih hP (hfuel.cons (hkeys _ hP) hmem) hinside
        rwa [map_append, append_assoc, map_singleton, target_grow]

theorem unfold_eq_of_suffices {fuel more : Nat} (ha : P a)
    (hfuel : Suffices keys fuel path) (hmore : Suffices keys more path) :
    unfold key edges more none path a = unfold key edges fuel none path a := by
  induction fuel generalizing more path a with
  | zero => exact absurd hfuel.pos (Nat.lt_irrefl 0)
  | succ fuel ih =>
    obtain ⟨more, rfl⟩ := Nat.exists_eq_succ_of_ne_zero (Nat.ne_of_gt hmore.pos)
    rw [unfold_succ, unfold_succ]
    refine map_congr_left fun e he => ?_
    have hP := hclosed a ha e he
    by_cases hmem : key e.target ∈ path
    · rw [grow_of_mem hmem, grow_of_mem hmem]
    · have hk := hkeys _ hP
      rw [grow_of_not_mem hmem, grow_of_not_mem hmem, ih hP (hfuel.cons hk hmem) (hmore.cons hk hmem)]

/-- With fuel for all keys the unfolding from a root is a cut unfolding, and more fuel gives the
same. -/
theorem cutUnfolding_unfold (hfuel : keys.length < fuel) (ha : P a) :
    CutUnfolding key edges a (unfold key edges fuel none [key a] a) ∧
      ∀ more, fuel ≤ more →
        unfold key edges more none [key a] a = unfold key edges fuel none [key a] a := by
  have enough : ∀ more, fuel ≤ more → Suffices keys more [key a] := by
    intro more hmore
    refine ⟨nodup_singleton _, cons_subset.2 ⟨hkeys a ha, nil_subset _⟩, ?_⟩
    rw [length_singleton]
    omega
  have hstart := enough fuel (Nat.le_refl fuel)
  have hcut : ∀ t above, Occurs (unfold key edges fuel none [key a] a) t above →
      CutAt key edges (above.map (fun s => key s.target) ++ [key a]) t :=
    fun _ _ h => cutAt_of_occurs hclosed hkeys ha hstart h
  refine ⟨⟨map_edge_unfold hstart.pos _ _, hcut, fun _ _ => nodup_of_cutAt hcut⟩, ?_⟩
  exact fun more hmore => unfold_eq_of_suffices hclosed hkeys ha hstart (enough more hmore)

end Unfold

end CallTree

namespace Calls

open Project CallTree

/-! ## The keys of a project -/

/-- The keys that declarations of a project can have. All nodes beyond the end of a tree begin at the
same place, so that one number behind the last node stands for them. -/
def declarationKeys (idx : Index) : List DeclarationKey :=
  idx.files.toList.flatMap fun f =>
    (List.range (f.tree.size + 1)).map fun i => ⟨f.id, (f.tree.node i).startByte⟩

theorem length_declarationKeys (idx : Index) : (declarationKeys idx).length = keyBound idx := by
  rw [declarationKeys, keyBound, Index.nodeCount_eq_length, ← Array.length_toList]
  generalize idx.files.toList = files
  induction files with
  | nil => rfl
  | cons f files ih =>
    rw [flatMap_cons, length_append, ih, flatMap_cons, length_append,
      Syntax.Tree.nodes, length_map, length_range, length_map, length_range,
      length_cons]
    omega

theorem key_mem_declarationKeys {idx : Index} {d : Declaration} (hd : d.PlacedIn idx) :
    d.key ∈ declarationKeys idx := by
  refine mem_flatMap.2 ⟨d.file, hd.1, mem_map.2 ?_⟩
  have hname : d.nameNode = d.file.tree.node d.nameNode.id := by
    rw [← hd.2.name_tree]
    rfl
  by_cases hid : d.nameNode.id < d.file.tree.size
  · refine ⟨d.nameNode.id, mem_range.2 (by omega), ?_⟩
    rw [← hname]
    rfl
  · refine ⟨d.file.tree.size, mem_range.2 (Nat.lt_succ_self _), ?_⟩
    -- both numbers are behind the last node, where the default entry stands
    have hentry :
        (d.file.tree.node d.file.tree.size).entry = (d.file.tree.node d.nameNode.id).entry := by
      have hsize : d.file.tree.entries.size ≤ d.nameNode.id := Nat.le_of_not_lt hid
      simp [Syntax.Node.entry, Syntax.Tree.node, Syntax.Tree.size, Array.getElem?_eq_none hsize]
    rw [Declaration.key, hname]
    simp only [Syntax.Node.startByte, Syntax.Node.start, hentry, DeclarationKey.mk.injEq, true_and]
    rfl

/-! ## The trees -/

theorem budget_of_neg {options : Options} (h : options.depth < 0) : options.budget = none :=
  if_pos h

/-- Without a limit of depth the tree of any relation between declarations of the project is its cut
unfolding, with fuel to spare. -/
theorem tree_cutUnfolding {idx : Index} {edges : Declaration → List (CallEdge Declaration)}
    (hclosed : ∀ d, d.PlacedIn idx → ∀ e ∈ edges d, e.target.PlacedIn idx) {d : Declaration}
    (hd : d.PlacedIn idx) :
    CutUnfolding Declaration.key edges d (tree idx edges none d) ∧
      ∀ more, keyBound idx < more →
        unfold Declaration.key edges more none [d.key] d = tree idx edges none d := by
  have hkeys : ∀ d : Declaration, d.PlacedIn idx → d.key ∈ declarationKeys idx :=
    fun _ => key_mem_declarationKeys
  have hfuel : (declarationKeys idx).length < keyBound idx + 1 := by
    rw [length_declarationKeys]
    exact Nat.lt_succ_self _
  exact cutUnfolding_unfold (P := (·.PlacedIn idx)) hclosed hkeys hfuel hd

/-- With a negative depth both call trees of a declaration of the project are cut unfoldings: of what
it calls, and of what calls it. So is the tree of any other relation between declarations of the
project, for which any amount of fuel beyond the number of keys gives the same tree; and the call
trees that a query gets are those of a declaration of the project. -/
theorem hierarchy_cutUnfolding (idx : Index) (options : Options) (hdepth : options.depth < 0) :
    (∀ edges : Declaration → List (CallEdge Declaration),
      (∀ d, d.PlacedIn idx → ∀ e ∈ edges d, e.target.PlacedIn idx) → ∀ d, d.PlacedIn idx →
        CutUnfolding Declaration.key edges d (tree idx edges options.budget d) ∧
        ∀ more, keyBound idx < more →
          unfold Declaration.key edges more options.budget [d.key] d =
            tree idx edges options.budget d) ∧
    (∀ d, d.PlacedIn idx →
      (options.direction ≠ .incoming →
        CutUnfolding Declaration.key (callees idx) d (hierarchy idx d options).outgoing) ∧
      (options.direction ≠ .outgoing →
        CutUnfolding Declaration.key (callers idx) d (hierarchy idx d options).incoming)) ∧
    ∀ q h, callHierarchy idx q options = .ok h →
      ∃ d, d.PlacedIn idx ∧ h = hierarchy idx d options := by
  simp only [hierarchy, budget_of_neg hdepth, beq_iff_eq]
  refine ⟨fun edges hclosed d hd => tree_cutUnfolding hclosed hd, fun d hd => ⟨?_, ?_⟩, ?_⟩
  · intro hdirection
    rw [if_neg hdirection]
    exact (tree_cutUnfolding (fun _ he _ h => callees_placed he h) hd).1
  · intro hdirection
    rw [if_neg hdirection]
    exact (tree_cutUnfolding (fun _ _ _ h => callers_placed h) hd).1
  · intro q h hq
    unfold callHierarchy at hq
    cases hlocate : locateCallable idx q with
    | error e =>
      rw [hlocate] at hq
      cases hq
    | ok d =>
      rw [hlocate] at hq
      cases hq
      refine ⟨d, locateCallable_placed hlocate, ?_⟩
      simp only [hierarchy, budget_of_neg hdepth, beq_iff_eq]

/-- A project of two functions that call each other. -/
def mutualCalls : Index :=
  .ofTexts [("a.ts", "function f() \x7b g(); \x7d function g() \x7b f(); \x7d")] []

/-- The call trees of one of the two: the call back to it is cut. -/
theorem mutualCalls_cutUnfolding :
    ∃ d h, callHierarchy mutualCalls ⟨"f", none, none⟩ ⟨-1, .both⟩ = .ok h ∧
      CutUnfolding Declaration.key (callees mutualCalls) d h.outgoing ∧
      CutUnfolding Declaration.key (callers mutualCalls) d h.incoming ∧
      h.outgoing.any (fun t => t.children.any fun s => s.mark = .cyclic) = true := by
  have hcut : (callHierarchy mutualCalls ⟨"f", none, none⟩ ⟨-1, .both⟩).toOption.any (fun h =>
      h.outgoing.any fun t => t.children.any fun s => s.mark = .cyclic) = true := by
    decide +kernel
  obtain ⟨-, htrees, hplaced⟩ := hierarchy_cutUnfolding mutualCalls ⟨-1, .both⟩ (by decide)
  cases hq : callHierarchy mutualCalls ⟨"f", none, none⟩ ⟨-1, .both⟩ with
  | error e =>
    rw [hq] at hcut
    cases hcut
  | ok h =>
    rw [hq] at hcut
    simp only [Except.toOption, Option.any_some] at hcut
    obtain ⟨d, hd, rfl⟩ := hplaced _ h hq
    exact ⟨d, _, rfl, (htrees d hd).1 nofun, (htrees d hd).2 nofun, hcut⟩

end Calls

end ScriptAtlas.Query
