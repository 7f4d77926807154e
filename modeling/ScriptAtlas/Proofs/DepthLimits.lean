import ScriptAtlas.Proofs.CallTrees

/-!
# Call trees with a limit of depth

A call tree with a limit is the tree without one, cut below the level of the limit. What is cut away
shows in the marks: a node on the last level is marked if it had children, unless it closes a cycle.

* `CallTree.truncate`: the part of a forest down to a level, and `CallTree.occurs_truncate`: every
  node of it is a node of the forest on the same level, below the same targets;
* `CallTree.unfold_eq_truncate`: the unfolding with a budget is the truncation of the one without;
* `CallTree.checkedUnfold_eq`: a budget that counts down from a positive number never reaches a point
  where it would have to be lowered below zero;
* `Calls.hierarchy_truncate`: the call trees of a declaration and the answers to queries.
-/

namespace ScriptAtlas.Query

open List

namespace CallTree

variable {α κ : Type}

/-! ## Truncation -/

/-- The node as the last one on its way down: it keeps its mark, or is marked for the children that
it loses. -/
def trim (t : CallTree α) : CallTree α :=
  .node t.target t.edge.lines
    (if t.mark ≠ .cyclic ∧ t.children.isEmpty = false then .depthLimited else t.mark) []

/-- The node with `n` levels below it. -/
def prune : Nat → CallTree α → CallTree α
  | 0, t => t.trim
  | n + 1, t => .node t.target t.edge.lines t.mark (t.children.map (prune n))

/-- The forest down to a level. -/
def truncate : Nat → List (CallTree α) → List (CallTree α)
  | 0, _ => []
  | n + 1, forest => forest.map (prune n)

@[simp]
theorem edge_prune (n : Nat) (t : CallTree α) : (t.prune n).edge = t.edge := by
  cases t
  cases n <;> rfl

/-- The node of a truncated forest on level `level`, counted from 0, shows what is left of a node of
the forest: all but the children above the last level, and the trimmed node there. -/
structure LeftOf (last level : Nat) (t s : CallTree α) : Prop where
  target_eq : t.target = s.target
  level_le : level ≤ last
  mark_eq : level < last → t.mark = s.mark
  trimmed : level = last → t.mark = s.trim.mark

/-- Every node of a truncated forest is what is left of a node of the forest on the same level, below
the same targets. -/
theorem occurs_truncate {n : Nat} {forest : List (CallTree α)} {t : CallTree α}
    {above : List (CallTree α)} (h : Occurs (truncate (n + 1) forest) t above) :
    ∃ s around, Occurs forest s around ∧ around.map target = above.map target ∧
      LeftOf n above.length t s := by
  induction n generalizing forest above with
  | zero =>
    cases h with
    | root ht =>
      obtain ⟨s, hs, rfl⟩ := mem_map.1 ht
      exact ⟨s, [], .root hs, rfl, rfl, Nat.le_refl 0, nofun, fun _ => rfl⟩
    | @inside _ r _ above hr hinside =>
      obtain ⟨s, -, rfl⟩ := mem_map.1 hr
      exact absurd hinside not_occurs_nil
  | succ n ih =>
    cases h with
    | root ht =>
      obtain ⟨s, hs, rfl⟩ := mem_map.1 ht
      exact ⟨s, [], .root hs, rfl, rfl, Nat.zero_le _, fun _ => rfl, nofun⟩
    | @inside _ r _ above hr hinside =>
      obtain ⟨q, hq, rfl⟩ := mem_map.1 hr
      have hbelow : Occurs (truncate (n + 1) q.children) t above := hinside
      obtain ⟨s, around, hs, haround, hleft⟩ := ih hbelow
      refine ⟨s, around ++ [q], .inside hq hs, ?_, hleft.target_eq, ?_, ?_, ?_⟩
      · rw [map_append, map_append, haround]
        rfl
      all_goals rw [length_append, length_singleton]
      · exact Nat.succ_le_succ hleft.level_le
      · exact fun hlt => hleft.mark_eq (Nat.lt_of_succ_lt_succ hlt)
      · exact fun heq => hleft.trimmed (Nat.succ.inj heq)

/-! ## The marks -/

/-- The forest begins with everything that the root leads to and is at most `limit` levels deep. A
node is cut as cyclic exactly if its key is that of the root or of a node above it, and as limited
exactly if it is an open node on the last level whose target leads on. -/
structure LimitedUnfolding (key : α → κ) (edges : α → List (CallEdge α)) (root : α) (limit : Nat)
    (forest : List (CallTree α)) : Prop where
  roots : forest.map edge = edges root
  level_le : ∀ t above, Occurs forest t above → above.length + 1 ≤ limit
  cyclic_iff : ∀ t above, Occurs forest t above →
    (t.mark = .cyclic ↔ key t.target ∈ above.map (fun s => key s.target) ++ [key root])
  limited_iff : ∀ t above, Occurs forest t above →
    (t.mark = .depthLimited ↔ above.length + 1 = limit ∧
      key t.target ∉ above.map (fun s => key s.target) ++ [key root] ∧ edges t.target ≠ [])

theorem mark_trim_of_cutAt {key : α → κ} {edges : α → List (CallEdge α)} {path : List κ}
    {s : CallTree α} (h : CutAt key edges path s) :
    (s.trim.mark = .cyclic ↔ key s.target ∈ path) ∧
      (s.trim.mark = .depthLimited ↔ key s.target ∉ path ∧ edges s.target ≠ []) := by
  have hmark : s.trim.mark =
      if s.mark ≠ .cyclic ∧ s.children.isEmpty = false then .depthLimited else s.mark := rfl
  by_cases hcyclic : s.mark = .cyclic
  · have hmem := h.cyclic_iff.1 hcyclic
    rw [hmark, if_neg fun hopen => hopen.1 hcyclic, hcyclic]
    exact ⟨iff_of_true rfl hmem, iff_of_false nofun fun hopen => hopen.1 hmem⟩
  · have hnew := mt h.cyclic_iff.2 hcyclic
    have hchildren := h.children_of_open hcyclic
    by_cases hempty : s.children.isEmpty = true
    · have hedges : edges s.target = [] := by
        rw [← hchildren, List.isEmpty_iff.1 hempty, map_nil]
      rw [hmark, hempty, if_neg fun hopen => Bool.noConfusion hopen.2]
      exact ⟨h.cyclic_iff, iff_of_false h.not_limited fun hopen => hopen.2 hedges⟩
    · have hedges : edges s.target ≠ [] := by
        rw [← hchildren]
        exact mt map_eq_nil_iff.1 fun hnil => hempty (List.isEmpty_iff.2 hnil)
      rw [hmark, if_pos ⟨hcyclic, Bool.eq_false_iff.2 hempty⟩]
      exact ⟨iff_of_false nofun hnew, iff_of_true rfl ⟨hnew, hedges⟩⟩

/-- Cutting a cut unfolding below a level marks exactly the open nodes of that level that lead on. -/
theorem CutUnfolding.truncate {key : α → κ} {edges : α → List (CallEdge α)} {root : α}
    {forest : List (CallTree α)} (h : CutUnfolding key edges root forest) (n : Nat) :
    LimitedUnfolding key edges root (n + 1) (CallTree.truncate (n + 1) forest) := by
  have origin : ∀ t above, Occurs (CallTree.truncate (n + 1) forest) t above → ∃ s,
      CutAt key edges (above.map (fun s => key s.target) ++ [key root]) s ∧
        LeftOf n above.length t s := by
    intro t above ht
    obtain ⟨s, around, hs, haround, hleft⟩ := occurs_truncate ht
    have hkeys : around.map (fun s => key s.target) = above.map (fun s => key s.target) := by
      have := congrArg (List.map key) haround
      rwa [map_map, map_map] at this
    exact ⟨s, hkeys ▸ h.cutAt s around hs, hleft⟩
  refine ⟨?_, ?_, ?_, ?_⟩
  · rw [CallTree.truncate, map_map, ← h.roots]
    exact map_congr_left fun t _ => edge_prune n t
  · intro t above ht
    obtain ⟨s, -, hleft⟩ := origin t above ht
    exact Nat.succ_le_succ hleft.level_le
  all_goals
    intro t above ht
    obtain ⟨s, hcut, hleft⟩ := origin t above ht
    rw [hleft.target_eq]
    rcases Nat.lt_or_eq_of_le hleft.level_le with hlt | hlast
  · rw [hleft.mark_eq hlt]
    exact hcut.cyclic_iff
  · rw [hleft.trimmed hlast]
    exact (mark_trim_of_cutAt hcut).1
  · rw [hleft.mark_eq hlt]
    exact iff_of_false hcut.not_limited fun hopen => Nat.ne_of_lt hlt (Nat.succ.inj hopen.1)
  · rw [hleft.trimmed hlast, (mark_trim_of_cutAt hcut).2, hlast]
    exact ⟨fun hopen => ⟨rfl, hopen⟩, fun hopen => hopen.2⟩

/-! ## Unfolding with a budget -/

section Budget

variable [BEq κ] {key : α → κ} {edges : α → List (CallEdge α)}

/-- The node that a call becomes below a path, with a budget for its level and those below. -/
def growWithin (key : α → κ) (edges : α → List (CallEdge α)) (fuel n : Nat) (path : List κ)
    (e : CallEdge α) : CallTree α :=
  if path.contains (key e.target) then .node e.target e.lines .cyclic []
  else if n = 0 then
    .node e.target e.lines (if (edges e.target).isEmpty then .none else .depthLimited) []
  else
    .node e.target e.lines .none
      (unfold key edges fuel (some n) (key e.target :: path) e.target)

theorem unfold_succ_some (fuel n : Nat) (path : List κ) (a : α) :
    unfold key edges (fuel + 1) (some (n + 1)) path a =
      (edges a).map (growWithin key edges fuel n path) := by
  rw [unfold]
  refine map_congr_left fun e _ => ?_
  cases n with
  | zero => rfl
  | succ n => rfl

/-- The unfolding whose budget is lowered with a check: where a budget of zero has to be lowered,
there is no result. -/
def checkedUnfold (key : α → κ) (edges : α → List (CallEdge α)) :
    Nat → Option Nat → List κ → α → Option (List (CallTree α))
  | 0, _, _, _ => some []
  | fuel + 1, budget, path, a =>
    (edges a).mapM fun e =>
      if path.contains (key e.target) then some (.node e.target e.lines .cyclic [])
      else if budget == some 1 then
        some (.node e.target e.lines (if (edges e.target).isEmpty then .none else .depthLimited) [])
      else
        match budget with
        | none =>
          (checkedUnfold key edges fuel none (key e.target :: path) e.target).map
            (.node e.target e.lines .none)
        | some 0 => none
        | some (n + 1) =>
          (checkedUnfold key edges fuel (some n) (key e.target :: path) e.target).map
            (.node e.target e.lines .none)

/-- A budget that is not zero at the start is never lowered below zero: it is spent when it is one. -/
theorem checkedUnfold_eq (fuel : Nat) {budget : Option Nat} (hbudget : budget ≠ some 0)
    (path : List κ) (a : α) :
    checkedUnfold key edges fuel budget path a = some (unfold key edges fuel budget path a) := by
  induction fuel generalizing budget path a with
  | zero => rfl
  | succ fuel ih =>
    rw [checkedUnfold, unfold]
    refine Eq.trans (congrArg (fun f => (edges a).mapM f) (funext fun e => ?_)) mapM_pure
    split
    · rfl
    split
    · rfl
    rename_i hone
    rcases budget with _ | _ | _ | n
    · have hbelow := ih hbudget (key e.target :: path) e.target
      exact congrArg (Option.map (node e.target e.lines .none)) hbelow
    · exact absurd rfl hbudget
    · exact absurd rfl hone
    · have hpos : some (n + 1) ≠ some 0 := fun h => Nat.succ_ne_zero n (Option.some.inj h)
      have hbelow := ih hpos (key e.target :: path) e.target
      exact congrArg (Option.map (node e.target e.lines .none)) hbelow

theorem isEmpty_unfold {fuel : Nat} (hfuel : 0 < fuel) (path : List κ) (a : α) :
    (unfold key edges fuel none path a).isEmpty = (edges a).isEmpty := by
  have hroots : (unfold key edges fuel none path a).map edge = edges a :=
    map_edge_unfold hfuel path a
  rw [← hroots, isEmpty_map]

variable [LawfulBEq κ] {P : α → Prop} {keys : List κ}

/-- With fuel for all keys that are not on the path, the unfolding with a budget is the truncation of
the unfolding without one. -/
theorem unfold_eq_truncate (hclosed : ∀ a, P a → ∀ e ∈ edges a, P e.target)
    (hkeys : ∀ a, P a → key a ∈ keys) {fuel : Nat} (n : Nat) {path : List κ} {a : α} (ha : P a)
    (hfuel : Suffices keys fuel path) :
    unfold key edges fuel (some (n + 1)) path a =
      truncate (n + 1) (unfold key edges fuel none path a) := by
  induction fuel generalizing n path a with
  | zero => exact absurd hfuel.pos (Nat.lt_irrefl 0)
  | succ fuel ih =>
    rw [unfold_succ_some, unfold_succ, truncate, map_map]
    refine map_congr_left fun e he => ?_
    have hP := hclosed a ha e he
    rw [Function.comp_apply]
    by_cases hmem : key e.target ∈ path
    · rw [grow_of_mem hmem, growWithin, if_pos (contains_iff_mem.2 hmem)]
      cases n <;> rfl
    · have hbelow := hfuel.cons (hkeys _ hP) hmem
      rw [grow_of_not_mem hmem, growWithin, if_neg (mt contains_iff_mem.1 hmem)]
      cases n with
      | zero =>
        -- the children that the last level loses are those of the unfolding without a budget
        have hempty : (unfold key edges fuel none (key e.target :: path) e.target).isEmpty =
            (edges e.target).isEmpty := isEmpty_unfold hbelow.pos _ _
        simp only [prune, trim, target, mark, edge, children, hempty]
        cases (edges e.target).isEmpty <;> rfl
      | succ n =>
        rw [if_neg (Nat.succ_ne_zero n), ih n hP hbelow]
        rfl

end Budget

end CallTree

namespace Calls

open Project CallTree

/-! ## The trees -/

/-- The call trees cut below a level. -/
def Hierarchy.truncate (n : Nat) (h : Hierarchy) : Hierarchy :=
  { h with
    depth := n
    outgoing := CallTree.truncate n h.outgoing
    incoming := CallTree.truncate n h.incoming }

theorem budget_of_pos {n : Nat} (hn : 1 ≤ n) (direction : Direction) :
    (Options.mk n direction).budget = some n := by
  have hdepth : ¬ (n : Int) < 0 := by omega
  rw [Options.budget, if_neg hdepth, Int.toNat_natCast, Nat.max_eq_right hn]

theorem budget_ne_zero (options : Options) : options.budget ≠ some 0 := by
  unfold Options.budget
  split
  · exact nofun
  · intro h
    have hmax := Option.some.inj h
    omega

/-- With a limit of depth the tree of any relation between declarations of the project is the
truncation of the tree without one. -/
theorem tree_truncate {idx : Index} {edges : Declaration → List (CallEdge Declaration)}
    (hclosed : ∀ d, d.PlacedIn idx → ∀ e ∈ edges d, e.target.PlacedIn idx) {d : Declaration}
    (hd : d.PlacedIn idx) {n : Nat} (hn : 1 ≤ n) :
    tree idx edges (some n) d = CallTree.truncate n (tree idx edges none d) ∧
      LimitedUnfolding Declaration.key edges d n (tree idx edges (some n) d) := by
  obtain ⟨m, rfl⟩ := Nat.exists_eq_succ_of_ne_zero (Nat.ne_of_gt hn)
  have hkeys : ∀ d : Declaration, d.PlacedIn idx → d.key ∈ declarationKeys idx :=
    fun _ => key_mem_declarationKeys
  have hfuel : Suffices (declarationKeys idx) (keyBound idx + 1) [d.key] := by
    refine ⟨nodup_singleton _, cons_subset.2 ⟨hkeys d hd, nil_subset _⟩, ?_⟩
    rw [length_declarationKeys, length_singleton]
    omega
  have htree : tree idx edges (some (m + 1)) d = CallTree.truncate (m + 1) (tree idx edges none d) :=
    unfold_eq_truncate (P := (·.PlacedIn idx)) hclosed hkeys m hd hfuel
  exact ⟨htree, htree ▸ (tree_cutUnfolding hclosed hd).1.truncate m⟩

theorem hierarchy_of_pos {idx : Index} {d : Declaration} (hd : d.PlacedIn idx)
    {unlimited : Options} (hdepth : unlimited.depth < 0) {n : Nat} (hn : 1 ≤ n) :
    hierarchy idx d ⟨n, unlimited.direction⟩ = (hierarchy idx d unlimited).truncate n := by
  have hout : tree idx (callees idx) (some n) d =
      CallTree.truncate n (tree idx (callees idx) none d) :=
    (tree_truncate (fun _ he _ h => callees_placed he h) hd hn).1
  have hin : tree idx (callers idx) (some n) d =
      CallTree.truncate n (tree idx (callers idx) none d) :=
    (tree_truncate (fun _ _ _ h => callers_placed h) hd hn).1
  have hnone : CallTree.truncate n ([] : List (CallTree Declaration)) = [] := by
    cases n <;> rfl
  unfold hierarchy Hierarchy.truncate
  rw [budget_of_pos hn, budget_of_neg hdepth, hout, hin]
  cases unlimited.direction <;> simp [hnone]

/-- For a positive limit of depth both call trees of a declaration of the project, and those that a
query gets, are the trees without a limit cut below the level of the limit; a node is marked as cyclic
exactly if it closes a cycle, and as limited exactly if it is an open node on the last level whose
target leads on. A depth of 0 gives the trees of depth 1, and whatever depth is asked for, lowering
the budget with a check never fails. -/
theorem hierarchy_truncate (idx : Index) (unlimited : Options) (hdepth : unlimited.depth < 0) (n : Nat)
    (hn : 1 ≤ n) :
    (∀ d, d.PlacedIn idx →
      hierarchy idx d ⟨n, unlimited.direction⟩ = (hierarchy idx d unlimited).truncate n ∧
      (unlimited.direction ≠ .incoming → LimitedUnfolding Declaration.key (callees idx) d n
        (hierarchy idx d ⟨n, unlimited.direction⟩).outgoing) ∧
      (unlimited.direction ≠ .outgoing → LimitedUnfolding Declaration.key (callers idx) d n
        (hierarchy idx d ⟨n, unlimited.direction⟩).incoming)) ∧
    (∀ q, callHierarchy idx q ⟨n, unlimited.direction⟩ =
      (callHierarchy idx q unlimited).map (·.truncate n)) ∧
    (∀ d direction, hierarchy idx d ⟨0, direction⟩ =
      { hierarchy idx d ⟨1, direction⟩ with depth := 0 }) ∧
    ∀ edges (options : Options) d,
      checkedUnfold Declaration.key edges (keyBound idx + 1) options.budget [d.key] d =
        some (tree idx edges options.budget d) := by
  refine ⟨fun d hd => ⟨hierarchy_of_pos hd hdepth hn, ?_, ?_⟩, ?_, ?_, ?_⟩
  · intro hdirection
    simp only [hierarchy, budget_of_pos hn, beq_iff_eq, if_neg hdirection]
    exact (tree_truncate (fun _ he _ h => callees_placed he h) hd hn).2
  · intro hdirection
    simp only [hierarchy, budget_of_pos hn, beq_iff_eq, if_neg hdirection]
    exact (tree_truncate (fun _ _ _ h => callers_placed h) hd hn).2
  · intro q
    unfold callHierarchy
    cases hlocate : locateCallable idx q with
    | error e => rfl
    | ok d => exact congrArg Except.ok (hierarchy_of_pos (locateCallable_placed hlocate) hdepth hn)
  · exact fun _ _ => rfl
  · exact fun edges options d => checkedUnfold_eq _ (budget_ne_zero options) _ _

/-- The call trees of one of two functions that call each other: on the first level the other one
loses its children, and on the second level the call back is cut as cyclic and loses nothing. -/
theorem mutualCalls_truncate :
    ∃ h, callHierarchy mutualCalls ⟨"f", none, none⟩ ⟨-1, .both⟩ = .ok h ∧
      callHierarchy mutualCalls ⟨"f", none, none⟩ ⟨1, .both⟩ = .ok (h.truncate 1) ∧
      callHierarchy mutualCalls ⟨"f", none, none⟩ ⟨2, .both⟩ = .ok (h.truncate 2) ∧
      (h.truncate 1).outgoing.map mark = [.depthLimited] ∧
      (h.truncate 2).outgoing.flatMap (·.children.map mark) = [.cyclic] ∧
      ∃ d, LimitedUnfolding Declaration.key (callees mutualCalls) d 2 (h.truncate 2).outgoing := by
  have hmarks : (callHierarchy mutualCalls ⟨"f", none, none⟩ ⟨-1, .both⟩).toOption.any (fun h =>
      (h.truncate 1).outgoing.map mark = [.depthLimited] ∧
      (h.truncate 2).outgoing.flatMap (·.children.map mark) = [.cyclic]) = true := by
    decide +kernel
  obtain ⟨-, hone, -⟩ := hierarchy_truncate mutualCalls ⟨-1, .both⟩ (by decide) 1 (by decide)
  obtain ⟨htrees, htwo, -⟩ := hierarchy_truncate mutualCalls ⟨-1, .both⟩ (by decide) 2 (by decide)
  have hone := hone ⟨"f", none, none⟩
  have htwo := htwo ⟨"f", none, none⟩
  cases hlocate : locateCallable mutualCalls ⟨"f", none, none⟩ with
  | error e =>
    rw [callHierarchy, hlocate] at hmarks
    cases hmarks
  | ok d =>
    have hquery : callHierarchy mutualCalls ⟨"f", none, none⟩ ⟨-1, .both⟩ =
        .ok (hierarchy mutualCalls d ⟨-1, .both⟩) := by
      rw [callHierarchy, hlocate]
      rfl
    obtain ⟨heq, hlimited, -⟩ := htrees d (locateCallable_placed hlocate)
    rw [hquery] at hmarks hone htwo
    simp only [Except.toOption, Option.any_some, decide_eq_true_eq] at hmarks
    exact ⟨_, hquery, hone, htwo, hmarks.1, hmarks.2, d, heq ▸ hlimited (by decide)⟩

end Calls

end ScriptAtlas.Query
