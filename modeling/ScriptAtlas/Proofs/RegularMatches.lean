import Mathlib.Data.List.Perm.Subperm
import Mathlib.Logic.Relation
import ScriptAtlas.Pattern.Regular

/-!
# What a regular pattern matches

`Spans w r i j` says that `r` matches the part of `w` from `i` to `j`, by the shape of `r` and
without computing anything. The matcher finds exactly these parts: `mem_ends_iff`. The one case with
a search is the repetition, whose rounds add positions until none is new; `mem_closure_iff` shows
that the rounds suffice, since all positions lie within the word.
-/

namespace ScriptAtlas.Pattern.Regular

open List

variable {σ : Type} {w : Array σ} {r : Regular σ} {i j : Nat}

/-- The pattern matches the part of the word between two positions. -/
def Spans (w : Array σ) : Regular σ → Nat → Nat → Prop
  | empty, i, j => i = j
  | one p, i, j => (w[i]?).any p = true ∧ j = i + 1
  | seq a b, i, j => ∃ k, Spans w a i k ∧ Spans w b k j
  | alt a b, i, j => Spans w a i j ∨ Spans w b i j
  | many a, i, j => Relation.ReflTransGen (Spans w a) i j
  | between p, i, j => p (before w i) w[i]? = true ∧ i = j

theorem Spans.le_size (h : Spans w r i j) (hi : i ≤ w.size) : j ≤ w.size := by
  induction r generalizing i j with
  | empty => exact h ▸ hi
  | one p =>
    obtain ⟨hp, rfl⟩ := h
    by_contra hlast
    rw [Array.getElem?_eq_none (by omega)] at hp
    simp at hp
  | seq a b iha ihb =>
    obtain ⟨k, hk, hj⟩ := h
    exact ihb hj (iha hk hi)
  | alt a b iha ihb =>
    rcases h with h | h
    · exact iha h hi
    · exact ihb h hi
  | many a ih =>
    induction h with
    | refl => exact hi
    | tail _ hstep hk => exact ih hstep hk
  | between p => exact h.2 ▸ hi

/-! ## Positions that are not yet there -/

section addNew

variable {seen more : List Nat} {x : Nat}

theorem mem_addNew : x ∈ addNew seen more ↔ x ∈ seen ∨ x ∈ more := by
  induction more generalizing seen with
  | nil => simp [addNew]
  | cons y more ih =>
    simp only [addNew, foldl_cons] at ih ⊢
    rw [ih]
    by_cases hy : y ∈ seen <;> simp only [contains_eq_mem, hy, decide_true, decide_false] <;>
      grind

theorem nodup_addNew (h : seen.Nodup) : (addNew seen more).Nodup := by
  induction more generalizing seen with
  | nil => exact h
  | cons y more ih =>
    simp only [addNew, foldl_cons] at ih ⊢
    by_cases hy : y ∈ seen
    · simpa [hy] using ih h
    · simpa [hy] using ih (nodup_append.2 ⟨h, by simp, by grind⟩)

theorem prefix_addNew : seen <+: addNew seen more := by
  induction more generalizing seen with
  | nil => exact prefix_rfl
  | cons y more ih =>
    simp only [addNew, foldl_cons] at ih ⊢
    by_cases hy : y ∈ seen
    · simpa [hy] using ih
    · simpa [hy] using (prefix_append seen [y]).trans ih

end addNew

/-! ## Repeated steps -/

section closure

variable {step : Nat → List Nat} {bound fuel : Nat} {seen : List Nat} {x y : Nat}

/-- One position is reached from another by repeated steps. -/
def Reaches (step : Nat → List Nat) : Nat → Nat → Prop :=
  Relation.ReflTransGen fun x y => y ∈ step x

theorem Reaches.mem (h : Reaches step x y) (hx : x ∈ seen)
    (hclosed : ∀ z ∈ seen, ∀ u ∈ step z, u ∈ seen) : y ∈ seen := by
  induction h with
  | refl => exact hx
  | tail _ hstep hz => exact hclosed _ hz _ hstep

/-- A round adds only what is reached already. -/
theorem exists_reaches_addNew_iff :
    (∃ x ∈ addNew seen (seen.flatMap step), Reaches step x y) ↔ ∃ x ∈ seen, Reaches step x y := by
  constructor
  · rintro ⟨x, hx, hreach⟩
    rcases mem_addNew.1 hx with hx | hx
    · exact ⟨x, hx, hreach⟩
    · obtain ⟨z, hz, hstep⟩ := mem_flatMap.1 hx
      exact ⟨z, hz, .head hstep hreach⟩
  · rintro ⟨x, hx, hreach⟩
    exact ⟨x, mem_addNew.2 (.inl hx), hreach⟩

theorem length_le_of_nodup (hnodup : seen.Nodup) (hbound : ∀ x ∈ seen, x ≤ bound) :
    seen.length ≤ bound + 1 := by
  have hsub : seen ⊆ List.range (bound + 1) := fun x hx =>
    mem_range.2 (Nat.lt_succ_of_le (hbound x hx))
  simpa using (hnodup.subperm hsub).length_le

/-- The rounds find all that is reached, as long as there are more of them than positions that are
not yet there. -/
theorem mem_closure_iff (hstep : ∀ x ≤ bound, ∀ y ∈ step x, y ≤ bound) (hnodup : seen.Nodup)
    (hbound : ∀ x ∈ seen, x ≤ bound) (hfuel : bound + 1 < fuel + seen.length) :
    y ∈ closure step fuel seen ↔ ∃ x ∈ seen, Reaches step x y := by
  induction fuel generalizing seen with
  | zero => exact absurd (length_le_of_nodup hnodup hbound) (by omega)
  | succ fuel ih =>
    have hstart : seen <+: addNew seen (seen.flatMap step) := prefix_addNew
    by_cases hlen : (addNew seen (seen.flatMap step)).length = seen.length
    · -- nothing was new, so no step leads out
      have hsame := hstart.eq_of_length hlen.symm
      rw [closure, if_pos hlen]
      refine ⟨fun hy => ⟨y, hy, .refl⟩, fun ⟨x, hx, hreach⟩ => hreach.mem hx fun z hz u hu => ?_⟩
      rw [hsame]
      exact mem_addNew.2 (.inr (mem_flatMap.2 ⟨z, hz, hu⟩))
    · have hlonger := hstart.length_le
      rw [closure, if_neg hlen, ih (nodup_addNew hnodup) ?_ (by omega), exists_reaches_addNew_iff]
      intro x hx
      rcases mem_addNew.1 hx with hx | hx
      · exact hbound x hx
      · obtain ⟨z, hz, hxz⟩ := mem_flatMap.1 hx
        exact hstep z (hbound z hz) x hxz

end closure

/-! ## The matcher -/

/-- Chains have the same steps where the steps agree, if they do not lead out of there. -/
theorem reflTransGen_congr {bound x y : Nat} {R S : Nat → Nat → Prop}
    (hRS : ∀ x ≤ bound, ∀ y, R x y ↔ S x y) (hstep : ∀ x ≤ bound, ∀ y, S x y → y ≤ bound)
    (hx : x ≤ bound) : Relation.ReflTransGen R x y ↔ Relation.ReflTransGen S x y := by
  constructor <;> intro h
  · induction h using Relation.ReflTransGen.head_induction_on with
    | refl => exact .refl
    | head hfirst _ ih =>
      have hfirst := (hRS _ hx _).1 hfirst
      exact .head hfirst (ih (hstep _ hx _ hfirst))
  · induction h using Relation.ReflTransGen.head_induction_on with
    | refl => exact .refl
    | head hfirst _ ih => exact .head ((hRS _ hx _).2 hfirst) (ih (hstep _ hx _ hfirst))

/-- The matcher finds the ends of the matches and nothing else. -/
theorem mem_ends_iff (hi : i ≤ w.size) : j ∈ ends w r i ↔ Spans w r i j := by
  induction r generalizing i j with
  | empty => simp [ends, Spans, eq_comm]
  | one p => by_cases hp : (w[i]?).any p = true <;> simp [ends, Spans, hp]
  | seq a b iha ihb =>
    simp only [ends, mem_addNew, not_mem_nil, false_or, mem_flatMap, Spans]
    refine exists_congr fun k => ?_
    rw [iha hi]
    exact and_congr_right fun hk => ihb (hk.le_size hi)
  | alt a b iha ihb => rw [ends, mem_addNew, iha hi, ihb hi, Spans]
  | many a ih =>
    have hwithin : ∀ x ≤ w.size, ∀ y ∈ ends w a x, y ≤ w.size := fun x hx y hy =>
      ((ih hx).1 hy).le_size hx
    rw [ends, mem_closure_iff hwithin (by simp) (by simpa using hi) (by simp)]
    simp only [mem_singleton, exists_eq_left, Spans, Reaches]
    exact reflTransGen_congr (fun x hx y => ih hx) (fun x hx y h => h.le_size hx) hi
  | between p => by_cases hp : p (before w i) w[i]? = true <;> simp [ends, Spans, hp, eq_comm]

theorem accepts_iff : accepts r w = true ↔ Spans w r 0 w.size := by
  rw [accepts, contains_iff_mem, mem_ends_iff (Nat.zero_le _)]

end ScriptAtlas.Pattern.Regular
