import ScriptAtlas.Text.Cut

/-!
# What cutting a text gives

The parts of a text that is cut put together again give the text, and the part before a cut is free of
the character at which the cut was made.

* `afterList?_eq_some_iff`: what follows a beginning;
* `splitOnceList?_eq_some_iff`, `splitOnceList?_eq_none_iff`: the parts around the first occurrence;
* `splitList_of_not_mem`, `splitList_append_cons`, `splitList_append`: the pieces between the
  occurrences;
* `join_split`, `split_join`: the pieces are those of which the text is made.
-/

namespace ScriptAtlas.Text

open List

variable {c : Char} {s p r a b : List Char}

/-! ## On lists of characters -/

theorem afterList?_eq_some_iff : afterList? p s = some r ↔ s = p ++ r := by
  fun_induction afterList? p s with
  | case1 s => simp
  | case2 => simp
  | case3 d p s ih => simp [ih]
  | case4 d p e s hne => simp [Ne.symm hne]

theorem splitOnceList?_eq_some_iff : splitOnceList? c s = some (a, b) ↔ c ∉ a ∧ s = a ++ c :: b := by
  induction s generalizing a with
  | nil => simp [splitOnceList?]
  | cons d rest ih =>
    by_cases hd : d = c
    · rw [splitOnceList?, if_pos hd]
      cases a with
      | nil => simp [hd]
      | cons e a =>
        refine iff_of_false (by simp) ?_
        rintro ⟨hfree, heq⟩
        obtain ⟨rfl, -⟩ := List.cons.inj heq
        exact hfree (hd ▸ mem_cons_self)
    · rw [splitOnceList?, if_neg hd]
      cases a with
      | nil => simp [hd]
      | cons e a =>
        rw [Option.map_eq_some_iff, cons_append, List.cons.injEq, mem_cons, not_or]
        constructor
        · rintro ⟨⟨a', b'⟩, hsplit, heq⟩
          obtain ⟨⟨rfl, rfl⟩, rfl⟩ : (d = e ∧ a' = a) ∧ b' = b := by simpa using heq
          obtain ⟨hfree, hrest⟩ := ih.1 hsplit
          exact ⟨⟨Ne.symm hd, hfree⟩, rfl, hrest⟩
        · rintro ⟨⟨-, hfree⟩, rfl, hrest⟩
          exact ⟨(a, b), ih.2 ⟨hfree, hrest⟩, rfl⟩

theorem splitOnceList?_eq_none_iff : splitOnceList? c s = none ↔ c ∉ s := by
  induction s with
  | nil => simp [splitOnceList?]
  | cons d rest ih =>
    by_cases hd : d = c
    · simp [splitOnceList?, hd]
    · simp [splitOnceList?, hd, ih, Ne.symm hd]

theorem splitList_of_not_mem (h : c ∉ s) : splitList c s = [s] := by
  induction s with
  | nil => rfl
  | cons d rest ih =>
    rw [mem_cons, not_or] at h
    rw [splitList, ih h.2]
    exact if_neg (Ne.symm h.1)

theorem splitList_append_cons (h : c ∉ a) : splitList c (a ++ c :: b) = a :: splitList c b := by
  induction a with
  | nil =>
    rw [nil_append, splitList]
    split
    · next hnil => exact absurd hnil (splitList_ne_nil c b)
    · next hcons => rw [if_pos rfl, hcons]
  | cons d rest ih =>
    rw [mem_cons, not_or] at h
    rw [cons_append, splitList, ih h.2]
    exact if_neg (Ne.symm h.1)

theorem splitList_append : splitList c (a ++ c :: b) = splitList c a ++ splitList c b := by
  induction a with
  | nil => exact splitList_append_cons not_mem_nil
  | cons d a ih =>
    obtain ⟨piece, pieces, ha⟩ := exists_cons_of_ne_nil (splitList_ne_nil c a)
    rw [ha, cons_append] at ih
    rw [cons_append, splitList, splitList, ih, ha]
    by_cases hd : d = c <;> simp [hd]

theorem not_mem_of_mem_splitList {piece : List Char} (h : piece ∈ splitList c s) : c ∉ piece := by
  induction s generalizing piece with
  | nil => simp_all [splitList]
  | cons d s ih =>
    obtain ⟨first, pieces, hs⟩ := exists_cons_of_ne_nil (splitList_ne_nil c s)
    rw [splitList, hs] at h
    rw [hs] at ih
    by_cases hd : d = c
    · simp only [if_pos hd, mem_cons] at h
      rcases h with rfl | h
      · exact not_mem_nil
      · exact ih (mem_cons.2 h)
    · simp only [if_neg hd, mem_cons] at h
      rcases h with rfl | h
      · rw [mem_cons, not_or]
        exact ⟨Ne.symm hd, ih mem_cons_self⟩
      · exact ih (mem_cons_of_mem _ h)

/-! ## On strings -/

theorem after?_eq_some_iff {p s r : String} : after? p s = some r ↔ s = p ++ r := by
  rw [after?, Option.map_eq_some_iff]
  constructor
  · rintro ⟨cs, hcs, rfl⟩
    rw [← String.toList_inj, afterList?_eq_some_iff.1 hcs, String.toList_append, String.toList_ofList]
  · rintro rfl
    exact ⟨r.toList, afterList?_eq_some_iff.2 String.toList_append, String.ofList_toList⟩

theorem after?_eq_none_iff {p s : String} : after? p s = none ↔ ∀ r, s ≠ p ++ r := by
  rw [Option.eq_none_iff_forall_ne_some]
  exact forall_congr' fun r => not_congr after?_eq_some_iff

theorem beginsWith_iff {p s : String} : beginsWith p s = true ↔ ∃ r, s = p ++ r := by
  rw [beginsWith, Option.isSome_iff_exists]
  exact exists_congr fun r => after?_eq_some_iff

theorem before?_eq_some_iff {p s r : String} : before? p s = some r ↔ s = r ++ p := by
  rw [before?, Option.map_eq_some_iff]
  constructor
  · rintro ⟨cs, hcs, rfl⟩
    have hrev := congrArg List.reverse (afterList?_eq_some_iff.1 hcs)
    rw [← String.toList_inj, String.toList_append, String.toList_ofList]
    simpa using hrev
  · rintro rfl
    refine ⟨r.toList.reverse, afterList?_eq_some_iff.2 ?_, ?_⟩
    · rw [String.toList_append, reverse_append]
    · rw [reverse_reverse, String.ofList_toList]

theorem splitOnce?_eq_some_iff {s a b : String} :
    splitOnce? c s = some (a, b) ↔ c ∉ a.toList ∧ s = a ++ String.singleton c ++ b := by
  have hlist : s = a ++ String.singleton c ++ b ↔ s.toList = a.toList ++ c :: b.toList := by
    rw [← String.toList_inj]
    simp
  rw [splitOnce?, Option.map_eq_some_iff, hlist, ← splitOnceList?_eq_some_iff]
  constructor
  · rintro ⟨⟨x, y⟩, hxy, heq⟩
    obtain ⟨rfl, rfl⟩ := Prod.mk.inj heq
    rwa [String.toList_ofList, String.toList_ofList]
  · intro h
    exact ⟨_, h, by simp⟩

theorem splitOnce?_eq_none_iff {s : String} : splitOnce? c s = none ↔ c ∉ s.toList := by
  rw [splitOnce?, Option.map_eq_none_iff, splitOnceList?_eq_none_iff]

theorem split_of_not_mem {s : String} (h : c ∉ s.toList) : split c s = [s] := by
  rw [split, splitList_of_not_mem h, map_singleton, String.ofList_toList]

theorem split_append {a b : String} (h : c ∉ a.toList) :
    split c (a ++ String.singleton c ++ b) = a :: split c b := by
  have hlist : (a ++ String.singleton c ++ b).toList = a.toList ++ c :: b.toList := by simp
  rw [split, hlist, splitList_append_cons h, map_cons, String.ofList_toList, split]

theorem split_append_split {a b : String} :
    split c (a ++ String.singleton c ++ b) = split c a ++ split c b := by
  have hlist : (a ++ String.singleton c ++ b).toList = a.toList ++ c :: b.toList := by simp
  rw [split, hlist, splitList_append, map_append, split, split]

theorem split_ne_nil {s : String} : split c s ≠ [] := by
  simpa [split] using splitList_ne_nil c s.toList

theorem not_mem_of_mem_split {s piece : String} (h : piece ∈ split c s) : c ∉ piece.toList := by
  obtain ⟨cs, hcs, rfl⟩ := mem_map.1 h
  rw [String.toList_ofList]
  exact not_mem_of_mem_splitList hcs

/-! ## Putting the pieces together -/

theorem join_cons {sep : String} {rest : List String} (h : rest ≠ []) (s : String) :
    join sep (s :: rest) = s ++ sep ++ join sep rest := by
  obtain ⟨t, rest, rfl⟩ := exists_cons_of_ne_nil h
  rfl

theorem join_append_cons (sep x y : String) (rest : List String) :
    join sep ((x ++ y) :: rest) = x ++ join sep (y :: rest) := by
  cases rest with
  | nil => rfl
  | cons t rest => simp only [join, String.append_assoc]

theorem join_append {sep : String} {xs ys : List String} (hxs : xs ≠ []) (hys : ys ≠ []) :
    join sep (xs ++ ys) = join sep xs ++ sep ++ join sep ys := by
  induction xs with
  | nil => exact absurd rfl hxs
  | cons x xs ih =>
    cases xs with
    | nil => exact join_cons hys x
    | cons y xs =>
      have htail : y :: xs ++ ys ≠ [] := by simp
      rw [cons_append, join_cons htail, ih (by simp), join_cons (cons_ne_nil y xs)]
      simp only [String.append_assoc]

theorem split_join {segments : List String} (hne : segments ≠ [])
    (h : ∀ s ∈ segments, c ∉ s.toList) :
    split c (join (String.singleton c) segments) = segments := by
  induction segments with
  | nil => exact absurd rfl hne
  | cons s rest ih =>
    obtain ⟨hs, hrest⟩ := forall_mem_cons.1 h
    cases rest with
    | nil => exact split_of_not_mem hs
    | cons t rest => rw [join_cons (cons_ne_nil t rest), split_append hs, ih (by simp) hrest]

theorem join_split (s : String) : join (String.singleton c) (split c s) = s := by
  have hlist : ∀ cs, join (String.singleton c) ((splitList c cs).map String.ofList) = .ofList cs := by
    intro cs
    induction cs with
    | nil => rfl
    | cons d cs ih =>
      obtain ⟨piece, pieces, hcs⟩ := exists_cons_of_ne_nil (splitList_ne_nil c cs)
      rw [hcs] at ih
      have hd : String.ofList (d :: cs) = String.singleton d ++ String.ofList cs := by simp
      rw [splitList, hcs, hd, ← ih]
      by_cases heq : d = c
      · subst heq
        simp [join]
      · have hpiece : String.ofList (d :: piece) = String.singleton d ++ String.ofList piece := by simp
        simp only [if_neg heq, map_cons, hpiece, join_append_cons]
  rw [split, hlist, String.ofList_toList]

end ScriptAtlas.Text
