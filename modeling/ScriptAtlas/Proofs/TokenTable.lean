import Mathlib.Data.List.Sort
import ScriptAtlas.Proofs.WellFormed

/-!
# The table of tokens

An index keeps a table of the numbers of the files in which a text occurs as an identifier. Looking a
text up there comes to the same as searching all files for it.

* `getD_tokenTable`: what filling and sorting the table leaves under a text;
* `Index.filesWithToken_eq`, `Index.filesWithAnyToken_eq`: the files that the table leads to.
-/

namespace ScriptAtlas

open List

section Duplicates

variable {α : Type} [BEq α]

theorem eraseDups_induction {motive : List α → Prop} (nil : motive [])
    (cons : ∀ a l, motive (l.filter fun b => !b == a) → motive (a :: l)) (l : List α) : motive l := by
  induction hn : l.length using Nat.strong_induction_on generalizing l with
  | _ n ih =>
    cases l with
    | nil => exact nil
    | cons a l =>
      have hle := length_filter_le (fun b => !b == a) l
      rw [length_cons] at hn
      exact cons a l (ih _ (by omega) _ rfl)

theorem eraseDups_sublist (l : List α) : l.eraseDups.Sublist l := by
  induction l using eraseDups_induction with
  | nil => simp
  | cons a l ih =>
    rw [eraseDups_cons]
    exact (ih.trans filter_sublist).cons_cons a

variable [LawfulBEq α]

theorem nodup_eraseDups (l : List α) : l.eraseDups.Nodup := by
  induction l using eraseDups_induction with
  | nil => simp
  | cons a l ih =>
    rw [eraseDups_cons, nodup_cons]
    exact ⟨by simp [mem_eraseDups], ih⟩

theorem filter_eraseDups (p : α → Bool) (l : List α) : l.eraseDups.filter p = (l.filter p).eraseDups := by
  induction l using eraseDups_induction with
  | nil => simp
  | cons a l ih =>
    have hswap : (l.filter fun b => !b == a).filter p = (l.filter p).filter fun b => !b == a := by
      simp only [filter_filter, Bool.and_comm]
    rw [eraseDups_cons]
    by_cases ha : p a = true
    · rw [filter_cons_of_pos ha, filter_cons_of_pos ha, eraseDups_cons, ih, hswap]
    · rw [filter_cons_of_neg ha, filter_cons_of_neg ha, ih, hswap]
      -- what does not satisfy the predicate is not among the rest
      refine congrArg _ (filter_eq_self.2 fun b hb => ?_)
      have hne : b ≠ a := fun heq => ha (heq ▸ (mem_filter.1 hb).2)
      simp [hne]

end Duplicates

namespace Project

open Syntax

/-! ## Filling the table -/

/-- Entering a file under several texts adds its number to each of them. -/
theorem getD_foldl_enterToken {names : List String} (hnames : names.Nodup) (id : Nat)
    (table : Std.HashMap String (List Nat)) (name : String) :
    (names.foldl (enterToken id) table).getD name [] =
      table.getD name [] ++ if name ∈ names then [id] else [] := by
  induction hnames generalizing table with
  | nil => simp
  | @cons first rest hfirst _ ih =>
    rw [foldl_cons, ih, enterToken, Std.HashMap.getD_insert]
    by_cases h : first = name
    · have hrest : name ∉ rest := fun hmem => hfirst name hmem h
      simp [h, hrest]
    · simp [h, Ne.symm h]

theorem nodup_names (f : SourceFile) : f.names.Nodup :=
  Std.HashSet.distinct_toList.imp ne_of_beq_false

theorem mem_names_iff {f : SourceFile} {name : String} :
    name ∈ f.names ↔ ∃ n ∈ SourceFile.identifiers f.tree, n.text = name := by
  simp [SourceFile.names]

theorem getD_tokenTable (files : Array SourceFile) (name : String) :
    (tokenTable files).getD name [] =
      ((files.toList.filter (name ∈ ·.names)).map (·.id)).mergeSort (· ≤ ·) := by
  have hfill (l : List SourceFile) (table : Std.HashMap String (List Nat)) :
      (l.foldl (fun table f => f.names.foldl (enterToken f.id) table) table).getD name [] =
        table.getD name [] ++ (l.filter (name ∈ ·.names)).map (·.id) := by
    induction l generalizing table with
    | nil => simp
    | cons f rest ih =>
      rw [foldl_cons, ih, getD_foldl_enterToken (nodup_names f)]
      by_cases h : name ∈ f.names <;> simp [h]
  have hmap (table : Std.HashMap String (List Nat)) :
      (table.map fun _ ids => ids.mergeSort (· ≤ ·)).getD name [] =
        (table.getD name []).mergeSort (· ≤ ·) := by
    rw [Std.HashMap.getD_eq_getD_getElem?, Std.HashMap.getD_eq_getD_getElem?,
      Std.HashMap.getElem?_map]
    cases table[name]? <;> simp
  rw [tokenTable, hmap, hfill]
  simp

/-! ## Looking up -/

namespace Index

variable {idx : Index}

theorem tokenIds_eq (h : idx.WellFormed) (name : String) :
    idx.tokenIds name = (idx.files.toList.filter (name ∈ ·.names)).map (·.id) := by
  have hascending := (h.pairwise_id.filter (name ∈ ·.names)).imp Nat.le_of_lt
  rw [tokenIds, idx.tokens.table_eq, getD_tokenTable]
  exact mergeSort_of_pairwise (by simpa [pairwise_map] using hascending)

theorem WellFormed.filterMap_file? (h : idx.WellFormed) (p : SourceFile → Bool) :
    ((idx.files.toList.filter p).map (·.id)).filterMap idx.file? = idx.files.toList.filter p := by
  rw [filterMap_map]
  refine (filterMap_congr fun f hf => ?_).trans filterMap_some
  exact h.file?_id (mem_of_mem_filter hf)

/-- The files that the table gives for a text are those with an identifier of that text. -/
theorem filesWithToken_eq (h : idx.WellFormed) (name : String) :
    idx.filesWithToken name = idx.files.toList.filter (name ∈ ·.names) := by
  rw [filesWithToken, tokenIds_eq h, h.filterMap_file?]

/-- The files that the table gives for several texts are those with an identifier of such a text. -/
theorem filesWithAnyToken_eq (h : idx.WellFormed) (names : List String) :
    idx.filesWithAnyToken names = idx.files.toList.filter fun f => names.any (· ∈ f.names) := by
  have hsorted (l : List Nat) : (l.eraseDups.mergeSort (· ≤ ·)).Pairwise (· < ·) := by
    have hle := pairwise_mergeSort' (· ≤ ·) l.eraseDups
    have hne := (mergeSort_perm l.eraseDups (· ≤ ·)).nodup_iff.2 (nodup_eraseDups l)
    exact hle.imp₂ (fun _ _ => Nat.lt_of_le_of_ne) hne
  have hfiltered := pairwise_map.2 (h.pairwise_id.filter fun f => names.any (· ∈ f.names))
  rw [filesWithAnyToken, (hsorted _).eq_of_mem_iff hfiltered, h.filterMap_file?]
  intro i
  simp only [mem_mergeSort, mem_eraseDups, mem_flatMap, tokenIds_eq h, mem_map, mem_filter,
    any_eq_true, decide_eq_true_iff]
  constructor
  · rintro ⟨name, hname, f, ⟨hf, hmem⟩, hid⟩
    exact ⟨f, ⟨hf, name, hname, hmem⟩, hid⟩
  · rintro ⟨f, ⟨hf, name, hname, hmem⟩, hid⟩
    exact ⟨name, hname, f, ⟨hf, hmem⟩, hid⟩

theorem mem_filesWithToken_iff (h : idx.WellFormed) {name : String} {f : SourceFile} :
    f ∈ idx.filesWithToken name ↔
      f ∈ idx.files.toList ∧ ∃ n ∈ SourceFile.identifiers f.tree, n.text = name := by
  rw [filesWithToken_eq h, mem_filter, decide_eq_true_iff, mem_names_iff]

theorem mem_filesWithAnyToken_iff (h : idx.WellFormed) {names : List String} {f : SourceFile} :
    f ∈ idx.filesWithAnyToken names ↔
      f ∈ idx.files.toList ∧ ∃ n ∈ SourceFile.identifiers f.tree, n.text ∈ names := by
  rw [filesWithAnyToken_eq h, mem_filter]
  simp only [any_eq_true, decide_eq_true_iff, mem_names_iff]
  refine and_congr_right fun _ => ⟨?_, ?_⟩
  · rintro ⟨name, hname, n, hn, rfl⟩
    exact ⟨n, hn, hname⟩
  · rintro ⟨n, hn, hname⟩
    exact ⟨n.text, hname, n, hn, rfl⟩

end Index

end Project

end ScriptAtlas
