import ScriptAtlas.Pattern.Glob
import ScriptAtlas.Proofs.RegularMatches

/-!
# Globs for a text and for all below it

A text without wildcards is a glob for itself, and with `/**/*` behind it one for everything below.
Both are read character by character, `readFrom_literals`, and matched byte by byte,
`spans_literals_iff`; as no character's bytes begin those of another, a match of the bytes is a match
of the characters.
-/

namespace ScriptAtlas.Pattern

open List

/-! ## Words and rests of words -/

namespace Regular

variable {σ : Type} {w : Array σ} {i j : Nat}

theorem append_prefix_drop_iff {xs ys zs : List σ} :
    xs ++ ys <+: zs.drop i ↔ xs <+: zs.drop i ∧ ys <+: zs.drop (i + xs.length) := by
  rw [← drop_drop]
  constructor
  · rintro ⟨rest, h⟩
    rw [← h]
    simp
  · rintro ⟨⟨rest, h⟩, hys⟩
    rw [← h, drop_left] at hys
    rw [← h]
    exact (prefix_append_right_inj xs).2 hys

theorem singleton_prefix_drop_iff {x : σ} {zs : List σ} : [x] <+: zs.drop i ↔ zs[i]? = some x := by
  rw [← head?_drop]
  cases zs.drop i <;> simp [cons_prefix_cons, eq_comm]

theorem any_beq_iff [BEq σ] [LawfulBEq σ] {o : Option σ} {x : σ} :
    o.any (· == x) = true ↔ o = some x := by
  simp [Option.any_eq_true]

theorem spans_word_iff [BEq σ] [LawfulBEq σ] {xs : List σ} :
    Spans w (word xs) i j ↔ xs <+: w.toList.drop i ∧ j = i + xs.length := by
  induction xs generalizing i with
  | nil => simp [word, inOrder, Spans, eq_comm]
  | cons x xs ih =>
    have hcons : Spans w (word (x :: xs)) i j ↔ w[i]? = some x ∧ Spans w (word xs) (i + 1) j := by
      change (∃ k, ((w[i]?).any (· == x) = true ∧ k = i + 1) ∧ Spans w (word xs) k j) ↔ _
      simp only [any_beq_iff, and_assoc, exists_and_left, exists_eq_left]
    rw [hcons, ih, ← singleton_append, append_prefix_drop_iff, singleton_prefix_drop_iff,
      Array.getElem?_toList, and_assoc, length_append, length_singleton, Nat.add_assoc]

theorem spans_many_any_iff (hi : i ≤ w.size) :
    Spans w (many (one fun _ => true)) i j ↔ i ≤ j ∧ j ≤ w.size := by
  constructor
  · intro h
    refine ⟨?_, h.le_size hi⟩
    simp only [Spans] at h
    induction h with
    | refl => exact Nat.le_refl i
    | tail _ hstep ih => omega
  · rintro ⟨hij, hj⟩
    simp only [Spans]
    induction hij with
    | refl => exact .refl
    | @step j _ ih =>
      refine .tail (ih (by omega)) ⟨?_, rfl⟩
      simp [Array.getElem?_eq_getElem (show j < w.size from hj)]

end Regular

namespace Glob

open Regular

/-! ## Reading a text without wildcards -/

/-- The characters that stand for something else than themselves. -/
def wildcards : List Char := ['*', '?', '[', '\x7b', '\x7d', '\\']

/-- A text that stands for itself only. -/
def IsLiteral (s : String) : Prop := ∀ c ∈ s.toList, c ∉ wildcards

instance (s : String) : Decidable (IsLiteral s) := List.decidableBAll (· ∉ wildcards) s.toList

section reading

variable {fuel : Nat} {branch : List GlobToken} {prev : Option Char} {c : Char} {cs rest : List Char}

theorem readFrom_literal (hc : c ∉ wildcards) :
    readFrom (fuel + 1) ⟨[branch], [], prev⟩ (c :: rest)
      = readFrom fuel ⟨[.literal c :: branch], [], some c⟩ rest := by
  simp only [wildcards, mem_cons, not_mem_nil, or_false, not_or] at hc
  obtain ⟨h1, h2, h3, h4, h5, h6⟩ := hc
  -- a comma has a meaning of its own only between braces, and none is open
  by_cases hcomma : c = ','
  · subst hcomma
    simp [readFrom, ReadState.push]
  · simp [readFrom, ReadState.push, *]

theorem readFrom_literals (hcs : ∀ c ∈ cs, c ∉ wildcards) :
    readFrom (cs.length + fuel) ⟨[branch], [], prev⟩ (cs ++ rest)
      = readFrom fuel ⟨[(cs.map .literal).reverse ++ branch], [], cs.getLast?.or prev⟩ rest := by
  induction cs generalizing branch prev with
  | nil => simp
  | cons c cs ih =>
    have hlength : (c :: cs).length + fuel = cs.length + fuel + 1 := by simp; omega
    rw [hlength, cons_append, readFrom_literal (hcs c (by simp)),
      ih fun d hd => hcs d (by simp [hd])]
    have hlast : cs.getLast?.or (some c) = (c :: cs).getLast?.or prev := by
      cases h : cs.getLast? <;> simp [getLast?_cons, h]
    rw [hlast, map_cons, reverse_cons, append_assoc, singleton_append]

/-- The stars between the slashes take the place of the slash that was read before them. -/
theorem readFrom_below :
    readFrom (fuel + 5) ⟨[branch], [], prev⟩ ['/', '*', '*', '/', '*']
      = .ok ⟨[.star :: .anyBetween :: branch], [], some '*'⟩ := by
  simp [readFrom, readStars, ReadState.push]

end reading

theorem parse_of_readFrom {s : String} {branch : List GlobToken} {prev : Option Char}
    (h : readFrom (s.toList.length + 1) ⟨[[]], [], none⟩ s.toList = .ok ⟨[branch], [], prev⟩) :
    parse s = .ok ⟨branch.reverse⟩ := by
  rw [parse, h]
  rfl

theorem parse_literal {s : String} (h : IsLiteral s) :
    parse s = .ok ⟨s.toList.map .literal⟩ := by
  have hread : readFrom (s.toList.length + 1) ⟨[[]], [], none⟩ (s.toList ++ [])
      = .ok ⟨[(s.toList.map .literal).reverse ++ []], [], s.toList.getLast?.or none⟩ := by
    rw [readFrom_literals h, readFrom]
  rw [append_nil, append_nil] at hread
  rw [parse_of_readFrom hread, reverse_reverse]

theorem parse_below {s : String} (h : IsLiteral s) :
    parse (s ++ "/**/*") = .ok ⟨s.toList.map .literal ++ [.anyBetween, .star]⟩ := by
  have hread : readFrom ((s ++ "/**/*").toList.length + 1) ⟨[[]], [], none⟩ (s ++ "/**/*").toList
      = .ok ⟨[.star :: .anyBetween :: ((s.toList.map .literal).reverse ++ [])], [], some '*'⟩ := by
    have hlength : (s ++ "/**/*").toList.length + 1 = s.toList.length + (1 + 5) := by simp
    rw [hlength, String.toList_append, readFrom_literals h]
    exact readFrom_below
  rw [parse_of_readFrom hread]
  simp

/-! ## Matching it -/

theorem toList_loop_eq (b : ByteArray) (i : Nat) (bytes : List UInt8) :
    ByteArray.toList.loop b i bytes = bytes.reverse ++ b.data.toList.drop i := by
  fun_induction ByteArray.toList.loop b i bytes with
  | case1 i bytes h ih =>
    have hi : i < b.data.toList.length := by simpa using h
    rw [ih, drop_eq_getElem_cons hi]
    simp [ByteArray.get!, h]
  | case2 i bytes h =>
    rw [drop_eq_nil_of_le (by simpa using h)]
    simp

theorem toList_bytes (s : String) : (bytes s).toList = s.toList.flatMap String.utf8EncodeChar := by
  rw [bytes, String.toUTF8_eq_toByteArray, ← String.utf8Encode_toList, List.utf8Encode,
    data_toByteArray]

theorem toUTF8_singleton (c : Char) :
    (String.singleton c).toUTF8.toList = String.utf8EncodeChar c := by
  rw [ByteArray.toList, toList_loop_eq]
  simpa [bytes] using toList_bytes (String.singleton c)

theorem toList_bytes_inj {s t : String} : (bytes s).toList = (bytes t).toList ↔ s = t := by
  rw [Array.toList_inj, ← String.toByteArray_inj]
  exact ⟨ByteArray.ext, fun h => by rw [bytes, bytes, String.toUTF8_eq_toByteArray,
    String.toUTF8_eq_toByteArray, h]⟩

/-- The bytes of a text begin with those of another exactly if the text does. -/
theorem toList_bytes_prefix_iff {s t : String} :
    (bytes s).toList <+: (bytes t).toList ↔ ∃ r, t = s ++ r := by
  rw [toList_bytes, toList_bytes]
  constructor
  · rintro ⟨rest, hrest⟩
    have hencoded : s.toList.utf8Encode ++ rest.toByteArray = t.toList.utf8Encode := by
      rw [List.utf8Encode, List.utf8Encode, ← toByteArray_append, hrest]
    obtain ⟨r, hr⟩ := isPrefix_of_utf8Encode_append_eq_utf8Encode _ hencoded
    exact ⟨String.ofList r, by rw [← String.toList_inj, ← hr]; simp⟩
  · rintro ⟨r, rfl⟩
    rw [String.toList_append, flatMap_append]
    exact prefix_append _ _

section matching

variable {w : Array UInt8} {ts : List GlobToken} {i j : Nat} {t path : String}

theorem spans_literals_iff {cs : List Char} :
    Spans w (tokensPattern false (cs.map .literal ++ ts)) i j
      ↔ cs.flatMap String.utf8EncodeChar <+: w.toList.drop i
        ∧ Spans w (tokensPattern false ts) (i + (cs.flatMap String.utf8EncodeChar).length) j := by
  induction cs generalizing i with
  | nil => simp
  | cons c cs ih =>
    simp only [map_cons, cons_append, tokensPattern, tokenPattern, Spans, spans_word_iff,
      toUTF8_singleton, ih, flatMap_cons, append_prefix_drop_iff, length_append]
    simp only [and_assoc, exists_and_left, exists_eq_left, Nat.add_assoc]

theorem spans_below_iff :
    Spans w (tokensPattern false [.anyBetween, .star]) i w.size ↔ w[i]? = some slash := by
  simp only [tokensPattern, tokenPattern, Spans, any_beq_iff]
  constructor
  · rintro ⟨k, ⟨hslash, -⟩ | ⟨_, ⟨hslash, -⟩, -⟩, -⟩ <;> exact hslash
  · -- the shorter of the two ways to read the stars is enough, as the last star takes the rest
    intro hslash
    have hi : i + 1 ≤ w.size := (Array.getElem?_eq_some_iff.1 hslash).1
    exact ⟨i + 1, .inl ⟨hslash, rfl⟩, w.size, (spans_many_any_iff hi).2 ⟨hi, Nat.le_refl _⟩, rfl⟩

theorem pattern_literals (h : ts ≠ [.anyPrefix]) (cs : List Char) :
    pattern false ⟨cs.map .literal ++ ts⟩ = tokensPattern false (cs.map .literal ++ ts) := by
  rw [pattern]
  split
  next hlone => cases cs <;> simp_all
  next => rfl

theorem accepts_literals_iff (h : ts ≠ [.anyPrefix]) :
    accepts ⟨t.toList.map .literal ++ ts⟩ path = true
      ↔ (bytes t).toList <+: (bytes path).toList
        ∧ Spans (bytes path) (tokensPattern false ts) (bytes t).size (bytes path).size := by
  rw [accepts, Regular.accepts_iff, pattern_literals h, spans_literals_iff, ← toList_bytes,
    drop_zero, Nat.zero_add, Array.length_toList]

theorem accepts_literal_iff : accepts ⟨t.toList.map .literal⟩ path = true ↔ path = t := by
  rw [← append_nil (t.toList.map _), accepts_literals_iff (by simp), tokensPattern, Spans,
    ← toList_bytes_inj]
  constructor
  · rintro ⟨hstart, hsize⟩
    exact (hstart.eq_of_length hsize).symm
  · intro h
    exact ⟨h ▸ prefix_rfl, (congrArg List.length h).symm⟩

theorem accepts_below_iff :
    accepts ⟨t.toList.map .literal ++ [.anyBetween, .star]⟩ path = true
      ↔ ∃ rest, path = t ++ "/" ++ rest := by
  have hslash : (bytes (t ++ "/")).toList = (bytes t).toList ++ [slash] := by
    simp only [toList_bytes, String.toList_append, flatMap_append]
    exact congrArg _ (by decide)
  have hsplit := @append_prefix_drop_iff _ 0 (bytes t).toList [slash] (bytes path).toList
  rw [singleton_prefix_drop_iff, Array.getElem?_toList, Array.length_toList, drop_zero,
    Nat.zero_add] at hsplit
  rw [accepts_literals_iff (by simp), spans_below_iff, ← toList_bytes_prefix_iff, hslash, hsplit]

end matching

end Glob

end ScriptAtlas.Pattern
