import Mathlib.Data.List.Basic
import ScriptAtlas.Text.Script

/-!
# What skeletons tell apart

A text is brought to its compatible form before what cannot be seen is dropped, so what cannot be seen
keeps a mark from the letter before it.

* `Starts p`: the form of a text can be taken in two, in front of `p`;
* `skeleton_append_of_startsAfresh`: the skeleton is taken in two where a text starts afresh;
* `skeleton_append_invisible`: what cannot be seen takes it in two, whatever follows.
-/

namespace ScriptAtlas.Text

open List

variable {e : Bool × List Nat} {c : Nat}

namespace NormalForm

variable {p z : Nat}

/-! ## Where a form can be taken in two -/

/-- Characters that are no marks and are not joined to what is before them. -/
def Starts (p : Nat) : Prop := classOf p = 0 ∧ ∀ x, composite? x p = none

theorem insertMark_append (hp : classOf p = 0) (c : Nat) (l acc : List Nat) :
    insertMark c (l ++ p :: acc) = insertMark c l ++ p :: acc := by
  induction l with
  | nil => simp [insertMark, hp]
  | cons d l ih =>
    rw [cons_append, insertMark, insertMark, ih]
    split <;> rfl

theorem foldl_insertMark_append (hp : classOf p = 0) (cs l acc : List Nat) :
    cs.foldl (fun acc c => insertMark c acc) (l ++ p :: acc) =
      cs.foldl (fun acc c => insertMark c acc) l ++ p :: acc := by
  induction cs generalizing l with
  | nil => rfl
  | cons c cs ih => rw [foldl_cons, insertMark_append hp, ih, foldl_cons]

theorem ordered_append_cons (hp : classOf p = 0) (u v : List Nat) :
    ordered (u ++ p :: v) = ordered u ++ p :: ordered v := by
  have hinsert (acc : List Nat) : insertMark p acc = [] ++ p :: acc := by
    cases acc <;> simp [insertMark, hp]
  simp only [ordered, foldl_append, foldl_cons, hinsert]
  rw [foldl_insertMark_append hp]
  simp

namespace Composing

/-- The text with more of it done before. -/
def after (s : Composing) (d : List Nat) : Composing := { s with done := s.done ++ d }

theorem flush_after (s : Composing) (d : List Nat) : (s.after d).flush = s.flush ++ d := by
  simp [flush, after]

theorem add_after (s : Composing) (d : List Nat) (c : Nat) : (s.after d).add c = (s.add c).after d := by
  have hblocked : (s.after d).blocked c = s.blocked c := rfl
  have hbase : (s.after d).base = s.base := rfl
  simp only [add, hblocked, hbase, flush_after]
  split
  · rfl
  · split <;> rfl

theorem foldl_add_after (cs : List Nat) (s : Composing) (d : List Nat) :
    cs.foldl add (s.after d) = (cs.foldl add s).after d := by
  induction cs generalizing s with
  | nil => rfl
  | cons c cs ih => rw [foldl_cons, add_after, ih, foldl_cons]

theorem add_of_not_joined {s : Composing} (h : s.base.bind (composite? · c) = none) :
    s.add c = if classOf c = 0 then after { done := [], base := some c, marks := [] } s.flush
      else { s with marks := c :: s.marks } := by
  simp [add, h, after]

theorem add_of_starts (hp : Starts p) (s : Composing) :
    s.add p = after { done := [], base := some p, marks := [] } s.flush := by
  have hjoin : s.base.bind (composite? · p) = none := by
    cases s.base with
    | none => rfl
    | some x => exact hp.2 x
  rw [add_of_not_joined hjoin, if_pos hp.1]

end Composing

theorem composed_append_cons (hp : Starts p) (u v : List Nat) :
    composed (u ++ p :: v) = composed u ++ composed (p :: v) := by
  simp only [composed, foldl_append, foldl_cons, Composing.add_of_starts hp,
    Composing.foldl_add_after, Composing.flush_after]
  simp [Composing.flush]

theorem composed_cons (hz : Starts z) (hfree : ∀ b, composite? z b = none) (v : List Nat) :
    composed (z :: v) = z :: composed v := by
  -- a base that nothing joins does what no base does, until the next character that is no mark
  have hrun (m : List Nat) : (v.foldl Composing.add { done := [], base := some z, marks := m }).flush =
      (v.foldl Composing.add { done := [], base := none, marks := m }).flush ++ [z] := by
    induction v generalizing m with
    | nil => simp [Composing.flush]
    | cons c v ih =>
      rw [foldl_cons, foldl_cons, Composing.add_of_not_joined
        (s := ⟨[], some z, m⟩) (hfree c), Composing.add_of_not_joined rfl]
      split
      · rw [Composing.foldl_add_after, Composing.foldl_add_after, Composing.flush_after,
          Composing.flush_after]
        simp [Composing.flush]
      · exact ih (c :: m)
  have hz' := Composing.add_of_starts hz { done := [], base := none, marks := [] }
  rw [composed, foldl_cons, hz', Composing.foldl_add_after, Composing.flush_after, hrun]
  simp [composed, Composing.flush]

/-! ## What the tables have -/

/-- Small ranges with the characters that cannot be seen. -/
def maybeUnseen (c : Nat) : Bool :=
  0x61c ≤ c && (c == 0x61c || c == 0x180e || c == 0xfeff || 0x200b ≤ c && c ≤ 0x2069 &&
    (c ≤ 0x200f || 0x2060 ≤ c || 0x202a ≤ c && c ≤ 0x202e))

/-- Those, and characters that look like Latin letters, and these letters, and two of the letters of
which Korean syllables are made. -/
def maybeWatched (c : Nat) : Bool :=
  if c ≤ 0x51d then c ≤ 0x7a || c == 0x131 || 0x391 ≤ c && lookAlikes.any fun p => p.1.toNat == c
  else c == 0x2113 || c == 0x1100 || c == 0x1161 || maybeUnseen c

/-- Nothing watched is made of others or joins others. -/
def canonicalEntry (e : Bool × List Nat) : Bool :=
  match e.2 with
  | c :: parts => !maybeWatched c && parts.all (!maybeUnseen ·) && parts.tail.all (!maybeWatched ·)
  | [] => false

/-- Nothing watched is compatible with others but `ℓ`. -/
def compatibleEntry (e : Bool × List Nat) : Bool :=
  match e.2 with
  | c :: parts => !maybeWatched c || c == 0x2113 && parts == [0x6c]
  | [] => false

/-- No run has anything watched. -/
def runEntry (e : Bool × List Nat) : Bool :=
  match e.2 with
  | first :: last :: _ => (List.range (last + 1 - first)).all fun i => !maybeWatched (first + i)
  | _ => false

def rowHolds (P : Bool × List Nat → Bool) (row : List Char) : Bool :=
  (rowEntries 0 (splitList '|' row)).all P

theorem rowHolds_ofList {P : Bool × List Nat → Bool} {b : Bool} (l : List Char) (h : rowHolds P l = b) :
    rowHolds P (String.ofList l).toList = b := by
  rw [String.toList_ofList]
  exact h

theorem canonicalTable_holds :
    ∀ row ∈ canonicalTable, rowHolds canonicalEntry row.toList = true := by
  unfold canonicalTable
  repeat refine forall_mem_cons.2 ⟨rowHolds_ofList _ (by decide +kernel), ?_⟩
  exact nofun

theorem compatibilityTable_holds :
    ∀ row ∈ compatibilityTable, rowHolds compatibleEntry row.toList = true := by
  unfold compatibilityTable
  repeat refine forall_mem_cons.2 ⟨rowHolds_ofList _ (by decide +kernel), ?_⟩
  exact nofun

theorem runs_hold : ∀ row ∈ compatibilityRuns ++ combiningRuns, rowHolds runEntry row.toList = true := by
  unfold compatibilityRuns combiningRuns
  repeat refine forall_mem_cons.2 ⟨rowHolds_ofList _ (by decide +kernel), ?_⟩
  exact nofun

theorem of_mem_entries {table : List String} {P : Bool × List Nat → Bool}
    (h : ∀ row ∈ table, rowHolds P row.toList = true) (he : e ∈ entries table) : P e = true := by
  obtain ⟨row, hrow, he⟩ := mem_flatMap.1 he
  exact all_eq_true.1 (h row hrow) e he

/-- A map that is filled step by step has a value if no step changes it, and the map has it from the
beginning or some step puts it there. -/
theorem getElem?_foldl {α κ ν : Type} [BEq κ] [Hashable κ] {k : κ} {v : Option ν} {l : List α}
    {step : Std.HashMap κ ν → α → Std.HashMap κ ν} {m : Std.HashMap κ ν}
    (hset : m[k]? = v ∨ ∃ a ∈ l, ∀ m, (step m a)[k]? = v)
    (hkeep : ∀ a ∈ l, ∀ m, m[k]? = v → (step m a)[k]? = v) : (l.foldl step m)[k]? = v := by
  induction l generalizing m with
  | nil => simpa using hset
  | cons a l ih =>
    refine ih ?_ fun b hb => hkeep b (mem_cons_of_mem a hb)
    rcases hset with hm | ⟨b, hb, hput⟩
    · exact .inl (hkeep a mem_cons_self m hm)
    · rcases mem_cons.1 hb with rfl | hb
      · exact .inl (hput m)
      · exact .inr ⟨b, hb, hput⟩

theorem canonical_eq_none (hc : maybeWatched c = true) : canonical[c]? = none := by
  unfold canonical
  refine getElem?_foldl (.inl Std.HashMap.getElem?_empty) fun e he m hm => ?_
  have hentry := of_mem_entries canonicalTable_holds he
  unfold canonicalEntry at hentry
  unfold addEntry
  split
  · next d parts hd =>
    have hne : d ≠ c := by
      rintro rfl
      simp_all
    simpa [Std.HashMap.getElem?_insert, hne] using hm
  · exact hm

theorem composites_eq_none {a b : Nat} (h : maybeUnseen a = true ∨ maybeWatched b = true) :
    composites[(a, b)]? = none := by
  refine getElem?_foldl (.inl Std.HashMap.getElem?_empty) fun e he m hm => ?_
  have hentry := of_mem_entries canonicalTable_holds he
  split
  · next c x y =>
    have hne : ¬ (x = a ∧ y = b) := by
      rintro ⟨rfl, rfl⟩
      rcases h with h | h <;> simp_all [canonicalEntry]
    simpa [Std.HashMap.getElem?_insert, hne] using hm
  · exact hm

theorem mem_entries {table : List String} (k : Nat) {row : String}
    (hrow : table[k]? = some row) (h : rowHolds (· != e) row.toList = false) : e ∈ entries table := by
  obtain ⟨d, hd, hde⟩ := all_eq_false.1 h
  obtain rfl : d = e := by simpa using hde
  exact mem_flatMap.2 ⟨row, mem_of_getElem? hrow, hd⟩

theorem getElem?_addRun {ν : Type} {value : Nat → Nat → ν} (hc : maybeWatched c = true)
    (he : e ∈ entries (compatibilityRuns ++ combiningRuns))
    (m : Std.HashMap Nat ν) : (addRun value m e)[c]? = m[c]? := by
  have hentry := of_mem_entries runs_hold he
  unfold runEntry at hentry
  unfold addRun
  split
  · next first last x hx =>
    refine getElem?_foldl (.inl rfl) fun i hi m' hm => ?_
    have hne : first + i ≠ c := by
      rintro rfl
      simp_all
    simpa [Std.HashMap.getElem?_insert, hne] using hm
  · rfl

theorem classOf_eq_zero (hc : maybeWatched c = true) : classOf c = 0 := by
  have hnone : classes[c]? = none :=
    getElem?_foldl (.inl Std.HashMap.getElem?_empty) fun e he m hm =>
      (getElem?_addRun hc (by rw [entries, flatMap_append]; exact mem_append_right _ he) m).trans hm
  rw [classOf, hnone, Option.getD_none]

theorem getElem?_compatible (hc : maybeWatched c = true) :
    compatible[c]? = if c = 0x2113 then some [0x6c] else none := by
  refine getElem?_foldl (.inl ?_) fun e he m hm =>
      (getElem?_addRun hc (by rw [entries, flatMap_append]; exact mem_append_left _ he) m).trans hm
  refine getElem?_foldl ?_ fun e he m hm => ?_
  · split
    · next h =>
      subst h
      exact .inr ⟨(false, [0x2113, 0x6c]), mem_entries 14 rfl (rowHolds_ofList _ (by decide +kernel)),
        fun m => by simp [addEntry]⟩
    · exact .inl Std.HashMap.getElem?_empty
  · have hentry := of_mem_entries compatibilityTable_holds he
    unfold compatibleEntry at hentry
    unfold addEntry
    split
    · next d parts hd =>
      rw [Std.HashMap.getElem?_insert, hm]
      by_cases h : d = c
      · subst h
        simp_all
      · simp [h]
    · exact hm

theorem le_of_maybeUnseen (h : maybeUnseen z = true) :
    maybeWatched z = true ∧ (z ≤ 0x10ff ∨ 0x11c3 ≤ z ∧ z ≤ 0xabff ∨ 0xd7a4 ≤ z) := by
  have hle : 0x61c ≤ z := by
    simp [maybeUnseen] at h
    omega
  refine ⟨by simp [maybeWatched, h, show ¬ z ≤ 0x51d by omega], ?_⟩
  simp [maybeUnseen] at h
  omega

theorem eq_or_le_of_maybeWatched (h : maybeWatched c = true) :
    c = 0x1161 ∨ c ≤ 0x1100 ∨ 0x11c3 ≤ c ∧ c ≤ 0xabff ∨ 0xd7a4 ≤ c := by
  by_cases hle : c ≤ 0x51d
  · omega
  · simp only [maybeWatched, hle, if_false, Bool.or_eq_true, beq_iff_eq] at h
    rcases h with ((rfl | rfl) | rfl) | h
    · omega
    · omega
    · omega
    · have := (le_of_maybeUnseen h).2
      omega

theorem compatibleParts_of_watched (hc : maybeWatched c = true) :
    compatibleParts c = if c = 0x2113 then [0x6c] else [c] := by
  have hsyllable : syllableParts? c = none := by
    have := eq_or_le_of_maybeWatched hc
    rw [syllableParts?, if_neg (by simp; omega)]
  have hcanonical : canonicalParts c = [c] := by
    rw [canonicalParts, canonicalPartsUpTo, hsyllable, canonical_eq_none hc]
    rfl
  rw [compatibleParts, getElem?_compatible hc, hcanonical]
  by_cases h : c = 0x2113 <;> simp [h]

theorem starts_of_watched (hc : maybeWatched c = true) (hne : c ≠ 0x1161) : Starts c := by
  refine ⟨classOf_eq_zero hc, fun x => ?_⟩
  have := eq_or_le_of_maybeWatched hc
  rw [composite?, composites_eq_none (.inr hc), if_neg (by simp; omega), if_neg (by simp; omega)]

theorem composite?_of_unseen (hz : maybeUnseen z = true) (b : Nat) : composite? z b = none := by
  have := (le_of_maybeUnseen hz).2
  rw [composite?, composites_eq_none (.inl hz), if_neg (by simp; omega), if_neg (by simp; omega)]

/-! ## Forms -/

variable {parts : Nat → List Nat}

theorem form_append {a b : List Char}
    (hb : ∀ p ∈ (b.flatMap fun c => parts c.toNat).head?, Starts p) :
    form parts (a ++ b) = form parts a ++ form parts b := by
  unfold form
  rw [flatMap_append]
  cases hparts : b.flatMap fun c => parts c.toNat with
  | nil => simp [ordered, composed, Composing.flush]
  | cons p v =>
    have hp : Starts p := hb p (by rw [hparts]; rfl)
    have hordered : ordered (p :: v) = p :: ordered v := ordered_append_cons hp.1 [] v
    rw [ordered_append_cons hp.1, composed_append_cons hp, hordered, map_append]

theorem form_append_cons {a b : List Char} {z : Char} (hparts : parts z.toNat = [z.toNat])
    (hz : Starts z.toNat) (hfree : ∀ b, composite? z.toNat b = none) :
    form parts (a ++ z :: b) = form parts a ++ z :: form parts b := by
  simp only [form, flatMap_append, flatMap_cons, hparts, singleton_append]
  rw [ordered_append_cons hz.1, composed_append_cons hz, composed_cons hz hfree]
  simp

end NormalForm

/-! ## Skeletons -/

open NormalForm

variable {a b : String}

/-- A text whose form can be told without what is before it. -/
def StartsAfresh (s : String) : Prop :=
  ∀ p ∈ (s.toList.flatMap fun c => compatibleParts c.toNat).head?, Starts p

theorem toList_skeleton (s : String) : (skeleton s).toList =
    ((form compatibleParts s.toList).filter fun c => !isInvisible c).map lookAlike := by
  simp [skeleton, nfkc]

theorem skeleton_append_of_startsAfresh (hb : StartsAfresh b) :
    skeleton (a ++ b) = skeleton a ++ skeleton b := by
  apply String.toList_inj.1
  simp [toList_skeleton, form_append hb]

theorem maybeUnseen_of_isInvisible {z : Char} (hz : isInvisible z = true) :
    maybeUnseen z.toNat = true := by
  have hall : (bidiControls ++ zeroWidth).all (maybeUnseen ·.toNat) = true := by decide
  refine all_eq_true.1 hall z ?_
  simpa [isInvisible, isBidiControl, isZeroWidth] using hz

theorem skeleton_append_invisible {z : Char} (hz : isInvisible z = true) :
    skeleton (a ++ String.singleton z ++ b) = skeleton a ++ skeleton b := by
  have hunseen := maybeUnseen_of_isInvisible hz
  have hwatched := (le_of_maybeUnseen hunseen).1
  have hstarts : Starts z.toNat := starts_of_watched hwatched (by rintro h; rw [h] at hunseen; cases hunseen)
  have hparts : compatibleParts z.toNat = [z.toNat] := by
    rw [compatibleParts_of_watched hwatched, if_neg (by rintro h; rw [h] at hunseen; cases hunseen)]
  apply String.toList_inj.1
  simp [toList_skeleton, form_append_cons hparts hstarts (composite?_of_unseen hunseen), hz]

/-- What a letter is written as where style does not count. -/
def plainLetter (c : Char) : Char := if c = 'ℓ' then 'l' else c

theorem compatibleParts_letter {c : Char} (hc : maybeWatched c.toNat = true) :
    compatibleParts c.toNat = [(plainLetter c).toNat] := by
  rw [compatibleParts_of_watched hc, plainLetter]
  by_cases h : c = 'ℓ'
  · rw [if_pos h, if_pos (by rw [h]; rfl)]
    rfl
  · have hne : c.toNat ≠ 0x2113 := fun heq => h (Char.toNat_inj.1 heq)
    rw [if_neg h, if_neg hne]

theorem startsAfresh_letter {c : Char} (hc : maybeWatched c.toNat = true)
    (hplain : Starts (plainLetter c).toNat) : StartsAfresh (String.singleton c ++ b) := by
  intro p hp
  simp [compatibleParts_letter hc] at hp
  exact hp ▸ hplain

theorem skeleton_letter {c : Char} (hc : maybeWatched c.toNat = true)
    (hplain : Starts (plainLetter c).toNat) : skeleton (String.singleton c) =
      String.ofList (([plainLetter c].filter fun c => !isInvisible c).map lookAlike) := by
  apply String.toList_inj.1
  simp [toList_skeleton, form, compatibleParts_letter hc, ordered, insertMark, composed, Composing.add,
    Composing.flush, hplain.1]

/-- A look-alike and its letter do not depend on what is before them, and by themselves they have one
skeleton. -/
theorem startsAfresh_of_mem_lookAlikes {p : Char × Char} (hp : p ∈ lookAlikes) :
    StartsAfresh (String.singleton p.1 ++ b) ∧ StartsAfresh (String.singleton p.2 ++ b) ∧
      skeleton (String.singleton p.1) = skeleton (String.singleton p.2) := by
  have hall : (lookAlikes.all fun p => [p.1, p.2].all fun c => maybeWatched c.toNat = true ∧
      maybeWatched (plainLetter c).toNat = true ∧ (plainLetter c).toNat ≠ 0x1161 ∧
      ([plainLetter c].filter fun c => !isInvisible c).map lookAlike = [p.2]) = true := by
    decide +kernel
  have hboth (c : Char) (hc : c ∈ [p.1, p.2]) :=
    of_decide_eq_true (all_eq_true.1 (all_eq_true.1 hall p hp) c hc)
  obtain ⟨hfirst, hplain, hne, hfold⟩ := hboth p.1 (by simp)
  obtain ⟨hsecond, hplain', hne', hfold'⟩ := hboth p.2 (by simp)
  have hstarts := starts_of_watched hplain hne
  have hstarts' := starts_of_watched hplain' hne'
  refine ⟨startsAfresh_letter hfirst hstarts, startsAfresh_letter hsecond hstarts', ?_⟩
  rw [skeleton_letter hfirst hstarts, skeleton_letter hsecond hstarts', hfold, hfold']

/-- What cannot be seen changes nothing exactly where the skeleton is that of what is before it and
that of what is behind it, and a look-alike exactly where its letter has that skeleton with what is
behind it. Both is so in front of a text that starts afresh. -/
theorem skeleton_unchanged_iff (a b : String) :
    (∀ z, isInvisible z = true →
      (skeleton (a ++ String.singleton z ++ b) = skeleton (a ++ b) ↔
        skeleton (a ++ b) = skeleton a ++ skeleton b)) ∧
    (∀ p ∈ lookAlikes,
      (skeleton (a ++ String.singleton p.1 ++ b) = skeleton (a ++ String.singleton p.2 ++ b) ↔
        skeleton (String.singleton p.1 ++ b) = skeleton (String.singleton p.2 ++ b))) ∧
    (StartsAfresh b →
      (∀ z, isInvisible z = true → skeleton (a ++ String.singleton z ++ b) = skeleton (a ++ b)) ∧
      ∀ p ∈ lookAlikes,
        skeleton (a ++ String.singleton p.1 ++ b) = skeleton (a ++ String.singleton p.2 ++ b)) := by
  have hlook : ∀ p ∈ lookAlikes,
      (skeleton (a ++ String.singleton p.1 ++ b) = skeleton (a ++ String.singleton p.2 ++ b) ↔
        skeleton (String.singleton p.1 ++ b) = skeleton (String.singleton p.2 ++ b)) := by
    intro p hp
    obtain ⟨hfirst, hsecond, -⟩ := startsAfresh_of_mem_lookAlikes hp
    rw [String.append_assoc, String.append_assoc, skeleton_append_of_startsAfresh hfirst,
      skeleton_append_of_startsAfresh hsecond]
    exact String.append_right_inj _
  refine ⟨fun z hz => ?_, hlook, fun hb => ⟨fun z hz => ?_, fun p hp => (hlook p hp).2 ?_⟩⟩
  · rw [skeleton_append_invisible hz]
    exact eq_comm
  · rw [skeleton_append_invisible hz, skeleton_append_of_startsAfresh hb]
  · rw [skeleton_append_of_startsAfresh hb, skeleton_append_of_startsAfresh hb,
      (startsAfresh_of_mem_lookAlikes (b := "") hp).2.2]

/-- Between the letters of a Korean syllable, what cannot be seen keeps them apart. -/
theorem skeleton_syllable_ne : isInvisible '\u200b' = true ∧
    skeleton "\u1100\u200b\u1161" ≠ skeleton "\u1100\u1161" := by
  have hlead : compatibleParts 0x1100 = [0x1100] := compatibleParts_of_watched rfl
  have hvowel : compatibleParts 0x1161 = [0x1161] := compatibleParts_of_watched rfl
  have hjoin : composite? 0x1100 0x1161 = some 0xac00 := rfl
  have hclass : classOf 0x1100 = 0 ∧ classOf 0x1161 = 0 := ⟨classOf_eq_zero rfl, classOf_eq_zero rfl⟩
  refine ⟨by decide, fun h => ?_⟩
  rw [show "\u1100\u200b\u1161" = "\u1100" ++ String.singleton '\u200b' ++ "\u1161" from rfl,
    skeleton_append_invisible (by decide)] at h
  have hlength := congrArg (fun s => s.toList.length) h
  simp [toList_skeleton, form, hlead, hvowel, ordered, insertMark, hclass, composed, Composing.add,
    Composing.blocked, hjoin, Composing.flush] at hlength
  revert hlength
  decide

end ScriptAtlas.Text
