import ScriptAtlas.Proofs.TextCuts
import ScriptAtlas.Query.EnumMembers

/-!
# Counting members of enums

A member without initializer is counted from the nearest initializer before it, if that is a literal
whose value can be read.

* `isSome_numericValue?_iff`: the texts that a value is read from;
* `countAfter_eq_none_iff`: what the running count depends on;
* `isComputed_report_iff`: the members that are not counted.

A literal with the letter of a base is read as an integer of 64 bits, so the count stops behind one
from `2 ^ 63` on: `wideEnum_computed`.
-/

namespace ScriptAtlas.Query.EnumMembers

open List Project Syntax

variable {base n acc : Nat} {s digits : List Char}

/-! ## Literals -/

/-- The characters behind a sign, if there is one. -/
def unsigned : List Char → List Char
  | '-' :: r => r
  | '+' :: r => r
  | s => s

/-- The digits, at least one, are of the base and spell the number. -/
structure Spells (base : Nat) (digits : List Char) (n : Nat) : Prop where
  nonempty : digits ≠ []
  valid : ∀ c ∈ digits, ∃ v, digitValue? c = some v ∧ v < base
  value : digits.foldl (fun n c => n * base + (digitValue? c).getD 0) 0 = n

theorem foldlM_digits : digits.foldlM (fun n c =>
      ((digitValue? c).filter (· < base)).map fun d => n * base + d) acc = some n ↔
    (∀ c ∈ digits, ∃ v, digitValue? c = some v ∧ v < base) ∧
      digits.foldl (fun n c => n * base + (digitValue? c).getD 0) acc = n := by
  induction digits generalizing acc with
  | nil => simp
  | cons c digits ih =>
    rw [foldlM_cons, forall_mem_cons, foldl_cons]
    cases hc : digitValue? c with
    | none => simp
    | some v => by_cases hv : v < base <;> simp [Option.filter_some, hv, ih]

theorem digitsOfBase?_eq_some_iff : digitsOfBase? base digits = some n ↔ Spells base digits n := by
  cases digits with
  | nil =>
    refine ⟨fun h => ?_, fun h => absurd rfl h.nonempty⟩
    cases h
  | cons c digits =>
    exact foldlM_digits.trans
      ⟨fun h => ⟨cons_ne_nil _ _, h.1, h.2⟩, fun h => ⟨h.valid, h.value⟩⟩

theorem isSome_integerOfBase?_iff : (integerOfBase? base s).isSome = true ↔
    ∃ n, Spells base (unsigned s) n ∧ (n < pow2 63 ∨ n = pow2 63 ∧ s.head? = some '-') := by
  have hread (p : Nat → Prop) [DecidablePred p] (f : Nat → Int) (digits : List Char) :
      ((digitsOfBase? base digits).bind fun n => if p n then some (f n) else none).isSome = true ↔
      ∃ n, Spells base digits n ∧ p n := by
    simp only [← digitsOfBase?_eq_some_iff]
    cases digitsOfBase? base digits <;> simp
  fun_cases unsigned s with
  | case1 r => simp [integerOfBase?, hread (· ≤ pow2 63), ← Nat.le_iff_lt_or_eq]
  | case2 r => simp [integerOfBase?, hread (· < pow2 63)]
  | case3 _ hminus =>
    have hhead : s.head? ≠ some '-' := by
      rw [ne_eq, head?_eq_some_iff]
      rintro ⟨r, h⟩
      exact hminus r h
    simp [integerOfBase?, hread (· < pow2 63), hhead]

def AllDigits (s : List Char) : Prop := ∀ c ∈ s, c.isDigit = true

/-- Nothing, or an `e` with digits and perhaps a sign. -/
def Exponent : List Char → Prop
  | [] => True
  | e :: r => (e = 'e' ∨ e = 'E') ∧ unsigned r ≠ [] ∧ AllDigits (unsigned r)

/-- Digits around at most one point, at least one of them, and an exponent. -/
inductive Decimal : List Char → Prop
  | whole {whole exponent : List Char} (hne : whole ≠ []) (hwhole : AllDigits whole)
      (hexponent : Exponent exponent) : Decimal (whole ++ exponent)
  | point {whole fraction exponent : List Char} (hne : ¬ (whole = [] ∧ fraction = []))
      (hwhole : AllDigits whole) (hfraction : AllDigits fraction) (hexponent : Exponent exponent) :
      Decimal (whole ++ '.' :: (fraction ++ exponent))

/-- The name of an infinity or of the undefined number. -/
def Special (s : List Char) : Prop :=
  String.ofList (s.map Char.toLower) ∈ ["inf", "infinity", "nan"]

theorem isSome_exponentOf?_iff : (Binary64.exponentOf? s).isSome = true ↔ Exponent s := by
  cases s with
  | nil => simp [Binary64.exponentOf?, Exponent]
  | cons e r =>
    by_cases he : e = 'e' ∨ e = 'E'
    · fun_cases unsigned r <;> simp [Binary64.exponentOf?, Exponent, unsigned, he, AllDigits]
    · simp [Binary64.exponentOf?, Exponent, he]

theorem Exponent.span (h : Exponent s) :
    s.takeWhile Char.isDigit = [] ∧ s.dropWhile Char.isDigit = s ∧ ∀ r, s ≠ '.' :: r := by
  cases s with
  | nil => simp
  | cons e r => rcases h.1 with rfl | rfl <;> simp

theorem AllDigits.span (h : AllDigits s) (r : List Char) :
    (s ++ r).takeWhile Char.isDigit = s ++ r.takeWhile Char.isDigit ∧
      (s ++ r).dropWhile Char.isDigit = r.dropWhile Char.isDigit :=
  ⟨takeWhile_append_of_pos h, dropWhile_append_of_pos h⟩

theorem allDigits_takeWhile (s : List Char) : AllDigits (s.takeWhile Char.isDigit) :=
  all_eq_true.1 all_takeWhile

theorem isSome_ofUnsigned?_iff {negative : Bool} :
    (Binary64.ofUnsigned? negative s).isSome = true ↔ Special s ∨ Decimal s := by
  unfold Binary64.ofUnsigned? Special
  by_cases hspecial : String.ofList (s.map Char.toLower) ∈ ["inf", "infinity", "nan"]
  · simp only [hspecial, true_or, iff_true]
    simp only [mem_cons, not_mem_nil, or_false] at hspecial
    rcases hspecial with h | h | h <;> simp [h]
  · simp only [hspecial, false_or]
    simp only [mem_cons, not_mem_nil, or_false, not_or] at hspecial
    simp only [hspecial, beq_iff_eq, or_self, Bool.or_eq_true, if_false]
    constructor
    · intro h
      have hs (s : List Char) := @takeWhile_append_dropWhile _ Char.isDigit s
      split at h
      · next r hr =>
        rw [← hs s, hr, ← hs r]
        split at h
        · cases h
        · next hne =>
          rw [Option.isSome_map, isSome_exponentOf?_iff] at h
          exact .point (by simpa using hne) (allDigits_takeWhile s) (allDigits_takeWhile r) h
      · split at h
        · cases h
        · next hne =>
          rw [Option.isSome_map, isSome_exponentOf?_iff] at h
          rw [← hs s]
          exact .whole (by simpa using hne) (allDigits_takeWhile s) h
    · intro h
      cases h with
      | @whole whole exponent hne hwhole hexponent =>
        obtain ⟨htake, hdrop⟩ := hwhole.span exponent
        obtain ⟨htake', hdrop', hpoint⟩ := hexponent.span
        rw [htake, hdrop, htake', hdrop', append_nil]
        simp [hne, isSome_exponentOf?_iff.2 hexponent]
      | @point whole fraction exponent hne hwhole hfraction hexponent =>
        obtain ⟨htake, hdrop⟩ := hwhole.span ('.' :: (fraction ++ exponent))
        obtain ⟨htakef, hdropf⟩ := hfraction.span exponent
        obtain ⟨htake', hdrop', -⟩ := hexponent.span
        rw [htake, hdrop]
        simp [htakef, hdropf, htake', hdrop', hne, isSome_exponentOf?_iff.2 hexponent]

theorem isSome_ofText?_iff {text : String} : (Binary64.ofText? text).isSome = true ↔
    Special (unsigned text.toList) ∨ Decimal (unsigned text.toList) := by
  unfold Binary64.ofText?
  fun_cases unsigned text.toList <;> simp [*, isSome_ofUnsigned?_iff]

/-- The base that a letter behind a zero chooses. -/
def baseOf? : Char → Option Nat
  | 'x' | 'X' => some 16
  | 'b' | 'B' => some 2
  | 'o' | 'O' => some 8
  | _ => none

theorem isSome_prefixed?_iff {text : String} : (prefixed? text).isSome = true ↔
    ∃ letter digits, text.toList = '0' :: letter :: digits ∧
      ∃ base, baseOf? letter = some base ∧ (integerOfBase? base digits).isSome = true := by
  rcases hs : text.toList with _ | ⟨zero, _ | ⟨letter, digits⟩⟩
  iterate 2 simp [prefixed?, Text.after?, Text.afterList?, hs]
  · by_cases hzero : zero = '0'
    · subst hzero
      have hone {P : Char → List Char → Prop} :
          (∃ l ds, '0' :: letter :: digits = '0' :: l :: ds ∧ P l ds) ↔ P letter digits := by
        refine ⟨?_, fun hP => ⟨_, _, rfl, hP⟩⟩
        rintro ⟨_, _, heq, hP⟩
        cases heq
        exact hP
      rw [hone]
      unfold baseOf?
      split
      case h_7 hx hX hb hB ho hO =>
        simp [prefixed?, Text.after?, Text.afterList?, hs, Ne.symm hx, Ne.symm hX, Ne.symm hb,
          Ne.symm hB, Ne.symm ho, Ne.symm hO]
      all_goals simp [prefixed?, Text.after?, Text.afterList?, hs]
    · simp [prefixed?, Text.after?, Text.afterList?, hs, hzero, Ne.symm hzero]

/-- Characters that a value is read from: a decimal or the name of a number, perhaps with a sign, or
digits of a base behind its letter, which may have a sign too and stay within 64 bits. -/
inductive Numeral : List Char → Prop
  | decimal {s : List Char} (h : Special (unsigned s) ∨ Decimal (unsigned s)) : Numeral s
  | based {letter : Char} {base n : Nat} {digits : List Char} (hbase : baseOf? letter = some base)
      (h : Spells base (unsigned digits) n)
      (hn : n < pow2 63 ∨ n = pow2 63 ∧ digits.head? = some '-') : Numeral ('0' :: letter :: digits)

theorem isSome_read_iff {text : String} :
    (prefixed? text).isSome = true ∨ (Binary64.ofText? text).isSome = true ↔
      Numeral text.toList := by
  simp only [isSome_prefixed?_iff, isSome_ofText?_iff, isSome_integerOfBase?_iff]
  constructor
  · rintro (⟨letter, digits, heq, base, hbase, n, h, hn⟩ | h)
    · exact heq ▸ .based hbase h hn
    · exact .decimal h
  · generalize text.toList = s
    intro h
    cases h with
    | decimal h => exact .inr h
    | based hbase h hn => exact .inl ⟨_, _, rfl, _, hbase, _, h, hn⟩

/-- The characters of a text that count: not white space around it, nor underscores. -/
def significant (text : String) : List Char := (Text.trim text).toList.filter (· != '_')

/-- A value is read from the characters, which may be negated: behind the sign may be white space. -/
def Readable (s : List Char) : Prop :=
  (∃ r, s = '-' :: r ∧ Numeral (r.dropWhile Text.isWhiteSpace)) ∨
    (∀ r, s ≠ '-' :: r) ∧ Numeral s

theorem isSome_numericValue?_iff {text : String} :
    (numericValue? text).isSome = true ↔ Readable (significant text) := by
  unfold numericValue? Readable
  generalize hs : significant text = s
  rw [show (Text.trim text).toList.filter (· != '_') = s from hs]
  by_cases h : ∃ r, s = '-' :: r
  · obtain ⟨r, rfl⟩ := h
    simp [Text.after?, Text.afterList?, Text.dropStart, isSome_read_iff]
  · have hnone : Text.after? "-" (String.ofList s) = none := by
      refine Text.after?_eq_none_iff.2 fun r hr => h ⟨r.toList, ?_⟩
      simpa using congrArg String.toList hr
    simp [hnone, not_exists.1 h, isSome_read_iff]

/-! ## Members -/

/-- A member without initializer can be counted from the expression. -/
def Counts (e : Node) : Prop := isNumeric e = true ∧ Readable (significant e.text)

/-- The count behind members with the given initializers. -/
def countAfter (next : Option Binary64) (inits : List (Option Node)) : Option Binary64 :=
  inits.foldl (fun next init => (memberValue init next).2.2) next

/-- The initializer nearest to the end. -/
def nearest? (inits : List (Option Node)) : Option Node := inits.reverse.findSome? id

theorem getElem?_members (next : Option Binary64) (parts : List (Node × Option Node)) (i : Nat) :
    ((members next parts)[i]?).map Member.isComputed = parts[i]?.map fun part =>
      (memberValue part.2 (countAfter next ((parts.take i).map Prod.snd))).2.1 := by
  induction parts generalizing next i with
  | nil => rfl
  | cons part parts ih =>
    cases i with
    | zero => rfl
    | succ i => exact ih _ i

theorem count_eq_none_iff {init : Option Node} {next : Option Binary64} :
    (memberValue init next).2.2 = none ↔
      (init = none ∧ next = none) ∨ ∃ e, init = some e ∧ ¬ Counts e.unwrap := by
  cases init with
  | none => cases next <;> simp [memberValue]
  | some e =>
    have hplain (h : isNumeric e.unwrap = true) : isPlainText e.unwrap = false := by
      simp only [isNumeric, Node.hasKind, Bool.or_eq_true, Bool.and_eq_true, beq_iff_eq] at h
      rcases h with h | ⟨⟨h, -⟩, -⟩
      iterate 2
        rw [isPlainText, Node.hasKindIn, h]
        rfl
    simp only [Counts, ← isSome_numericValue?_iff]
    by_cases hnumeric : isNumeric e.unwrap = true
    · simp [memberValue, hnumeric, hplain hnumeric]
    · simp only [memberValue, Option.map_some, hnumeric]
      split <;> simp [hnumeric]

theorem countAfter_eq_none_iff {next : Option Binary64} (inits : List (Option Node)) :
    countAfter next inits = none ↔ (nearest? inits = none ∧ next = none) ∨
      ∃ e, nearest? inits = some e ∧ ¬ Counts e.unwrap := by
  induction inits generalizing next with
  | nil => simp [countAfter, nearest?]
  | cons init inits ih =>
    have hnearest : nearest? (init :: inits) = (nearest? inits).or init := by simp [nearest?]
    rw [countAfter, foldl_cons, ← countAfter, ih, count_eq_none_iff, hnearest]
    cases nearest? inits <;> simp

/-- The initializers of the members of an enum, in their order. -/
def initializers (d : Declaration) : List (Option Node) :=
  ((d.node.typeBody?.map fun b => b.namedChildren.filterMap memberParts?).getD []).map Prod.snd

/-- A member without initializer is computed exactly if a member before it has one and nothing can be
counted from the nearest. -/
theorem isComputed_report_iff (d : Declaration) (i : Nat) (h : (initializers d)[i]? = some none) :
    ∃ m, (report d).members[i]? = some m ∧ (m.isComputed = true ↔
      ∃ e, nearest? ((initializers d).take i) = some e ∧ ¬ Counts e.unwrap) := by
  unfold initializers at *
  generalize hparts : (d.node.typeBody?.map fun b =>
    b.namedChildren.filterMap memberParts?).getD [] = parts at *
  have hmember := getElem?_members (some (Binary64.ofInt 0)) parts i
  rw [getElem?_map, Option.map_eq_some_iff] at h
  obtain ⟨part, hpart, hinit⟩ := h
  rw [hpart, Option.map_some, Option.map_eq_some_iff] at hmember
  obtain ⟨m, hm, hcomputed⟩ := hmember
  refine ⟨m, by rw [report, hparts]; exact hm, ?_⟩
  rw [hcomputed, hinit, ← map_take]
  have hnone := @countAfter_eq_none_iff (some (Binary64.ofInt 0)) ((parts.take i).map Prod.snd)
  simp only [reduceCtorEq, and_false, false_or] at hnone
  rw [← hnone]
  cases countAfter (some (Binary64.ofInt 0)) ((parts.take i).map Prod.snd) <;> simp [memberValue]

/-- The enum that a text begins with. -/
def enumOf (text : String) : Declaration :=
  let n := (Tree.parse text false).node 1
  ⟨default, .enumType, n, (n.field? .name).getD n⟩

def negatedEnum : Declaration := enumOf "enum E \x7b A = f(), B = (-0x1_F), C, D \x7d"

/-- The last member is counted from the negated literal. -/
theorem negatedEnum_counted : ∃ e,
    nearest? ((initializers negatedEnum).take 3) = some e ∧ Counts e.unwrap := by
  have heval : (report negatedEnum).members.map Member.isComputed = [true, false, false, false] ∧
      (initializers negatedEnum)[3]?.map Option.isNone = some true ∧
      (nearest? ((initializers negatedEnum).take 3)).isSome = true := by
    decide +kernel
  obtain ⟨hcomputed, hinit, hnearest⟩ := heval
  obtain ⟨init, hinit, hnone⟩ := Option.map_eq_some_iff.1 hinit
  rw [Option.isNone_iff_eq_none] at hnone
  subst hnone
  obtain ⟨m, hm, hiff⟩ := isComputed_report_iff negatedEnum 3 hinit
  obtain ⟨e, he⟩ := Option.isSome_iff_exists.1 hnearest
  have hfalse : m.isComputed = false := by
    have hlast := congrArg (·[3]?) hcomputed
    simpa [hm] using hlast
  refine ⟨e, he, Classical.not_not.1 fun hcounts => ?_⟩
  cases hfalse.symm.trans (hiff.2 ⟨e, he, hcounts⟩)

/-- Nothing is counted from a literal of 64 bits. -/
theorem wideEnum_computed :
    (report (enumOf "enum E \x7b A = 0xFFFFFFFFFFFFFFFF, B \x7d")).members.map Member.isComputed =
      [false, true] ∧
    (initializers (enumOf "enum E \x7b A = 0xFFFFFFFFFFFFFFFF, B \x7d")).map
      (Option.map (isNumeric ·.unwrap)) = [some true, none] := by
  decide +kernel

end ScriptAtlas.Query.EnumMembers
