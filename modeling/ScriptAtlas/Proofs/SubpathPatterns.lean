import Mathlib.Data.List.Induction
import ScriptAtlas.Project.Manifest
import ScriptAtlas.Proofs.TextCuts

/-!
# The key that a subpath of a package uses

Of the keys with a star that match a subpath, the one with the longest text before its star is meant to be
used, and of several with one such text the longest. What is used is the longest key of all that match, and
these include keys whose star stands for nothing, keys with several stars and keys for directories. So the
two differ where a key makes up for a shorter text before its star with a longer one behind it.

* `Json.mem_sortedFields_iff`, `Json.pairwise_sortedFields`: fields in the order of their names;
* `bestKey?_eq_some_iff`: the key that is used outranks all others that match;
* `StarMatch`: a key with one star that matches, `StarMatch.IsPreferred`: the one that is meant;
* `usesKey_preferred_iff`: when the two are the same.
-/

namespace ScriptAtlas

open List

namespace Json

/-! ## Fields by name -/

variable {fields : List (String × Json)} {f : String × Json} {key : String}

/-- The last field of each name, in the order in which they stand. -/
def lastFields (fields : List (String × Json)) : List (String × Json) :=
  fields.foldl (fun acc f => acc.filter (·.1 != f.1) ++ [f]) []

theorem lastFields_concat (fields : List (String × Json)) (f : String × Json) :
    lastFields (fields ++ [f]) = (lastFields fields).filter (·.1 != f.1) ++ [f] := by
  rw [lastFields, foldl_append]
  rfl

theorem get?_concat (fields : List (String × Json)) (f : String × Json) (key : String) :
    (object (fields ++ [f])).get? key =
      if f.1 = key then some f.2 else (object fields).get? key := by
  rw [get?, reverse_append, reverse_singleton, singleton_append, find?_cons]
  by_cases hkey : f.1 = key
  · rw [if_pos hkey, beq_iff_eq.2 hkey]
    rfl
  · rw [if_neg hkey, beq_false_of_ne hkey, get?]

theorem isSome_get?_iff : ((object fields).get? key).isSome ↔ ∃ f ∈ fields, f.1 = key := by
  simp [get?]

theorem mem_lastFields_iff : f ∈ lastFields fields ↔ (object fields).get? f.1 = some f.2 := by
  induction fields using List.reverseRecOn with
  | nil => simp [lastFields, get?]
  | append_singleton fields g ih =>
    rw [lastFields_concat, get?_concat, mem_append, mem_filter, mem_singleton, ih]
    by_cases hname : g.1 = f.1
    · rw [if_pos hname, Option.some_inj]
      constructor
      · rintro (⟨-, hne⟩ | rfl)
        · simp [hname] at hne
        · rfl
      · intro hvalue
        exact .inr (Prod.ext hname.symm hvalue.symm)
    · rw [if_neg hname]
      constructor
      · rintro (⟨hget, -⟩ | rfl)
        · exact hget
        · exact absurd rfl hname
      · intro hget
        exact .inl ⟨hget, by simpa using Ne.symm hname⟩

theorem nodup_lastFields (fields : List (String × Json)) :
    (lastFields fields).Pairwise fun a b => a.1 ≠ b.1 := by
  induction fields using List.reverseRecOn with
  | nil => exact List.Pairwise.nil
  | append_singleton fields g ih =>
    rw [lastFields_concat, pairwise_append]
    refine ⟨ih.filter _, pairwise_singleton _ _, fun a ha b hb => ?_⟩
    rw [mem_singleton.1 hb]
    simpa using (mem_filter.1 ha).2

theorem mem_sortedFields_iff : f ∈ sortedFields fields ↔ (object fields).get? f.1 = some f.2 := by
  rw [sortedFields, mem_mergeSort]
  exact mem_lastFields_iff

theorem pairwise_sortedFields (fields : List (String × Json)) :
    (sortedFields fields).Pairwise fun a b => a.1 < b.1 := by
  have hle (a b : String × Json) : (!decide (b.1 < a.1)) = true ↔ a.1 ≤ b.1 := by
    rw [Bool.not_eq_true', decide_eq_false_iff_not, String.not_lt]
  have hsorted : (sortedFields fields).Pairwise fun a b => (!decide (b.1 < a.1)) = true := by
    apply pairwise_mergeSort
    · intro a b c hab hbc
      rw [hle] at hab hbc ⊢
      exact String.le_trans hab hbc
    · intro a b
      rw [Bool.or_eq_true, hle, hle]
      exact String.le_total _ _
  have hnodup : (sortedFields fields).Pairwise fun a b => a.1 ≠ b.1 :=
    (mergeSort_perm _ _).symm.pairwise (nodup_lastFields fields) fun hne => Ne.symm hne
  refine (hsorted.and hnodup).imp fun {a b} h => ?_
  obtain ⟨hab, hne⟩ := h
  rw [hle] at hab
  by_contra hlt
  exact hne (String.le_antisymm hab (String.not_lt.1 hlt))

end Json

namespace Project

open Text

variable {fields : List (String × Json)} {f : String × Json} {subpath key key' captured : String}
variable {x : String × Json × String}

/-! ## The key that is used -/

/-- A key comes before another: it is longer, or as long and first in the order of texts. -/
def Outranks (key other : String) : Prop :=
  other.utf8ByteSize < key.utf8ByteSize ∨ (other.utf8ByteSize = key.utf8ByteSize ∧ key < other)

instance (key other : String) : Decidable (Outranks key other) := inferInstanceAs (Decidable (_ ∨ _))

theorem Outranks.size_le (h : Outranks key key') : key'.utf8ByteSize ≤ key.utf8ByteSize := by
  rcases h with h | h <;> omega

theorem not_outranks_iff (hne : key ≠ key') : ¬Outranks key' key ↔ Outranks key key' := by
  unfold Outranks
  rw [not_or, not_and, String.not_lt]
  constructor
  · rintro ⟨hsize, hle⟩
    rcases Nat.lt_or_eq_of_le (Nat.le_of_not_lt hsize) with hlt | heq
    · exact .inl hlt
    · refine .inr ⟨heq, ?_⟩
      by_contra hnot
      exact hne (String.le_antisymm (hle heq.symm) (String.not_lt.1 hnot))
  · rintro (hlt | ⟨heq, hlt⟩)
    · exact ⟨by omega, fun heq => by omega⟩
    · exact ⟨by omega, fun _ => String.not_lt.1 (String.lt_asymm hlt)⟩

theorem not_outranks_self (key : String) : ¬Outranks key key := by
  rintro (h | ⟨-, h⟩)
  · exact Nat.lt_irrefl _ h
  · exact String.lt_irrefl _ h

/-- A field whose key matches and outranks the other keys that do, with what it leaves of the subpath. -/
structure Foremost (fields : List (String × Json)) (subpath : String) (x : String × Json × String) :
    Prop where
  mem : (x.1, x.2.1) ∈ fields
  capture : keyCapture? x.1 subpath = some x.2.2
  outranks : ∀ f ∈ fields, (keyCapture? f.1 subpath).isSome → f.1 = x.1 ∨ Outranks x.1 f.1

theorem bestKey?_concat_of_none (fields : List (String × Json)) (h : keyCapture? f.1 subpath = none) :
    bestKey? (fields ++ [f]) subpath = bestKey? fields subpath := by
  simp [bestKey?, h]

theorem bestKey?_concat_of_some (h : keyCapture? f.1 subpath = some captured)
    (hbest : bestKey? fields subpath = none) :
    bestKey? (fields ++ [f]) subpath = some (f.1, f.2, captured) := by
  unfold bestKey? at hbest ⊢
  simp [h, hbest]

theorem bestKey?_concat_of_some_some (h : keyCapture? f.1 subpath = some captured)
    (hbest : bestKey? fields subpath = some x) :
    bestKey? (fields ++ [f]) subpath =
      if x.1.utf8ByteSize < f.1.utf8ByteSize then some (f.1, f.2, captured) else some x := by
  unfold bestKey? at hbest ⊢
  simp [h, hbest]

/-- One more field, behind all others in order, takes the lead exactly if its key is longer. -/
theorem Foremost.concat (h : Foremost fields subpath x) (hlast : ∀ g ∈ fields, g.1 < f.1)
    (hcapture : keyCapture? f.1 subpath = some captured) :
    Foremost (fields ++ [f]) subpath
      (if x.1.utf8ByteSize < f.1.utf8ByteSize then (f.1, f.2, captured) else x) := by
  by_cases hsize : x.1.utf8ByteSize < f.1.utf8ByteSize
  · rw [if_pos hsize]
    refine ⟨by simp, hcapture, fun g hg hmatch => ?_⟩
    rcases mem_append.1 hg with hg | hg
    · rcases h.outranks g hg hmatch with heq | hout
      · exact .inr (.inl (heq ▸ hsize))
      · exact .inr (.inl (Nat.lt_of_le_of_lt hout.size_le hsize))
    · exact .inl (by rw [mem_singleton.1 hg])
  · rw [if_neg hsize]
    refine ⟨mem_append_left _ h.mem, h.capture, fun g hg hmatch => ?_⟩
    rcases mem_append.1 hg with hg | hg
    · exact h.outranks g hg hmatch
    · rw [mem_singleton.1 hg]
      have hafter : x.1 < f.1 := hlast _ h.mem
      rcases Nat.lt_or_eq_of_le (Nat.le_of_not_lt hsize) with hlt | heq
      · exact .inr (.inl hlt)
      · exact .inr (.inr ⟨heq, hafter⟩)

theorem Foremost.concat_of_none (h : Foremost fields subpath x)
    (hnone : keyCapture? f.1 subpath = none) : Foremost (fields ++ [f]) subpath x := by
  refine ⟨mem_append_left _ h.mem, h.capture, fun g hg hmatch => ?_⟩
  rcases mem_append.1 hg with hg | hg
  · exact h.outranks g hg hmatch
  · rw [mem_singleton.1 hg, hnone] at hmatch
    cases hmatch

/-- Going through fields in the order of their names, the key that is kept leads those so far. -/
theorem foremost_bestKey? (hsorted : fields.Pairwise fun a b => a.1 < b.1) (subpath : String) :
    (∀ x, bestKey? fields subpath = some x → Foremost fields subpath x) ∧
      (bestKey? fields subpath = none → ∀ f ∈ fields, keyCapture? f.1 subpath = none) := by
  induction fields using List.reverseRecOn with
  | nil => exact ⟨fun x hx => absurd hx (by simp [bestKey?]), fun _ f hf => absurd hf not_mem_nil⟩
  | append_singleton fields f ih =>
    obtain ⟨hfields, -, hlast⟩ := pairwise_append.1 hsorted
    have hlast : ∀ g ∈ fields, g.1 < f.1 := fun g hg => hlast g hg f (mem_singleton_self f)
    obtain ⟨hforemost, hnone⟩ := ih hfields
    cases hcapture : keyCapture? f.1 subpath with
    | none =>
      rw [bestKey?_concat_of_none fields hcapture]
      refine ⟨fun x hx => (hforemost x hx).concat_of_none hcapture, fun hbest g hg => ?_⟩
      rcases mem_append.1 hg with hg | hg
      · exact hnone hbest g hg
      · rwa [mem_singleton.1 hg]
    | some captured =>
      cases hbest : bestKey? fields subpath with
      | none =>
        rw [bestKey?_concat_of_some hcapture hbest]
        refine ⟨fun x hx => ?_, fun h => by cases h⟩
        cases hx
        refine ⟨by simp, hcapture, fun g hg hmatch => ?_⟩
        rcases mem_append.1 hg with hg | hg
        · rw [hnone hbest g hg] at hmatch
          cases hmatch
        · exact .inl (by rw [mem_singleton.1 hg])
      | some y =>
        rw [bestKey?_concat_of_some_some hcapture hbest, ← apply_ite some]
        refine ⟨fun x hx => ?_, fun h => by cases h⟩
        cases hx
        exact (hforemost y hbest).concat hlast hcapture

/-- The key that is used: it matches, and it outranks the other keys that do. -/
theorem bestKey?_eq_some_iff {value : Json} :
    bestKey? (Json.sortedFields fields) subpath = some (key, value, captured) ↔
      (Json.object fields).get? key = some value ∧ keyCapture? key subpath = some captured ∧
        ∀ f ∈ fields, (keyCapture? f.1 subpath).isSome → ¬Outranks f.1 key := by
  obtain ⟨hforemost, hnone⟩ := foremost_bestKey? (Json.pairwise_sortedFields fields) subpath
  -- every name of a field is the key of a field in order
  have hfield {f : String × Json} (hf : f ∈ fields) : ∃ v, (f.1, v) ∈ Json.sortedFields fields := by
    obtain ⟨v, hv⟩ := Option.isSome_iff_exists.1 (Json.isSome_get?_iff.2 ⟨f, hf, rfl⟩)
    exact ⟨v, Json.mem_sortedFields_iff.2 hv⟩
  constructor
  · intro hbest
    have hlead := hforemost _ hbest
    refine ⟨Json.mem_sortedFields_iff.1 hlead.mem, hlead.capture, fun f hf hmatch hout => ?_⟩
    obtain ⟨v, hv⟩ := hfield hf
    rcases hlead.outranks _ hv hmatch with heq | hout'
    · exact not_outranks_self key ((show f.1 = key from heq) ▸ hout)
    · have hne : key ≠ f.1 := fun heq => not_outranks_self key (heq ▸ hout)
      exact (not_outranks_iff hne).2 hout' hout
  · rintro ⟨hvalue, hcapture, htop⟩
    have hmem : (key, value) ∈ Json.sortedFields fields := Json.mem_sortedFields_iff.2 hvalue
    cases hbest : bestKey? (Json.sortedFields fields) subpath with
    | none =>
      have hkey := hnone hbest _ hmem
      rw [hcapture] at hkey
      cases hkey
    | some x =>
      obtain ⟨key', value', captured'⟩ := x
      have hlead := hforemost _ hbest
      have hvalue' := Json.mem_sortedFields_iff.1 hlead.mem
      have hcapture' : keyCapture? key' subpath = some captured' := hlead.capture
      obtain ⟨g, hg, hname⟩ := Json.isSome_get?_iff.1 (Option.isSome_iff_exists.2 ⟨_, hvalue'⟩)
      have hname : g.1 = key' := hname
      have hnot := htop g hg (by rw [hname, hcapture']; rfl)
      rw [hname] at hnot
      have heq : key = key' :=
        (hlead.outranks _ hmem (by rw [hcapture]; rfl)).resolve_right hnot
      subst heq
      rw [hvalue] at hvalue'
      rw [hcapture] at hcapture'
      cases hvalue'
      cases hcapture'
      rfl

/-- The targets for a subpath are those of a key, which leaves the captured text of it. -/
def UsesKey (fields : List (String × Json)) (subpath key captured : String) : Prop :=
  ∃ value, bestKey? (Json.sortedFields fields) subpath = some (key, value, captured)

theorem usesKey_iff (hkey : ∃ f ∈ fields, f.1 = key) (hcapture : keyCapture? key subpath = some captured) :
    UsesKey fields subpath key captured ↔
      ∀ f ∈ fields, (keyCapture? f.1 subpath).isSome → ¬Outranks f.1 key := by
  constructor
  · rintro ⟨value, hbest⟩
    exact (bestKey?_eq_some_iff.1 hbest).2.2
  · intro htop
    obtain ⟨value, hvalue⟩ := Option.isSome_iff_exists.1 (Json.isSome_get?_iff.2 hkey)
    exact ⟨value, bestKey?_eq_some_iff.2 ⟨hvalue, hcapture, htop⟩⟩

/-- What is left of the subpath is put in for every star of the targets. -/
theorem exportTargets_of_usesKey (hkeys : (fields.any fun f => beginsWith "." f.1) = true)
    (hnot : (Json.object fields).get? subpath = none) (hstar : hasChar '*' key = true)
    (h : UsesKey fields subpath key captured) :
    ∃ value, (Json.object fields).get? key = some value ∧
      exportTargets (.object fields) subpath = (distinctTargets value).map (replace '*' captured) := by
  obtain ⟨value, hbest⟩ := h
  refine ⟨value, (bestKey?_eq_some_iff.1 hbest).1, ?_⟩
  simp only [exportTargets, hkeys, hnot, hbest, hstar, if_true]

/-! ## The key that is meant -/

/-- A key with one star that matches a subpath: what stands before and behind the star stands at the two
ends of the subpath, and the star stands for some text between them. -/
structure StarMatch (key subpath : String) where
  front : String
  back : String
  captured : String
  key_eq : key = front ++ "*" ++ back
  front_free : '*' ∉ front.toList
  back_free : '*' ∉ back.toList
  subpath_eq : subpath = front ++ captured ++ back
  captured_ne : captured ≠ ""

theorem exists_append_of_length_le {a b r t : String} (h : a ++ r = b ++ t)
    (hle : a.length ≤ b.length) : ∃ u, b = a ++ u := by
  have hlist : a.toList ++ r.toList = b.toList ++ t.toList := by
    simpa using congrArg String.toList h
  have ha : a.toList <+: b.toList ++ t.toList := ⟨_, hlist⟩
  obtain ⟨u, hu⟩ := prefix_of_prefix_length_le ha ⟨_, rfl⟩ (by simpa only [String.length_toList] using hle)
  exact ⟨String.ofList u, by rw [← String.toList_inj]; simp [hu]⟩

theorem exists_append_of_length_le' {a b r t : String} (h : r ++ a = t ++ b)
    (hle : a.length ≤ b.length) : ∃ u, b = u ++ a := by
  have hlist : r.toList ++ a.toList = t.toList ++ b.toList := by
    simpa using congrArg String.toList h
  have ha : a.toList <:+ t.toList ++ b.toList := ⟨_, hlist⟩
  obtain ⟨u, hu⟩ := suffix_of_suffix_length_le ha ⟨_, rfl⟩ (by simpa only [String.length_toList] using hle)
  exact ⟨String.ofList u, by rw [← String.toList_inj]; simp [hu]⟩

namespace StarMatch

theorem splitOnce?_key (m : StarMatch key subpath) : splitOnce? '*' key = some (m.front, m.back) :=
  splitOnce?_eq_some_iff.2 ⟨m.front_free, m.key_eq⟩

theorem keyCapture?_eq (m : StarMatch key subpath) : keyCapture? key subpath = some m.captured := by
  have hafter : after? m.front subpath = some (m.captured ++ m.back) :=
    after?_eq_some_iff.2 (m.subpath_eq.trans String.append_assoc)
  have hbefore : before? m.back (m.captured ++ m.back) = some m.captured :=
    before?_eq_some_iff.2 rfl
  simp only [keyCapture?, m.splitOnce?_key, hafter, Option.bind_some, hbefore]

theorem hasChar_key (m : StarMatch key subpath) : hasChar '*' key = true := by
  have hkey := congrArg String.toList m.key_eq
  simp [hasChar, hkey]

theorem size_key (m : StarMatch key subpath) :
    key.utf8ByteSize = m.front.utf8ByteSize + 1 + m.back.utf8ByteSize := by
  have hkey := congrArg String.utf8ByteSize m.key_eq
  rwa [String.utf8ByteSize_append, String.utf8ByteSize_append] at hkey

theorem length_key (m : StarMatch key subpath) : key.length = m.front.length + 1 + m.back.length := by
  have hkey := congrArg String.length m.key_eq
  rwa [String.length_append, String.length_append] at hkey

/-- The match of the key that is meant: no other key that matches has a longer text before its star, or is
longer with a text before its star that is as long. -/
def IsPreferred (m : StarMatch key subpath) (fields : List (String × Json)) : Prop :=
  (∃ f ∈ fields, f.1 = key) ∧ ∀ f ∈ fields, ∀ m' : StarMatch f.1 subpath,
    m'.front.length < m.front.length ∨ (m'.front.length = m.front.length ∧ f.1.length ≤ key.length)

theorem isPreferred_of_splitOnce? (m : StarMatch key subpath) (hkey : ∃ f ∈ fields, f.1 = key)
    (h : ∀ f ∈ fields, ∀ cut ∈ splitOnce? '*' f.1, cut.1.length < m.front.length ∨
      (cut.1.length = m.front.length ∧ f.1.length ≤ key.length)) : m.IsPreferred fields :=
  ⟨hkey, fun f hf m' => h f hf _ m'.splitOnce?_key⟩

/-- A key that matches and outranks the one that is meant has a shorter text before its star, and makes up
for it behind. -/
theorem IsPreferred.lt_of_outranks {m : StarMatch key subpath} (hm : m.IsPreferred fields)
    (hf : f ∈ fields) (m' : StarMatch f.1 subpath) (hout : Outranks f.1 key) :
    m'.front.length < m.front.length ∧ m.back.length < m'.back.length := by
  have hsize := hout.size_le
  rw [m.size_key, m'.size_key] at hsize
  have hends : m'.front ++ m'.captured ++ m'.back = m.front ++ m.captured ++ m.back :=
    m'.subpath_eq.symm.trans m.subpath_eq
  have hfronts : m'.front ++ (m'.captured ++ m'.back) = m.front ++ (m.captured ++ m.back) := by
    rw [← String.append_assoc, ← String.append_assoc, hends]
  rcases hm.2 f hf m' with hlt | ⟨heq, hle⟩
  · refine ⟨hlt, Nat.lt_of_not_le fun hback => ?_⟩
    obtain ⟨u, hu⟩ := exists_append_of_length_le hfronts (Nat.le_of_lt hlt)
    obtain ⟨v, hv⟩ := exists_append_of_length_le' hends hback
    have hu_pos : u.utf8ByteSize ≠ 0 := by
      rw [Ne, String.utf8ByteSize_eq_zero_iff]
      rintro rfl
      rw [String.append_empty] at hu
      rw [hu] at hlt
      exact Nat.lt_irrefl _ hlt
    rw [hu, hv, String.utf8ByteSize_append, String.utf8ByteSize_append] at hsize
    omega
  · -- with one text before the star, the key that is meant is the longer one
    obtain ⟨u, hu⟩ := exists_append_of_length_le hfronts (Nat.le_of_eq heq)
    have hback : m'.back.length ≤ m.back.length := by
      rw [m.length_key, m'.length_key] at hle
      omega
    obtain ⟨v, hv⟩ := exists_append_of_length_le' hends hback
    have hlengths := congrArg String.length hu
    rw [String.length_append] at hlengths
    have hu_empty : u = "" := String.length_eq_zero_iff.1 (by omega)
    rw [hu, hv, hu_empty, String.append_empty, String.utf8ByteSize_append] at hsize
    have hv_empty : v = "" := String.utf8ByteSize_eq_zero_iff.1 (by omega)
    rw [hv_empty, String.empty_append] at hv
    rw [hu_empty, String.append_empty] at hu
    have hkey : f.1 = key := by
      rw [m'.key_eq, ← hu, ← hv, ← m.key_eq]
    exact absurd (hkey ▸ hout) (not_outranks_self key)

end StarMatch

/-- The key that is meant is used exactly if no key that matches outranks it, and then every star of its
targets is replaced by what it captured. A key with one star, which stands for some text, outranks the one
that is meant only with a shorter text before its star and a longer one behind; so if all keys that match are
such keys with one text behind their stars, as patterns for directories are, the key that is meant is used. -/
theorem usesKey_preferred_iff (hkeys : (fields.any fun f => beginsWith "." f.1) = true)
    (hnot : (Json.object fields).get? subpath = none) (m : StarMatch key subpath)
    (hm : m.IsPreferred fields) :
    (UsesKey fields subpath key m.captured ↔
      ∀ f ∈ fields, (keyCapture? f.1 subpath).isSome → ¬Outranks f.1 key) ∧
    (UsesKey fields subpath key m.captured → ∃ value, (Json.object fields).get? key = some value ∧
      exportTargets (.object fields) subpath = (distinctTargets value).map (replace '*' m.captured)) ∧
    (∀ f ∈ fields, ∀ m' : StarMatch f.1 subpath, Outranks f.1 key →
      m'.front.length < m.front.length ∧ m.back.length < m'.back.length) ∧
    ((∀ f ∈ fields, (keyCapture? f.1 subpath).isSome →
      ∃ m' : StarMatch f.1 subpath, m'.back = m.back) → UsesKey fields subpath key m.captured) := by
  have huses := usesKey_iff hm.1 m.keyCapture?_eq
  have hshorter : ∀ f ∈ fields, ∀ m' : StarMatch f.1 subpath, Outranks f.1 key →
      m'.front.length < m.front.length ∧ m.back.length < m'.back.length :=
    fun f hf m' hout => hm.lt_of_outranks hf m' hout
  refine ⟨huses, exportTargets_of_usesKey hkeys hnot m.hasChar_key, hshorter, fun hback => ?_⟩
  rw [huses]
  intro f hf hmatch hout
  obtain ⟨m', heq⟩ := hback f hf hmatch
  have hlt := (hshorter f hf m' hout).2
  rw [heq] at hlt
  exact Nat.lt_irrefl _ hlt

/-- The keys of two directories, of which one is in the other. -/
def nestedKeys : List (String × Json) :=
  [(".", .string "./index.js"), ("./a/*", .string "./one/*.js"), ("./a/b/*", .string "./two/*/*.js")]

theorem nestedKeys_used :
    ∃ m : StarMatch "./a/b/*" "./a/b/c", m.IsPreferred nestedKeys ∧
      UsesKey nestedKeys "./a/b/c" "./a/b/*" m.captured ∧
      exportTargets (.object nestedKeys) "./a/b/c" = ["./two/c/c.js"] := by
  let m : StarMatch "./a/b/*" "./a/b/c" :=
    ⟨"./a/b/", "", "c", by decide, by decide, by decide, by decide, by decide⟩
  have hm : m.IsPreferred nestedKeys := m.isPreferred_of_splitOnce? (by simp [nestedKeys]) (by decide +kernel)
  obtain ⟨huses, htargets, -, -⟩ := usesKey_preferred_iff (by decide +kernel) rfl m hm
  have hused : UsesKey nestedKeys "./a/b/c" "./a/b/*" m.captured := huses.2 (by decide +kernel)
  obtain ⟨value, hvalue, heq⟩ := htargets hused
  cases (show some (Json.string "./two/*/*.js") = some value from hvalue)
  exact ⟨m, hm, hused, heq.trans (by decide +kernel)⟩

/-- A key for a directory, and a key for a file in any directory. -/
def overlappingKeys : List (String × Json) :=
  [("./a/*", .string "./one/*"), ("./*/bcd", .string "./two/*")]

/-- The key of the directory is meant, with the longer text before its star, but the longer key is used. -/
theorem overlappingKeys_misused :
    (∃ m : StarMatch "./a/*" "./a/bcd", m.IsPreferred overlappingKeys ∧
      (Json.object overlappingKeys).get? "./a/*" = some (.string "./one/*") ∧
      (distinctTargets (.string "./one/*")).map (replace '*' m.captured) = ["./one/bcd"]) ∧
    (∀ f ∈ overlappingKeys, endsWith "/" f.1 = false) ∧
    exportTargets (.object overlappingKeys) "./a/bcd" = ["./two/a"] := by
  refine ⟨?_, by decide +kernel, ?_⟩
  · let m : StarMatch "./a/*" "./a/bcd" :=
      ⟨"./a/", "", "bcd", by decide, by decide, by decide, by decide, by decide⟩
    exact ⟨m, m.isPreferred_of_splitOnce? (by simp [overlappingKeys]) (by decide +kernel), rfl,
      by decide +kernel⟩
  · have hused : UsesKey overlappingKeys "./a/bcd" "./*/bcd" "a" :=
      (usesKey_iff (by simp [overlappingKeys]) (by decide +kernel)).2 (by decide +kernel)
    obtain ⟨value, hvalue, heq⟩ :=
      exportTargets_of_usesKey (by decide +kernel) rfl (by decide +kernel) hused
    cases (show some (Json.string "./two/*") = some value from hvalue)
    exact heq.trans (by decide +kernel)

end Project

end ScriptAtlas
