import Mathlib.Logic.Function.Iterate
import ScriptAtlas.Proofs.Hints
import ScriptAtlas.Proofs.LiteralGlobs

/-!
# Directories that a configuration includes

A pattern for a directory is taken as text: `./` is dropped in front and slashes are dropped behind,
and what is left stands for itself and for all below it. Paths are compared with that text as they
are, so the pattern includes the directory that it names only if the text is that of the directory:
names that are joined by single slashes.

* `Path.Spells`: the texts that are read as names, and `Path.spells_iff`: what is left of them;
* `BuildConfig.matchesAny_iff`: the paths that such a pattern matches;
* `BuildConfig.coversExactly_iff`: the patterns that include all of a directory, and nothing else.
-/

namespace ScriptAtlas

open List Storage Pattern

/-! ## Leading and trailing parts -/

namespace Text

variable {p s : String}

theorem exists_iterate_dropLeadingUpTo (p : String) (fuel : Nat) (s : String) :
    ∃ m : Nat, s = (p ++ ·)^[m] (dropLeadingUpTo p fuel s) := by
  induction fuel generalizing s with
  | zero => exact ⟨0, rfl⟩
  | succ fuel ih =>
    rw [dropLeadingUpTo]
    cases hs : after? p s with
    | none => exact ⟨0, rfl⟩
    | some rest =>
      obtain ⟨m, hm⟩ := ih rest
      exact ⟨m + 1, by rw [Function.iterate_succ_apply', ← hm, after?_eq_some_iff.1 hs]⟩

theorem dropLeadingUpTo_iterate (h : ∀ r, s ≠ p ++ r) {m fuel : Nat} (hm : m ≤ fuel) :
    dropLeadingUpTo p fuel ((p ++ ·)^[m] s) = s := by
  induction fuel generalizing m with
  | zero =>
    obtain rfl := Nat.le_zero.1 hm
    rfl
  | succ fuel ih =>
    cases m with
    | zero =>
      rw [Function.iterate_zero_apply, dropLeadingUpTo, after?_eq_none_iff.2 h]
    | succ m =>
      rw [Function.iterate_succ_apply', dropLeadingUpTo, after?_eq_some_iff.2 rfl]
      exact ih (by omega)

theorem exists_iterate_dropLeading (p s : String) : ∃ m : Nat, s = (p ++ ·)^[m] (dropLeading p s) :=
  exists_iterate_dropLeadingUpTo p s.length s

theorem dropLeading_iterate (hp : 0 < p.length) (h : ∀ r, s ≠ p ++ r) (m : Nat) :
    dropLeading p ((p ++ ·)^[m] s) = s := by
  refine dropLeadingUpTo_iterate h ?_
  induction m with
  | zero => exact Nat.zero_le _
  | succ m ih =>
    rw [Function.iterate_succ_apply', String.length_append]
    omega

theorem dropEnd_append_slash (s : String) : dropEnd (· == '/') (s ++ "/") = dropEnd (· == '/') s := by
  simp [dropEnd]

theorem dropEnd_eq_self (h : ∀ r, s ≠ r ++ "/") : dropEnd (· == '/') s = s := by
  have hlast : s.toList.reverse.dropWhile (· == '/') = s.toList.reverse := by
    cases hs : s.toList.reverse with
    | nil => rfl
    | cons d rest =>
      have htext : s = String.ofList rest.reverse ++ String.singleton d := by
        rw [← String.toList_inj, ← reverse_inj, hs]
        simp
      have hd : d ≠ '/' := fun hd => h (String.ofList rest.reverse) (by rw [htext, hd]; rfl)
      simp [hd]
  rw [dropEnd, hlast, reverse_reverse, String.ofList_toList]

theorem dropEnd_iterate (h : ∀ r, s ≠ r ++ "/") (n : Nat) :
    dropEnd (· == '/') ((· ++ "/")^[n] s) = s := by
  induction n with
  | zero => exact dropEnd_eq_self h
  | succ n ih => rw [Function.iterate_succ_apply', dropEnd_append_slash, ih]

theorem exists_iterate_dropEnd (s : String) :
    ∃ n : Nat, s = (· ++ "/")^[n] (dropEnd (· == '/') s) := by
  by_cases h : ∃ r, s = r ++ "/"
  · obtain ⟨r, rfl⟩ := h
    have hshorter : r.length < (r ++ "/").length := by
      rw [String.length_append]
      exact Nat.lt_add_of_pos_right (by decide)
    obtain ⟨n, hn⟩ := exists_iterate_dropEnd r
    exact ⟨n + 1, by rw [dropEnd_append_slash, Function.iterate_succ_apply', ← hn]⟩
  · exact ⟨0, (dropEnd_eq_self (not_exists.1 h)).symm⟩
termination_by s.length

theorem split_append_slash (s : String) : split '/' (s ++ "/") = split '/' s ++ [""] := by
  have hsplit : split '/' (s ++ "/" ++ "") = split '/' s ++ [""] := split_append_split
  rwa [String.append_empty] at hsplit

theorem split_dot_append (s : String) : split '/' ("./" ++ s) = "." :: split '/' s :=
  split_append (a := ".") (by decide)

theorem split_slash_append (s : String) : split '/' ("/" ++ s) = "" :: split '/' s :=
  split_append (a := "") (by decide)

theorem split_iterate (s : String) (n : Nat) :
    split '/' ((· ++ "/")^[n] s) = split '/' s ++ List.replicate n "" := by
  induction n with
  | zero => simp
  | succ n ih =>
    rw [Function.iterate_succ_apply', split_append_slash, ih, append_assoc, replicate_succ']

end Text

/-! ## Names and their spellings -/

namespace Storage.Path

variable {p dir : Path} {names below : List String} {text : String}

/-- A normalized path, as it is read from a text. -/
structure IsPlain (p : Path) : Prop where
  proper : p.IsProper
  normal : p.IsNormal

instance (p : Path) : Decidable p.IsPlain :=
  decidable_of_iff (p.IsProper ∧ p.IsNormal) ⟨fun h => ⟨h.1, h.2⟩, fun h => ⟨h.proper, h.normal⟩⟩

theorem IsPlain.of_subset {q : Path} (h : p.IsPlain) (hsub : q.segments ⊆ p.segments) : q.IsPlain where
  proper := fun s hs => h.proper s (hsub hs)
  normal := h.normal.of_subset hsub

/-- The names joined by slashes, perhaps with `./` in front, any number of times, and with slashes
behind. -/
def Spells (names : List String) (text : String) : Prop :=
  ∃ m n : Nat, text = ("./" ++ ·)^[m] ((· ++ "/")^[n] (Text.join "/" names))

theorem split_join_of_ne_nil (h : IsPlain ⟨names⟩) (hne : names ≠ []) :
    Text.split '/' (Text.join "/" names) = names :=
  Text.split_join hne fun s hs => (h.proper s hs).2.2

theorem join_ne_append_slash (h : IsPlain ⟨names⟩) (r : String) : Text.join "/" names ≠ r ++ "/" := by
  intro heq
  have hsplit := Text.split_append_slash r
  rw [← heq] at hsplit
  by_cases hne : names = []
  · subst hne
    have hlist := congrArg String.toList heq
    simp [Text.join] at hlist
  · rw [split_join_of_ne_nil h hne] at hsplit
    exact (h.proper "" (by simp [hsplit])).1 rfl

theorem iterate_join_ne_dot_append (h : IsPlain ⟨names⟩) (n : Nat) (r : String) :
    (· ++ "/")^[n] (Text.join "/" names) ≠ "./" ++ r := by
  intro heq
  have hdot := Text.split_dot_append r
  rw [← heq, Text.split_iterate] at hdot
  by_cases hne : names = []
  · subst hne
    exact absurd (congrArg List.head? hdot) (by simp [Text.join, Text.split, Text.splitList])
  · rw [split_join_of_ne_nil h hne] at hdot
    obtain ⟨s, rest, rfl⟩ := exists_cons_of_ne_nil hne
    obtain ⟨rfl, -⟩ := List.cons.inj hdot
    exact (h.proper "." mem_cons_self).2.1 rfl

/-- What is left of a text when `./` is dropped in front and slashes are dropped behind. -/
def bareText (text : String) : String := Text.dropEnd (· == '/') (Text.dropLeading "./" text)

theorem exists_iterate_bareText (text : String) :
    ∃ m n : Nat, text = ("./" ++ ·)^[m] ((· ++ "/")^[n] (bareText text)) := by
  obtain ⟨m, hm⟩ := Text.exists_iterate_dropLeading "./" text
  obtain ⟨n, hn⟩ := Text.exists_iterate_dropEnd (Text.dropLeading "./" text)
  exact ⟨m, n, by rw [bareText, ← hn, ← hm]⟩

theorem spells_iff (h : IsPlain ⟨names⟩) : Spells names text ↔ bareText text = Text.join "/" names := by
  constructor
  · rintro ⟨m, n, rfl⟩
    rw [bareText, Text.dropLeading_iterate (by decide) (iterate_join_ne_dot_append h n),
      Text.dropEnd_iterate (join_ne_append_slash h)]
  · intro hbare
    obtain ⟨m, n, htext⟩ := exists_iterate_bareText text
    exact ⟨m, n, by rw [← hbare, ← htext]⟩

/-! ### Their segments -/

theorem components_dot_append (r : String) : components ("./" ++ r) = components r := by
  rw [components, Text.split_dot_append, components]
  rfl

theorem components_slash_append (r : String) : components ("/" ++ r) = components r := by
  rw [components, Text.split_slash_append, components]
  rfl

theorem components_append_slash (r : String) : components (r ++ "/") = components r := by
  rw [components, Text.split_append_slash, filter_append, components]
  exact append_nil _

theorem components_iterate {f : String → String} (h : ∀ r, components (f r) = components r)
    (n : Nat) (text : String) : components (f^[n] text) = components text := by
  induction n with
  | zero => rfl
  | succ n ih => rw [Function.iterate_succ_apply', h, ih]

theorem components_of_spells (h : IsPlain ⟨names⟩) (hspells : Spells names text) :
    components text = names := by
  obtain ⟨m, n, rfl⟩ := hspells
  rw [components_iterate components_dot_append, components_iterate components_append_slash,
    components_join h.proper]

theorem components_bareText (text : String) : components (bareText text) = components text := by
  obtain ⟨m, n, htext⟩ := exists_iterate_bareText text
  rw [← components_iterate components_append_slash n, ← components_iterate components_dot_append m,
    ← htext]

theorem isProper_components (text : String) : IsProper ⟨components text⟩ := by
  intro s hs
  obtain ⟨hsplit, hkeep⟩ := mem_filter.1 hs
  rw [Bool.and_eq_true, bne_iff_ne, bne_iff_ne] at hkeep
  exact ⟨hkeep.1, hkeep.2, Text.not_mem_of_mem_split hsplit⟩

theorem isPlain_normalize_join (hdir : dir.IsProper) (text : String) :
    (dir.join text).normalize.IsPlain := by
  refine ⟨fun s hs => ?_, isNormal_normalize _⟩
  have hmem := normalize_subset _ hs
  rw [join] at hmem
  split at hmem
  · exact isProper_components text s hmem
  · exact (mem_append.1 hmem).elim (hdir s) (isProper_components text s)

theorem isAbsoluteText_of_spells (h : IsPlain ⟨names⟩) (hne : names ≠ [])
    (hspells : Spells names text) : isAbsoluteText text = false := by
  refine Bool.eq_false_iff.2 fun habs => ?_
  obtain ⟨r, hr⟩ := Text.beginsWith_iff.1 habs
  obtain ⟨m, n, rfl⟩ := hspells
  cases m with
  | zero =>
    have hslash := Text.split_slash_append r
    rw [← hr, Function.iterate_zero_apply, Text.split_iterate, split_join_of_ne_nil h hne] at hslash
    obtain ⟨s, rest, rfl⟩ := exists_cons_of_ne_nil hne
    obtain ⟨rfl, -⟩ := List.cons.inj hslash
    exact (h.proper "" mem_cons_self).1 rfl
  | succ m =>
    rw [Function.iterate_succ_apply'] at hr
    have hlist := congrArg String.toList hr
    simp at hlist

theorem normalize_join_of_spells (hdir : dir.IsNormal) (h : IsPlain ⟨names⟩) (hne : names ≠ [])
    (hspells : Spells names text) : (dir.join text).normalize = ⟨dir.segments ++ names⟩ := by
  have hjoin : dir.join text = ⟨dir.segments ++ names⟩ := by
    rw [join, isAbsoluteText_of_spells h hne hspells, components_of_spells h hspells]
    rfl
  have hnormal : IsNormal ⟨dir.segments ++ names⟩ := fun hup =>
    (mem_append.1 hup).elim hdir h.normal
  rw [hjoin, hnormal.normalize]

theorem join_eq_or_eq_append_iff (hbelow : IsPlain ⟨below⟩) {text : String} :
    (Text.join "/" below = text ∨ ∃ rest, Text.join "/" below = text ++ "/" ++ rest)
      ↔ ∃ names, Text.join "/" names = text ∧ names <+: below ∧ (names = [] → below = []) := by
  constructor
  · rintro (rfl | ⟨rest, hrest⟩)
    · exact ⟨below, rfl, prefix_rfl, id⟩
    · have hne : below ≠ [] := by
        rintro rfl
        have hlist := congrArg String.toList hrest
        simp [Text.join] at hlist
      have hsplit : Text.split '/' (text ++ "/" ++ rest) = Text.split '/' text ++ Text.split '/' rest :=
        Text.split_append_split
      rw [← hrest, split_join_of_ne_nil hbelow hne] at hsplit
      -- the pieces of the text are then the first segments, so they are the names
      exact ⟨Text.split '/' text, Text.join_split (c := '/') text, ⟨_, hsplit.symm⟩,
        fun hnil => absurd hnil Text.split_ne_nil⟩
  · rintro ⟨names, rfl, ⟨rest, rfl⟩, hnil⟩
    by_cases hrest : rest = []
    · exact .inl (by rw [hrest, append_nil])
    · have hnames : names ≠ [] := fun h => hrest (by simpa [h] using hnil h)
      exact .inr ⟨Text.join "/" rest, Text.join_append hnames hrest⟩

end Storage.Path

/-! ## Patterns -/

namespace Project.BuildConfig

open Storage.Path

variable {c : BuildConfig} {pattern : String} {f : Path} {below : List String}

theorem subset_iterate {f : String → String} (h : ∀ r, r.toList ⊆ (f r).toList) (n : Nat)
    (text : String) : text.toList ⊆ (f^[n] text).toList := by
  induction n with
  | zero => exact List.Subset.refl _
  | succ n ih =>
    rw [Function.iterate_succ_apply']
    exact List.Subset.trans ih (h _)

theorem isLiteral_bareText (h : Glob.IsLiteral pattern) : Glob.IsLiteral (bareText pattern) := by
  obtain ⟨m, n, htext⟩ := exists_iterate_bareText pattern
  intro x hx
  refine h x ?_
  rw [htext]
  refine subset_iterate (fun r => ?_) m _ (subset_iterate (fun r => ?_) n _ hx)
  · simp
  · simp

theorem patternGlobs_eq (hliteral : Glob.IsLiteral pattern)
    (hbare : Path.textExtension? pattern = none) :
    patternGlobs pattern = [bareText pattern, bareText pattern ++ "/**/*"] := by
  have hplain : ∀ x ∈ Glob.wildcards, Text.hasChar x (bareText pattern) = false := by
    intro x hx
    simpa [Text.hasChar] using fun hmem => isLiteral_bareText hliteral x hmem hx
  have hextension : Path.textExtension? (bareText pattern) = none := by
    rw [← hbare, textExtension?, textExtension?, ofText, ofText, components_bareText]
  have hglob : (Text.hasChar '*' (bareText pattern) || Text.hasChar '?' (bareText pattern)
      || Text.hasChar '[' (bareText pattern)) = false := by
    rw [hplain _ (by decide), hplain _ (by decide), hplain _ (by decide)]
    rfl
  rw [bareText] at hglob hextension
  rw [patternGlobs, hglob, hextension]
  rfl

theorem matchesAny_iff (hliteral : Glob.IsLiteral pattern)
    (hbare : Path.textExtension? pattern = none) (hbelow : IsPlain ⟨below⟩) :
    matchesAny [pattern] (Text.join "/" below) = true
      ↔ ∃ names, IsPlain ⟨names⟩ ∧ Spells names pattern ∧ names <+: below
        ∧ (names = [] → below = []) := by
  have hbareText := isLiteral_bareText hliteral
  simp only [matchesAny, flatMap_singleton, patternGlobs_eq hliteral hbare, any_cons,
    any_nil, Bool.or_false, Bool.or_eq_true, Glob.parse_literal hbareText,
    Glob.parse_below hbareText, Glob.accepts_literal_iff, Glob.accepts_below_iff]
  rw [join_eq_or_eq_append_iff hbelow]
  constructor
  · rintro ⟨names, htext, hstart, hnil⟩
    have hplain : IsPlain ⟨names⟩ := hbelow.of_subset hstart.subset
    exact ⟨names, hplain, (spells_iff hplain).2 htext.symm, hstart, hnil⟩
  · rintro ⟨names, hplain, hspells, hstart, hnil⟩
    exact ⟨names, ((spells_iff hplain).1 hspells).symm, hstart, hnil⟩

/-- A configuration that says nothing of its files but one pattern. -/
structure OnlyIncludes (c : BuildConfig) (pattern : String) : Prop where
  files : c.files = none
  exclude : c.exclude = none
  include_ : c.include_ = some [pattern]

/-- A pattern without wildcards and without an extension, for a directory within another one. -/
structure NamesDirectory (dir : Path) (pattern : String) : Prop where
  literal : Glob.IsLiteral pattern
  bare : Path.textExtension? pattern = none
  within : (dir.join pattern).normalize.isWithin dir = true

theorem covers_iff (h : c.OnlyIncludes pattern) :
    c.covers f = true ↔ ∃ below, f.segments = c.dir.segments ++ below
      ∧ matchesAny [pattern] (Text.join "/" below) = true := by
  rw [covers, Path.below?]
  by_cases hwithin : c.dir.segments.isPrefixOf f.segments = true
  · obtain ⟨below, hbelow⟩ := isPrefixOf_iff_prefix.1 hwithin
    simp [← hbelow, h.files, h.exclude, h.include_]
  · rw [if_neg hwithin]
    refine iff_of_false (by simp) ?_
    rintro ⟨below, hbelow, -⟩
    have hprefix : c.dir.segments <+: f.segments := ⟨below, hbelow.symm⟩
    exact hwithin <| isPrefixOf_iff_prefix.2 hprefix

theorem covers_iff_spells (h : c.OnlyIncludes pattern) (hliteral : Glob.IsLiteral pattern)
    (hbare : Path.textExtension? pattern = none) (hf : f.IsPlain) :
    c.covers f = true ↔ ∃ names, IsPlain ⟨names⟩ ∧ Spells names pattern
      ∧ f.isWithin ⟨c.dir.segments ++ names⟩ = true ∧ (names = [] → f = c.dir) := by
  rw [covers_iff h]
  constructor
  · rintro ⟨below, hsegments, hmatch⟩
    have hbelow : IsPlain ⟨below⟩ := hf.of_subset (by simp [hsegments])
    obtain ⟨names, hplain, hspells, ⟨rest, hrest⟩, hnil⟩ := (matchesAny_iff hliteral hbare hbelow).1 hmatch
    refine ⟨names, hplain, hspells, Index.isWithin_iff.2 ⟨rest, ?_⟩, fun hnames => ?_⟩
    · rw [hsegments, ← hrest, append_assoc]
    · have hsame : f.segments = c.dir.segments := by rw [hsegments, hnil hnames, append_nil]
      exact congrArg Storage.Path.mk hsame
  · rintro ⟨names, hplain, hspells, hwithin, hnil⟩
    obtain ⟨rest, hrest⟩ := Index.isWithin_iff.1 hwithin
    have hsegments : f.segments = c.dir.segments ++ (names ++ rest) := by
      rw [hrest, append_assoc]
    have hbelow : IsPlain ⟨names ++ rest⟩ := hf.of_subset (by simp [hsegments])
    refine ⟨names ++ rest, hsegments, (matchesAny_iff hliteral hbare hbelow).2
      ⟨names, hplain, hspells, prefix_append _ _, fun hnames => ?_⟩⟩
    rw [hnil hnames] at hsegments
    exact append_right_eq_self.1 hsegments.symm

/-- The files of the configuration are those that are a directory or lie below it. -/
def CoversExactly (c : BuildConfig) (dir : Path) : Prop :=
  ∀ f : Path, f.IsPlain → (c.covers f = true ↔ f.isWithin dir = true)

theorem coversExactly_of_spells {names : List String} (h : c.OnlyIncludes pattern)
    (hp : NamesDirectory c.dir pattern) (hplain : IsPlain ⟨names⟩) (hne : names ≠ [])
    (hspells : Spells names pattern) : c.CoversExactly (c.dir.join pattern).normalize := by
  have hdir : c.dir.IsNormal := by
    obtain ⟨below, hbelow⟩ := Index.isWithin_iff.1 hp.within
    exact (isNormal_normalize _).of_subset (hbelow ▸ subset_append_left _ _)
  intro f hf
  rw [covers_iff_spells h hp.literal hp.bare hf, normalize_join_of_spells hdir hplain hne hspells]
  constructor
  · rintro ⟨other, hother, hspells', hwithin, -⟩
    have hsame : other = names := by
      rw [← components_of_spells hother hspells', components_of_spells hplain hspells]
    exact hsame ▸ hwithin
  · intro hwithin
    exact ⟨names, hplain, hspells, hwithin, fun hnil => absurd hnil hne⟩

/-- A pattern that includes all of a directory spells names below that of the configuration: else no
file in the directory would be included. -/
theorem exists_spells_of_coversExactly (h : c.OnlyIncludes pattern)
    (hp : NamesDirectory c.dir pattern) (hdir : c.dir.IsProper)
    (hexact : c.CoversExactly (c.dir.join pattern).normalize) :
    ∃ names, names ≠ [] ∧ IsPlain ⟨names⟩ ∧ Spells names pattern := by
  have hplain := isPlain_normalize_join hdir pattern
  have hinner : ((c.dir.join pattern).normalize.child "x").IsPlain := by
    refine ⟨fun s hs => ?_, hplain.normal.child (by decide)⟩
    rcases mem_append.1 hs with hs | hs
    · exact hplain.proper s hs
    · rw [mem_singleton.1 hs]
      decide
  have hcovers := (hexact _ hinner).2 (Index.isWithin_iff.2 ⟨["x"], rfl⟩)
  obtain ⟨names, hnames, hspells, -, hnil⟩ :=
    (covers_iff_spells h hp.literal hp.bare hinner).1 hcovers
  refine ⟨names, fun hempty => ?_, hnames, hspells⟩
  -- the file would be the configuration's directory, which lies above it
  obtain ⟨below, hbelow⟩ := Index.isWithin_iff.1 hp.within
  have hlength := congrArg (fun p : Path => p.segments.length) (hnil hempty)
  simp [Path.child, hbelow] at hlength

/-- A pattern for a directory includes, of the names it spells, all below them, and just the
configuration's own directory if there are none; so it includes all of the directory that it names
exactly if it spells names. Other ways to name the directory include nothing below it. -/
theorem coversExactly_iff (h : c.OnlyIncludes pattern) (hp : NamesDirectory c.dir pattern)
    (hdir : c.dir.IsProper) :
    (∀ f : Path, f.IsPlain → (c.covers f = true ↔ ∃ names, IsPlain ⟨names⟩ ∧ Spells names pattern
      ∧ f.isWithin ⟨c.dir.segments ++ names⟩ = true ∧ (names = [] → f = c.dir)))
    ∧ (c.CoversExactly (c.dir.join pattern).normalize
      ↔ ∃ names, names ≠ [] ∧ IsPlain ⟨names⟩ ∧ Spells names pattern) := by
  refine ⟨fun f hf => covers_iff_spells h hp.literal hp.bare hf,
    exists_spells_of_coversExactly h hp hdir, ?_⟩
  rintro ⟨names, hne, hplain, hspells⟩
  exact coversExactly_of_spells h hp hplain hne hspells

def including (pattern : String) : BuildConfig :=
  { blank ⟨["app", "tsconfig.json"]⟩ with include_ := some [pattern] }

theorem onlyIncludes_including (pattern : String) : (including pattern).OnlyIncludes pattern :=
  ⟨rfl, rfl, rfl⟩

theorem including_src_coversExactly :
    (including "./src/").dir.IsProper ∧ NamesDirectory (including "./src/").dir "./src/"
      ∧ (including "./src/").CoversExactly ⟨["app", "src"]⟩ := by
  have hproper : (including "./src/").dir.IsProper := by decide
  have hnames : NamesDirectory (including "./src/").dir "./src/" := ⟨by decide, by decide, by decide⟩
  refine ⟨hproper, hnames, ?_⟩
  exact (coversExactly_iff (onlyIncludes_including _) hnames hproper).2.2
    ⟨["src"], by decide, by decide, 1, 1, rfl⟩

theorem including_dot_not_coversExactly :
    NamesDirectory (including ".").dir "." ∧ (including ".").covers ⟨["app", "src", "a.ts"]⟩ = false
      ∧ Path.isWithin ⟨["app", "src", "a.ts"]⟩ ((including ".").dir.join ".").normalize = true := by
  have hnames : NamesDirectory (including ".").dir "." := ⟨by decide, by decide, by decide⟩
  refine ⟨hnames, Bool.eq_false_iff.2 fun hcovers => ?_, by decide⟩
  obtain ⟨names, hplain, hspells, -, hnil⟩ :=
    (covers_iff_spells (onlyIncludes_including ".") hnames.literal hnames.bare (by decide)).1 hcovers
  have hempty : names = [] := by
    rw [← components_of_spells hplain hspells]
    decide
  exact absurd (hnil hempty) (by decide)

end Project.BuildConfig

end ScriptAtlas
