import ScriptAtlas.Proofs.Numbering
import ScriptAtlas.Proofs.ReadingStatements

/-!
# Parsed trees are sound

Inserting the comments keeps shapes sound, so every node of a parsed tree but its root is the entry of
a sound shape.

* `rooted_parse`: the shape from which a tree is numbered;
* `Sits.eq_or_mem_of_within`: a node in whose span a token begins is the token or stands above it;
* `Sits.headFree_of_start_eq`: what begins where a name begins is no call.
-/

namespace ScriptAtlas.Syntax

open List

variable {s : Shape}

/-! ## Comments -/

namespace Shape

variable {cs : Array Char} {n : Nat}

@[simp]
theorem label_withComments (s : Shape) : (s.withComments cs).label = s.label := by
  rcases s with ⟨l, f, a, b, _ | ⟨c, rest⟩⟩ <;> rfl

@[simp]
theorem field_withComments (s : Shape) : (s.withComments cs).field = s.field := by
  rcases s with ⟨l, f, a, b, _ | ⟨c, rest⟩⟩ <;> rfl

@[simp]
theorem start_withComments (s : Shape) : (s.withComments cs).start = s.start := by
  rcases s with ⟨l, f, a, b, _ | ⟨c, rest⟩⟩ <;> rfl

@[simp]
theorem stop_withComments (s : Shape) : (s.withComments cs).stop = s.stop := by
  rcases s with ⟨l, f, a, b, _ | ⟨c, rest⟩⟩ <;> rfl

theorem exists_of_mem_commentShapes {a b : Nat} (h : s ∈ commentShapes cs a b) :
    ∃ i j, s = .leaf .comment i j := by
  obtain ⟨⟨i, j⟩, -, rfl⟩ := mem_map.1 h
  exact ⟨i, j, rfl⟩

theorem mem_withCommentsFrom {pos : Nat} {l : List Shape}
    (h : s ∈ withCommentsFrom cs pos l) :
    (∃ c ∈ l, s = c.withComments cs) ∨ ∃ i j, s = .leaf .comment i j := by
  induction l generalizing pos with
  | nil => cases h
  | cons c rest ih =>
    rw [withCommentsFrom] at h
    rcases mem_append.1 h with h | h
    · exact .inr (exists_of_mem_commentShapes h)
    · rcases mem_cons.1 h with rfl | h
      · exact .inl ⟨c, mem_cons_self, rfl⟩
      · rcases ih h with ⟨d, hd, rfl⟩ | hcomment
        · exact .inl ⟨d, mem_cons_of_mem c hd, rfl⟩
        · exact .inr hcomment

theorem mem_withCommentsFrom_of_mem {pos : Nat} {l : List Shape} (h : s ∈ l) :
    s.withComments cs ∈ withCommentsFrom cs pos l := by
  induction l generalizing pos with
  | nil => cases h
  | cons c rest ih =>
    rw [withCommentsFrom]
    refine mem_append_right _ ?_
    rcases mem_cons.1 h with rfl | h
    · exact mem_cons_self
    · exact mem_cons_of_mem _ (ih h)

theorem HeadFree.withComments (h : s.HeadFree) : (s.withComments cs).HeadFree := by
  induction h with
  | @mk l f a b parts label first ih =>
    rcases parts with _ | ⟨c, rest⟩
    · exact .mk label first
    · refine .mk label fun d hd => ?_
      cases Option.mem_some.1 hd
      exact ih c rfl

theorem CallFree.withComments (h : s.CallFree) : (s.withComments cs).CallFree := by
  induction h with
  | @mk l f a b parts label hparts ih =>
    rcases parts with _ | ⟨c, rest⟩
    · exact .mk label hparts
    · refine .mk label (forall_mem_cons.2 ⟨ih c mem_cons_self, fun d hd => ?_⟩)
      rcases mem_withCommentsFrom hd with ⟨e, he, rfl⟩ | ⟨i, j, rfl⟩
      · exact ih e (mem_cons_of_mem c he)
      · exact .mk rfl nofun

theorem children_withComments_of_nil (h : s.children = []) :
    (s.withComments cs).children = [] := by
  obtain ⟨l, f, a, b, parts⟩ := s
  obtain rfl : parts = [] := h
  rfl

theorem Bare.withComments (h : s.Bare) : (s.withComments cs).Bare :=
  ⟨(congrArg Label.isNamed (label_withComments s)).trans h.1, children_withComments_of_nil h.2⟩

theorem Tight.withComments (h : s.Tight) : (s.withComments cs).Tight := by
  intro hf
  rw [field_withComments] at hf
  exact (h hf).imp children_withComments_of_nil (label_withComments s).trans

theorem Tame.withComments (h : s.Tame) : (s.withComments cs).Tame := by
  intro hf
  rw [field_withComments] at hf
  exact (h hf).withComments

theorem outline_commentShapes (a b : Nat) : outline (commentShapes cs a b) = [] := by
  refine filter_eq_nil_iff.2 fun o ho => ?_
  obtain ⟨s, hs, rfl⟩ := mem_map.1 ho
  obtain ⟨i, j, rfl⟩ := exists_of_mem_commentShapes hs
  exact nofun

/-- Comments leave the outline of a list of parts as it is. -/
theorem outline_cons_withComments {l m : List Shape} (h : outline l = outline m) :
    outline (s.withComments cs :: l) = outline (s :: m) := by
  rw [← singleton_append, outline_append, h, ← singleton_append (l := m), outline_append]
  simp [outline]

theorem outline_withCommentsFrom (pos : Nat) (l : List Shape) :
    outline (withCommentsFrom cs pos l) = outline l := by
  induction l generalizing pos with
  | nil => rfl
  | cons c rest ih =>
    rw [withCommentsFrom, outline_append, outline_commentShapes, nil_append]
    exact outline_cons_withComments (ih _)

end Shape

section Comments

variable {cs : Array Char} {n : Nat}

theorem aligned_append_of_comments {l m : List Shape} {a b : Nat}
    (h : ∀ s ∈ l, ∃ i j, s = .leaf .comment i j) :
    Aligned n a (l ++ m) b ↔ Aligned n a m b := by
  induction l with
  | nil => exact Iff.rfl
  | cons s l ih =>
    obtain ⟨i, j, rfl⟩ := h s mem_cons_self
    have hlabel : (Shape.leaf .comment i j).label = .named .comment := rfl
    rw [cons_append, Aligned.eq_2, if_pos hlabel]
    exact ih fun t ht => h t (mem_cons_of_mem _ ht)

theorem Aligned.withCommentsFrom {pos a b : Nat} {l : List Shape} (h : Aligned n a l b) :
    Aligned n a (Shape.withCommentsFrom cs pos l) b := by
  induction l generalizing pos a with
  | nil => exact h
  | cons c rest ih =>
    rw [Shape.withCommentsFrom,
      aligned_append_of_comments fun s => Shape.exists_of_mem_commentShapes]
    by_cases hc : c.label = .named .comment
    · rw [Aligned.eq_2, if_pos hc] at h
      rw [Aligned.eq_2, if_pos ((Shape.label_withComments c).trans hc)]
      exact ih h
    · obtain ⟨h₁, h₂, h₃, h₄⟩ := (Aligned.cons_iff hc).1 h
      refine (Aligned.cons_iff (by rwa [Shape.label_withComments])).2 ?_
      rw [Shape.start_withComments, Shape.stop_withComments]
      exact ⟨h₁, h₂, h₃, ih h₄⟩

theorem Role.Fits.withComments {r : Role} {c : Shape} {rest : List Shape} {pos : Nat}
    (h : r.Fits (c :: rest)) :
    r.Fits (c.withComments cs :: Shape.withCommentsFrom cs pos rest) := by
  -- every part is an old part with comments, or a comment
  have hmem {P : Shape → Prop} (hold : ∀ d ∈ c :: rest, P (d.withComments cs))
      (hnew : ∀ i j, P (.leaf .comment i j)) :
      ∀ d ∈ c.withComments cs :: Shape.withCommentsFrom cs pos rest, P d := by
    refine forall_mem_cons.2 ⟨hold c mem_cons_self, fun d hd => ?_⟩
    rcases Shape.mem_withCommentsFrom hd with ⟨e, he, rfl⟩ | ⟨i, j, rfl⟩
    · exact hold e (mem_cons_of_mem c he)
    · exact hnew i j
  have hlabels {f : Field} {l : Label} (h : ∀ d ∈ c :: rest, d.field = some f → d.label = l) :
      ∀ d ∈ c.withComments cs :: Shape.withCommentsFrom cs pos rest, d.field = some f → d.label = l := by
    refine hmem (P := fun d => d.field = some f → d.label = l) (fun d hd => ?_) fun i j => nofun
    rw [Shape.field_withComments, Shape.label_withComments]
    exact h d hd
  have hdeclares (h : Declares (c :: rest)) :
      Declares (c.withComments cs :: Shape.withCommentsFrom cs pos rest) := by
    refine ⟨hmem (fun d hd => (h.names d hd).withComments) fun i j => nofun, fun d hd => ?_⟩
    cases Option.mem_some.1 hd
    exact (h.first c rfl).withComments
  have hexists {f : Field} (h : ∃ d ∈ c :: rest, d.field = some f) :
      ∃ d ∈ c.withComments cs :: Shape.withCommentsFrom cs pos rest, d.field = some f := by
    obtain ⟨d, hd, hfield⟩ := h
    refine ⟨d.withComments cs, ?_, (Shape.field_withComments d).trans hfield⟩
    rcases mem_cons.1 hd with rfl | hd
    · exact mem_cons_self
    · exact mem_cons_of_mem _ (Shape.mem_withCommentsFrom_of_mem hd)
  have hparametrized (h : Parametrized (c :: rest)) :
      Parametrized (c.withComments cs :: Shape.withCommentsFrom cs pos rest) :=
    h.imp hexists hlabels
  have hopened (h : ∀ d ∈ (c :: rest).head?, d.Bare) :
      ∀ d ∈ (c.withComments cs :: Shape.withCommentsFrom cs pos rest).head?, d.Bare := by
    intro d hd
    cases Option.mem_some.1 hd
    exact (h c rfl).withComments
  have houtline : outline (c.withComments cs :: Shape.withCommentsFrom cs pos rest) =
      outline (c :: rest) :=
    Shape.outline_cons_withComments (Shape.outline_withCommentsFrom pos rest)
  cases r with
  | free => trivial
  | leaf => cases h
  | member =>
    refine hmem (P := fun d => d.field = some .property → _) (fun d hd => ?_) fun i j => nofun
    rw [Shape.field_withComments, Shape.label_withComments]
    exact h d hd
  | quiet => exact hmem (fun d hd => (h d hd).withComments) fun i j => .mk rfl nofun
  | entry =>
    exact ⟨hmem (fun d hd => ⟨(h.1 d hd).1.withComments, (h.1 d hd).2.withComments⟩)
      fun i j => ⟨.mk rfl nofun, nofun⟩, hexists h.2⟩
  | text =>
    exact ⟨hmem (fun d hd => (h.1 d hd).withComments) fun i j => .mk rfl nofun, hopened h.2⟩
  | opened => exact hopened h
  | declaring => exact hdeclares h
  | property => exact ⟨hdeclares h.1, hexists h.2⟩
  | titled =>
    refine ⟨hdeclares h.1, .inr ?_, hlabels h.2.2⟩
    obtain hnil | hname := h.2.1
    · cases hnil
    · exact hexists hname
  | housing =>
    refine ⟨hdeclares h.1, ?_⟩
    rw [houtline]
    exact h.2
  | function => exact ⟨hdeclares h.1, hparametrized h.2⟩
  | method =>
    exact ⟨hdeclares h.declares, hexists h.named, hparametrized h.parametrized, hlabels h.listed⟩
  | arrow => exact hparametrized h
  | bodiless =>
    refine hmem (P := fun d => d.field ≠ some .body) (fun d hd => ?_) fun i j => nofun
    rw [Shape.field_withComments]
    exact h d hd
  | exporting =>
    change Exports (outline _)
    rwa [houtline]
  | ambient =>
    change Introduces (outline _)
    rwa [houtline]

theorem Shape.Sound.withComments (h : s.Sound n) : (s.withComments cs).Sound n := by
  induction h with
  | comment => exact .comment
  | @mk l f a b parts plain fits first aligned sound ih =>
    rcases parts with _ | ⟨c, rest⟩
    · exact .mk plain fits first aligned sound
    · refine .mk plain ?_ ?_ ?_ ?_
      · cases l with
        | token t => cases fits
        | named k => exact Role.Fits.withComments fits
      · intro d hd
        cases Option.mem_some.1 hd
        rw [Shape.start_withComments, Shape.label_withComments]
        exact first c rfl
      · obtain ⟨hstart, hplain⟩ := first c rfl
        obtain ⟨h₁, h₂, h₃, h₄⟩ := (Aligned.cons_iff hplain).1 aligned
        refine (Aligned.cons_iff (by rwa [Shape.label_withComments])).2 ?_
        rw [Shape.start_withComments, Shape.stop_withComments]
        exact ⟨h₁, h₂, h₃, h₄.withCommentsFrom⟩
      · refine forall_mem_cons.2 ⟨ih c mem_cons_self, fun d hd => ?_⟩
        rcases Shape.mem_withCommentsFrom hd with ⟨e, he, rfl⟩ | ⟨i, j, rfl⟩
        · exact ih e (mem_cons_of_mem c he)
        · exact .comment

end Comments

/-- The root of a parsed source. Its first part may be a comment. -/
structure Rooted (n : Nat) (root : Shape) : Prop where
  label : root.label = .named .program
  aligned : ∃ b, Aligned n 0 root.children b
  parts : ∀ c ∈ root.children, c.Sound n

theorem rooted_parse (input : Input) :
    Rooted input.chars.size ((Grammar.parse input).withAllComments input.chars) := by
  obtain ⟨next, hrow⟩ := Grammar.row_parse input
  refine ⟨rfl, ⟨next, ?_⟩, ?_⟩
  · refine Aligned.append_iff.2 ⟨next, hrow.aligned.withCommentsFrom, ?_⟩
    rw [← append_nil (commentShapes _ _ _)]
    exact (aligned_append_of_comments fun s => Shape.exists_of_mem_commentShapes).2 (Nat.le_refl next)
  · intro c hc
    rcases mem_append.1 hc with hc | hc
    · rcases Shape.mem_withCommentsFrom hc with ⟨d, hd, rfl⟩ | ⟨i, j, rfl⟩
      · exact (hrow.sound d hd).withComments
      · exact .comment
    · obtain ⟨i, j, rfl⟩ := Shape.exists_of_mem_commentShapes hc
      exact .comment

/-! ## Parts of sound shapes -/

section Parts

variable {n a b : Nat} {s c d : Shape} {l : List Shape}

theorem Shape.Sound.parts (h : s.Sound n) (hc : c ∈ s.children) : c.Sound n := by
  cases h with
  | comment => cases hc
  | mk _ _ _ _ parts => exact parts c hc

theorem Shape.Sound.fits (h : s.Sound n) : s.label.Fits s.children := by
  cases h with
  | comment => rfl
  | mk _ fits _ _ _ => exact fits

theorem Shape.Sound.plain (h : s.Sound n) (hc : c ∈ s.children) : s.label ≠ .named .comment := by
  cases h with
  | comment => cases hc
  | mk plain _ _ _ _ => exact plain

theorem Shape.Sound.plain_of_field {f : Field} (h : s.Sound n) (hf : s.field = some f) :
    s.label ≠ .named .comment := by
  cases h with
  | comment => cases hf
  | mk plain _ _ _ _ => exact plain

theorem Shape.Sound.aligned (h : s.Sound n) (hc : c ∈ s.children) :
    Aligned n s.start s.children s.stop := by
  cases h with
  | comment => cases hc
  | mk _ _ _ aligned _ => exact aligned

theorem Shape.Sound.head (h : s.Sound n) (hc : s.children.head? = some c) :
    c.start = s.start ∧ c.label ≠ .named .comment := by
  cases h with
  | comment => cases hc
  | mk _ _ first _ _ => exact first c hc

theorem Aligned.within (h : Aligned n a l b) (hc : c ∈ l) (hplain : c.label ≠ .named .comment) :
    a ≤ c.start ∧ c.start < c.stop ∧ c.start < n ∧ c.stop ≤ b := by
  obtain ⟨front, rest, rfl⟩ := append_of_mem hc
  obtain ⟨m, hfront, hrest⟩ := append_iff.1 h
  obtain ⟨h₁, h₂, h₃, h₄⟩ := (cons_iff hplain).1 hrest
  exact ⟨Nat.le_trans hfront.le h₁, h₂, h₃, h₄.le⟩

theorem Aligned.stop_le_start {i j : Nat} (h : Aligned n a l b) (hij : i < j) (hc : l[i]? = some c)
    (hd : l[j]? = some d) (hcplain : c.label ≠ .named .comment)
    (hdplain : d.label ≠ .named .comment) : c.stop ≤ d.start := by
  have hdrop : l = l.take i ++ c :: l.drop (i + 1) := by
    obtain ⟨hi, rfl⟩ := List.getElem?_eq_some_iff.1 hc
    rw [getElem_cons_drop, take_append_drop]
  rw [hdrop] at h
  obtain ⟨m, -, hrest⟩ := append_iff.1 h
  obtain ⟨-, -, -, htail⟩ := (cons_iff hcplain).1 hrest
  have hmem : d ∈ l.drop (i + 1) := by
    refine mem_of_getElem? (i := j - (i + 1)) ?_
    rw [getElem?_drop, ← hd]
    congr 1
    omega
  exact (htail.within hmem hdplain).1

end Parts

/-! ## Spots in a rooted shape -/

namespace Sits

variable {n : Nat} {root : Shape} {p q t : Spot} {up up' : List Spot}

theorem eq_root_of_id (h : Sits root p up) (hid : p.id = 0) : p = ⟨0, root⟩ ∧ up = [] :=
  h.unique .root hid

theorem sound (hr : Rooted n root) (h : Sits root p up) (hid : p.id ≠ 0) : p.shape.Sound n := by
  induction h with
  | root => exact absurd rfl hid
  | @part p up h k c hc ih =>
    by_cases hp : p.id = 0
    · obtain ⟨rfl, rfl⟩ := h.eq_root_of_id hp
      exact hr.parts c (mem_of_getElem? hc)
    · exact (ih hp).parts (mem_of_getElem? hc)

theorem root_or_sound (hr : Rooted n root) (h : Sits root p up) :
    p.shape = root ∨ p.shape.Sound n := by
  by_cases hp : p.id = 0
  · obtain ⟨rfl, -⟩ := h.eq_root_of_id hp
    exact .inl rfl
  · exact .inr (h.sound hr hp)

theorem aligned (hr : Rooted n root) (h : Sits root p up) {k : Nat} {c : Shape}
    (hc : p.shape.children[k]? = some c) : ∃ a b, Aligned n a p.shape.children b := by
  rcases h.root_or_sound hr with hp | hp
  · exact ⟨0, hp ▸ hr.aligned⟩
  · exact ⟨_, _, hp.aligned (mem_of_getElem? hc)⟩

theorem plain (hr : Rooted n root) (h : Sits root p up) {k : Nat} {c : Shape}
    (hc : p.shape.children[k]? = some c) : p.shape.label ≠ .named .comment := by
  rcases h.root_or_sound hr with hp | hp
  · rw [hp, hr.label]
    exact nofun
  · exact hp.plain (mem_of_getElem? hc)

theorem fits (hr : Rooted n root) (h : Sits root p up) : p.shape.label.Fits p.shape.children := by
  rcases h.root_or_sound hr with hp | hp
  · rw [hp, hr.label]
    trivial
  · exact hp.fits

theorem above (h : Sits root t up') (hq : q ∈ up') : ∃ up, Sits root q up := by
  obtain ⟨front, up, rfl⟩ := append_of_mem hq
  exact ⟨up, h.of_append⟩

theorem callFree (h : Sits root t up) (hq : q ∈ up) (hfree : q.shape.CallFree) :
    t.shape.CallFree := by
  induction h with
  | root => cases hq
  | @part p up h k c hc ih =>
    have hp : p.shape.CallFree := by
      rcases mem_cons.1 hq with rfl | hq
      · exact hfree
      · exact ih hq
    exact hp.parts (mem_of_getElem? hc)

/-- Of a spot above another one, one part leads to the other. -/
theorem exists_part_of_mem (h : Sits root t up') (hq : q ∈ up') :
    ∃ k c, q.shape.children[k]? = some c ∧
      ((⟨q.id + 1 + Shape.countAll (q.shape.children.take k), c⟩ : Spot) = t ∨
        ⟨q.id + 1 + Shape.countAll (q.shape.children.take k), c⟩ ∈ up') := by
  induction h with
  | root => cases hq
  | @part p up h k c hc ih =>
    rcases mem_cons.1 hq with rfl | hq
    · exact ⟨k, c, hc, .inl rfl⟩
    · obtain ⟨k', c', hc', rfl | hmem⟩ := ih hq
      · exact ⟨k', c', hc', .inr mem_cons_self⟩
      · exact ⟨k', c', hc', .inr (mem_cons_of_mem p hmem)⟩

theorem root_mem (h : Sits root t up) (hid : t.id ≠ 0) : (⟨0, root⟩ : Spot) ∈ up := by
  induction h with
  | root => exact absurd rfl hid
  | @part p up h k c hc ih =>
    by_cases hp : p.id = 0
    · obtain ⟨rfl, rfl⟩ := h.eq_root_of_id hp
      exact mem_cons_self
    · exact mem_cons_of_mem p (ih hp)

/-- A node stands within all nodes around it, the root apart. -/
theorem within (hr : Rooted n root) (h : Sits root t up) (hplain : t.shape.label ≠ .named .comment)
    (hq : q ∈ up) (hid : q.id ≠ 0) :
    q.shape.start ≤ t.shape.start ∧ t.shape.stop ≤ q.shape.stop := by
  induction h with
  | root => cases hq
  | @part p up h k c hc ih =>
    rcases mem_cons.1 hq with rfl | hq
    · have haligned := (h.sound hr hid).aligned (mem_of_getElem? hc)
      obtain ⟨h₁, -, -, h₄⟩ := haligned.within (mem_of_getElem? hc) hplain
      exact ⟨h₁, h₄⟩
    · obtain ⟨h₁, h₂⟩ := ih (h.plain hr hc) hq
      have hp : p.id ≠ 0 := by
        intro hp
        obtain ⟨-, rfl⟩ := h.eq_root_of_id hp
        cases hq
      have haligned := (h.sound hr hp).aligned (mem_of_getElem? hc)
      obtain ⟨h₃, -, -, h₄⟩ := haligned.within (mem_of_getElem? hc) hplain
      exact ⟨Nat.le_trans h₁ h₃, Nat.le_trans h₄ h₂⟩

theorem start_lt (hr : Rooted n root) (h : Sits root p up) (hid : p.id ≠ 0)
    (hplain : p.shape.label ≠ .named .comment) :
    p.shape.start < p.shape.stop ∧ p.shape.start < n := by
  cases h with
  | root => exact absurd rfl hid
  | part h hc =>
    obtain ⟨a, b, haligned⟩ := h.aligned hr hc
    obtain ⟨-, h₂, h₃, -⟩ := haligned.within (mem_of_getElem? hc) hplain
    exact ⟨h₂, h₃⟩

/-- A node in whose span a token begins is the token or stands above it. -/
theorem eq_or_mem_of_within (hr : Rooted n root) (hp : Sits root p up) (ht : Sits root t up')
    (hleaf : t.shape.children = []) (htplain : t.shape.label ≠ .named .comment)
    (hpplain : p.shape.label ≠ .named .comment) (h₁ : p.shape.start ≤ t.shape.start)
    (h₂ : t.shape.start < p.shape.stop) (hid : p.id ≠ 0) : p = t ∨ p ∈ up' := by
  induction hp with
  | root => exact absurd rfl hid
  | @part p up hp k c hc ih =>
    -- the parent stands above the token: it is the root, or the token begins in its span too
    have hparent : p ∈ up' := by
      by_cases hp0 : p.id = 0
      · obtain ⟨rfl, rfl⟩ := hp.eq_root_of_id hp0
        refine ht.root_mem fun ht0 => ?_
        obtain ⟨rfl, -⟩ := ht.eq_root_of_id ht0
        rw [hleaf] at hc
        cases hc
      · have haligned := (hp.sound hr hp0).aligned (mem_of_getElem? hc)
        obtain ⟨i₁, -, -, i₄⟩ := haligned.within (mem_of_getElem? hc) hpplain
        rcases ih (hp.plain hr hc) (Nat.le_trans i₁ h₁) (Nat.lt_of_lt_of_le h₂ i₄) hp0 with rfl | h
        · rw [hleaf] at hc
          cases hc
        · exact h
    -- so one of its parts leads to the token, and no other part overlaps that one
    obtain ⟨k', d, hd, hlead⟩ := ht.exists_part_of_mem hparent
    obtain ⟨a, b, haligned⟩ := hp.aligned hr hc
    have hdwithin : d.label ≠ .named .comment ∧ d.start ≤ t.shape.start ∧ t.shape.start < d.stop := by
      rcases hlead with rfl | hmem
      · exact ⟨htplain, Nat.le_refl _, (ht.start_lt hr (by simp) htplain).1⟩
      · obtain ⟨upd, hdsits⟩ := ht.above hmem
        obtain ⟨j₁, j₂⟩ := ht.within hr htplain hmem (by simp)
        obtain ⟨k'', e, he, -⟩ := ht.exists_part_of_mem hmem
        have htid : t.id ≠ 0 := by
          intro ht0
          obtain ⟨-, rfl⟩ := ht.eq_root_of_id ht0
          cases hmem
        exact ⟨hdsits.plain hr he, j₁, Nat.lt_of_lt_of_le (ht.start_lt hr htid htplain).1 j₂⟩
    obtain ⟨hdplain, j₁, j₂⟩ := hdwithin
    rcases Nat.lt_trichotomy k k' with hlt | rfl | hlt
    · have := haligned.stop_le_start hlt hc hd hpplain hdplain
      exact absurd (Nat.lt_of_lt_of_le h₂ (Nat.le_trans this j₁)) (Nat.lt_irrefl _)
    · rw [hc] at hd
      cases hd
      exact hlead
    · have := haligned.stop_le_start hlt hd hc hdplain hpplain
      exact absurd (Nat.lt_of_lt_of_le j₂ (Nat.le_trans this h₁)) (Nat.lt_irrefl _)

/-- What begins where a name begins, inside of it, begins with no call either. -/
theorem headFree_of_start_eq (hr : Rooted n root) (ht : Sits root t up) (hq : q ∈ up)
    (hid : q.id ≠ 0) (htplain : t.shape.label ≠ .named .comment) (hhead : q.shape.HeadFree)
    (hstart : t.shape.start = q.shape.start) : t.shape.HeadFree := by
  induction ht with
  | root => cases hq
  | @part p up h k c hc ih =>
    change c.start = q.shape.start at hstart
    have hp : p.id ≠ 0 := by
      intro hp
      obtain ⟨rfl, rfl⟩ := h.eq_root_of_id hp
      rw [mem_singleton.1 hq] at hid
      exact hid rfl
    have hsound := h.sound hr hp
    have haligned := hsound.aligned (mem_of_getElem? hc)
    have hle := (haligned.within (mem_of_getElem? hc) htplain).1
    have hparent : p.shape.HeadFree ∧ p.shape.start = q.shape.start := by
      rcases mem_cons.1 hq with rfl | hq
      · exact ⟨hhead, rfl⟩
      · have hstartp : p.shape.start = q.shape.start := by
          have := (h.within hr (h.plain hr hc) hq hid).1
          omega
        exact ⟨ih hq (h.plain hr hc) hstartp, hstartp⟩
    -- the part begins where its parent begins, so it is the first part
    obtain ⟨first, hfirst⟩ : ∃ first, p.shape.children[0]? = some first := by
      obtain ⟨hlt, -⟩ := List.getElem?_eq_some_iff.1 hc
      exact ⟨_, getElem?_eq_getElem (Nat.lt_of_le_of_lt (Nat.zero_le k) hlt)⟩
    rw [← head?_eq_getElem?] at hfirst
    obtain ⟨hfstart, hfplain⟩ := hsound.head hfirst
    rcases Nat.eq_zero_or_pos k with rfl | hk
    · rw [← head?_eq_getElem?] at hc
      exact hparent.1.head hc
    · rw [head?_eq_getElem?] at hfirst
      have hbefore := haligned.stop_le_start hk hfirst hc hfplain htplain
      have hlt := (haligned.within (mem_of_getElem? hfirst) hfplain).2.1
      omega

end Sits

end ScriptAtlas.Syntax

