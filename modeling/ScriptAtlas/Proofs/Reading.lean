import ScriptAtlas.Proofs.Shapes

/-!
# Readers and the rows they read

What a reader returns stands in the text from where it began on, behind everything read before.

* `Reads front p P`: whenever the parts `front` have been read, `p` completes a row of sound shapes
  with what it returns, and its result satisfies `P`;
* the rules `Reads.bind`, `Reads.many`, `Reads.grow`, … carry this through the combinators, so the
  proof for a rule of the grammar follows its definition line by line.
-/

namespace ScriptAtlas.Syntax

open List

variable {c : Char} {l : List Shape} {a b n : Nat} {f : Option Field}
variable {k : Kind} {s : Shape}

/-! ## Ends of tokens -/

section Ends

variable {cs : Array Char} {pos e : Nat}

theorem lt_size_of_getElem?_eq_some (h : cs[pos]? = some c) : pos < cs.size :=
  (Array.getElem?_eq_some_iff.1 h).1

theorem le_findFrom (cs : Array Char) (p : Char → Bool) (fuel pos : Nat) :
    pos ≤ findFrom cs p fuel pos := by
  induction fuel generalizing pos with
  | zero => exact Nat.le_refl pos
  | succ fuel ih =>
    unfold findFrom
    split
    · exact Nat.le_refl pos
    · split
      · exact Nat.le_refl pos
      · exact Nat.le_trans (Nat.le_succ pos) (ih (pos + 1))

theorem lt_findFrom {p : Char → Bool} (hc : cs[pos]? = some c) (hp : p c = false) :
    pos < findFrom cs p (cs.size - pos) pos := by
  have hlt := lt_size_of_getElem?_eq_some hc
  obtain ⟨fuel, hfuel⟩ : ∃ fuel, cs.size - pos = fuel + 1 := ⟨cs.size - pos - 1, by omega⟩
  rw [hfuel, findFrom, hc]
  simp only [hp, Bool.false_eq_true, if_false]
  exact le_findFrom cs p fuel (pos + 1)

theorem lt_size_of_lt_findFrom {p : Char → Bool} {fuel : Nat} (h : pos < findFrom cs p fuel pos) :
    pos < cs.size := by
  cases fuel with
  | zero => exact absurd h (Nat.lt_irrefl pos)
  | succ fuel =>
    unfold findFrom at h
    split at h
    · exact absurd h (Nat.lt_irrefl pos)
    · next c hc => exact lt_size_of_getElem?_eq_some hc

theorem le_blockCommentEnd (cs : Array Char) (fuel pos : Nat) :
    pos ≤ blockCommentEnd cs fuel pos := by
  induction fuel generalizing pos with
  | zero => exact Nat.le_refl pos
  | succ fuel ih =>
    unfold blockCommentEnd
    split
    · omega
    · exact Nat.le_trans (Nat.le_succ pos) (ih (pos + 1))
    · exact Nat.le_refl pos

theorem lt_of_commentEnd?_eq_some (h : commentEnd? cs pos = some e) : pos < e := by
  unfold commentEnd? at h
  split at h
  · have := le_findFrom cs isLineEnd (cs.size - pos) (pos + 2)
    cases h
    omega
  · have := le_blockCommentEnd cs (cs.size - pos) (pos + 2)
    cases h
    omega
  · cases h

theorem le_skipTrivia (cs : Array Char) (fuel pos : Nat) : pos ≤ skipTrivia cs fuel pos := by
  induction fuel generalizing pos with
  | zero => exact Nat.le_refl pos
  | succ fuel ih =>
    unfold skipTrivia
    split
    · exact Nat.le_refl pos
    · split
      · exact Nat.le_trans (Nat.le_succ pos) (ih (pos + 1))
      · split
        · next e he => exact Nat.le_trans (Nat.le_of_lt (lt_of_commentEnd?_eq_some he)) (ih e)
        · exact Nat.le_refl pos

theorem lt_of_nameEscapeEnd?_eq_some (h : nameEscapeEnd? cs pos = some e) :
    pos < e ∧ pos < cs.size := by
  unfold nameEscapeEnd? at h
  split at h
  · next hb =>
    have hpos : cs[pos]? = some '\\' := by
      rw [Bool.and_eq_true, beq_iff_eq] at hb
      exact hb.1
    refine ⟨?_, lt_size_of_getElem?_eq_some hpos⟩
    have := le_findFrom cs (fun c => !isHexDigit c) (cs.size - pos) (pos + 3)
    grind
  · cases h

theorem le_namePartsEnd (cs : Array Char) (fuel pos : Nat) : pos ≤ namePartsEnd cs fuel pos := by
  induction fuel generalizing pos with
  | zero => exact Nat.le_refl pos
  | succ fuel ih =>
    unfold namePartsEnd
    split
    · exact Nat.le_refl pos
    · split
      · exact Nat.le_trans (Nat.le_succ pos) (ih (pos + 1))
      · split
        · next e he =>
          exact Nat.le_trans (Nat.le_of_lt (lt_of_nameEscapeEnd?_eq_some he).1) (ih e)
        · exact Nat.le_refl pos

theorem lt_of_nameEnd?_eq_some (h : nameEnd? cs pos = some e) : pos < e ∧ pos < cs.size := by
  unfold nameEnd? at h
  split at h
  · cases h
  · next c hc =>
    refine ⟨?_, lt_size_of_getElem?_eq_some hc⟩
    split at h
    · cases h
      exact le_namePartsEnd cs cs.size (pos + 1)
    · split at h
      · next e' he =>
        cases h
        exact Nat.lt_of_lt_of_le (lt_of_nameEscapeEnd?_eq_some he).1 (le_namePartsEnd cs cs.size e')
      · cases h

theorem le_digitsEnd (cs : Array Char) (p : Char → Bool) (pos : Nat) : pos ≤ digitsEnd cs p pos :=
  le_findFrom cs _ _ pos

theorem lt_digitsEnd {p : Char → Bool} (hc : cs[pos]? = some c) (hp : p c = true) :
    pos < digitsEnd cs p pos :=
  lt_findFrom hc (by simp [hp])

theorem le_exponentEnd (cs : Array Char) (pos : Nat) : pos ≤ exponentEnd cs pos := by
  unfold exponentEnd
  grind

theorem lt_of_numberEnd?_eq_some (h : numberEnd? cs pos = some e) : pos < e ∧ pos < cs.size := by
  unfold numberEnd? at h
  split at h
  · cases h
  · next c hc =>
    refine ⟨?_, lt_size_of_getElem?_eq_some hc⟩
    simp only at h
    split at h
    · have := le_digitsEnd cs isHexDigit (pos + 2)
      cases h
      split <;> omega
    · split at h
      · next hd =>
        have hlt := lt_digitsEnd hc hd
        split at h
        · cases h
          omega
        · split at h
          · cases h
            refine Nat.lt_of_lt_of_le ?_ (le_exponentEnd cs _)
            exact Nat.lt_trans hlt (le_digitsEnd cs Char.isDigit _)
          · cases h
            exact Nat.lt_of_lt_of_le hlt (le_exponentEnd cs _)
      · split at h
        · cases h
          exact Nat.lt_of_lt_of_le (le_digitsEnd cs Char.isDigit (pos + 1)) (le_exponentEnd cs _)
        · cases h

theorem lt_of_standsAt {text : List Char} (hne : text ≠ []) (h : standsAt cs text pos = true) :
    pos < cs.size := by
  rcases text with _ | ⟨c, rest⟩
  · exact absurd rfl hne
  · unfold standsAt at h
    rw [Bool.and_eq_true, beq_iff_eq] at h
    exact lt_size_of_getElem?_eq_some h.1

theorem lt_of_punctuatorAt (h : punctuatorAt cs pos ≠ "") : pos < cs.size := by
  unfold punctuatorAt at h
  simp only at h
  split at h
  · next t ht =>
    have hstands := find?_some ht
    rw [Bool.and_eq_true] at hstands
    exact lt_of_standsAt (fun hnil => h (String.toList_eq_nil_iff.1 hnil)) hstands.1
  · split at h
    · next c hc => exact lt_size_of_getElem?_eq_some hc
    · exact absurd rfl h

end Ends

/-! ## Rows from readers -/

/-- The shapes in what a reader returns. -/
class Parts (α : Type) where
  parts : α → List Shape

export Parts (parts)

instance : Parts Shape := ⟨fun s => [s]⟩

instance : Parts (List Shape) := ⟨id⟩

instance : Parts (Kind × List Shape) := ⟨Prod.snd⟩

instance : Parts (List (Shape × Shape)) := ⟨fun l => l.flatMap fun p => [p.1, p.2]⟩

@[simp]
theorem parts_shape (s : Shape) : parts s = [s] := rfl

@[simp]
theorem parts_list (l : List Shape) : parts l = l := rfl

@[simp]
theorem parts_pair (p : Kind × List Shape) : parts p = p.2 := rfl

@[simp]
theorem parts_pairs (l : List (Shape × Shape)) : parts l = l.flatMap fun p => [p.1, p.2] := rfl

/-- Whatever has been read before, a row of the parts `front`, the reader goes on from there: its
result holds the whole row and satisfies `P`. -/
def Reads {α : Type} [Parts α] (front : List Shape) (p : Reader α) (P : α → Prop) : Prop :=
  ∀ ⦃input : Input⦄ ⦃a pos : Nat⦄ ⦃x : α⦄ ⦃next : Nat⦄, Row input.chars.size a front pos →
    p input pos = some (x, next) → Row input.chars.size a (parts x) next ∧ P x

/-- The reader never goes back. -/
def Passes {α : Type} (p : Reader α) : Prop :=
  ∀ ⦃input : Input⦄ ⦃pos : Nat⦄ ⦃x : α⦄ ⦃next : Nat⦄, p input pos = some (x, next) → pos ≤ next

/-- No condition on what is read. -/
def Any {α : Type} (_ : α) : Prop := True

@[simp] theorem any_mk {α : Type} (x : α) : Any x := trivial

namespace Reader

variable {input : Input}

theorem bind_eq_some {α β : Type} {x : Reader α} {k : α → Reader β} {pos : Nat} {r : β × Nat}
    (h : (x >>= k) input pos = some r) :
    ∃ y mid, x input pos = some (y, mid) ∧ k y input mid = some r := by
  obtain ⟨⟨y, mid⟩, hx, hk⟩ := Option.bind_eq_some_iff.1 h
  exact ⟨y, mid, hx, hk⟩

theorem guardThat_apply (b : Bool) (input : Input) (pos : Nat) :
    guardThat b input pos = if b = true then some ((), pos) else none := by
  unfold guardThat
  split <;> rfl

variable {β : Type} {pos : Nat} {r : β × Nat}

theorem bind_read_eq_some {k : Input → Reader β} (h : (read >>= k) input pos = some r) :
    k input input pos = some r := h

theorem bind_get_eq_some {k : Nat → Reader β} (h : (get >>= k) input pos = some r) :
    k pos input pos = some r := h

theorem bind_nextStart_eq_some {k : Nat → Reader β} (h : (nextStart >>= k) input pos = some r) :
    ∃ a, pos ≤ a ∧ k a input pos = some r := ⟨_, le_skipTrivia _ _ _, h⟩

theorem bind_guardThat_eq_some {b : Bool} {k : Unit → Reader β}
    (h : (guardThat b >>= k) input pos = some r) : b = true ∧ k () input pos = some r := by
  obtain ⟨u, mid, hu, hk⟩ := bind_eq_some h
  rw [guardThat_apply] at hu
  split at hu
  · next hb =>
    cases hu
    exact ⟨hb, hk⟩
  · cases hu

end Reader

theorem Row.leaf {pos next : Nat} {l : Label} (hl : l.standsAlone = true)
    (ha : pos ≤ a) (hlt : a < b) (hn : a < n) (hb : b ≤ next) : Row n pos [.mk l f a b []] next :=
  have hplain := Label.plain_of_standsAlone hl
  .singleton (.mk hplain (Label.fits_nil hl) nofun (Nat.le_of_lt hlt) nofun) hplain ha hlt hn hb

/-- The characters up to the first that satisfies `p`, as a node if there are any. -/
theorem Row.findFrom {cs : Array Char} (hk : (Label.named k).standsAlone = true)
    (p : Char → Bool) (fuel pos : Nat) :
    Row cs.size pos (if pos < findFrom cs p fuel pos
      then [.mk (.named k) f pos (findFrom cs p fuel pos) []] else []) (findFrom cs p fuel pos) := by
  split
  · next hlt =>
    exact .leaf hk (Nat.le_refl pos) hlt (lt_size_of_lt_findFrom hlt) (Nat.le_refl _)
  · exact .nil (le_findFrom cs p fuel pos)

theorem Row.mono {b' : Nat} (h : Row n a l b) (hb : b ≤ b') :
    Row n a l b' :=
  ⟨h.aligned.mono (Nat.le_refl a) hb, h.sound, h.plain⟩

theorem Row.of_append {m : List Shape} (h : Row n a (l ++ m) b) :
    ∃ c, Row n a l c ∧ Row n c m b := by
  obtain ⟨c, hl, hm⟩ := Aligned.append_iff.1 h.aligned
  exact ⟨c, ⟨hl, fun s hs => h.sound s (mem_append_left m hs),
      fun s hs => h.plain s (mem_append_left m hs)⟩,
    ⟨hm, fun s hs => h.sound s (mem_append_right l hs),
      fun s hs => h.plain s (mem_append_right l hs)⟩⟩

namespace Reads

open Reader

variable {α β γ : Type} [Parts α] [Parts β] {front mid : List Shape} {p : Reader α} {P : α → Prop}
  {Q : β → Prop}

variable {k : Kind}

theorem weaken {P' : α → Prop} (h : Reads front p P) (himp : ∀ x, P x → P' x) :
    Reads front p P' := by
  intro input a pos x next hrow hp
  obtain ⟨hx, hP⟩ := h hrow hp
  exact ⟨hx, himp x hP⟩

theorem any (h : Reads front p P) : Reads front p Any := h.weaken fun _ _ => trivial

theorem bind {k : α → Reader β} (hp : Reads [] p P)
    (hk : ∀ x, P x → Reads (front ++ parts x) (k x) Q) : Reads front (p >>= k) Q := by
  intro input a pos y next hrow h
  obtain ⟨x, q, hx, hy⟩ := bind_eq_some h
  obtain ⟨hparts, hP⟩ := hp (.nil (Nat.le_refl pos)) hx
  exact hk x hP (hrow.append hparts) hy

theorem step {k : α → Reader β} (hp : Reads [] p P)
    (hk : ∀ x, Reads (front ++ parts x) (k x) Q) : Reads front (p >>= k) Q :=
  hp.bind fun x _ => hk x

variable (front) in
/-- The reader takes over the last parts of the row. -/
theorem takeOver {k : α → Reader β} (hp : Reads mid p P)
    (hk : ∀ x, P x → Reads (front ++ parts x) (k x) Q) : Reads (front ++ mid) (p >>= k) Q := by
  intro input a pos y next hrow h
  obtain ⟨x, q, hx, hy⟩ := bind_eq_some h
  obtain ⟨c, hfront, hmid⟩ := hrow.of_append
  obtain ⟨hparts, hP⟩ := hp hmid hx
  exact hk x hP (hfront.append hparts) hy

theorem forget (hp : Reads front p P) : Reads (front ++ mid) p P := by
  intro input a pos x next hrow h
  obtain ⟨c, hfront, hmid⟩ := hrow.of_append
  exact hp (hfront.mono hmid.aligned.le) h

theorem skip {x : Reader γ} {k : γ → Reader β} (hx : Passes x) (hk : ∀ y, Reads front (k y) Q) :
    Reads front (x >>= k) Q := by
  intro input a pos z next hrow h
  obtain ⟨y, q, hy, hz⟩ := bind_eq_some h
  exact hk y (hrow.mono (hx hy)) hz

theorem guard {b : Bool} {k : Unit → Reader β} (hk : b = true → Reads front (k ()) Q) :
    Reads front (guardThat b >>= k) Q := by
  intro input a pos y next hrow h
  obtain ⟨hb, hy⟩ := bind_guardThat_eq_some h
  exact hk hb hrow hy

theorem done {x : α} (h : front.map Shape.bare = (parts x).map Shape.bare ∧ P x) :
    Reads front (pure x) P := by
  intro input a pos y next hrow hy
  cases hy
  exact ⟨hrow.congr h.1, h.2⟩

theorem last {x : α → β} (hp : Reads [] p P)
    (h : ∀ a, (front ++ parts a).map Shape.bare = (parts (x a)).map Shape.bare ∧ Q (x a)) :
    Reads front (p >>= fun a => pure (x a)) Q :=
  .step hp fun a => .done (h a)

theorem fail : Reads front (failure : Reader α) P := nofun

theorem doneBranch {d : Nat} {P : Shape → Prop}
    (hl : front.map Shape.bare = l.map Shape.bare) (hne : l ≠ []) (hfits : (Label.named k).Fits l)
    (hP : P (.branch k d l)) :
    Reads front (pure (.branch k d l)) P := by
  intro input a pos y next hrow h
  cases h
  exact ⟨(hrow.congr hl).branch hne hfits d, hP⟩

section

variable {p : Reader (List Shape)}

theorem node {P : Shape → Prop}
    (hp : Reads front p fun l => l ≠ [] ∧ (Label.named k).Fits l ∧ ∀ d, P (.branch k d l)) :
    Reads front (Reader.node k p) P := by
  intro input a pos y next hrow h
  obtain ⟨d, q, hd, h⟩ := bind_eq_some h
  cases hd
  obtain ⟨l, q, hl, h⟩ := bind_eq_some h
  cases h
  obtain ⟨hparts, hne, hfits, hP⟩ := hp hrow hl
  exact ⟨hparts.branch hne hfits _, hP _⟩

/-- A node that takes any parts. -/
theorem free (hk : k.role = .free) (hp : Reads front p (· ≠ [])) :
    Reads front (Reader.node k p) Any :=
  .node (hp.weaken fun l hl => ⟨hl, fits_of_free hk l, fun _ => trivial⟩)

/-- A node of names and tokens. -/
theorem callFree (hk : k.role = .free ∨ k.role = .quiet)
    (hcall : (Label.named k).isCall = false)
    (hp : Reads front p fun l => l ≠ [] ∧ ∀ s ∈ l, s.CallFree) :
    Reads front (Reader.node k p) Shape.CallFree := by
  refine .node (hp.weaken fun l hl => ⟨hl.1, ?_, fun _ => .mk hcall hl.2⟩)
  rcases hk with hk | hk
  · exact fits_of_free hk l
  · exact fits_of_role hk hl.2

/-- The same for an entry of a list. -/
theorem entry (hk : k.role = .entry)
    (hcall : (Label.named k).isCall = false)
    (hp : Reads front p fun l => (∀ s ∈ l, s.CallFree ∧ s.Tight) ∧ ∃ s ∈ l, s.field = some .name) :
    Reads front (Reader.node k p) Shape.CallFree := by
  refine .node (hp.weaken fun l hl => ⟨?_, fits_of_role hk hl,
    fun _ => .mk hcall fun s hs => (hl.1 s hs).1⟩)
  obtain ⟨s, hs, -⟩ := hl.2
  exact ne_nil_of_mem hs

/-- A node of tokens that begins with one. -/
theorem text (hk : k.role = .text)
    (hcall : (Label.named k).isCall = false)
    (hp : Reads front p fun l => l ≠ [] ∧ (∀ s ∈ l, s.CallFree) ∧ ∀ s ∈ l.head?, s.Bare) :
    Reads front (Reader.node k p) Shape.CallFree :=
  .node (hp.weaken fun _ hl => ⟨hl.1, fits_of_role hk hl.2, fun _ => .mk hcall hl.2.1⟩)

/-- A node that begins with no call. -/
theorem headFree (hk : k.role = .free)
    (hcall : (Label.named k).isCall = false)
    (hp : Reads front p fun l => l ≠ [] ∧ ∀ s ∈ l.head?, s.HeadFree) :
    Reads front (Reader.node k p) Shape.HeadFree :=
  .node (hp.weaken fun l hl => ⟨hl.1, fits_of_free hk l, fun _ => .mk hcall hl.2⟩)

theorem declaring (hk : k.role = .declaring)
    (hp : Reads front p fun l => l ≠ [] ∧ Declares l) : Reads front (Reader.node k p) Any :=
  .node (hp.weaken fun _ hl => ⟨hl.1, fits_of_role hk hl.2, fun _ => trivial⟩)

theorem property (hk : k.role = .property)
    (hp : Reads front p fun l => Declares l ∧ ∃ c ∈ l, c.field = some .name) :
    Reads front (Reader.node k p) Any := by
  refine .node (hp.weaken fun l hl => ⟨?_, fits_of_role hk hl, fun _ => trivial⟩)
  obtain ⟨c, hc, -⟩ := hl.2
  exact ne_nil_of_mem hc

theorem housing (hk : k.role = .housing)
    (hp : Reads front p fun l => l ≠ [] ∧ Declares l ∧ Houses (outline l)) :
    Reads front (Reader.node k p) Any :=
  .node (hp.weaken fun _ hl => ⟨hl.1, fits_of_role hk hl.2, fun _ => trivial⟩)

theorem method (hk : k.role = .method) (hp : Reads front p Methodical) :
    Reads front (Reader.node k p) Any := by
  refine .node (hp.weaken fun l hl => ⟨?_, fits_of_role hk hl, fun _ => trivial⟩)
  obtain ⟨c, hc, -⟩ := hl.named
  exact ne_nil_of_mem hc

end

theorem or {ps : List (Reader α)} (hp : Reads front p P)
    (hps : Reads front (firstOf ps) P) : Reads front (firstOf (p :: ps)) P := by
  intro input a pos y next hrow h
  unfold firstOf at h
  split at h
  · next r hr =>
    cases h
    exact hp hrow hr
  · exact hps hrow h

theorem ite {c : Prop} [Decidable c] {q : Reader α} (hp : c → Reads front p P)
    (hq : ¬ c → Reads front q P) : Reads front (if c then p else q) P := by
  split
  · next hc => exact hp hc
  · next hc => exact hq hc

/-- Two ways of reading what the rest needs. -/
theorem either {c : Prop} [Decidable c] {q : Reader α} {k : α → Reader β} (hp : Reads [] p P)
    (hq : Reads [] q P) (hk : ∀ x, P x → Reads (front ++ parts x) (k x) Q) :
    Reads front (if c then p >>= k else q >>= k) Q :=
  .ite (fun _ => hp.bind hk) fun _ => hq.bind hk

theorem opt {p : Reader Shape} {P : Shape → Prop} (hp : Reads [] p P) :
    Reads [] (Reader.opt p) (∀ s ∈ ·, P s) := by
  intro input a pos y next hrow h
  unfold Reader.opt at h
  split at h
  · next s q hs =>
    cases h
    obtain ⟨hparts, hP⟩ := hp hrow hs
    refine ⟨hparts, fun t ht => ?_⟩
    rw [mem_singleton.1 ht]
    exact hP
  · cases h
    exact ⟨hrow, nofun⟩

theorem optAll {p : Reader (List Shape)} {P : List Shape → Prop} (hp : Reads [] p P) (hnil : P []) :
    Reads [] (Reader.optAll p) P := by
  intro input a pos y next hrow h
  unfold Reader.optAll at h
  split at h
  · next r hr =>
    cases h
    exact hp hrow hr
  · cases h
    exact ⟨hrow, hnil⟩

/-- Rounds of a reader whose results are put together. -/
theorem repeatUpTo [Parts (List γ)] (hnil : parts ([] : List γ) = [])
    (happ : ∀ xs ys : List γ, parts (xs ++ ys) = parts xs ++ parts ys) {p : Reader (List γ)}
    {P : γ → Prop} (hp : Reads [] p (∀ x ∈ ·, P x)) (fuel : Nat) :
    Reads [] (Reader.repeatUpTo p fuel) (∀ x ∈ ·, P x) := by
  induction fuel with
  | zero =>
    intro input a pos y next hrow h
    cases h
    exact ⟨hnil ▸ hrow, nofun⟩
  | succ fuel ih =>
    intro input a pos y next hrow h
    unfold Reader.repeatUpTo at h
    split at h
    · cases h
      exact ⟨hnil ▸ hrow, nofun⟩
    · next xs q hxs =>
      obtain ⟨hrowx, hPx⟩ := hp hrow hxs
      split at h
      · cases h
        exact ⟨hrowx, hPx⟩
      · split at h
        · next ys r hys =>
          cases h
          obtain ⟨hrowy, hPy⟩ := ih (.nil (Nat.le_refl q)) hys
          refine ⟨happ xs ys ▸ hrowx.append hrowy, fun x hx => ?_⟩
          exact (mem_append.1 hx).elim (hPx x) (hPy x)
        · cases h
          exact ⟨hrowx, hPx⟩

theorem many {p : Reader (List Shape)} {P : Shape → Prop} (hp : Reads [] p (∀ s ∈ ·, P s)) :
    Reads [] (Reader.many p) (∀ s ∈ ·, P s) := fun _ _ _ _ _ hrow h =>
  repeatUpTo rfl (fun _ _ => rfl) hp _ hrow h

theorem grow {step : Shape → Reader Shape} {P : Shape → Prop}
    (hstep : ∀ left, P left → Reads [left] (step left) P) {left : Shape} (hleft : P left) :
    Reads [left] (Reader.grow step left) P := by
  intro input a pos y next hrow h
  unfold Reader.grow at h
  generalize input.chars.size + 1 - pos = fuel at h
  induction fuel generalizing left pos with
  | zero =>
    cases h
    exact ⟨hrow, hleft⟩
  | succ fuel ih =>
    unfold growUpTo at h
    split at h
    · cases h
      exact ⟨hrow, hleft⟩
    · next wider q hw =>
      obtain ⟨hrow', hP⟩ := hstep left hleft hrow hw
      split at h
      · cases h
        exact ⟨hrow', hP⟩
      · exact ih hP hrow' h

end Reads

/-! ## Readers that only look -/

namespace Passes

open Reader

variable {α β : Type}

theorem pure (x : α) : Passes (pure x) := by
  intro input pos y next h
  cases h
  exact Nat.le_refl _

theorem bind {x : Reader α} {k : α → Reader β} (hx : Passes x) (hk : ∀ y, Passes (k y)) :
    Passes (x >>= k) := by
  intro input pos z next h
  obtain ⟨y, mid, hy, hz⟩ := bind_eq_some h
  exact Nat.le_trans (hx hy) (hk y hz)

theorem read : Passes read := by
  intro input pos y next h
  cases h
  exact Nat.le_refl _

theorem get : Passes get := by
  intro input pos y next h
  cases h
  exact Nat.le_refl _

theorem nextStart : Passes nextStart := by
  intro input pos y next h
  cases h
  exact Nat.le_refl _

theorem isAhead (p : Reader α) : Passes (isAhead p) := by
  intro input pos y next h
  cases h
  exact Nat.le_refl _

theorem peekWord : Passes peekWord := by
  refine .bind .read fun i => .bind .nextStart fun a => ?_
  split
  · exact .bind .read fun _ => .pure _
  · exact .pure _

theorem peekPunct : Passes peekPunct := .bind .read fun _ => .bind .nextStart fun _ => .pure _

theorem peekChar : Passes peekChar := .bind .read fun _ => .bind .nextStart fun _ => .pure _

theorem newlineAhead : Passes newlineAhead :=
  .bind .read fun _ => .bind .get fun _ => .bind .nextStart fun _ => .pure _

theorem atEnd : Passes atEnd := .bind .read fun _ => .bind .nextStart fun _ => .pure _

end Passes

/-! ## Tokens -/

/-- A bare token. -/
def IsToken (s : Shape) : Prop := ∃ t a b, s = .token t a b

/-- A node of the given kind without parts. -/
def IsLeaf (k : Kind) (s : Shape) : Prop := ∃ a b, s = .leaf k a b

theorem IsToken.callFree : IsToken s → s.CallFree := by
  rintro ⟨t, a, b, rfl⟩
  exact .mk rfl nofun

theorem IsToken.headFree (h : IsToken s) : s.HeadFree := h.callFree.headFree

theorem IsToken.tame (h : IsToken s) : s.Tame := h.headFree.tame

theorem IsToken.field_eq_none : IsToken s → s.field = none := by
  rintro ⟨t, a, b, rfl⟩
  rfl

theorem IsToken.field_ne {f : Field} : IsToken s → s.field ≠ some f := by
  rintro ⟨t, a, b, rfl⟩
  exact nofun

theorem IsToken.bare : IsToken s → s.Bare := by
  rintro ⟨t, a, b, rfl⟩
  exact ⟨rfl, rfl⟩

theorem IsToken.tight (h : IsToken s) : s.Tight :=
  Shape.tight_of_field_none h.field_eq_none

theorem IsToken.begins (h : IsToken s) : s.Begins :=
  ⟨.inl h.bare.1, h.field_ne, h.field_ne⟩

theorem IsLeaf.callFree (hk : (Label.named k).isCall = false) :
    IsLeaf k s → s.CallFree := by
  rintro ⟨a, b, rfl⟩
  exact .mk hk nofun

theorem IsLeaf.headFree (hk : (Label.named k).isCall = false) (h : IsLeaf k s) : s.HeadFree :=
  (h.callFree hk).headFree

theorem IsLeaf.tame_part {f : Field} (hk : (Label.named k).isCall = false) (h : IsLeaf k s) :
    (s.part f).Tame :=
  (Shape.headFree_part.2 (h.headFree hk)).tame

theorem IsLeaf.worded : IsLeaf k s → s.Worded := by
  rintro ⟨a, b, rfl⟩
  exact .inl rfl

theorem IsLeaf.isIdentifier (hk : k.isIdentifier = true) :
    IsLeaf k s → s.label.kind?.any Kind.isIdentifier = true := by
  rintro ⟨a, b, rfl⟩
  exact hk

namespace Reader

variable {input : Input} {pos next : Nat} {s : Shape} {text : String} {k : Kind}

theorem punct_eq_some (h : punct text input pos = some (s, next)) :
    ∃ a, pos ≤ a ∧ punctuatorAt input.chars a = text ∧ next = a + text.length ∧
      s = .token text a next := by
  obtain ⟨a, hle, h⟩ := bind_nextStart_eq_some h
  obtain ⟨hb, h⟩ := bind_guardThat_eq_some (bind_read_eq_some h)
  cases h
  exact ⟨a, hle, beq_iff_eq.1 hb, rfl, rfl⟩

theorem symbol_eq_some (h : symbol text input pos = some (s, next)) :
    ∃ a, pos ≤ a ∧ standsAt input.chars text.toList a = true ∧ next = a + text.length ∧
      s = .token text a next := by
  obtain ⟨a, hle, h⟩ := bind_nextStart_eq_some h
  obtain ⟨hb, h⟩ := bind_guardThat_eq_some (bind_read_eq_some h)
  cases h
  exact ⟨a, hle, hb, rfl, rfl⟩

theorem keyword_eq_some (h : keyword text input pos = some (s, next)) :
    ∃ a, pos ≤ a ∧ nameEnd? input.chars a = some next ∧ s = .token text a next := by
  obtain ⟨a, hle, h⟩ := bind_nextStart_eq_some (bind_read_eq_some h)
  cases hend : nameEnd? input.chars a with
  | none =>
    rw [hend] at h
    cases h
  | some b =>
    rw [hend] at h
    obtain ⟨w, q, hw, h⟩ := bind_eq_some h
    cases hw
    obtain ⟨-, h⟩ := bind_guardThat_eq_some h
    cases h
    exact ⟨a, hle, hend, rfl⟩

theorem anyWord_eq_some (h : anyWord k input pos = some (s, next)) :
    ∃ a, pos ≤ a ∧ nameEnd? input.chars a = some next ∧ s = .leaf k a next := by
  obtain ⟨a, hle, h⟩ := bind_nextStart_eq_some (bind_read_eq_some h)
  cases hend : nameEnd? input.chars a with
  | none =>
    rw [hend] at h
    cases h
  | some b =>
    rw [hend] at h
    cases h
    exact ⟨a, hle, hend, rfl⟩

end Reader

namespace Reads

open Reader

theorem length_pos_of_isEmpty {text : String} (ht : text.isEmpty = false) :
    text ≠ "" ∧ 0 < text.length := by
  have hne := String.isEmpty_eq_false_iff.1 ht
  exact ⟨hne, Nat.pos_of_ne_zero (mt String.length_eq_zero_iff.1 hne)⟩

theorem punct {text : String} (ht : text.isEmpty = false) :
    Reads [] (Reader.punct text) IsToken := by
  intro input a pos s next hrow h
  obtain ⟨b, hb, hat, rfl, rfl⟩ := punct_eq_some h
  obtain ⟨hne, hlen⟩ := length_pos_of_isEmpty ht
  exact ⟨.leaf rfl (Nat.le_trans hrow.aligned.le hb) (Nat.lt_add_of_pos_right hlen)
    (lt_of_punctuatorAt (hat ▸ hne)) (Nat.le_refl _), text, b, _, rfl⟩

theorem symbol {text : String} (ht : text.isEmpty = false) :
    Reads [] (Reader.symbol text) IsToken := by
  intro input a pos s next hrow h
  obtain ⟨b, hb, hat, rfl, rfl⟩ := symbol_eq_some h
  obtain ⟨hne, hlen⟩ := length_pos_of_isEmpty ht
  exact ⟨.leaf rfl (Nat.le_trans hrow.aligned.le hb) (Nat.lt_add_of_pos_right hlen)
    (lt_of_standsAt (mt String.toList_eq_nil_iff.1 hne) hat) (Nat.le_refl _), text, b, _, rfl⟩

theorem keyword (text : String) : Reads [] (Reader.keyword text) IsToken := by
  intro input a pos s next hrow h
  obtain ⟨b, hb, hend, rfl⟩ := keyword_eq_some h
  obtain ⟨hlt, hn⟩ := lt_of_nameEnd?_eq_some hend
  exact ⟨.leaf rfl (Nat.le_trans hrow.aligned.le hb) hlt hn (Nat.le_refl _), text, b, next, rfl⟩

theorem anyWord {k : Kind} (hk : (Label.named k).standsAlone = true) :
    Reads [] (Reader.anyWord k) (IsLeaf k) := by
  intro input a pos s next hrow h
  obtain ⟨b, hb, hend, rfl⟩ := anyWord_eq_some h
  obtain ⟨hlt, hn⟩ := lt_of_nameEnd?_eq_some hend
  exact ⟨.leaf hk (Nat.le_trans hrow.aligned.le hb) hlt hn (Nat.le_refl _), b, next, rfl⟩

theorem asLeaf {p : Reader Shape} {k : Kind} (hp : Reads [] p IsToken)
    (hk : (Label.named k).standsAlone = true) :
    Reads [] (p >>= fun t => pure (Shape.mk (.named k) f t.start t.stop [])) fun s =>
      ∃ a b, s = Shape.mk (.named k) f a b [] := by
  intro input a pos s next hrow h
  obtain ⟨t, q, ht, h⟩ := bind_eq_some h
  cases h
  obtain ⟨hrow', text, b, c, rfl⟩ := hp hrow ht
  have hplain : (Shape.token text b c).label ≠ .named .comment := nofun
  obtain ⟨h₁, h₂, h₃, h₄⟩ := (Aligned.cons_iff hplain).1 hrow'.aligned
  exact ⟨.leaf hk h₁ h₂ h₃ h₄, b, c, rfl⟩

theorem wordAs {k : Kind} (text : String) (hk : (Label.named k).standsAlone = true) :
    Reads [] (Reader.wordAs k text) (IsLeaf k) :=
  .asLeaf (.keyword text) hk

theorem keywordOf (texts : List String) : Reads [] (Reader.keywordOf texts) IsToken :=
  .skip .peekWord fun w => .guard fun _ => .keyword w

theorem isEmpty_of_contains {texts : List String} {t : String} (ht : "" ∉ texts)
    (h : texts.contains t = true) : t.isEmpty = false := by
  rw [String.isEmpty_eq_false_iff]
  rintro rfl
  exact ht (contains_iff_mem.1 h)

theorem punctOf {texts : List String} (ht : "" ∉ texts) :
    Reads [] (Reader.punctOf texts) IsToken :=
  .skip .peekPunct fun _ => .guard fun hmem => .punct (isEmpty_of_contains ht hmem)

theorem privateName : Reads [] Reader.privateName (IsLeaf .privatePropertyIdentifier) := by
  intro input a pos s next hrow h
  obtain ⟨b, hle, h⟩ := bind_nextStart_eq_some (bind_read_eq_some h)
  obtain ⟨hc, h⟩ := bind_guardThat_eq_some h
  have hn := lt_size_of_getElem?_eq_some (beq_iff_eq.1 hc)
  cases hend : nameEnd? input.chars (b + 1) with
  | none =>
    rw [hend] at h
    cases h
  | some e =>
    rw [hend] at h
    cases h
    have hlt := (lt_of_nameEnd?_eq_some hend).1
    exact ⟨.leaf rfl (Nat.le_trans hrow.aligned.le hle) (Nat.lt_of_succ_lt hlt) hn (Nat.le_refl _),
      b, next, rfl⟩

theorem number : Reads [] Reader.number (IsLeaf .number) := by
  intro input a pos s next hrow h
  obtain ⟨b, hle, h⟩ := bind_nextStart_eq_some (bind_read_eq_some h)
  cases hend : numberEnd? input.chars b with
  | none =>
    rw [hend] at h
    cases h
  | some e =>
    rw [hend] at h
    cases h
    obtain ⟨hlt, hn⟩ := lt_of_numberEnd?_eq_some hend
    exact ⟨.leaf rfl (Nat.le_trans hrow.aligned.le hle) hlt hn (Nat.le_refl _), b, next, rfl⟩

/-! ## Lists of elements -/

theorem single {p : Reader Shape} {P : Shape → Prop} (hp : Reads [] p P) :
    Reads [] (p >>= fun s => pure [s]) (∀ s ∈ ·, P s) :=
  hp.bind fun s hs => .done ⟨by simp, by simpa using hs⟩

theorem semicolon : Reads [] Reader.semicolon (∀ s ∈ ·, IsToken s) := .opt (.punct rfl)

variable {p : Reader (List Shape)} {P : Shape → Prop}

theorem commaSep1 (hp : Reads [] p fun l => l ≠ [] ∧ ∀ s ∈ l, P s) (htok : ∀ s, IsToken s → P s) :
    Reads [] (Reader.commaSep1 p) fun l => l ≠ [] ∧ ∀ s ∈ l, P s := by
  have hround : Reads [] (do let c ← Reader.punct ","; let x ← p; pure (c :: x)) (∀ s ∈ ·, P s) := by
    refine .bind (.punct rfl) fun c hc => hp.bind fun x hx => .done ⟨by simp, ?_⟩
    simpa using ⟨htok c hc, hx.2⟩
  refine hp.bind fun first hfirst => (many hround).bind fun rest hrest => .done ⟨by simp, ?_, ?_⟩
  · simp [hfirst.1]
  · exact forall_mem_append.2 ⟨hfirst.2, hrest⟩

theorem bracketed {o c : String} (ho : o.isEmpty = false) (hc : c.isEmpty = false)
    (hp : Reads [] p (∀ s ∈ ·, P s))
    (htok : ∀ s, IsToken s → P s) :
    Reads [] (Reader.bracketed o c p) fun l => l ≠ [] ∧ (∀ s ∈ l.head?, IsToken s) ∧ ∀ s ∈ l, P s := by
  have hround : Reads [] (do let c ← Reader.punct ","; let x ← Reader.optAll p; pure (c :: x))
      (∀ s ∈ ·, P s) := by
    refine .bind (.punct rfl) fun c hc => (hp.optAll nofun).bind fun x hx => .done ⟨by simp, ?_⟩
    simpa using ⟨htok c hc, hx⟩
  refine .bind (.punct ho) fun o ho => (hp.optAll nofun).bind fun first hfirst => ?_
  refine (many hround).bind fun rest hrest => .bind (.punct hc) fun c hc => .done ⟨by simp, ?_⟩
  refine ⟨by simp, by simpa using ho, ?_⟩
  simp only [cons_append, forall_mem_cons, forall_mem_append]
  exact ⟨htok o ho, ⟨hfirst, hrest⟩, htok c hc, nofun⟩

end Reads

/-! ## What readers return -/

/-- Whatever the reader returns satisfies `P`. -/
def Yields {α : Type} (p : Reader α) (P : α → Prop) : Prop :=
  ∀ ⦃input : Input⦄ ⦃pos : Nat⦄ ⦃x : α⦄ ⦃next : Nat⦄, p input pos = some (x, next) → P x

theorem Reads.yields {α : Type} [Parts α] {p : Reader α} {P : α → Prop} (h : Reads [] p P) :
    Yields p P := fun _ pos _ _ hp => (h (.nil (Nat.le_refl pos)) hp).2

theorem Reads.and {α : Type} [Parts α] {front : List Shape} {p : Reader α} {P Q : α → Prop}
    (hp : Reads front p P) (hq : Yields p Q) : Reads front p fun x => P x ∧ Q x :=
  fun _ _ _ _ _ hrow h => ⟨(hp hrow h).1, (hp hrow h).2, hq h⟩

theorem Reads.to {α : Type} [Parts α] {front : List Shape} {p : Reader α} {P Q : α → Prop}
    (hp : Reads front p P) (hq : Yields p Q) : Reads front p Q :=
  (hp.and hq).weaken fun _ h => h.2

namespace Yields

open Reader

variable {α β : Type} {p : Reader α} {P P' : α → Prop} {Q : β → Prop}

theorem weaken (h : Yields p P) (himp : ∀ x, P x → P' x) : Yields p P' :=
  fun _ _ x _ hp => himp x (h hp)

theorem pure {x : α} (h : P x) : Yields (pure x) P := by
  intro input pos y next hy
  cases hy
  exact h

theorem fail : Yields (failure : Reader α) P := nofun

theorem bind {k : α → Reader β} (hp : Yields p P) (hk : ∀ x, P x → Yields (k x) Q) :
    Yields (p >>= k) Q := by
  intro input pos y next h
  obtain ⟨x, mid, hx, hy⟩ := bind_eq_some h
  exact hk x (hp hx) hy

theorem after {k : α → Reader β} (hk : ∀ x, Yields (k x) Q) : Yields (p >>= k) Q := by
  intro input pos y next h
  obtain ⟨x, mid, -, hy⟩ := bind_eq_some h
  exact hk x hy

theorem ite {c : Prop} [Decidable c] {q : Reader α} (hp : Yields p P) (hq : Yields q P) :
    Yields (if c then p else q) P := by
  split
  · exact hp
  · exact hq

theorem nil : Yields (firstOf []) P := .fail

theorem or {ps : List (Reader α)} (hp : Yields p P) (hps : Yields (firstOf ps) P) :
    Yields (firstOf (p :: ps)) P := by
  intro input pos x next h
  unfold firstOf at h
  split at h
  · next r hr =>
    cases h
    exact hp hr
  · exact hps h

theorem opt {p : Reader Shape} {P : Shape → Prop} (hp : Yields p P) :
    Yields (Reader.opt p) (∀ s ∈ ·, P s) := by
  intro input pos x next hx
  unfold Reader.opt at hx
  split at hx
  · next s q hs =>
    cases hx
    exact forall_mem_singleton.2 (hp hs)
  · cases hx
    exact forall_mem_nil _

theorem optAll {p : Reader (List Shape)} {P : List Shape → Prop} (hp : Yields p P) (hnil : P []) :
    Yields (Reader.optAll p) P := by
  intro input pos x next hx
  unfold Reader.optAll at hx
  split at hx
  · next r hr =>
    cases hx
    exact hp hr
  · cases hx
    exact hnil

theorem grow {step : Shape → Reader Shape} {P : Shape → Prop} (hstep : ∀ left, Yields (step left) P)
    {left : Shape} (hleft : P left) : Yields (Reader.grow step left) P := by
  intro input pos x next h
  unfold Reader.grow at h
  generalize input.chars.size + 1 - pos = fuel at h
  induction fuel generalizing left pos with
  | zero =>
    cases h
    exact hleft
  | succ fuel ih =>
    unfold growUpTo at h
    split at h
    · cases h
      exact hleft
    · next wider q hw =>
      split at h
      · cases h
        exact hstep left hw
      · exact ih (hstep left hw) h

theorem keyword (text : String) :
    Yields (Reader.keyword text) fun s => s.label = .token text ∧ s.field = none := by
  intro input pos s next h
  obtain ⟨a, -, -, rfl⟩ := keyword_eq_some h
  exact ⟨rfl, rfl⟩

theorem punct (text : String) :
    Yields (Reader.punct text) fun s => s.label = .token text ∧ s.field = none := by
  intro input pos s next h
  obtain ⟨a, -, -, -, rfl⟩ := punct_eq_some h
  exact ⟨rfl, rfl⟩

theorem node {k : Kind} {p : Reader (List Shape)} :
    Yields (Reader.node k p) fun s => s.label = .named k ∧ s.field = none :=
  .after fun _ => .after fun _ => .pure ⟨rfl, rfl⟩

end Yields

end ScriptAtlas.Syntax
