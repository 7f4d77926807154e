import Mathlib.Data.List.Forall2
import ScriptAtlas.Proofs.Placement
import ScriptAtlas.Symbol.Export

/-!
# Corresponding searches

Export searches are written for any monad in which questions can be asked. What two ways of asking have
in common therefore passes from the questions to whole searches, and this is shown once here, for any
way to relate computations.

* `Lifting`: a way to relate the computations of two monads, given how their results relate.
* `Region`: a part of a project that no search leaves, neither by the questions it puts nor by the
  blocks it visits, and what the declarations found there have in common.
* `Correspondence.searches_ofBlock`, `Correspondence.searches_searchFor`: searches in a region
  correspond if the answers to its questions and the searches of its blocks do.
-/

namespace ScriptAtlas.Export

open List Project Syntax

/-- A way to relate computations in two monads. -/
structure Lifting (m m' : Type → Type) [Monad m] [Monad m'] where
  rel : {α : Type} → (α → α → Prop) → m α → m' α → Prop
  rel_pure : ∀ {α : Type} {R : α → α → Prop} {a b : α}, R a b → rel R (pure a) (pure b)
  rel_bind : ∀ {α β : Type} {R : α → α → Prop} {S : β → β → Prop} {x : m α} {y : m' α}
    {f : α → m β} {g : α → m' β}, rel R x y → (∀ a b, R a b → rel S (f a) (g b)) →
    rel S (x >>= f) (y >>= g)

/-- A part of a project that searches do not leave: the questions that are put, the modules that are
opened from a file by a specifier and a name, the blocks that are visited for a name and whether they
export all that they declare, and what the declarations found have in common. -/
structure Region (idx : Index) where
  asks : Question → Prop
  opens : Nat → String → String → Prop
  visits : SourceFile → Node → String → Bool → Prop
  finds : Declaration → Prop
  asks_of_opens : ∀ {file specifier name}, opens file specifier name →
    asks (.ambient specifier name)
  visits_of_opens : ∀ {file specifier name target}, opens file specifier name →
    target ∈ idx.linked file specifier → visits target target.root name false
  opens_of_names : ∀ {file block name ambientBlock stmt clause src r},
    visits file block name ambientBlock → stmt ∈ block.namedChildren →
    formOf stmt = .names clause (some src) → r ∈ renamings clause →
    opens file.id src.stringValue r.inner
  opens_of_star : ∀ {file block name ambientBlock stmt specifier},
    visits file block name ambientBlock → stmt ∈ block.namedChildren →
    starSource? name stmt = some specifier → opens file.id specifier name
  asks_of_whole : ∀ {file block name ambientBlock stmt target d specifier},
    visits file block name ambientBlock → stmt ∈ block.namedChildren →
    stmt.hasKind .exportStatement → formOf stmt = .whole (some target) →
    d ∈ valueDeclarations idx file stmt target → moduleBehind? d = some specifier →
    asks (.specifier d.file.id specifier name)
  finds_own : ∀ {file block name ambientBlock stmt d}, visits file block name ambientBlock →
    stmt ∈ block.namedChildren → stmt.hasKind .exportStatement →
    d ∈ ownDeclarations idx file stmt (formOf stmt) name → finds d
  finds_named : ∀ {file block name stmt d}, visits file block name true → stmt ∈ block.namedChildren →
    d ∈ namedDeclarations file stmt name → finds d
  finds_value : ∀ {file block name ambientBlock stmt target d},
    visits file block name ambientBlock → stmt ∈ block.namedChildren →
    stmt.hasKind .exportStatement → formOf stmt = .whole (some target) →
    d ∈ valueDeclarations idx file stmt target → finds d
  finds_part : ∀ {d e : Declaration} {name : String}, finds d → e ∈ partsNamed d name → finds e

/-- The whole project, with nothing said of what is found. -/
def Region.everything (idx : Index) : Region idx where
  asks _ := True
  opens _ _ _ := True
  visits _ _ _ _ := True
  finds _ := True
  asks_of_opens _ := trivial
  visits_of_opens _ _ := trivial
  opens_of_names _ _ _ _ := trivial
  opens_of_star _ _ _ := trivial
  asks_of_whole _ _ _ _ _ _ := trivial
  finds_own _ _ _ _ := trivial
  finds_named _ _ _ := trivial
  finds_value _ _ _ _ _ := trivial
  finds_part _ _ := trivial

/-- The search for an answer begins in the region. -/
def Region.Begins {idx : Index} (G : Region idx) : Question → Prop
  | .file id name => ∀ file, idx.file? id = some file → G.visits file file.root name false
  | .specifier file specifier name => G.opens file specifier name
  | .ambient specifier name => ∀ file body, (file, body) ∈ ambientBlocks idx specifier →
      G.visits file body name true

/-- A way to relate searches in two monads: one for computations, and one for the goals taken up. -/
structure Correspondence (m m' : Type → Type) [Monad m] [Monad m'] extends Lifting m m' where
  states : List Goal → List Goal → Prop

namespace Correspondence

variable {m m' : Type → Type} [Monad m] [Monad m'] (C : Correspondence m m') {idx : Index}
  (G : Region idx)

variable {name : String} {file : SourceFile} {ambientBlock : Bool} {block : Node}

/-- Answers that correspond and lie in the region. -/
def Answers (x : m (List Declaration)) (y : m' (List Declaration)) : Prop :=
  C.rel (fun ds es => ds = es ∧ ∀ d ∈ ds, G.finds d) x y

/-- Searches that correspond from all states that do, and find only what lies in the region. -/
def Searches (s : Search m) (t : Search m') : Prop :=
  ∀ v w, C.states v w →
    C.rel (fun a b => a.1 = b.1 ∧ (∀ d ∈ a.1, G.finds d) ∧ C.states a.2 b.2) (s v) (t w)

variable {C G}

theorem searches_pure {ds : List Declaration} (h : ∀ d ∈ ds, G.finds d) :
    C.Searches G (pure ds) (pure ds) :=
  fun _ _ hvw => C.rel_pure ⟨rfl, h, hvw⟩

theorem searches_bind {s : Search m} {t : Search m'} {f : List Declaration → Search m}
    {g : List Declaration → Search m'} (hst : C.Searches G s t)
    (hfg : ∀ ds, (∀ d ∈ ds, G.finds d) → C.Searches G (f ds) (g ds)) :
    C.Searches G (s >>= f) (t >>= g) := by
  intro v w hvw
  refine C.rel_bind (hst v w hvw) ?_
  rintro ⟨ds, v'⟩ ⟨es, w'⟩ ⟨heq, hfinds, hstates⟩
  obtain rfl : ds = es := heq
  exact hfg ds hfinds v' w' hstates

theorem searches_await {x : m (List Declaration)} {y : m' (List Declaration)}
    (h : C.Answers G x y) : C.Searches G (Search.await x) (Search.await y) := by
  intro v w hvw
  refine C.rel_bind h ?_
  rintro ds es ⟨rfl, hfinds⟩
  exact C.rel_pure ⟨rfl, hfinds, hvw⟩

theorem searches_first {ss : List (Search m)} {ts : List (Search m')}
    (h : List.Forall₂ (C.Searches G) ss ts) :
    C.Searches G (Search.first ss) (Search.first ts) := by
  induction h with
  | nil => exact searches_pure (by simp)
  | cons hst _ ih =>
    refine searches_bind hst fun found hfound => ?_
    cases found with
    | nil => exact ih
    | cons d ds => exact searches_pure hfound

theorem searches_all {ss : List (Search m)} {ts : List (Search m')}
    (h : List.Forall₂ (C.Searches G) ss ts) :
    C.Searches G (Search.all ss) (Search.all ts) := by
  induction h with
  | nil => exact searches_pure (by simp)
  | cons hst _ ih =>
    refine searches_bind hst fun found hfound => searches_bind ih fun more hmore => ?_
    refine searches_pure fun d hd => ?_
    rcases mem_append.1 hd with hd | hd
    · exact hfound d hd
    · exact hmore d hd

theorem forall₂_map {α : Type} {items : List α} {f : α → Search m} {g : α → Search m'}
    (h : ∀ a ∈ items, C.Searches G (f a) (g a)) :
    List.Forall₂ (C.Searches G) (items.map f) (items.map g) := by
  rw [List.forall₂_map_left_iff, List.forall₂_map_right_iff, List.forall₂_same]
  exact h

/-- The answer that a search starts for corresponds if the search does. -/
theorem answers_start {s : Search m} {t : Search m'} (h : C.Searches G s t)
    (hnil : C.states [] []) : C.Answers G s.start t.start := by
  refine C.rel_bind (h [] [] hnil) ?_
  rintro ⟨ds, v⟩ ⟨es, w⟩ ⟨heq, hfinds, -⟩
  exact C.rel_pure ⟨heq, hfinds⟩

/-! ## Searches of a block -/

variable {ask : Question → m (List Declaration)} {ask' : Question → m' (List Declaration)}
  {search : BlockSearch m} {search' : BlockSearch m'}
  (hask : ∀ q, G.asks q → C.Answers G (ask q) (ask' q))
  (hsearch : ∀ file block name ambientBlock, G.visits file block name ambientBlock →
    C.Searches G (search file block name ambientBlock) (search' file block name ambientBlock))

include hask

theorem searches_member {d : Declaration} (hd : G.finds d)
    (hasks : ∀ specifier, moduleBehind? d = some specifier →
      G.asks (.specifier d.file.id specifier name)) :
    C.Searches G (member ask d name) (member ask' d name) := by
  unfold member
  cases hbehind : moduleBehind? d with
  | none => exact searches_pure fun e he => G.finds_part hd he
  | some specifier => exact searches_await (hask _ (hasks specifier hbehind))

include hsearch

theorem searches_ofModule {file : Nat} {specifier name : String}
    (hopens : G.opens file specifier name) :
    C.Searches G (ofModule idx ask search file specifier name)
      (ofModule idx ask' search' file specifier name) := by
  refine searches_first (rel_append (forall₂_map fun target htarget => ?_) ?_)
  · exact hsearch _ _ _ _ (G.visits_of_opens hopens htarget)
  · exact .cons (searches_await (hask _ (G.asks_of_opens hopens))) .nil

theorem searches_ofStatement {block stmt : Node} (hvisits : G.visits file block name ambientBlock)
    (hstmt : stmt ∈ block.namedChildren) (hexport : stmt.hasKind .exportStatement = true) :
    C.Searches G (ofStatement idx ask search file stmt name)
      (ofStatement idx ask' search' file stmt name) := by
  have hown := fun d => G.finds_own (d := d) hvisits hstmt hexport
  unfold ofStatement
  split
  · next clause src hform =>
    refine searches_all (forall₂_map fun r hr => ?_)
    exact searches_ofModule hask hsearch
      (G.opens_of_names hvisits hstmt hform (mem_of_mem_filter hr))
  · next target hform =>
    have hvalues := fun d => G.finds_value (d := d) hvisits hstmt hexport hform
    by_cases hname : name == "default"
    · simp only [hname, if_true]
      exact searches_pure hvalues
    · simp only [hname, Bool.false_eq_true, if_false]
      refine searches_all (forall₂_map fun d hd => ?_)
      exact searches_member hask (hvalues d hd)
        fun specifier => G.asks_of_whole hvisits hstmt hexport hform hd
  · exact searches_pure hown

theorem searches_ofBlockStatement {block stmt : Node}
    (hvisits : G.visits file block name ambientBlock) (hstmt : stmt ∈ block.namedChildren) :
    C.Searches G (ofBlockStatement idx ask search file ambientBlock name stmt)
      (ofBlockStatement idx ask' search' file ambientBlock name stmt) := by
  unfold ofBlockStatement
  by_cases hexport : stmt.hasKind .exportStatement = true
  · simp only [hexport, if_true]
    exact searches_ofStatement hask hsearch hvisits hstmt hexport
  · simp only [hexport, Bool.false_eq_true, if_false]
    refine searches_pure fun d hd => ?_
    cases ambientBlock with
    | true => exact G.finds_named hvisits hstmt hd
    | false => simp at hd

theorem searches_ofStars (hvisits : G.visits file block name ambientBlock) :
    C.Searches G (ofStars idx ask search file block name)
      (ofStars idx ask' search' file block name) := by
  refine searches_first (forall₂_map fun specifier hspecifier => ?_)
  obtain ⟨stmt, hstmt, hstar⟩ := mem_filterMap.1 hspecifier
  exact searches_ofModule hask hsearch (G.opens_of_star hvisits hstmt hstar)

theorem searches_ofBlock (hvisits : G.visits file block name ambientBlock) :
    C.Searches G (ofBlock idx ask search file block name ambientBlock)
      (ofBlock idx ask' search' file block name ambientBlock) := by
  refine searches_bind (searches_all (forall₂_map fun stmt hstmt => ?_)) fun found hfound => ?_
  · exact searches_ofBlockStatement hask hsearch hvisits hstmt
  · cases found with
    | nil => exact searches_ofStars hask hsearch hvisits
    | cons d ds => exact searches_pure hfound

/-- Where only equal states correspond, a step takes up a goal in both searches or in none. -/
theorem searches_step (hstates : C.states = Eq) (hvisits : G.visits file block name ambientBlock) :
    C.Searches G (step idx ask search file block name ambientBlock)
      (step idx ask' search' file block name ambientBlock) := by
  intro v w hvw
  have heq : v = w := by rwa [hstates] at hvw
  subst heq
  unfold step
  split
  · exact C.rel_pure ⟨rfl, by simp, hvw⟩
  · exact searches_ofBlock hask hsearch hvisits _ _ (by rw [hstates])

omit hsearch in
theorem searches_upTo (hstates : C.states = Eq) {halt : m (List Declaration × List Goal)}
    {halt' : m' (List Declaration × List Goal)} (hhalt : ∀ R, C.rel R halt halt') (fuel : Nat)
    (hvisits : G.visits file block name ambientBlock) :
    C.Searches G (upTo idx ask halt fuel file block name ambientBlock)
      (upTo idx ask' halt' fuel file block name ambientBlock) := by
  induction fuel generalizing file block name ambientBlock with
  | zero => exact fun v w _ => hhalt _
  | succ fuel ih =>
    exact searches_step hask (fun _ _ _ _ => ih) hstates hvisits

/-- Searches for a question correspond, provided that the question begins in the region. -/
theorem searches_searchFor {q : Question} (hq : G.Begins q) :
    C.Searches G (searchFor idx ask search q) (searchFor idx ask' search' q) := by
  cases q with
  | file id name =>
    simp only [searchFor]
    cases hid : idx.file? id with
    | none => exact searches_pure (by simp)
    | some file => exact hsearch _ _ _ _ (hq file hid)
  | specifier file specifier name =>
    exact searches_ofModule hask hsearch hq
  | ambient specifier name =>
    refine searches_all (forall₂_map ?_)
    rintro ⟨file, body⟩ hmem
    exact hsearch _ _ _ _ (hq file body hmem)

omit hask hsearch in
/-- In the whole project, the answers to any question correspond. -/
theorem answers_searchFor (hask : ∀ q, C.Answers (Region.everything idx) (ask q) (ask' q))
    (hsearch : ∀ file block name ambientBlock, C.Searches (Region.everything idx)
      (search file block name ambientBlock) (search' file block name ambientBlock))
    (hnil : C.states [] []) (q : Question) :
    C.Answers (Region.everything idx) (searchFor idx ask search q).start
      (searchFor idx ask' search' q).start := by
  refine answers_start (searches_searchFor (fun q _ => hask q) ?_ ?_) hnil
  · exact fun file block name ambientBlock _ => hsearch file block name ambientBlock
  · cases q <;> simp [Region.Begins, Region.everything]

end Correspondence

end ScriptAtlas.Export
