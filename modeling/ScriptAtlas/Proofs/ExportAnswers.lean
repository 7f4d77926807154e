import ScriptAtlas.Proofs.ExportPlacement
import ScriptAtlas.Proofs.Inquiry
import Mathlib.Data.Finset.Prod

/-!
# When export questions have answers

A search remembers the goals that it has taken up, so a single search always ends. But the questions
that it puts on its way are answered by searches of their own, and those remember nothing of it: a
question can lead to itself, and then it has no answer.

* `Export.inquiry`: the search for a question, with the questions that it puts.
* `Export.always_inquiryUpTo`: a search ends, whatever the answers to its questions, with as much fuel
  as there are goals.
* `Export.LeadsTo`: answering the first question takes an answer to the second one.
* `Export.ends_iff_not_leads_self`: a question has an answer exactly when no question that it leads to
  leads to itself, and then the fuel that the project reckons with is enough.
-/

namespace ScriptAtlas.Export

open List Project Syntax

variable {idx : Index} {file : SourceFile} {block : Node} {q : Question}

abbrev Inquiring := Inquiry Question (List Declaration)

/-- The search for a question, through at most `fuel` blocks. -/
def inquiryUpTo (idx : Index) (fuel : Nat) (q : Question) : Inquiring (List Declaration) :=
  (searchFor idx Inquiry.put (upTo idx Inquiry.put .stuck fuel) q).start

/-- The search for a question, through as many blocks as there are goals. -/
def inquiry (idx : Index) (q : Question) : Inquiring (List Declaration) :=
  inquiryUpTo idx (goalBound idx + 1) q

/-! ## Answers to the questions of a search -/

/-- Inquiries and their results, with questions answered by `answer`. -/
def running (answer : Question → Option (List Declaration)) : Correspondence Inquiring Option where
  rel R i x := Option.Rel R (i.run answer) x
  rel_pure h := .some h
  rel_bind {_ _ _ _ i x _ _} hix hfg := by
    rw [Inquiry.run_bind]
    revert hix
    generalize i.run answer = y
    intro hix
    cases hix with
    | some h => exact hfg _ _ h
    | none => exact .none
  states := Eq

theorem answers_running_iff {answer : Question → Option (List Declaration)}
    {i : Inquiring (List Declaration)} {x : Option (List Declaration)} :
    (running answer).Answers (Region.everything idx) i x ↔ i.run answer = x := by
  change Option.Rel _ (i.run answer) x ↔ _
  constructor
  · intro h
    generalize i.run answer = y at h
    cases h with
    | some h => rw [h.1]
    | none => rfl
  · rintro rfl
    cases i.run answer with
    | none => exact .none
    | some ds => exact .some ⟨rfl, fun _ _ => trivial⟩

theorem run_inquiryUpTo (idx : Index) (answer : Question → Option (List Declaration)) (n : Nat)
    (q : Question) : (inquiryUpTo idx n q).run answer =
      (searchFor idx answer (upTo idx answer none n) q).start := by
  have hask : ∀ q, (running answer).Answers (Region.everything idx) (Inquiry.put q) (answer q) :=
    fun q => answers_running_iff.2 (Inquiry.run_put answer q)
  refine answers_running_iff.1 (Correspondence.answers_searchFor hask ?_ rfl q)
  intro file block name ambientBlock
  refine Correspondence.searches_upTo (fun q _ => hask q) rfl (fun R => ?_) n trivial
  exact Option.Rel.none

theorem answerUpTo_succ (idx : Index) (n : Nat) (q : Question) :
    answerUpTo idx (n + 1) q = (inquiryUpTo idx n q).run (answerUpTo idx n) :=
  (run_inquiryUpTo idx (answerUpTo idx n) n q).symm

/-! ## More fuel for a search -/

/-- Inquiries and those that go on where they are stuck. -/
def extending : Correspondence Inquiring Inquiring where
  rel R i j := i.Extends R j
  rel_pure h := .done h
  rel_bind := Inquiry.extends_bind
  states := Eq

theorem answers_put (q : Question) :
    extending.Answers (Region.everything idx) (Inquiry.put q) (Inquiry.put q) :=
  .ask q fun _ => .done ⟨rfl, fun _ _ => trivial⟩

theorem extends_upTo {n m : Nat} (hnm : n ≤ m) {name : String} (ambientBlock : Bool) :
    extending.Searches (Region.everything idx)
      (upTo idx Inquiry.put .stuck n file block name ambientBlock)
      (upTo idx Inquiry.put .stuck m file block name ambientBlock) := by
  induction n generalizing m file block name ambientBlock with
  | zero => exact fun _ _ _ => .stuck _
  | succ n ih =>
    cases m with
    | zero => omega
    | succ m =>
      refine Correspondence.searches_step (fun q _ => answers_put q) ?_ rfl trivial
      exact fun _ _ _ ambientBlock _ => ih (by omega) ambientBlock

theorem inquiryUpTo_extends {n m : Nat} (hnm : n ≤ m) (q : Question) :
    (inquiryUpTo idx n q).Extends Eq (inquiryUpTo idx m q) := by
  refine Inquiry.Extends.mono (Correspondence.answers_searchFor answers_put ?_ rfl q)
    fun _ _ h => h.1
  exact fun _ _ _ ambientBlock => extends_upTo hnm ambientBlock

/-! ## The goals and questions around a question -/

/-- The texts that can stand for a name or a specifier on the way from one. -/
def texts (idx : Index) (asked : String) : List String :=
  asked :: "" :: idx.files.toList.flatMap fun f => f.tree.nodes.map Node.stringValue

theorem length_texts (idx : Index) (asked : String) :
    (texts idx asked).length = textBound idx := by
  simp [texts, textBound, Index.nodeCount_eq_length, length_flatMap]

theorem stringValue_mem_texts {f : SourceFile} {n : Node} (asked : String)
    (hf : f ∈ idx.files.toList) (hn : n.tree = f.tree) : n.stringValue ∈ texts idx asked := by
  by_cases hid : n.id < f.tree.size
  · have hmem : n ∈ f.tree.nodes :=
      mem_map.2 ⟨n.id, mem_range.2 hid, by rw [← hn]; rfl⟩
    refine mem_cons_of_mem _ (mem_cons_of_mem _ (mem_flatMap.2 ⟨f, hf, ?_⟩))
    exact mem_map_of_mem hmem
  · -- A number outside the tree has the empty text.
    have hnone : n.tree.entries[n.id]? = none := by
      rw [hn]
      exact Array.getElem?_eq_none (Nat.le_of_not_lt hid)
    have hentry : n.entry = default := by simp [Node.entry, hnone]
    have htext : n.text = "" := by
      rw [Node.text, hentry]
      change String.ofList (n.tree.source.chars.extract 0 0).toList = ""
      simp
    have hvalue : n.stringValue = "" := by simp [Node.stringValue, htext]
    rw [hvalue]
    simp [texts]

/-- The blocks in which a search can find itself: whole files, and the bodies of blocks that declare
modules. -/
def blocks (idx : Index) : List (SourceFile × Node) :=
  idx.files.toList.map (fun f => (f, f.root)) ++ idx.ambientModules.filterMap fun m =>
    (idx.ambientNode? m).bind fun (file, node) => (node.field? .body).map fun body => (file, body)

theorem length_blocks_le (idx : Index) :
    (blocks idx).length ≤ idx.files.size + idx.ambientModules.length := by
  rw [blocks, length_append, length_map, Array.length_toList]
  exact Nat.add_le_add_left (length_filterMap_le _ _) _

theorem root_mem_blocks (h : file ∈ idx.files.toList) :
    (file, file.root) ∈ blocks idx :=
  mem_append_left _ (mem_map.2 ⟨file, h, rfl⟩)

theorem ambientBlocks_subset_blocks {specifier : String} {p : SourceFile × Node}
    (h : p ∈ ambientBlocks idx specifier) : p ∈ blocks idx := by
  obtain ⟨m, hm, hp⟩ := mem_filterMap.1 h
  exact mem_append_right _ (mem_filterMap.2 ⟨m, mem_of_mem_filter hm, hp⟩)

theorem mem_files_of_mem_blocks (h : (file, block) ∈ blocks idx) :
    file ∈ idx.files.toList ∧ block.tree = file.tree := by
  rcases mem_append.1 h with h | h
  · obtain ⟨f, hf, heq⟩ := mem_map.1 h
    cases heq
    exact ⟨hf, rfl⟩
  · obtain ⟨m, -, h⟩ := mem_filterMap.1 h
    exact mem_files_of_ambientBody h

/-- The goals of all searches on the way from a question for a name. -/
def goals (idx : Index) (name : String) : Finset Goal :=
  (((blocks idx).map fun p => (p.1.id, p.2.startByte)).toFinset ×ˢ (texts idx name).toFinset).image
    fun p => { file := p.1.1, block := p.1.2, name := p.2 }

theorem goalOf_mem_goals {name text : String} (hblock : (file, block) ∈ blocks idx)
    (htext : text ∈ texts idx name) :
    goalOf file block text ∈ goals idx name := by
  refine Finset.mem_image.2 ⟨((file.id, block.startByte), text), ?_, rfl⟩
  refine Finset.mem_product.2 ⟨?_, mem_toFinset.2 htext⟩
  exact mem_toFinset.2 (mem_map.2 ⟨(file, block), hblock, rfl⟩)

theorem card_goals_le (idx : Index) (name : String) : (goals idx name).card ≤ goalBound idx := by
  refine Finset.card_image_le.trans ?_
  rw [Finset.card_product]
  refine Nat.mul_le_mul ((toFinset_card_le _).trans ?_) ((toFinset_card_le _).trans ?_)
  · rw [length_map]
    exact length_blocks_le idx
  · exact (length_texts idx name).le

def Question.module : Question → String
  | .file _ _ => ""
  | .specifier _ s _ | .ambient s _ => s

def Question.name : Question → String
  | .file _ name | .specifier _ _ name | .ambient _ name => name

/-- The questions on the way from a question for a specifier and a name. -/
def questions (idx : Index) (specifier name : String) : Finset Question :=
  ((texts idx specifier).toFinset ×ˢ (texts idx name).toFinset).image (fun p => .ambient p.1 p.2) ∪
    ((idx.files.toList.map (·.id)).toFinset ×ˢ (texts idx specifier).toFinset ×ˢ
      (texts idx name).toFinset).image fun p => .specifier p.1 p.2.1 p.2.2

theorem ambient_mem_questions {specifier name s n : String} (hs : s ∈ texts idx specifier)
    (hn : n ∈ texts idx name) :
    .ambient s n ∈ questions idx specifier name := by
  simp [questions, hs, hn]

theorem specifier_mem_questions {specifier name s n : String} (hf : file ∈ idx.files.toList)
    (hs : s ∈ texts idx specifier) (hn : n ∈ texts idx name) :
    .specifier file.id s n ∈ questions idx specifier name := by
  refine Finset.mem_union_right _ (Finset.mem_image.2 ⟨(file.id, s, n), ?_, rfl⟩)
  simp only [Finset.mem_product, mem_toFinset]
  exact ⟨mem_map.2 ⟨file, hf, rfl⟩, hs, hn⟩

theorem mem_texts_of_mem_questions {specifier name : String}
    (h : q ∈ questions idx specifier name) :
    q.module ∈ texts idx specifier ∧ q.name ∈ texts idx name := by
  simp only [questions, Finset.mem_union, Finset.mem_image, Finset.mem_product,
    mem_toFinset] at h
  rcases h with ⟨p, hp, rfl⟩ | ⟨p, ⟨-, hp⟩, rfl⟩
  · exact hp
  · exact hp

theorem card_questions_le (idx : Index) (specifier name : String) :
    (questions idx specifier name).card ≤ questionBound idx := by
  have hs := (toFinset_card_le (texts idx specifier)).trans (length_texts idx specifier).le
  have hn := (toFinset_card_le (texts idx name)).trans (length_texts idx name).le
  have hf := toFinset_card_le (idx.files.toList.map (·.id))
  rw [length_map, Array.length_toList] at hf
  have hpairs : ((texts idx specifier).toFinset ×ˢ (texts idx name).toFinset).card ≤
      textBound idx * textBound idx := by
    rw [Finset.card_product]
    exact Nat.mul_le_mul hs hn
  have htriples : ((idx.files.toList.map (·.id)).toFinset ×ˢ (texts idx specifier).toFinset ×ˢ
      (texts idx name).toFinset).card ≤ idx.files.size * (textBound idx * textBound idx) := by
    rw [Finset.card_product]
    exact Nat.mul_le_mul hf hpairs
  calc (questions idx specifier name).card
      ≤ textBound idx * textBound idx + idx.files.size * (textBound idx * textBound idx) :=
        (Finset.card_union_le _ _).trans (Nat.add_le_add (Finset.card_image_le.trans hpairs)
          (Finset.card_image_le.trans htriples))
    _ = questionBound idx := by rw [questionBound, Nat.add_mul, Nat.one_mul, Nat.add_comm]

/-- What searches for a specifier and a name come across. -/
def Region.around (idx : Index) (specifier name : String) : Region idx where
  asks q := q ∈ questions idx specifier name
  opens _ s n := s ∈ texts idx specifier ∧ n ∈ texts idx name
  visits file block n _ := (file, block) ∈ blocks idx ∧ n ∈ texts idx name
  finds _ := True
  asks_of_opens h := ambient_mem_questions h.1 h.2
  visits_of_opens h htarget := ⟨root_mem_blocks (Index.mem_files_of_mem_linked htarget), h.2⟩
  opens_of_names := by
    intro file block n _ stmt clause src r hvisits hstmt hform hr
    obtain ⟨hf, hblock⟩ := mem_files_of_mem_blocks hvisits.1
    have hst := (Node.tree_of_mem_namedChildren hstmt).trans hblock
    have hin := formOf_inTree stmt
    rw [hform] at hin
    obtain ⟨inner, hinner, heq⟩ := exists_node_of_mem_renamings hr
    refine ⟨stringValue_mem_texts _ hf ((hin.2 src rfl).trans hst), ?_⟩
    rw [heq]
    exact stringValue_mem_texts _ hf (hinner.trans (hin.1.trans hst))
  opens_of_star := by
    intro file block n _ stmt s hvisits hstmt hstar
    obtain ⟨hf, hblock⟩ := mem_files_of_mem_blocks hvisits.1
    obtain ⟨src, hsrc, rfl⟩ := exists_node_of_starSource? hstar
    have hst := (Node.tree_of_mem_namedChildren hstmt).trans hblock
    exact ⟨stringValue_mem_texts _ hf (hsrc.trans hst), hvisits.2⟩
  asks_of_whole := by
    intro file block n _ stmt target d s hvisits hstmt hexport hform hd hbehind
    obtain ⟨hf, hblock⟩ := mem_files_of_mem_blocks hvisits.1
    have hst := (Node.tree_of_mem_namedChildren hstmt).trans hblock
    have hplaced := (arises_of_mem_valueDeclarations hf hst hexport (.inr hform) hd).placed
    obtain ⟨src, hsrc, rfl⟩ := exists_node_of_moduleBehind? hbehind
    refine specifier_mem_questions hplaced.1 ?_ hvisits.2
    exact stringValue_mem_texts _ hplaced.1 (hsrc.trans hplaced.2.node_tree)
  finds_own _ _ _ _ := trivial
  finds_named _ _ _ := trivial
  finds_value _ _ _ _ _ := trivial
  finds_part _ _ := trivial

/-! ## Searches end -/

/-- Inquiries that are never stuck and put only questions with `asks`, as long as fewer than `fuel` of
the goals in `all` are not taken up. -/
def ending (asks : Question → Prop) (all : Finset Goal) (fuel : Nat) :
    Correspondence Inquiring Inquiring where
  rel R i _ := i.Always asks fun a => ∃ b, R a b
  rel_pure {_ _ _ b} h := ⟨b, h⟩
  rel_bind hi hf := Inquiry.always_bind hi fun a ⟨b, hab⟩ => hf a b hab
  states v _ := (all \ v.toFinset).card < fuel

theorem card_unseen_lt {all : Finset Goal} {goal : Goal} {visited : List Goal} (hall : goal ∈ all)
    (hgoal : goal ∉ visited) :
    (all \ (goal :: visited).toFinset).card < (all \ visited.toFinset).card := by
  refine Finset.card_lt_card (Finset.ssubset_iff_subset_ne.2 ⟨?_, fun heq => ?_⟩)
  · refine Finset.sdiff_subset_sdiff (Finset.Subset.refl _) ?_
    rw [toFinset_cons]
    exact Finset.subset_insert _ _
  · have hmem : goal ∈ all \ visited.toFinset := by simp [hall, hgoal]
    rw [← heq] at hmem
    simp at hmem

section

variable {idx : Index} (G : Region idx) (hfinds : ∀ d, G.finds d) {all : Finset Goal}
  (hgoals : ∀ file block name ambientBlock, G.visits file block name ambientBlock →
    goalOf file block name ∈ all)

include hfinds

theorem ending_put {fuel : Nat} (q : Question) (h : G.asks q) :
    (ending G.asks all fuel).Answers G (Inquiry.put q) (Inquiry.put q) :=
  ⟨h, fun ds => ⟨ds, rfl, fun d _ => hfinds d⟩⟩

include hgoals

/-- A search in a block ends if it has more fuel than there are goals left. -/
theorem ending_upTo (fuel : Nat) {file : SourceFile} {block : Node} {name : String}
    {ambientBlock : Bool} (hvisits : G.visits file block name ambientBlock) :
    (ending G.asks all fuel).Searches G
      (upTo idx Inquiry.put .stuck fuel file block name ambientBlock)
      (upTo idx Inquiry.put .stuck fuel file block name ambientBlock) := by
  induction fuel generalizing file block name ambientBlock with
  | zero => exact fun _ _ hv => absurd hv (Nat.not_lt_zero _)
  | succ fuel ih =>
    intro v w hv
    change Inquiry.Always _ _ (step idx Inquiry.put (upTo idx Inquiry.put .stuck fuel) file block name
      ambientBlock v)
    unfold step
    by_cases hgoal : goalOf file block name ∈ v
    · rw [if_pos (contains_iff_mem.2 hgoal)]
      exact ⟨([], v), rfl, by simp, hv⟩
    · rw [if_neg (by simpa using hgoal)]
      -- Taking up the goal leaves one goal less for the searches inside, which have one fuel less.
      have hlt := card_unseen_lt (hgoals file block name ambientBlock hvisits) hgoal
      have hv' : (all \ v.toFinset).card < fuel + 1 := hv
      have hbody : (ending G.asks all fuel).Searches G
          (ofBlock idx Inquiry.put (upTo idx Inquiry.put .stuck fuel) file block name ambientBlock)
          (ofBlock idx Inquiry.put (upTo idx Inquiry.put .stuck fuel) file block name ambientBlock) :=
        Correspondence.searches_ofBlock (ending_put G hfinds) (fun _ _ _ _ => ih) hvisits
      refine Inquiry.Always.mono (hbody (goalOf file block name :: v) []
        (Nat.lt_of_lt_of_le hlt (Nat.le_of_lt_succ hv'))) ?_
      rintro ⟨ds, v'⟩ ⟨b, heq, hds, hleft⟩
      exact ⟨b, heq, hds, Nat.lt_succ_of_lt hleft⟩

/-- A search that begins in a region ends whatever the answers to its questions are, and its questions
lie in the region. -/
theorem always_inquiryUpTo {fuel : Nat} {q : Question} (hfuel : all.card < fuel) (hq : G.Begins q) :
    (inquiryUpTo idx fuel q).Always G.asks fun _ => True := by
  have hsearch : (ending G.asks all fuel).Searches G
      (searchFor idx Inquiry.put (upTo idx Inquiry.put .stuck fuel) q)
      (searchFor idx Inquiry.put (upTo idx Inquiry.put .stuck fuel) q) :=
    Correspondence.searches_searchFor (ending_put G hfinds)
      (fun _ _ _ _ => ending_upTo G hfinds hgoals fuel) hq
  have hnil : (all \ ([] : List Goal).toFinset).card < fuel := by
    rwa [toFinset_nil, Finset.sdiff_empty]
  exact Inquiry.Always.mono (Correspondence.answers_start hsearch hnil) fun _ _ => trivial

end

theorem mem_texts_self (idx : Index) (asked : String) : asked ∈ texts idx asked :=
  mem_cons_self

theorem always_inquiry {specifier name : String} (hspecifier : q.module ∈ texts idx specifier)
    (hname : q.name ∈ texts idx name) :
    (inquiry idx q).Always (· ∈ questions idx specifier name) fun _ => True := by
  refine always_inquiryUpTo (Region.around idx specifier name) (fun _ => trivial)
    (fun _ _ _ _ h => goalOf_mem_goals h.1 h.2)
    (Nat.lt_succ_of_le (card_goals_le idx name)) ?_
  cases q with
  | file => exact fun file hfile => ⟨root_mem_blocks (Index.mem_files_of_file? hfile), hname⟩
  | specifier => exact ⟨hspecifier, hname⟩
  | ambient => exact fun file body hbody => ⟨ambientBlocks_subset_blocks hbody, hname⟩

theorem always_inquiry_self (idx : Index) (q : Question) :
    (inquiry idx q).Always (· ∈ questions idx q.module q.name) fun _ => True :=
  always_inquiry (mem_texts_self idx q.module) (mem_texts_self idx q.name)

/-- More fuel than there are goals changes nothing, and less only cuts a search short. -/
theorem inquiryUpTo_extends_inquiry (idx : Index) (n : Nat) (q : Question) :
    (inquiryUpTo idx n q).Extends Eq (inquiry idx q) := by
  rcases Nat.le_total n (goalBound idx + 1) with h | h
  · exact inquiryUpTo_extends h q
  · have heq : inquiry idx q = inquiryUpTo idx n q :=
      (inquiryUpTo_extends h q).eq_of_always (always_inquiry_self idx q)
    rw [heq]
    exact Inquiry.extends_refl _

/-! ## Answers -/

theorem answers_of_answerUpTo {n : Nat} {ds : List Declaration} (h : answerUpTo idx n q = some ds) :
    Inquiry.answers (inquiry idx) n q = some ds := by
  induction n generalizing q ds with
  | zero => cases h
  | succ n ih =>
    rw [answerUpTo_succ] at h
    exact Inquiry.run_of_extends (inquiryUpTo_extends_inquiry idx n q) (fun _ _ => ih) h

theorem answerUpTo_of_answers {n m : Nat} {ds : List Declaration}
    (h : Inquiry.answers (inquiry idx) n q = some ds) (hm : n + goalBound idx + 1 ≤ m) :
    answerUpTo idx m q = some ds := by
  induction n generalizing m q ds with
  | zero => cases h
  | succ n ih =>
    cases m with
    | zero => omega
    | succ m =>
      rw [answerUpTo_succ]
      exact Inquiry.run_of_extends (inquiryUpTo_extends (by omega) q)
        (fun _ _ hp => ih hp (by omega)) h

/-- The question has an answer, which any fuel from some amount on gives. -/
def Ends (idx : Index) (q : Question) : Prop :=
  ∃ fuel found, ∀ more, fuel ≤ more → answerUpTo idx more q = some found

/-- The search for the first question puts the second one, given the answers to all questions before
it. -/
def LeadsTo (idx : Index) (q p : Question) : Prop := Inquiry.Leads (inquiry idx) q p

theorem ends_iff_answered :
    Ends idx q ↔ ∃ found, Inquiry.Answered (inquiry idx) q found := by
  constructor
  · rintro ⟨fuel, found, h⟩
    exact ⟨found, fuel, answers_of_answerUpTo (h fuel (Nat.le_refl fuel))⟩
  · rintro ⟨found, n, h⟩
    exact ⟨n + goalBound idx + 1, found, fun more hmore => answerUpTo_of_answers h hmore⟩

theorem mem_questions_of_leadsTo {q p : Question} (h : Relation.TransGen (LeadsTo idx) q p) :
    p ∈ questions idx q.module q.name := by
  induction h with
  | single h => exact h.of_always (always_inquiry_self idx q)
  | tail _ h ih =>
    have htexts := mem_texts_of_mem_questions ih
    exact h.of_always (always_inquiry htexts.1 htexts.2)

theorem answered_iff_not_leads_self (idx : Index) (q : Question) :
    ((∃ found, Inquiry.Answered (inquiry idx) q found) ↔
      ∀ p, Relation.ReflTransGen (LeadsTo idx) q p → ¬ Relation.TransGen (LeadsTo idx) p p) ∧
    ((∃ found, Inquiry.Answered (inquiry idx) q found) →
      ∃ found, Inquiry.answers (inquiry idx) ((questions idx q.module q.name).card + 1) q =
        some found) :=
  Inquiry.exists_answer_iff
    (fun p => (always_inquiry_self idx p).mono_asks fun _ _ => trivial)
    (fun _ => mem_questions_of_leadsTo)

theorem answerUpTo_of_ends (h : Ends idx q) :
    ∃ found, ∀ more, Export.fuel idx ≤ more → answerUpTo idx more q = some found := by
  obtain ⟨found, hfound⟩ := (answered_iff_not_leads_self idx q).2 (ends_iff_answered.1 h)
  have hcard := card_questions_le idx q.module q.name
  refine ⟨found, fun more hmore => answerUpTo_of_answers hfound ?_⟩
  have hmore' : goalBound idx + questionBound idx + 2 ≤ more := hmore
  omega

/-! ## Projects without declared modules -/

/-- Whether a form exports a value in place of the module. -/
def Form.isWhole : Form → Bool
  | .whole _ => true
  | _ => false

/-- A project in which no search puts a question that needs another answer: no block declares a module
by name, and no file exports a value in place of itself. -/
structure Plain (idx : Index) : Prop where
  no_ambient : idx.ambientModules = []
  no_whole : ∀ file ∈ idx.files.toList, ∀ stmt ∈ file.root.namedChildren,
    stmt.hasKind .exportStatement → ¬ (formOf stmt).isWhole

instance (idx : Index) : Decidable (Plain idx) :=
  decidable_of_iff (idx.ambientModules = [] ∧ ∀ file ∈ idx.files.toList,
    ∀ stmt ∈ file.root.namedChildren, stmt.hasKind .exportStatement → ¬ (formOf stmt).isWhole)
    ⟨fun h => ⟨h.1, h.2⟩, fun h => ⟨h.1, h.2⟩⟩

theorem Plain.formOf_ne_whole (h : Plain idx) (hfile : file ∈ idx.files.toList) {stmt : Node}
    (hstmt : stmt ∈ file.root.namedChildren) (hexport : stmt.hasKind .exportStatement)
    (target : Option Node) :
    formOf stmt ≠ .whole target := by
  intro hform
  have hnot := h.no_whole file hfile stmt hstmt hexport
  rw [hform] at hnot
  exact hnot rfl

theorem Plain.block_eq_root (h : Plain idx) (hblock : (file, block) ∈ blocks idx) :
    block = file.root := by
  rw [blocks, h.no_ambient, filterMap_nil, append_nil] at hblock
  obtain ⟨f, -, heq⟩ := mem_map.1 hblock
  cases heq
  rfl

/-- What searches in a plain project come across. -/
def Region.plain {idx : Index} (h : Plain idx) (specifier name : String) : Region idx :=
  { Region.around idx specifier name with
    asks := fun q => ∃ s n, q = .ambient s n
    asks_of_opens := fun _ => ⟨_, _, rfl⟩
    asks_of_whole := by
      intro file block n _ stmt target d s hvisits hstmt hexport hform _ _
      rw [h.block_eq_root hvisits.1] at hstmt
      exact absurd hform (h.formOf_ne_whole (mem_files_of_mem_blocks hvisits.1).1 hstmt hexport _) }

theorem Plain.ambientBlocks_eq_nil (h : Plain idx) (specifier : String) :
    ambientBlocks idx specifier = [] := by
  simp [ambientBlocks, h.no_ambient]

/-- Questions in a plain project lead to questions about declared modules only. -/
theorem Plain.eq_ambient_of_leadsTo (h : Plain idx) {q p : Question} (hqp : LeadsTo idx q p) :
    ∃ s n, p = .ambient s n := by
  refine hqp.of_always (always_inquiryUpTo (Region.plain h q.module q.name) (fun _ => trivial)
    (fun _ _ _ _ hv => goalOf_mem_goals hv.1 hv.2)
    (Nat.lt_succ_of_le (card_goals_le idx q.name)) ?_)
  cases q with
  | file =>
    exact fun file hfile => ⟨root_mem_blocks (Index.mem_files_of_file? hfile), mem_texts_self idx _⟩
  | specifier => exact ⟨mem_texts_self idx _, mem_texts_self idx _⟩
  | ambient =>
    intro file body hbody
    simp [h.ambientBlocks_eq_nil] at hbody

theorem Plain.not_leadsTo_of_ambient (h : Plain idx) {specifier name : String} {p : Question} :
    ¬ LeadsTo idx (.ambient specifier name) p := by
  intro hp
  have heq : inquiry idx (.ambient specifier name) = .done [] := by
    simp [inquiry, inquiryUpTo, searchFor, h.ambientBlocks_eq_nil]
    rfl
  rw [LeadsTo, Inquiry.Leads, heq] at hp
  cases hp

theorem Plain.not_leads_self (h : Plain idx) (q : Question) :
    ¬ Relation.TransGen (LeadsTo idx) q q := by
  intro hq
  obtain ⟨before, -, hbefore⟩ := Relation.TransGen.tail'_iff.1 hq
  obtain ⟨s, n, rfl⟩ := h.eq_ambient_of_leadsTo hbefore
  obtain ⟨after, hafter, -⟩ := Relation.TransGen.head'_iff.1 hq
  exact h.not_leadsTo_of_ambient hafter

theorem Plain.ends (h : Plain idx) (q : Question) : Ends idx q :=
  ends_iff_answered.2 ((answered_iff_not_leads_self idx q).1.2 fun p _ => h.not_leads_self p)

/-- A question has an answer exactly when no question that it leads to, itself included, leads to
itself. The fuel of the project is then enough, and more fuel does not change the answer. All
questions have answers where no block declares a module and no file exports a value in place of
itself. -/
theorem ends_iff_not_leads_self (idx : Index) (q : Question) :
    (Ends idx q ↔ ∀ p, Relation.ReflTransGen (LeadsTo idx) q p →
      ¬ Relation.TransGen (LeadsTo idx) p p) ∧
    (Ends idx q → ∃ found, ∀ more, Export.fuel idx ≤ more → answerUpTo idx more q = some found) ∧
    (Plain idx → Ends idx q) :=
  ⟨ends_iff_answered.trans (answered_iff_not_leads_self idx q).1, answerUpTo_of_ends,
    fun h => h.ends q⟩

/-- The index of a project with one file, which declares a module that hands on its own exports. -/
def selfStar : Except IndexError Index :=
  Index.build_ (.write .empty ⟨["app", "types.d.ts"]⟩
    (.text "declare module 'x' \x7b export * from 'x'; \x7d")) ⟨["app"]⟩ .default

/-- What a module that hands on its own exports exports has no answer. -/
theorem not_ends_selfStar :
    ∃ idx, selfStar = .ok idx ∧ ¬ Ends idx (.ambient "x" "n") := by
  have hfirst : selfStar.toOption.map (fun idx => (inquiry idx (.ambient "x" "n")).first?) =
      some (some (.ambient "x" "n")) := by decide +kernel
  cases hidx : selfStar with
  | error e => simp [hidx, Except.toOption] at hfirst
  | ok idx =>
    refine ⟨idx, rfl, fun hends => ?_⟩
    rw [hidx] at hfirst
    have hself : LeadsTo idx (.ambient "x" "n") (.ambient "x" "n") :=
      Inquiry.puts_of_first? (Option.some.inj hfirst)
    obtain ⟨hacyclic, -⟩ := answered_iff_not_leads_self idx (.ambient "x" "n")
    exact hacyclic.1 (ends_iff_answered.1 hends) _ .refl (.single hself)

end ScriptAtlas.Export
