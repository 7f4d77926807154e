import Mathlib.Data.Finset.Card
import Mathlib.Logic.Relation

/-!
# Inquiries

A computation that puts questions on its way and goes on with their answers, as a tree: it says which
questions are put and when, and leaves open who answers them. When each question is answered by an
inquiry of its own, a question may lead to itself, and the answers need fuel.

* `Inquiry.run`: the result of an inquiry, given answers.
* `Inquiry.Always`: what holds of every question that can be put and of every result.
* `Inquiry.Extends`: an inquiry that goes on where another one is stuck.
* `Inquiry.answers`: answers with fuel, where `body q` is the inquiry that answers `q`.
* `Inquiry.exists_answer_iff`: a question has an answer exactly when no question that it leads to
  leads to itself, provided that it leads to finitely many.
-/

namespace ScriptAtlas

/-- A computation with questions of type `κ` and answers of type `ρ`. It is stuck when it cannot go on
for lack of fuel. -/
inductive Inquiry (κ ρ α : Type) where
  | done (a : α)
  | ask (q : κ) (next : ρ → Inquiry κ ρ α)
  | stuck

namespace Inquiry

variable {κ ρ α β : Type}
variable {i : Inquiry κ ρ α} {n : Nat} {reach : Finset κ} {asks : κ → Prop} {P : α → Prop}

def bind : Inquiry κ ρ α → (α → Inquiry κ ρ β) → Inquiry κ ρ β
  | done a, f => f a
  | ask q next, f => ask q fun r => (next r).bind f
  | stuck, _ => stuck

instance : Monad (Inquiry κ ρ) where
  pure := done
  bind := bind

def put (q : κ) : Inquiry κ ρ ρ := ask q done

/-- The result when questions are answered by `answer`; none when a question that is put has no
answer. -/
def run (answer : κ → Option ρ) : Inquiry κ ρ α → Option α
  | done a => some a
  | ask q next => (answer q).bind fun r => (next r).run answer
  | stuck => none

@[simp] theorem run_put (answer : κ → Option ρ) (q : κ) :
    (put q : Inquiry κ ρ ρ).run answer = answer q := by
  simp only [put, run]
  cases answer q <;> rfl

@[simp] theorem run_bind (answer : κ → Option ρ) (i : Inquiry κ ρ α) (f : α → Inquiry κ ρ β) :
    (i >>= f).run answer = (i.run answer).bind fun a => (f a).run answer := by
  change (i.bind f).run answer = _
  induction i with
  | done a => rfl
  | ask q next ih =>
    simp only [bind, run]
    cases answer q with
    | none => rfl
    | some r => exact ih r
  | stuck => rfl

/-! ## What holds of all questions and results -/

/-- The inquiry is never stuck, puts only questions with `asks`, and ends only with results that
satisfy `P`, whatever the answers are. -/
def Always (asks : κ → Prop) (P : α → Prop) : Inquiry κ ρ α → Prop
  | done a => P a
  | ask q next => asks q ∧ ∀ r, (next r).Always asks P
  | stuck => False

theorem always_bind {Q : β → Prop} {f : α → Inquiry κ ρ β}
    (hi : i.Always asks P) (hf : ∀ a, P a → (f a).Always asks Q) :
    (i >>= f).Always asks Q := by
  change (i.bind f).Always asks Q
  induction i with
  | done a => exact hf a hi
  | ask q next ih => exact ⟨hi.1, fun r => ih r (hi.2 r)⟩
  | stuck => exact hi

theorem Always.mono {P Q : α → Prop} (h : i.Always asks P)
    (hPQ : ∀ a, P a → Q a) : i.Always asks Q := by
  induction i with
  | done a => exact hPQ a h
  | ask q next ih => exact ⟨h.1, fun r => ih r (h.2 r)⟩
  | stuck => exact h

theorem Always.mono_asks {asks asks' : κ → Prop} (h : i.Always asks P)
    (hasks : ∀ q, asks q → asks' q) : i.Always asks' P := by
  induction i with
  | done a => exact h
  | ask q next ih => exact ⟨hasks q h.1, fun r => ih r (h.2 r)⟩
  | stuck => exact h

/-! ## Going on where another inquiry is stuck -/

/-- The second inquiry is the first one with results related by `R`, except that it may go on where the
first one is stuck. -/
inductive Extends (R : α → α → Prop) : Inquiry κ ρ α → Inquiry κ ρ α → Prop where
  | done {a b : α} (h : R a b) : Extends R (done a) (done b)
  | ask (q : κ) {next next' : ρ → Inquiry κ ρ α} (h : ∀ r, Extends R (next r) (next' r)) :
      Extends R (ask q next) (ask q next')
  | stuck (j : Inquiry κ ρ α) : Extends R stuck j

theorem extends_refl (i : Inquiry κ ρ α) : i.Extends Eq i := by
  induction i with
  | done a => exact .done rfl
  | ask q next ih => exact .ask q ih
  | stuck => exact .stuck _

theorem extends_bind {R : α → α → Prop} {S : β → β → Prop} {i j : Inquiry κ ρ α}
    {f g : α → Inquiry κ ρ β} (h : i.Extends R j) (hfg : ∀ a b, R a b → (f a).Extends S (g b)) :
    (i >>= f).Extends S (j >>= g) := by
  change (i.bind f).Extends S (j.bind g)
  induction h with
  | done h => exact hfg _ _ h
  | ask q _ ih => exact .ask q ih
  | stuck j => exact .stuck _

theorem Extends.mono {R S : α → α → Prop} {i j : Inquiry κ ρ α} (h : i.Extends R j)
    (hRS : ∀ a b, R a b → S a b) : i.Extends S j := by
  induction h with
  | done h => exact .done (hRS _ _ h)
  | ask q _ ih => exact .ask q ih
  | stuck j => exact .stuck j

/-- An inquiry that is never stuck has no proper extension. -/
theorem Extends.eq_of_always {i j : Inquiry κ ρ α}
    (h : i.Extends Eq j) (hi : i.Always asks P) : i = j := by
  induction h with
  | done h => rw [h]
  | ask q _ ih => exact congrArg _ (funext fun r => ih r (hi.2 r))
  | stuck j => exact hi.elim

theorem run_of_extends {answer answer' : κ → Option ρ} {i j : Inquiry κ ρ α} {a : α}
    (h : i.Extends Eq j) (hans : ∀ q r, answer q = some r → answer' q = some r)
    (ha : i.run answer = some a) : j.run answer' = some a := by
  induction h with
  | done h => exact h ▸ ha
  | ask q _ ih =>
    obtain ⟨r, hr, hrest⟩ := Option.bind_eq_some_iff.1 ha
    exact Option.bind_eq_some_iff.2 ⟨r, hans q r hr, ih r hrest⟩
  | stuck j => cases ha

/-! ## Questions that are put -/

/-- The inquiry puts the question, all questions before it being answered. -/
inductive Puts (answered : κ → ρ → Prop) : Inquiry κ ρ α → κ → Prop where
  | here (q : κ) (next : ρ → Inquiry κ ρ α) : Puts answered (ask q next) q
  | later {q p : κ} {r : ρ} {next : ρ → Inquiry κ ρ α} (hq : answered q r)
      (h : Puts answered (next r) p) : Puts answered (ask q next) p

theorem Puts.of_always {answered : κ → ρ → Prop} {p : κ}
    (h : i.Puts answered p) (hi : i.Always asks P) : asks p := by
  induction h with
  | here q next => exact hi.1
  | later _ _ ih => exact ih (hi.2 _)

/-- An inquiry has a result if it is never stuck and each question that it puts has an answer. -/
theorem exists_run {answered : κ → ρ → Prop}
    {answer : κ → Option ρ} (hanswer : ∀ q r, answer q = some r → answered q r)
    (hi : i.Always asks P) (hputs : ∀ p, i.Puts answered p → ∃ r, answer p = some r) :
    ∃ a, i.run answer = some a := by
  induction i with
  | done a => exact ⟨a, rfl⟩
  | ask q next ih =>
    obtain ⟨r, hr⟩ := hputs q (.here q next)
    obtain ⟨a, ha⟩ := ih r (hi.2 r) fun p hp => hputs p (.later (hanswer q r hr) hp)
    exact ⟨a, Option.bind_eq_some_iff.2 ⟨r, hr, ha⟩⟩
  | stuck => exact hi.elim

/-- The question that an inquiry puts first. -/
def first? : Inquiry κ ρ α → Option κ
  | ask q _ => some q
  | done _ | stuck => none

theorem puts_of_first? {answered : κ → ρ → Prop} {q : κ} (h : i.first? = some q) :
    i.Puts answered q := by
  cases i with
  | done a => cases h
  | ask p next =>
    cases h
    exact .here q next
  | stuck => cases h

/-! ## Answers by inquiries -/

variable (body : κ → Inquiry κ ρ ρ)

/-- The answer to a question by its inquiry, through at most `fuel` questions on the way. -/
def answers : Nat → κ → Option ρ
  | 0, _ => none
  | fuel + 1, q => (body q).run (answers fuel)

/-- The question has the answer, with enough fuel. -/
def Answered (q : κ) (r : ρ) : Prop := ∃ n, answers body n q = some r

/-- Answering the first question puts the second one. -/
def Leads (q p : κ) : Prop := (body q).Puts (Answered body) p

variable {body}

theorem answers_succ {q : κ} {r : ρ} (h : answers body n q = some r) :
    answers body (n + 1) q = some r := by
  induction n generalizing q r with
  | zero => cases h
  | succ n ih => exact run_of_extends (extends_refl _) (fun _ _ => ih) h

theorem answers_mono {n m : Nat} {q : κ} {r : ρ} (hnm : n ≤ m) (h : answers body n q = some r) :
    answers body m q = some r := by
  induction m, hnm using Nat.le_induction with
  | base => exact h
  | succ m _ ih => exact answers_succ ih

theorem Answered.unique {q : κ} {r r' : ρ} (h : Answered body q r) (h' : Answered body q r') :
    r = r' := by
  obtain ⟨n, hn⟩ := h
  obtain ⟨m, hm⟩ := h'
  have hn' := answers_mono (Nat.le_max_left n m) hn
  have hm' := answers_mono (Nat.le_max_right n m) hm
  exact Option.some.inj (hn'.symm.trans hm')

theorem exists_answer_of_puts {a : α} {p : κ} (h : i.Puts (Answered body) p)
    (hi : i.run (answers body n) = some a) :
    ∃ r, answers body n p = some r := by
  induction h with
  | here q next =>
    obtain ⟨r, hr, -⟩ := Option.bind_eq_some_iff.1 hi
    exact ⟨r, hr⟩
  | later hq _ ih =>
    obtain ⟨r, hr, hrest⟩ := Option.bind_eq_some_iff.1 hi
    obtain rfl := hq.unique ⟨n, hr⟩
    exact ih hrest

/-- A question that an answered question leads to has an answer with less fuel. -/
theorem exists_answer_of_transGen {q p : κ} (h : Relation.TransGen (Leads body) q p) {r : ρ}
    (hq : answers body n q = some r) : ∃ m < n, ∃ r', answers body m p = some r' := by
  induction h with
  | single h =>
    cases n with
    | zero => cases hq
    | succ n => exact ⟨n, Nat.lt_succ_self n, exists_answer_of_puts h hq⟩
  | tail _ h ih =>
    obtain ⟨m, hm, r', hr'⟩ := ih
    cases m with
    | zero => cases hr'
    | succ m => exact ⟨m, by omega, exists_answer_of_puts h hr'⟩

theorem not_leads_self_of_answered {q : κ} {r : ρ} (hq : answers body n q = some r) :
    ¬ Relation.TransGen (Leads body) q q := by
  intro h
  induction n using Nat.strong_induction_on generalizing r with
  | _ n ih =>
    obtain ⟨m, hm, r', hr'⟩ := exists_answer_of_transGen h hq
    exact ih m hm hr'

/-- The questions of a finite set that a question leads to. -/
noncomputable def ledTo (body : κ → Inquiry κ ρ ρ) (reach : Finset κ) (q : κ) : Finset κ :=
  open Classical in reach.filter fun p => Relation.TransGen (Leads body) q p

theorem mem_ledTo {q p : κ} :
    p ∈ ledTo body reach q ↔ p ∈ reach ∧ Relation.TransGen (Leads body) q p := by
  simp [ledTo]

theorem ledTo_ssubset {q p : κ} (hqp : Leads body q p) (hp : p ∈ reach)
    (hself : ¬ Relation.TransGen (Leads body) p p) :
    ledTo body reach p ⊂ ledTo body reach q := by
  refine Finset.ssubset_iff_subset_ne.2 ⟨fun x hx => ?_, fun heq => ?_⟩
  · rw [mem_ledTo] at hx ⊢
    exact ⟨hx.1, Relation.TransGen.head hqp hx.2⟩
  · have hmem : p ∈ ledTo body reach q := mem_ledTo.2 ⟨hp, .single hqp⟩
    rw [← heq, mem_ledTo] at hmem
    exact hself hmem.2

/-- If nothing that a question leads to leads to itself, then as much fuel as there are such questions
is enough for an answer. -/
theorem exists_answers_of_not_leads_self {q : κ}
    (hstuck : ∀ p, (body p).Always asks fun _ => True)
    (hreach : ∀ p, Relation.TransGen (Leads body) q p → p ∈ reach)
    (hself : ∀ p, Relation.TransGen (Leads body) q p → ¬ Relation.TransGen (Leads body) p p) :
    ∃ r, answers body ((ledTo body reach q).card + 1) q = some r := by
  -- The induction is on how many questions are below: a question that `q` puts has fewer.
  induction hn : (ledTo body reach q).card using Nat.strong_induction_on
    generalizing q with
  | _ n ih =>
    have hanswer : ∀ p r, answers body n p = some r → Answered body p r := fun p r hr => ⟨n, hr⟩
    refine exists_run hanswer (hstuck q) fun p hp => ?_
    have hqp : Relation.TransGen (Leads body) q p := .single hp
    have hlt := Finset.card_lt_card (ledTo_ssubset hp (hreach p hqp) (hself p hqp))
    obtain ⟨r, hr⟩ := ih _ (hn ▸ hlt) (fun x hx => hreach x (hqp.trans hx))
      (fun x hx => hself x (hqp.trans hx)) rfl
    exact ⟨r, answers_mono (by omega) hr⟩

/-- A question has an answer exactly when neither it nor any question that it leads to leads to
itself, and then as much fuel is enough as there are questions that it leads to. -/
theorem exists_answer_iff {q : κ}
    (hstuck : ∀ p, (body p).Always asks fun _ => True)
    (hreach : ∀ p, Relation.TransGen (Leads body) q p → p ∈ reach) :
    ((∃ r, Answered body q r) ↔
      ∀ p, Relation.ReflTransGen (Leads body) q p → ¬ Relation.TransGen (Leads body) p p) ∧
    ((∃ r, Answered body q r) → ∃ r, answers body (reach.card + 1) q = some r) := by
  have hforth : (∃ r, Answered body q r) →
      ∀ p, Relation.ReflTransGen (Leads body) q p → ¬ Relation.TransGen (Leads body) p p := by
    rintro ⟨r, n, hr⟩ p hp
    rcases Relation.reflTransGen_iff_eq_or_transGen.1 hp with rfl | hp
    · exact not_leads_self_of_answered hr
    · obtain ⟨m, -, r', hr'⟩ := exists_answer_of_transGen hp hr
      exact not_leads_self_of_answered hr'
  have hback : (∀ p, Relation.ReflTransGen (Leads body) q p →
      ¬ Relation.TransGen (Leads body) p p) → ∃ r, answers body (reach.card + 1) q = some r := by
    intro hself
    obtain ⟨r, hr⟩ := exists_answers_of_not_leads_self hstuck hreach
      fun p hp => hself p hp.to_reflTransGen
    have hcard : (ledTo body reach q).card ≤ reach.card :=
      Finset.card_le_card fun p hp => (mem_ledTo.1 hp).1
    exact ⟨r, answers_mono (by omega) hr⟩
  refine ⟨⟨hforth, fun h => ?_⟩, fun h => hback (hforth h)⟩
  obtain ⟨r, hr⟩ := hback h
  exact ⟨r, _, hr⟩

end Inquiry

end ScriptAtlas


