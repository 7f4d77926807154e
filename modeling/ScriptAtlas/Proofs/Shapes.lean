import ScriptAtlas.Syntax.Grammar.Goal

/-!
# Sound shapes

What holds of every shape that the grammar builds: its parts follow each other without overlap, it
begins where its first part begins, and what stands where a name is expected does not begin with a
call.

* `Kind.role`, `Role.Fits`: how a construct restricts its parts;
* `Exports`, `Introduces`: what stands behind `export` and behind `declare`;
* `Shape.Sound`: the facts, for a shape and everything in it;
* `Row`: sound shapes between two positions of a text, one behind the other.
-/

namespace ScriptAtlas.Syntax

open List

variable {k : Kind} {s : Shape}

/-! ## Calls in shapes -/

def Label.isCall : Label → Bool
  | .named .callExpression | .named .newExpression => true
  | _ => false

namespace Shape

variable {f : Field}

/-- Nothing is called in the shape. -/
inductive CallFree : Shape → Prop
  | mk {l : Label} {f : Option Field} {a b : Nat} {cs : List Shape} (label : l.isCall = false)
      (parts : ∀ c ∈ cs, CallFree c) : CallFree (.mk l f a b cs)

/-- The shape does not begin with a call: neither it nor its first part, and so on, is one. -/
inductive HeadFree : Shape → Prop
  | mk {l : Label} {f : Option Field} {a b : Nat} {cs : List Shape} (label : l.isCall = false)
      (first : ∀ c ∈ cs.head?, HeadFree c) : HeadFree (.mk l f a b cs)

/-- A part that is no name, or does not begin with a call. -/
def Tame (s : Shape) : Prop := s.field = some .name → s.HeadFree

theorem CallFree.headFree (h : s.CallFree) : s.HeadFree := by
  induction h with
  | mk label parts ih => exact .mk label fun c hc => ih c (mem_of_mem_head? hc)

theorem CallFree.parts {s c : Shape} (h : s.CallFree) (hc : c ∈ s.children) : c.CallFree := by
  cases h with
  | mk _ parts => exact parts c hc

theorem HeadFree.head {s c : Shape} (h : s.HeadFree) (hc : s.children.head? = some c) :
    c.HeadFree := by
  cases h with
  | mk _ first => exact first c hc

theorem HeadFree.tame (h : s.HeadFree) : s.Tame := fun _ => h

@[simp]
theorem callFree_part : (s.part f).CallFree ↔ s.CallFree := by
  cases s
  exact ⟨fun ⟨h, hs⟩ => ⟨h, hs⟩, fun ⟨h, hs⟩ => ⟨h, hs⟩⟩

@[simp]
theorem headFree_part : (s.part f).HeadFree ↔ s.HeadFree := by
  cases s
  exact ⟨fun ⟨h, hs⟩ => ⟨h, hs⟩, fun ⟨h, hs⟩ => ⟨h, hs⟩⟩

theorem tame_part (h : f ≠ .name) : (s.part f).Tame :=
  fun hf => absurd (Option.some.inj hf) h

theorem tame_map_part (h : f ≠ .name) (l : List Shape) :
    ∀ s ∈ l.map fun s => s.part f, s.Tame :=
  forall_mem_map.2 fun _ _ => tame_part h

theorem tame_of_field_none (h : s.field = none) : s.Tame := by
  intro hf
  rw [h] at hf
  cases hf

end Shape

/-! ## Constructs behind `export` and `declare` -/

/-- Kinds that are neither a declaration nor a value. -/
def Kind.isOuter : Kind → Bool
  | .exportStatement | .expressionStatement | .exportClause | .comment => true
  | _ => false

/-- A declaration or a value, in no particular part. -/
def Shape.Inner (s : Shape) : Prop :=
  ∃ k : Kind, k.isOuter = false ∧ s.label = .named k ∧ s.field = none

/-- The labels of parts and the fields they are in, comments apart. -/
def outline (cs : List Shape) : List (Label × Option Field) :=
  (cs.map fun c => (c.label, c.field)).filter (·.1 != .named .comment)

/-- Whether a part of an export statement says what is exported. -/
def leads (o : Label × Option Field) : Bool :=
  o.1 == .named .exportClause || o.1 == .token "=" || o.2 == some .declaration
    || o.2 == some .value

/-- The parts of an export statement. At most one of them says what is exported; where it is a value,
there is no source. -/
structure Exports (os : List (Label × Option Field)) : Prop where
  single : (os.filter leads).length ≤ 1
  parameters : ∀ o ∈ os, o.2 ≠ some .typeParameters
  clause : ∀ o ∈ os, o.1 = .named .exportClause → o.2 = none
  declaration : ∀ o ∈ os, o.2 = some .declaration → ∀ k, o.1 = .named k → k.isOuter = false
  value : (∃ o ∈ os, o.2 = some .value) → ∀ o ∈ os, o.2 ≠ some .source

theorem outline_append (l m : List Shape) : outline (l ++ m) = outline l ++ outline m := by
  rw [outline, map_append, filter_append]
  rfl

theorem outline_cons {c : Shape} (h : c.label ≠ .named .comment) (l : List Shape) :
    outline (c :: l) = (c.label, c.field) :: outline l :=
  filter_cons_of_pos (bne_iff_ne.2 h)

theorem exists_of_mem_outline {cs : List Shape} {o : Label × Option Field} (h : o ∈ outline cs) :
    ∃ c ∈ cs, o = (c.label, c.field) := by
  obtain ⟨c, hc, rfl⟩ := mem_map.1 (mem_filter.1 h).1
  exact ⟨c, hc, rfl⟩

/-- A part of an export statement that does not say what is exported. -/
def Shape.Idle (s : Shape) : Prop :=
  leads (s.label, s.field) = false ∧ s.field ≠ some .typeParameters

theorem filter_leads_of_idle {cs : List Shape} (h : ∀ s ∈ cs, s.Idle) :
    (outline cs).filter leads = [] := by
  refine filter_eq_nil_iff.2 fun o ho => ?_
  obtain ⟨s, hs, rfl⟩ := exists_of_mem_outline ho
  exact Bool.eq_false_iff.1 (h s hs).1

namespace Exports

variable {cs l m : List Shape} {c : Shape}

theorem of_idle (h : ∀ s ∈ cs, s.Idle) : Exports (outline cs) := by
  have hidle : ∀ o ∈ outline cs, leads o = false ∧ o.2 ≠ some .typeParameters := by
    intro o ho
    obtain ⟨s, hs, rfl⟩ := exists_of_mem_outline ho
    exact h s hs
  refine ⟨?_, fun o ho => (hidle o ho).2, ?_, ?_, ?_⟩
  · rw [filter_leads_of_idle h]
    exact Nat.zero_le 1
  · intro o ho hlabel
    simpa [leads, hlabel] using (hidle o ho).1
  · intro o ho hfield
    simpa [leads, hfield] using (hidle o ho).1
  · rintro ⟨o, ho, hfield⟩
    simpa [leads, hfield] using (hidle o ho).1

/-- Parts in front that say nothing and name no source. -/
theorem append_left (hl : ∀ s ∈ l, s.Idle ∧ s.field ≠ some .source) (hm : Exports (outline m)) :
    Exports (outline (l ++ m)) := by
  have hfront := of_idle fun s hs => (hl s hs).1
  have hnone := filter_leads_of_idle fun s hs => (hl s hs).1
  rw [outline_append]
  refine ⟨?_, ?_, ?_, ?_, ?_⟩
  · rw [filter_append, hnone]
    exact hm.single
  · exact forall_mem_append.2 ⟨hfront.parameters, hm.parameters⟩
  · exact forall_mem_append.2 ⟨hfront.clause, hm.clause⟩
  · exact forall_mem_append.2 ⟨hfront.declaration, hm.declaration⟩
  · rintro ⟨o, ho, hfield⟩
    refine forall_mem_append.2 ⟨fun o ho => ?_, hm.value ⟨o, ?_, hfield⟩⟩
    · obtain ⟨s, hs, rfl⟩ := exists_of_mem_outline ho
      exact (hl s hs).2
    · refine (mem_append.1 ho).resolve_left fun ho => ?_
      have hlead : o ∈ (outline l).filter leads :=
        mem_filter.2 ⟨ho, by simp [leads, hfield]⟩
      rw [hnone] at hlead
      cases hlead

/-- One part that says what is exported, and parts behind it that do not. -/
theorem cons (hplain : c.label ≠ .named .comment) (hparameters : c.field ≠ some .typeParameters)
    (hclause : c.label = .named .exportClause → c.field = none)
    (hdeclaration : c.field = some .declaration → ∀ k, c.label = .named k → k.isOuter = false)
    (hm : ∀ s ∈ m, s.Idle)
    (hvalue : c.field = some .value → ∀ s ∈ m, s.field ≠ some .source) :
    Exports (outline (c :: m)) := by
  have hrest := of_idle hm
  rw [outline_cons hplain]
  refine ⟨?_, forall_mem_cons.2 ⟨hparameters, hrest.parameters⟩,
    forall_mem_cons.2 ⟨hclause, hrest.clause⟩,
    forall_mem_cons.2 ⟨hdeclaration, hrest.declaration⟩, ?_⟩
  · rw [filter_cons, filter_leads_of_idle hm]
    split <;> simp
  · rintro ⟨o, ho, hfield⟩
    rcases mem_cons.1 ho with rfl | ho
    · refine forall_mem_cons.2 ⟨fun hsource => ?_, fun o ho => ?_⟩
      · cases hfield.symm.trans hsource
      · obtain ⟨s, hs, rfl⟩ := exists_of_mem_outline ho
        exact hvalue hfield s hs
    · obtain ⟨s, hs, rfl⟩ := exists_of_mem_outline ho
      have hidle := (hm s hs).1
      simp [leads, show s.field = some .value from hfield] at hidle

end Exports

/-- The first construct behind `declare` is no statement that could stand elsewhere only. -/
def Introduces (os : List (Label × Option Field)) : Prop :=
  ∀ o ∈ os.find? (·.1.isNamed), ∀ k, o.1 = .named k → k.isOuter = false

/-! ## Constructs with members -/

/-- The bodies in which members stand. -/
def Label.isBody : Label → Bool
  | .named .classBody | .named .interfaceBody | .named .objectType | .named .enumBody => true
  | _ => false

/-- Whether a part is a body, by its label or by its field. -/
def holds (o : Label × Option Field) : Bool := o.1.isBody || o.2 == some .body

/-- The parts of a class, an interface or an enum. They begin with a token or a decorator, a name is
one word, and there is one body. -/
structure Houses (os : List (Label × Option Field)) : Prop where
  first : ∀ o ∈ os.head?, o.1.isNamed = false ∨ o.1 = .named .decorator
  name : ∀ o ∈ os, o.2 = some .name → o.1 = .named .typeIdentifier ∨ o.1 = .named .identifier
  body : ∀ o ∈ os, holds o = true → o.1.isBody = true ∧ o.2 = some .body
  single : (os.filter holds).length ≤ 1

/-- A part in front of a body: no other body, and if it is a name, then one word. -/
structure Shape.Fore (s : Shape) : Prop where
  holds : holds (s.label, s.field) = false
  name : s.field = some .name → s.label = .named .typeIdentifier ∨ s.label = .named .identifier

/-- What a class, an interface or an enum may begin with. -/
structure Shape.Begins (s : Shape) : Prop where
  label : s.label.isNamed = false ∨ s.label = .named .decorator
  field : s.field ≠ some .name ∧ s.field ≠ some .body

theorem Shape.fore_of_label (hk : (Label.named k).isBody = false)
    (h : s.label = .named k ∧ s.field = none) : s.Fore := by
  refine ⟨?_, by simp [h.2]⟩
  simp [Syntax.holds, h.1, h.2, hk]

theorem Shape.fore_part {f : Field} (hk : (Label.named k).isBody = false)
    (hname : f ≠ .name) (hbody : f ≠ .body) (h : s.label = .named k) : (s.part f).Fore := by
  have hlabel : (s.part f).label = .named k := h
  have hfield : (s.part f).field = some f := rfl
  refine ⟨?_, by simp [hfield, hname]⟩
  simp [Syntax.holds, hlabel, hfield, hk, hbody]

theorem Shape.Begins.fore (h : s.Begins) : s.Fore := by
  refine ⟨?_, fun hname => absurd hname h.field.1⟩
  have hbody : s.label.isBody = false := by
    rcases h.label with hlabel | hlabel
    · cases hs : s.label with
      | token t => rfl
      | named k =>
        rw [hs] at hlabel
        cases hlabel
    · rw [hlabel]
      rfl
  simp [Syntax.holds, hbody, h.field.2]

theorem Shape.Begins.plain (h : s.Begins) : s.label ≠ .named .comment := by
  intro hlabel
  rcases h.label with h | h
  · rw [hlabel] at h
    cases h
  · cases hlabel.symm.trans h

namespace Houses

variable {l m : List Shape} {s b : Shape}

theorem nil : Houses (outline []) := by
  constructor <;> simp [outline]

theorem filter_holds_of_fore (h : ∀ s ∈ l, s.Fore) : (outline l).filter Syntax.holds = [] := by
  refine filter_eq_nil_iff.2 fun o ho => ?_
  obtain ⟨s, hs, rfl⟩ := exists_of_mem_outline ho
  exact Bool.eq_false_iff.1 (h s hs).holds

/-- A first part, parts behind it, and a body. -/
theorem intro (hs : s.Begins) (hl : ∀ t ∈ l, t.Fore) (hb : b.label.isBody = true)
    (hfield : b.field = some .body) : Houses (outline (s :: (l ++ [b]))) := by
  have hplain : b.label ≠ .named .comment := by
    intro hlabel
    rw [hlabel] at hb
    cases hb
  have hfront : ∀ t ∈ s :: l, t.Fore := forall_mem_cons.2 ⟨hs.fore, hl⟩
  have hbody : outline [b] = [(b.label, b.field)] := outline_cons hplain []
  rw [← cons_append, outline_append, hbody]
  refine ⟨?_, ?_, ?_, ?_⟩
  · rw [outline_cons hs.plain, cons_append]
    rintro o ⟨⟩
    exact hs.label
  · refine forall_mem_append.2 ⟨fun o ho => ?_, forall_mem_singleton.2 fun hname => ?_⟩
    · obtain ⟨t, ht, rfl⟩ := exists_of_mem_outline ho
      exact (hfront t ht).name
    · cases hfield.symm.trans hname
  · refine forall_mem_append.2 ⟨fun o ho hholds => ?_, forall_mem_singleton.2 fun _ => ?_⟩
    · obtain ⟨t, ht, rfl⟩ := exists_of_mem_outline ho
      exact absurd hholds (Bool.eq_false_iff.1 (hfront t ht).holds)
    · exact ⟨hb, hfield⟩
  · rw [filter_append, filter_holds_of_fore hfront, nil_append]
    exact length_filter_le _ _

/-- Decorators and keywords in front. -/
theorem append (hl : ∀ s ∈ l, s.Begins) (hm : Houses (outline m)) : Houses (outline (l ++ m)) := by
  have hfore : ∀ s ∈ l, s.Fore := fun s hs => (hl s hs).fore
  rw [outline_append]
  refine ⟨?_, ?_, ?_, ?_⟩
  · rcases l with _ | ⟨s, l⟩
    · exact hm.first
    · rw [outline_cons (hl s mem_cons_self).plain, cons_append]
      rintro o ⟨⟩
      exact (hl s mem_cons_self).label
  · refine forall_mem_append.2 ⟨fun o ho => ?_, hm.name⟩
    obtain ⟨s, hs, rfl⟩ := exists_of_mem_outline ho
    exact (hfore s hs).name
  · refine forall_mem_append.2 ⟨fun o ho hholds => ?_, hm.body⟩
    obtain ⟨s, hs, rfl⟩ := exists_of_mem_outline ho
    exact absurd hholds (Bool.eq_false_iff.1 (hfore s hs).holds)
  · rw [filter_append, filter_holds_of_fore hfore, nil_append]
    exact hm.single

end Houses

/-! ## Sound shapes -/

/-- How a construct restricts its parts. -/
inductive Role where
  | free
  /-- It has none. -/
  | leaf
  /-- What it accesses is an identifier. -/
  | member
  /-- Nothing is called in them. -/
  | quiet
  /-- The same; one is a name, and those with a place of their own are words and strings. -/
  | entry
  /-- Nothing is called in them, and they begin with a token. -/
  | text
  /-- They begin with a token. -/
  | opened
  /-- Neither its name nor its first part begins with a call. -/
  | declaring
  /-- The same, and it always has a name. -/
  | property
  /-- The same, and the name is a plain one. -/
  | titled
  /-- The same as for declarations, and one part is a body with members. -/
  | housing
  /-- The same as for declarations, and its parameters are listed. -/
  | function
  /-- The same as for functions, and it always has a name. -/
  | method
  /-- Its parameters are listed, or it has a bare one. -/
  | arrow
  /-- It has no body. -/
  | bodiless
  /-- They say in one way what is exported. -/
  | exporting
  /-- They begin with a declaration. -/
  | ambient
deriving DecidableEq

def Kind.role : Kind → Role
  | .identifier | .typeIdentifier | .propertyIdentifier | .shorthandPropertyIdentifier
  | .shorthandPropertyIdentifierPattern | .privatePropertyIdentifier | .thisExpression
  | .comment => .leaf
  | .memberExpression => .member
  | .importClause | .namespaceImport | .importRequireClause | .namespaceExport => .quiet
  | .importSpecifier | .exportSpecifier => .entry
  | .string => .text
  | .decorator => .opened
  | .variableDeclarator | .requiredParameter | .optionalParameter | .internalModule
  | .moduleDeclaration | .typeParameter => .declaring
  | .fieldDefinition | .propertySignature | .enumAssignment => .property
  | .typeAliasDeclaration => .titled
  | .classDeclaration | .abstractClassDeclaration | .classExpression | .interfaceDeclaration
  | .enumDeclaration => .housing
  | .functionDeclaration | .generatorFunctionDeclaration | .functionSignature | .functionExpression
  | .generatorFunction => .function
  | .methodDefinition | .methodSignature | .abstractMethodSignature => .method
  | .arrowFunction => .arrow
  | .functionType | .constructorType => .bodiless
  | .exportStatement => .exporting
  | .ambientDeclaration => .ambient
  | _ => .free

/-- The parts of a declaration. -/
structure Declares (cs : List Shape) : Prop where
  names : ∀ c ∈ cs, c.Tame
  first : ∀ c ∈ cs.head?, c.HeadFree

namespace Declares

theorem append {l m : List Shape} (hl : ∀ s ∈ l, s.HeadFree) (hm : Declares m) :
    Declares (l ++ m) where
  names c hc := (mem_append.1 hc).elim (fun h => (hl c h).tame) (hm.names c)
  first c hc := by
    rcases l with _ | ⟨s, l⟩
    · exact hm.first c hc
    · cases Option.mem_some.1 hc
      exact hl c mem_cons_self

theorem cons {l : List Shape} (hs : s.HeadFree) (hl : ∀ t ∈ l, t.Tame) :
    Declares (s :: l) where
  names := forall_mem_cons.2 ⟨hs.tame, hl⟩
  first c hc := by
    cases Option.mem_some.1 hc
    exact hs

end Declares

/-- Among the parts of a function is a list of parameters, unless a name stands for it. -/
def Parametrized (cs : List Shape) : Prop :=
  (∃ c ∈ cs, c.field = some .parameters) ∨
    ∀ c ∈ cs, c.field = some .parameter → c.label = .named .identifier

namespace Parametrized

theorem append {l m : List Shape} (hl : Parametrized l) (hm : ∀ s ∈ m, s.field ≠ some .parameter) :
    Parametrized (l ++ m) := by
  rcases hl with ⟨c, hc, hfield⟩ | hbare
  · exact .inl ⟨c, mem_append_left m hc, hfield⟩
  · exact .inr fun c hc hfield =>
      (mem_append.1 hc).elim (hbare c · hfield) fun hc => absurd hfield (hm c hc)

theorem cons {l : List Shape} (hs : s.field ≠ some .parameter) (hl : Parametrized l) :
    Parametrized (s :: l) := by
  rcases hl with ⟨c, hc, hfield⟩ | hbare
  · exact .inl ⟨c, mem_cons_of_mem s hc, hfield⟩
  · exact .inr (forall_mem_cons.2 ⟨fun hfield => absurd hfield hs, hbare⟩)

end Parametrized

/-- The parts of a method: one is its name, and the parameters are listed. -/
structure Methodical (cs : List Shape) : Prop where
  declares : Declares cs
  named : ∃ c ∈ cs, c.field = some .name
  parametrized : Parametrized cs
  listed : ∀ c ∈ cs, c.field = some .parameters → c.label = .named .formalParameters

/-- A word or a string. -/
def Shape.Worded (s : Shape) : Prop := s.children = [] ∨ s.label = .named .string

/-- A part without a place of its own, or a word or a string. -/
def Shape.Tight (s : Shape) : Prop := s.field ≠ none → s.Worded

theorem Shape.tight_of_field_none (h : s.field = none) : s.Tight := fun hf => absurd h hf

theorem Shape.Worded.tight_part (h : s.Worded) (f : Field) : (s.part f).Tight := fun _ => h

/-- A token has no parts. -/
def Shape.Bare (s : Shape) : Prop := s.label.isNamed = false ∧ s.children = []

theorem Shape.Bare.headFree (h : s.Bare) : s.HeadFree := by
  obtain ⟨l, f, a, b, cs⟩ := s
  obtain ⟨hlabel, rfl⟩ := h
  cases l with
  | token t => exact .mk rfl nofun
  | named k => cases hlabel

/-- Roles in which nothing is called in the parts. -/
def Role.isQuiet : Role → Bool
  | .quiet | .entry => true
  | _ => false

/-- The parts are those that a construct of the role may have. -/
def Role.Fits : Role → List Shape → Prop
  | .free, _ => True
  | .leaf, cs => cs = []
  | .member, cs => ∀ c ∈ cs, c.field = some .property → c.label.kind?.any Kind.isIdentifier = true
  | .quiet, cs => ∀ c ∈ cs, c.CallFree
  | .entry, cs => (∀ c ∈ cs, c.CallFree ∧ c.Tight) ∧ ∃ c ∈ cs, c.field = some .name
  | .text, cs => (∀ c ∈ cs, c.CallFree) ∧ ∀ c ∈ cs.head?, c.Bare
  | .opened, cs => ∀ c ∈ cs.head?, c.Bare
  | .declaring, cs => Declares cs
  | .property, cs => Declares cs ∧ ∃ c ∈ cs, c.field = some .name
  | .titled, cs => Declares cs ∧ (cs = [] ∨ ∃ c ∈ cs, c.field = some .name) ∧
      ∀ c ∈ cs, c.field = some .name → c.label = .named .typeIdentifier
  | .housing, cs => Declares cs ∧ Houses (outline cs)
  | .function, cs => Declares cs ∧ Parametrized cs
  | .method, cs => Methodical cs
  | .arrow, cs => Parametrized cs
  | .bodiless, cs => ∀ c ∈ cs, c.field ≠ some .body
  | .exporting, cs => Exports (outline cs)
  | .ambient, cs => Introduces (outline cs)

theorem Role.Fits.callFree {r : Role} {cs : List Shape} (h : r.Fits cs) (hr : r.isQuiet = true) :
    ∀ c ∈ cs, c.CallFree := by
  cases r with
  | quiet => exact h
  | entry => exact fun c hc => (h.1 c hc).1
  | _ => cases hr

def Label.Fits : Label → List Shape → Prop
  | .token _, cs => cs = []
  | .named k, cs => k.role.Fits cs

/-- The shapes stand between two positions, one behind the other and before the end of the text; what
is said about comments is nothing. -/
def Aligned (n : Nat) : Nat → List Shape → Nat → Prop
  | a, [], b => a ≤ b
  | a, s :: rest, b =>
    if s.label = .named .comment then Aligned n a rest b
    else a ≤ s.start ∧ s.start < s.stop ∧ s.start < n ∧ Aligned n s.stop rest b

/-- A shape of a text of `n` characters in which parts are aligned and fit their constructs; comments
are no part of anything. -/
inductive Shape.Sound (n : Nat) : Shape → Prop
  | comment {a b : Nat} : Sound n (.mk (.named .comment) none a b [])
  | mk {l : Label} {f : Option Field} {a b : Nat} {cs : List Shape} (plain : l ≠ .named .comment)
      (fits : l.Fits cs) (first : ∀ c ∈ cs.head?, c.start = a ∧ c.label ≠ .named .comment)
      (aligned : Aligned n a cs b) (parts : ∀ c ∈ cs, Sound n c) : Sound n (.mk l f a b cs)

/-- Sound shapes in a row, as they are before comments are inserted. -/
structure Row (n a : Nat) (l : List Shape) (b : Nat) : Prop where
  aligned : Aligned n a l b
  sound : ∀ s ∈ l, s.Sound n
  plain : ∀ s ∈ l, s.label ≠ .named .comment

theorem Role.fits_nil {r : Role} (h : r ≠ .entry ∧ r ≠ .property ∧ r ≠ .method) : r.Fits [] := by
  cases r with
  | free => trivial
  | leaf => rfl
  | member => exact nofun
  | quiet => exact nofun
  | entry => exact absurd rfl h.1
  | text => exact ⟨nofun, nofun⟩
  | opened => exact nofun
  | declaring => exact ⟨nofun, nofun⟩
  | property => exact absurd rfl h.2.1
  | titled => exact ⟨⟨nofun, nofun⟩, .inl rfl, nofun⟩
  | housing => exact ⟨⟨nofun, nofun⟩, .nil⟩
  | function => exact ⟨⟨nofun, nofun⟩, .inr nofun⟩
  | method => exact absurd rfl h.2.2
  | arrow => exact .inr nofun
  | bodiless => exact nofun
  | exporting => exact .of_idle (by simp)
  | ambient => exact fun o ho => absurd ho (Option.not_mem_none o)

/-- Whether something without parts may have the label; of comments nothing is said. -/
def Label.standsAlone : Label → Bool
  | .named .comment | .named .importSpecifier | .named .exportSpecifier | .named .fieldDefinition
  | .named .propertySignature | .named .enumAssignment | .named .methodDefinition
  | .named .methodSignature | .named .abstractMethodSignature => false
  | _ => true

theorem Label.plain_of_standsAlone {l : Label} (h : l.standsAlone = true) : l ≠ .named .comment := by
  rintro rfl
  cases h

theorem Label.fits_nil {l : Label} (h : l.standsAlone = true) : l.Fits [] := by
  cases l with
  | token t => rfl
  | named k =>
    refine Role.fits_nil ?_
    revert h
    cases k <;> decide

theorem fits_of_role {r : Role} {cs : List Shape} (h : k.role = r) (hcs : r.Fits cs) :
    (Label.named k).Fits cs := by
  change k.role.Fits cs
  rwa [h]

theorem fits_of_free (h : k.role = .free) (cs : List Shape) : (Label.named k).Fits cs :=
  fits_of_role h trivial

namespace Aligned

variable {n a a' b b' : Nat} {l : List Shape}

theorem cons_iff (hs : s.label ≠ .named .comment) :
    Aligned n a (s :: l) b ↔ a ≤ s.start ∧ s.start < s.stop ∧ s.start < n ∧ Aligned n s.stop l b := by
  rw [Aligned.eq_2, if_neg hs]

theorem le (h : Aligned n a l b) : a ≤ b := by
  induction l generalizing a with
  | nil => exact h
  | cons s rest ih =>
    unfold Aligned at h
    split at h
    · exact ih h
    · exact Nat.le_trans h.1 (Nat.le_trans (Nat.le_of_lt h.2.1) (ih h.2.2.2))

theorem mono (h : Aligned n a l b) (ha : a' ≤ a) (hb : b ≤ b') : Aligned n a' l b' := by
  induction l generalizing a a' with
  | nil => exact Nat.le_trans ha (Nat.le_trans h hb)
  | cons s rest ih =>
    unfold Aligned at h ⊢
    split at h
    · next hc =>
      rw [if_pos hc]
      exact ih h ha
    · next hc =>
      rw [if_neg hc]
      exact ⟨Nat.le_trans ha h.1, h.2.1, h.2.2.1, ih h.2.2.2 (Nat.le_refl _)⟩

theorem append_iff {m : List Shape} :
    Aligned n a (l ++ m) b ↔ ∃ c, Aligned n a l c ∧ Aligned n c m b := by
  induction l generalizing a with
  | nil =>
    constructor
    · exact fun h => ⟨a, Nat.le_refl a, h⟩
    · rintro ⟨c, hc, h⟩
      exact h.mono hc (Nat.le_refl b)
  | cons s rest ih =>
    by_cases hs : s.label = .named .comment
    · simp only [cons_append, Aligned.eq_2, if_pos hs, ih]
    · simp only [cons_append, cons_iff hs, ih]
      grind

/-- A row begins where its first part begins and ends where its last part ends. -/
theorem tighten (h : Aligned n a l b) (hplain : ∀ s ∈ l, s.label ≠ .named .comment) (d : Nat)
    (hne : l ≠ []) :
    let first := (l.head?.map Shape.start).getD d
    let last := (l.getLast?.map Shape.stop).getD d
    a ≤ first ∧ first < last ∧ first < n ∧ last ≤ b ∧ Aligned n first l last := by
  induction l generalizing a with
  | nil => exact absurd rfl hne
  | cons s rest ih =>
    have hs := hplain s mem_cons_self
    obtain ⟨h₁, h₂, h₃, h₄⟩ := (cons_iff hs).1 h
    rcases rest with _ | ⟨t, rest⟩
    · exact ⟨h₁, h₂, h₃, h₄, (cons_iff hs).2 ⟨Nat.le_refl _, h₂, h₃, Nat.le_refl _⟩⟩
    · obtain ⟨i₁, i₂, i₃, i₄, i₅⟩ :=
        ih h₄ (fun x hx => hplain x (mem_cons_of_mem s hx)) nofun
      rw [getLast?_cons_cons]
      refine ⟨h₁, ?_, h₃, i₄,
        (cons_iff hs).2 ⟨Nat.le_refl _, h₂, h₃, i₅.mono i₁ (Nat.le_refl _)⟩⟩
      exact Nat.lt_of_lt_of_le h₂ (Nat.le_trans i₁ (Nat.le_of_lt i₂))

end Aligned

namespace Row

variable {n a b c : Nat} {l m : List Shape}

theorem nil (h : a ≤ b) : Row n a [] b := ⟨h, nofun, nofun⟩

theorem append (hl : Row n a l b) (hm : Row n b m c) : Row n a (l ++ m) c where
  aligned := Aligned.append_iff.2 ⟨b, hl.aligned, hm.aligned⟩
  sound s hs := (mem_append.1 hs).elim (hl.sound s) (hm.sound s)
  plain s hs := (mem_append.1 hs).elim (hl.plain s) (hm.plain s)

theorem singleton (hs : s.Sound n) (hplain : s.label ≠ .named .comment)
    (ha : a ≤ s.start) (hlt : s.start < s.stop) (hn : s.start < n) (hb : s.stop ≤ b) :
    Row n a [s] b where
  aligned := (Aligned.cons_iff hplain).2 ⟨ha, hlt, hn, hb⟩
  sound t ht := by
    rw [mem_singleton.1 ht]
    exact hs
  plain t ht := by
    rw [mem_singleton.1 ht]
    exact hplain

theorem branch (h : Row n a l b) {k : Kind} (hne : l ≠ []) (hfits : (Label.named k).Fits l)
    (d : Nat) : Row n a [.branch k d l] b := by
  obtain ⟨h₁, h₂, h₃, h₄, h₅⟩ := h.aligned.tighten h.plain d hne
  have hk : Label.named k ≠ .named .comment := by
    intro hk
    cases Label.named.inj hk
    exact hne hfits
  refine singleton (.mk hk hfits ?_ h₅ h.sound) hk h₁ h₂ h₃ h₄
  intro c hc
  refine ⟨?_, h.plain c (mem_of_mem_head? hc)⟩
  rw [Option.mem_def.1 hc]
  rfl

end Row

namespace Shape

/-- A shape apart from the part it plays. -/
def bare (s : Shape) : Shape := mk s.label none s.start s.stop s.children

@[simp]
theorem bare_part (s : Shape) (f : Field) : (s.part f).bare = s.bare := rfl

@[simp]
theorem bare_comp_part (f : Field) : (bare ∘ fun s => s.part f) = bare := rfl

theorem sound_of_bare_eq {n : Nat} {s t : Shape} (h : s.bare = t.bare) (hs : s.Sound n)
    (hplain : s.label ≠ .named .comment) : t.Sound n := by
  rcases s with ⟨l, f, a, b, cs⟩
  rcases t with ⟨l', f', a', b', cs'⟩
  cases h
  cases hs with
  | comment => exact absurd rfl hplain
  | mk plain fits first aligned parts => exact .mk plain fits first aligned parts

end Shape

/-- Which parts the shapes play does not matter in a row. -/
theorem Row.congr {n a b : Nat} {l m : List Shape} (h : l.map Shape.bare = m.map Shape.bare)
    (hl : Row n a l b) : Row n a m b := by
  induction l generalizing a m with
  | nil =>
    obtain rfl := map_eq_nil_iff.1 h.symm
    exact hl
  | cons s rest ih =>
    rcases m with _ | ⟨t, m⟩
    · cases h
    · obtain ⟨hst, hrest⟩ := List.cons.inj h
      have hs : s.label ≠ .named .comment := hl.plain s mem_cons_self
      have ht : t.label = s.label := (congrArg Shape.label hst).symm
      have hstart : t.start = s.start := (congrArg Shape.start hst).symm
      have hstop : t.stop = s.stop := (congrArg Shape.stop hst).symm
      obtain ⟨h₁, h₂, h₃, h₄⟩ := (Aligned.cons_iff hs).1 hl.aligned
      rw [← hstart] at h₁ h₂ h₃
      rw [← hstop] at h₂ h₄
      have hsound : t.Sound n := Shape.sound_of_bare_eq hst (hl.sound s mem_cons_self) hs
      have htail : Row n t.stop m b := by
        refine ih hrest ⟨h₄, fun x hx => ?_, fun x hx => ?_⟩
        · exact hl.sound x (mem_cons_of_mem s hx)
        · exact hl.plain x (mem_cons_of_mem s hx)
      rw [← ht] at hs
      exact (Row.singleton hsound hs h₁ h₂ h₃ (Nat.le_refl _)).append htail

end ScriptAtlas.Syntax

