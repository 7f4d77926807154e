import ScriptAtlas.Proofs.ReadingExpressions
import ScriptAtlas.Syntax.Grammar.Statement

/-!
# Labels of what is read

Values and declarations are told apart from statements and export lists by their labels, and from that
follows what stands behind `export` and behind `declare`.

* `Grammar.inner_expression`, `Grammar.inner_declaration`: values and declarations are neither
  statements nor lists;
* `Grammar.exports_exportTail`, `Grammar.introduces_ambientDeclaration`: the parts of an export
  statement and of an ambient declaration.
-/

namespace ScriptAtlas.Syntax

open List

theorem Yields.inner {k : Kind} {p : Reader (List Shape)} (hk : k.isOuter = false) :
    Yields (Reader.node k p) Shape.Inner :=
  Yields.node.weaken fun _ hs => ⟨k, hk, hs⟩

theorem Shape.inner_branch {k : Kind} (hk : k.isOuter = false) (d : Nat) (cs : List Shape) :
    (Shape.branch k d cs).Inner := ⟨k, hk, rfl, rfl⟩

theorem IsLeaf.inner {k : Kind} (hk : k.isOuter = false) : IsLeaf k s → s.Inner := by
  rintro ⟨a, b, rfl⟩
  exact ⟨k, hk, rfl, rfl⟩

namespace Grammar

open Reader

variable {recur : Recur} {s : Shape}

/-! ## Values -/

theorem inner_identifier : Yields identifier Shape.Inner :=
  reads_identifier.yields.weaken fun _ => IsLeaf.inner rfl

theorem inner_wordAs {k : Kind} (hk : k.isOuter = false) (text : String) :
    Yields (wordAs k text) Shape.Inner :=
  .after fun _ => .pure ⟨k, hk, rfl, rfl⟩

theorem inner_functionExpression : Yields (functionExpression recur) Shape.Inner := by
  refine .after fun _ => .after fun _ => .after fun _ => .after fun star => .after fun _ =>
    .after fun _ => .after fun _ => .pure (Shape.inner_branch ?_ _ _)
  cases star <;> rfl

theorem inner_arrowFunction (allowIn arrowTypes : Bool) :
    Yields (arrowFunction recur allowIn arrowTypes) Shape.Inner :=
  .or (.after fun _ => .inner rfl) <|
  .or (.after fun _ => .inner rfl) <|
  .or (.after fun _ => .after fun _ => .inner rfl) .fail

theorem inner_accessStep (left : Shape) : Yields (accessStep recur left) Shape.Inner := by
  refine .after fun t => ?_
  split
  · exact .inner rfl
  · exact .or (.inner rfl) <| .or (.inner rfl) .fail
  · exact .inner rfl
  · exact .after fun _ => .after fun _ => .inner rfl
  · exact .fail

theorem inner_callStep (left : Shape) : Yields (callStep recur left) Shape.Inner := by
  refine .after fun t => ?_
  split
  iterate 3 exact .inner rfl
  · exact .or (.inner rfl) <| .or (.inner rfl) .fail
  · exact .fail

theorem inner_wordOperand (w : String) : Yields (wordOperand recur w) Shape.Inner := by
  unfold wordOperand
  split
  · exact inner_functionExpression
  · exact .or (.after fun _ => .after fun _ => inner_functionExpression) <|
      .or inner_identifier .fail
  · exact .inner rfl
  · exact .or (.inner rfl) <| .or (.inner rfl) .fail
  iterate 6
    exact inner_wordAs rfl _
  · exact .or (.inner rfl) <| .or (inner_wordAs rfl _) .fail
  · exact inner_identifier

theorem inner_stringLiteral : Yields stringLiteral Shape.Inner :=
  .or (.inner rfl) <| .or (.inner rfl) .fail

theorem inner_operand (hr : recur.Sound) : Yields (operand recur) Shape.Inner := by
  refine .after fun w => .ite (inner_wordOperand w) <| .after fun c => ?_
  split
  iterate 6
    exact .inner rfl
  · exact Reads.privateName.yields.weaken fun _ => IsLeaf.inner rfl
  · exact .after fun _ => .after fun _ => (hr .element).yields
  · exact .or inner_stringLiteral <|
      .or (Reads.number.yields.weaken fun _ => IsLeaf.inner rfl) .fail

theorem inner_leftHand (hr : recur.Sound) : Yields (leftHand recur) Shape.Inner :=
  (inner_operand hr).bind fun _ hfirst =>
  .grow (fun left => .or (inner_accessStep left) <|
    .or (inner_callStep left) .nil) hfirst

theorem inner_assertionStep (left : Shape) : Yields (assertionStep recur left) Shape.Inner := by
  refine .after fun _ => .after fun _ => .after fun w => ?_
  split
  · exact .inner rfl
  · exact .inner rfl
  · exact .fail

theorem inner_unary (hr : recur.Sound) : Yields (unary recur) Shape.Inner := by
  refine .after fun w => .ite (.inner rfl) <| .ite ?_ <| .after fun t => .ite (.inner rfl) <|
    .ite (.inner rfl) <| .after fun i => .ite (.inner rfl) ?_
  · exact .or (.inner rfl) <| .or (inner_leftHand hr) .fail
  · exact (inner_leftHand hr).bind fun _ hv =>
      .or (.inner rfl) <| .or (.pure hv) .fail

theorem inner_binaryStep (allowIn : Bool) (level : Nat) (left : Shape) :
    Yields (binaryStep recur allowIn level left) Shape.Inner := by
  refine .after fun w => .ite (.after fun op => ?_) (.after fun op => ?_)
  all_goals
    dsimp only
    split
    · exact .ite (inner_assertionStep left) .fail
    · exact .after fun _ => .inner rfl

theorem inner_binary (hr : recur.Sound) (allowIn : Bool) (level : Nat) :
    Yields (binary recur allowIn level) Shape.Inner :=
  (hr .unary).yields.bind fun _ hfirst => .grow (inner_binaryStep allowIn level) hfirst

theorem inner_conditional (hr : recur.Sound) (allowIn arrowTypes : Bool) :
    Yields (conditional recur allowIn arrowTypes) Shape.Inner :=
  (hr (.binary allowIn 0)).yields.bind fun _ htest =>
  .or (.inner rfl) <| .or (.pure htest) .fail

theorem inner_plainAssignment (hr : recur.Sound) (allowIn arrowTypes : Bool) :
    Yields (plainAssignment recur allowIn arrowTypes) Shape.Inner := by
  refine (inner_conditional hr allowIn arrowTypes).bind fun left hleft => .after fun t => ?_
  split
  · exact .after fun _ => .inner rfl
  · exact .ite (.inner rfl) (.pure hleft)

theorem inner_assignment (hr : recur.Sound) (allowIn arrowTypes : Bool) :
    Yields (assignment recur allowIn arrowTypes) Shape.Inner := by
  have hplain := inner_plainAssignment hr allowIn arrowTypes
  exact .after fun w => .ite (.inner rfl) <| .after fun _ => .ite
    (.or (inner_arrowFunction allowIn arrowTypes) <| .or hplain .fail) <|
    .after fun _ => .ite (.or hplain <| .or (.inner rfl) .fail) hplain

theorem inner_expression (hr : recur.Sound) (allowIn : Bool) :
    Yields (expression recur allowIn) Shape.Inner :=
  (hr (.assignment allowIn true)).yields.bind fun _ hfirst =>
  .after fun _ =>
  .ite (.or (.inner rfl) <| .or (.pure hfirst) .fail) (.pure hfirst)

theorem inner_element : Yields (element recur) Shape.Inner :=
  .or (.inner rfl) <| .or (.inner rfl) .fail

/-! ## Declarations -/

theorem inner_functionDeclaration : Yields (functionDeclaration recur) Shape.Inner := by
  refine .after fun _ => .after fun _ => .after fun _ => .after fun star => .after fun _ =>
    .after fun _ => .or (.after fun _ => .pure (Shape.inner_branch ?_ _ _)) <|
    .or (.after fun _ => .pure (Shape.inner_branch rfl _ _)) .fail
  cases star <;> rfl

theorem inner_classDeclarationWith (decs : List Shape) :
    Yields (classDeclarationWith recur decs) Shape.Inner := by
  refine .after fun _ => .after fun a => .after fun _ => .pure (Shape.inner_branch ?_ _ _)
  cases a <;> rfl

theorem inner_variableStatement : Yields (variableStatement recur) Shape.Inner := by
  have hlist : Yields (variableList recur true) fun r => r.1.isOuter = false :=
    .after fun _ => .after fun _ => .after fun _ => .after fun _ => .ite (.pure rfl) (.pure rfl)
  exact .after fun _ => hlist.bind fun _ hr => .after fun _ => .pure (Shape.inner_branch hr _ _)

theorem inner_declaration {ambient : Reader Shape} (hambient : Yields ambient Shape.Inner) :
    Yields (declaration recur ambient) Shape.Inner := by
  refine .after fun w => ?_
  split
  iterate 2 exact inner_functionDeclaration
  iterate 2 exact inner_classDeclarationWith []
  iterate 3
    exact .inner rfl
  · exact .or (.inner rfl) <| .or inner_variableStatement .fail
  · exact inner_variableStatement
  · exact inner_variableStatement
  iterate 3
    exact .inner rfl
  · exact hambient
  · exact .fail

/-! ## Behind `declare` -/

theorem isOuter_of_inner (h : s.Inner) {k : Kind} (hk : s.label = .named k) :
    k.isOuter = false := by
  obtain ⟨k', hk', hlabel, -⟩ := h
  cases hk.symm.trans hlabel
  exact hk'

theorem label_ne_of_inner (h : s.Inner) {k : Kind} (hk : k.isOuter = true) :
    s.label ≠ .named k := fun hlabel => Bool.false_ne_true ((isOuter_of_inner h hlabel).symm.trans hk)

theorem introduces_cons_token {text : String} {l : List Shape}
    (hs : s.label = .token text ∧ s.field = none) (hl : Introduces (outline l)) :
    Introduces (outline (s :: l)) := by
  have hplain : s.label ≠ .named .comment := by simp [hs.1]
  rw [outline_cons hplain]
  intro o ho
  rw [find?_cons_of_neg (by simp [hs.1, Label.isNamed])] at ho
  exact hl o ho

theorem introduces_cons_inner (hs : s.Inner) (l : List Shape) :
    Introduces (outline (s :: l)) := by
  rw [outline_cons (label_ne_of_inner hs rfl)]
  intro o ho k hk
  have hnamed : s.label.isNamed = true := by
    obtain ⟨k, -, hlabel, -⟩ := hs
    rw [hlabel]
    rfl
  rw [find?_cons_of_pos (by exact hnamed)] at ho
  cases Option.mem_some.1 ho
  exact isOuter_of_inner hs hk

/-- Behind `declare` stand a block, a declaration, or the name of a property of the module. -/
theorem introduces_ambientDeclaration (hr : recur.Sound) : Yields (do
    let kw ← keyword "declare"
    guardThat (!(← newlineAhead))
    firstOf [
      do
        let g ← keyword "global"
        return [kw, g, ← recur .block],
      do return [kw, ← declaration recur failure],
      do
        let m ← keyword "module"
        let dot ← punct "."
        let name ← anyWord .propertyIdentifier
        let colon ← punct ":"
        let t ← recur .type
        let s ← semicolon
        return [kw, m, dot, name, colon, t] ++ s]) fun l => Introduces (outline l) := by
  refine (Yields.keyword _).bind fun kw hkw => .after fun _ => .after fun _ =>
    .or ?_ <| .or ?_ <| .or ?_ .fail
  · exact (Yields.keyword _).bind fun g hg => (hr .block).yields.bind fun body hbody =>
      .pure (introduces_cons_token hkw (introduces_cons_token hg (introduces_cons_inner hbody [])))
  · exact (inner_declaration .fail).bind fun d hd =>
      .pure (introduces_cons_token hkw (introduces_cons_inner hd []))
  · refine (Yields.keyword _).bind fun m hm => (Yields.punct _).bind fun dot hdot =>
      (Reads.anyWord (by decide)).yields.bind fun name hname => .after fun _ => .after fun _ =>
      .after fun _ => .pure ?_
    exact introduces_cons_token hkw (introduces_cons_token hm (introduces_cons_token hdot
      (introduces_cons_inner (hname.inner rfl) _)))

/-! ## Behind `export` -/

/-- A part that neither says what is exported nor from where. -/
def IsAside (s : Shape) : Prop := s.Idle ∧ s.field ≠ some .source

theorem isAside_token {text : String} (htext : text ≠ "=")
    (hs : s.label = .token text ∧ s.field = none) : IsAside s := by
  simp [IsAside, Shape.Idle, leads, hs.1, hs.2, htext]

theorem isAside_inner (h : s.Inner) : IsAside s := by
  have hclause := label_ne_of_inner h (k := .exportClause) rfl
  obtain ⟨k, -, hlabel, hfield⟩ := h
  rw [hlabel] at hclause
  simpa [IsAside, Shape.Idle, leads, hlabel, hfield] using hclause

theorem isAside_typeMark : Yields (opt (keyword "type")) (∀ s ∈ ·, IsAside s) :=
  .opt ((Yields.keyword _).weaken fun _ => isAside_token (by decide))

theorem isAside_semicolon : Yields semicolon (∀ s ∈ ·, IsAside s) :=
  .opt ((Yields.punct _).weaken fun _ => isAside_token (by decide))

theorem isAside_importAttribute : Yields (opt (importAttribute recur)) (∀ s ∈ ·, IsAside s) :=
  .opt ((Yields.inner rfl).weaken fun _ => isAside_inner)

theorem idle_fromClause : Yields fromClause (∀ s ∈ ·, s.Idle) := by
  refine (Yields.keyword _).bind fun f hf => inner_stringLiteral.bind fun s hs => .pure ?_
  have hclause : (s.part .source).label ≠ .named .exportClause := label_ne_of_inner hs rfl
  obtain ⟨k, -, hlabel, -⟩ := hs
  have hlabel : (s.part .source).label = .named k := hlabel
  have hfield : (s.part .source).field = some .source := rfl
  rw [hlabel] at hclause
  refine forall_mem_cons.2 ⟨(isAside_token (by decide) hf).1, forall_mem_singleton.2 ?_⟩
  simpa [Shape.Idle, leads, hlabel, hfield] using hclause

/-- A declaration or a value that is exported, behind parts that say nothing. -/
theorem exports_part (hs : s.Inner) {f : Field} (hf : f ≠ .typeParameters)
    {l m : List Shape} (hl : ∀ t ∈ l, IsAside t) (hm : ∀ t ∈ m, IsAside t) :
    Exports (outline (l ++ s.part f :: m)) := by
  refine .append_left hl (.cons (label_ne_of_inner hs rfl) (fun h => hf (Option.some.inj h)) ?_ ?_
    (fun t ht => (hm t ht).1) fun _ t ht => (hm t ht).2)
  · exact fun h => absurd h (label_ne_of_inner hs rfl)
  · exact fun _ k hk => isOuter_of_inner hs hk

theorem exports_defaultExport (hr : recur.Sound) :
    Yields (defaultExport recur []) fun l => Exports (outline l) := by
  refine (Yields.keyword _).bind fun kw hkw => ?_
  have hfront : ∀ t ∈ [kw], IsAside t :=
    forall_mem_singleton.2 (isAside_token (by decide) hkw)
  refine .or ?_ <| .or ?_ .fail
  · refine .after fun _ => .after fun _ => .after fun _ => .after fun inner => ?_
    have hdone (d : Shape) (hd : d.Inner) :
        Yields (pure ([] ++ [kw, d.part .declaration])) fun l => Exports (outline l) :=
      .pure (exports_part hd (by decide) hfront (forall_mem_nil _))
    exact .after fun _ => .after fun _ =>
      .ite ((inner_classDeclarationWith inner).bind hdone) ((inner_declaration .fail).bind hdone)
  · exact (hr (.assignment true true)).yields.bind fun v hv => isAside_semicolon.bind fun s hs =>
      .pure (exports_part hv (by decide) hfront hs)

/-- What is handed on from another module. -/
theorem exports_sourced {main : Reader Shape} (hmain : Yields main IsAside) : Yields (do
    let t ← opt (keyword "type")
    let x ← main
    let src ← fromClause
    let attrs ← opt (importAttribute recur)
    let s ← semicolon
    return t ++ [x] ++ src ++ attrs ++ s) fun l => Exports (outline l) := by
  refine isAside_typeMark.bind fun t ht => hmain.bind fun x hx => idle_fromClause.bind fun src hsrc =>
    isAside_importAttribute.bind fun attrs hattrs => isAside_semicolon.bind fun s hs =>
    .pure (.of_idle ?_)
  simp only [forall_mem_append, forall_mem_singleton]
  exact ⟨⟨⟨⟨fun y hy => (ht y hy).1, hx.1⟩, hsrc⟩, fun y hy => (hattrs y hy).1⟩,
    fun y hy => (hs y hy).1⟩

theorem exports_exportTail (hr : recur.Sound) :
    Yields (exportTail recur) fun l => Exports (outline l) := by
  refine .or (exports_sourced ?_) <| .or (exports_sourced ?_) <|
    .or ?_ <| .or ?_ <| .or ?_ <|
    .or (exports_defaultExport hr) <| .or ?_ <| .or ?_ .fail
  · exact (Yields.punct _).weaken fun _ => isAside_token (by decide)
  · exact (Yields.inner rfl).weaken fun _ => isAside_inner
  · refine isAside_typeMark.bind fun t ht => Yields.node.bind fun clause hclause =>
      (idle_fromClause.optAll (forall_mem_nil _)).bind fun src hsrc =>
      isAside_importAttribute.bind fun attrs hattrs => isAside_semicolon.bind fun s hs => .pure ?_
    simp only [append_assoc, singleton_append]
    refine .append_left ht (.cons ?_ ?_ (fun _ => hclause.2) ?_ ?_ ?_)
    · simp [hclause.1]
    · simp [hclause.2]
    · simp [hclause.2]
    · refine forall_mem_append.2 ⟨hsrc, forall_mem_append.2 ⟨?_, ?_⟩⟩
      · exact fun y hy => (hattrs y hy).1
      · exact fun y hy => (hs y hy).1
    · simp [hclause.2]
  · refine (Yields.punct _).bind fun eq heq => (hr (.expression true)).yields.bind fun v hv =>
      isAside_semicolon.bind fun s hs => .pure (.cons ?_ ?_ ?_ ?_ ?_ ?_)
    · simp [heq.1]
    · simp [heq.2]
    · simp [heq.1]
    · simp [heq.2]
    · exact forall_mem_cons.2 ⟨(isAside_inner hv).1, fun x hx => (hs x hx).1⟩
    · simp [heq.2]
  · refine (Yields.keyword _).bind fun a ha => (Yields.keyword _).bind fun n hn =>
      inner_identifier.bind fun name hname => isAside_semicolon.bind fun s hs => .pure (.of_idle ?_)
    simp only [forall_mem_append, forall_mem_cons]
    exact ⟨⟨(isAside_token (by decide) ha).1, (isAside_token (by decide) hn).1,
      (isAside_inner hname).1, forall_mem_nil _⟩, fun x hx => (hs x hx).1⟩
  · refine .after fun inner => ?_
    have hdone (d : Shape) (hd : d.Inner) :
        Yields (pure [d.part .declaration]) fun l => Exports (outline l) :=
      .pure (exports_part hd (by decide) (forall_mem_nil _) (forall_mem_nil _))
    exact .ite ((inner_declaration (.inner rfl)).bind hdone)
      ((inner_classDeclarationWith inner).bind hdone)
  · refine (Yields.keyword _).bind fun kw hkw => (Yields.inner rfl).bind fun clause hclause =>
      isAside_semicolon.bind fun s hs => .pure (.of_idle ?_)
    simp only [forall_mem_append, forall_mem_cons]
    exact ⟨⟨(isAside_token (by decide) hkw).1, (isAside_inner hclause).1, forall_mem_nil _⟩,
      fun x hx => (hs x hx).1⟩

theorem isAside_decorators (hr : recur.Sound) : Yields (decorators recur) (∀ s ∈ ·, IsAside s) := by
  refine Reads.yields <| .many <| ((reads_decorator hr).and Yields.node).bind fun s hs =>
    .done ⟨by simp, forall_mem_singleton.2 ?_⟩
  have hlabel : (s.part .decorator).label = .named .decorator := hs.2.1
  have hfield : (s.part .decorator).field = some .decorator := rfl
  simp [IsAside, Shape.Idle, leads, hlabel, hfield]

theorem exports_exportStatement (hr : recur.Sound) {decs : List Shape}
    (hdecs : ∀ s ∈ decs, IsAside s) : Yields (do
      let kw ← keyword "export"
      return decs ++ [kw] ++ (← exportTail recur)) fun l => Exports (outline l) := by
  refine (Yields.keyword _).bind fun kw hkw => (exports_exportTail hr).bind fun tail htail => .pure ?_
  refine .append_left (forall_mem_append.2 ⟨hdecs, forall_mem_singleton.2 ?_⟩) htail
  exact isAside_token (by decide) hkw

end Grammar

end ScriptAtlas.Syntax

