import ScriptAtlas.Proofs.ReadingTypes
import ScriptAtlas.Syntax.Grammar.Markup

/-!
# Expressions, classes and markup are sound

The rules for expressions, in the order of the grammar. Accesses keep the property that what they
begin with is no call, which calls do not.
-/

namespace ScriptAtlas.Syntax.Grammar

open List Reader

variable {recur : Recur}

/-! ## Functions -/

theorem reads_asyncMark : Reads [] asyncMark IsToken :=
  .bind (.keyword _) fun _ ha =>
  .skip .newlineAhead fun _ =>
  .guard fun _ =>
  .done ⟨by simp, ha⟩

theorem fits_ite {c : Prop} [Decidable c] {k k' : Kind} {l : List Shape}
    (hk : (Label.named k).Fits l) (hk' : (Label.named k').Fits l) :
    (Label.named (if c then k else k')).Fits l := by
  split
  · exact hk
  · exact hk'

variable (hr : recur.Sound)

include hr

theorem reads_functionExpression : Reads [] (functionExpression recur) Any := by
  refine .skip .nextStart fun start =>
    .bind (.opt reads_asyncMark) fun a ha =>
    .bind (.keyword _) fun f hf =>
    .bind (.opt (.punct rfl)) fun star hstar =>
    .bind (.opt reads_identifier) fun name hname =>
    .bind (reads_callSignature hr) fun sig hsig =>
    .step (hr _) fun body => ?_
  have hall : Role.function.Fits
      (a ++ [f] ++ star ++ name.map (·.part .name) ++ sig ++ [body.part .body]) := by
    refine ⟨?_, hsig.parametrized fun s hs => by simp [hs]⟩
    simp only [append_assoc, cons_append, nil_append]
    refine .append (fun s hs => (ha s hs).headFree) (.cons hf.headFree ?_)
    simp only [forall_mem_append, forall_mem_map, forall_mem_singleton]
    exact ⟨fun s hs => (hstar s hs).tame,
      fun s hs => (hname s hs).tame_part rfl, hsig.tame,
      Shape.tame_part (by decide)⟩
  exact .doneBranch (by simp) (by simp) (fits_ite hall hall) trivial

theorem reads_arrowBody (allowIn arrowTypes : Bool) :
    Reads [] (arrowBody recur allowIn arrowTypes) Any :=
  .skip .peekPunct fun _ =>
  .ite (fun _ => .or (hr _).any <| .or (hr _).any .fail) fun _ => (hr _).any

theorem reads_arrowFunction (allowIn arrowTypes : Bool) :
    Reads [] (arrowFunction recur allowIn arrowTypes) Any := by
  have hrest (front : List Shape) (hfront : Parametrized front) :
      Reads front (node .arrowFunction do
        guardThat (!(← newlineAhead))
        let arrow ← punct "=>"
        let body ← arrowBody recur allowIn arrowTypes
        return front ++ [arrow, body.part .body]) Any :=
    .node <|
    .skip .newlineAhead fun _ =>
    .guard fun _ =>
    .bind (.punct rfl) fun arrow harrow =>
    .step (reads_arrowBody hr allowIn arrowTypes) fun body =>
    .done ⟨by simp, by simp, hfront.append (forall_mem_cons.2 ⟨harrow.field_ne,
      forall_mem_singleton.2 nofun⟩), fun _ => trivial⟩
  have hbare : Reads [] (do return [(← identifier).part .parameter]) Parametrized := by
    refine .bind reads_identifier fun x hx => .done ⟨by simp, .inr ?_⟩
    obtain ⟨a, b, rfl⟩ := hx
    exact forall_mem_singleton.2 fun _ => rfl
  have hlisted : Reads [] (do
      let tps ← opt (typeParameters recur)
      let ps ← formalParameters recur
      let result ← if arrowTypes then opt (resultClause recur) else pure []
      return tps.map (·.part .typeParameters) ++ [ps.part .parameters]
        ++ result.map (·.part .returnType)) Parametrized :=
    .step (.opt (reads_typeParameters hr)) fun _ =>
    .step (reads_formalParameters hr) fun ps =>
    .either (P := Any) (Reads.opt (reads_resultClause hr)).any (.done (by simp)) fun _ _ =>
    .done ⟨by simp, .inl ⟨ps.part .parameters, by simp, rfl⟩⟩
  exact .or (hbare.bind hrest) <|
    .or (hlisted.bind hrest) <|
    .or (.bind reads_asyncMark fun a ha =>
      .bind (.or hbare (.or hlisted .fail)) fun ps hps =>
        hrest (a :: ps) (.cons ha.field_ne hps))
    .fail

omit hr in
theorem passes_arrowAhead : Passes arrowAhead := by
  refine .bind .peekWord fun w => ?_
  split
  · split
    · exact .pure _
    · exact passes_afterWord _
  · exact .bind .peekChar fun _ => .pure _

/-! ## Objects and arrays -/

theorem reads_pair : Reads [] (pair recur) Any :=
  .free rfl <|
  .step (reads_propertyName hr) fun _ =>
  .step (.punct rfl) fun _ =>
  .last (hr _) (by simp)

omit hr in
theorem reads_methodModifiers :
    Reads [] methodModifiers (∀ s ∈ ·, s.HeadFree ∧ s.field = none) := reads_modifiers

theorem reads_methodDefinition : Reads [] (methodDefinition recur) Any :=
  .method rfl <|
  .bind reads_methodModifiers fun _ hmods =>
  .bind (reads_propertyName hr) fun _ hname =>
  .bind (.opt (.punct rfl)) fun _ hmark =>
  .bind (reads_callSignature hr) fun _ hsig =>
  .step (hr _) fun _ =>
  .done ⟨by simp, hsig.methodical hmods hname hmark (forall_mem_singleton.2 rfl)⟩

theorem reads_objectMember : Reads [] (objectMember recur) Any :=
  .or (reads_spreadElement hr) <|
  .or (reads_pair hr) <|
  .or (reads_methodDefinition hr) <|
  .or (reads_nameAs (by decide)).any .fail

theorem reads_objectLiteral : Reads [] (objectLiteral recur) Any :=
  reads_brackets rfl rfl rfl (reads_objectMember hr)

theorem reads_arrayLiteral : Reads [] (arrayLiteral recur) Any :=
  reads_brackets rfl rfl rfl <|
  .or (reads_spreadElement hr) <| .or (hr _).any .fail

/-! ## Classes -/

theorem reads_extendsClause : Reads [] (extendsClause recur) Any :=
  .free rfl <|
  .step (.keyword _) fun _ =>
  .step (.commaSep1 (P := Any)
    (.step (hr _) fun _ =>
      .last (.opt (reads_typeArguments hr)) (by simp))
    fun _ _ => trivial) fun _ =>
  .done (by simp)

theorem reads_implementsClause : Reads [] (implementsClause recur) Any :=
  .free rfl <|
  .step (.keyword _) fun _ =>
  .step (.commaSep1 (P := Any) (.last (hr _) (by simp))
    fun _ _ => trivial) fun _ =>
  .done (by simp)

theorem reads_classHeritage : Reads [] (classHeritage recur) (·.field = none) := by
  refine .node <|
    .step (.opt (reads_extendsClause hr)) fun ext =>
    .step (.opt (reads_implementsClause hr)) fun impl =>
    .guard fun hne =>
    .done ⟨by simp, ?_, fits_of_free rfl _, fun _ => rfl⟩
  simpa using hne

omit hr in
theorem reads_fieldModifiers : Reads [] fieldModifiers (∀ s ∈ ·, s.HeadFree) := by
  have hword (w : String) : Reads [] (modifier w) Shape.HeadFree :=
    (reads_modifier w).weaken fun _ => IsToken.headFree
  exact .many <| .single <|
    .or (reads_beforeName reads_accessibilityModifier) <|
    .or (hword _) <|
    .or (reads_beforeName
      (.weaken (.wordAs _ rfl) fun _ h => h.headFree rfl)) <|
    .or (hword _) <| .or (hword _) <| .or (hword _) <|
    .or (hword _) .fail

theorem reads_fieldDefinition : Reads [] (fieldDefinition recur) Any := by
  refine .node <|
    .bind (reads_decorators hr) fun decs hdecs =>
    .bind reads_fieldModifiers fun mods hmods =>
    .bind (reads_propertyName hr) fun name hname =>
    .bind (.opt (.punctOf (by decide))) fun mark hmark =>
    .step (.opt (reads_annotatedType hr)) fun t =>
    .bind (.optAll (reads_initialValue hr true) nofun) fun v hv =>
    .skip .peekPunct fun _ =>
    .guard fun _ =>
    .done ⟨by simp, by simp, ⟨?_, name.part .name, by simp, rfl⟩, fun _ => trivial⟩
  simp only [append_assoc, cons_append, nil_append]
  refine .append hdecs (.append hmods (.cons (Shape.headFree_part.2 hname) ?_))
  simp only [forall_mem_append]
  exact ⟨fun s hs => (hmark s hs).tame, Shape.tame_map_part (by decide) t, hv⟩

theorem reads_abstractMethodSignature : Reads [] (abstractMethodSignature recur) Any := by
  refine .method rfl <|
    .bind (.opt (reads_beforeName (reads_accessibilityModifier.and Yields.node))) fun access haccess =>
    .bind (reads_modifier _) fun a ha =>
    .bind reads_methodModifiers fun mods hmods =>
    .bind (reads_propertyName hr) fun name hname =>
    .bind (.opt (.punct rfl)) fun mark hmark =>
    .bind (reads_callSignature hr) fun sig hsig => .done ⟨by simp, ?_⟩
  have hall : ∀ s ∈ access ++ [a] ++ mods, s.HeadFree ∧ s.field = none := by
    simp only [forall_mem_append, forall_mem_singleton]
    exact ⟨⟨fun s hs => ⟨(haccess s hs).1, (haccess s hs).2.2⟩, ha.headFree, ha.field_eq_none⟩, hmods⟩
  have hmethod := hsig.methodical hall hname hmark (forall_mem_nil _)
  rwa [append_nil] at hmethod

theorem reads_methodSignature : Reads [] (methodSignature recur) Any := by
  refine .method rfl <|
    .bind reads_methodModifiers fun mods hmods =>
    .bind (reads_propertyName hr) fun name hname =>
    .bind (.opt (.punct rfl)) fun mark hmark =>
    .bind (reads_callSignature hr) fun sig hsig => .done ⟨by simp, ?_⟩
  have hmethod := hsig.methodical hmods hname hmark (forall_mem_nil _)
  rwa [append_nil] at hmethod

theorem reads_classStaticBlock : Reads [] (classStaticBlock recur) Any :=
  .free rfl <|
  .step (.keyword _) fun _ =>
  .last (hr _) (by simp)

theorem reads_classMember : Reads [] (classMember recur) (∀ s ∈ ·, Any s) :=
  .or (.single (.or (.any (.punct rfl)) <|
    .or (.any (.punct rfl)) .fail)) <|
  .or (.single (reads_classStaticBlock hr)) <|
  .or (.step (.many (.single (reads_decorator hr))) fun _ =>
    .step (.or (reads_methodDefinition hr) <|
      .or (reads_abstractMethodSignature hr) <|
      .or (reads_methodSignature hr) .fail) fun _ =>
    .done (by simp)) <|
  .or (.single (reads_indexSignature hr)) <|
  .or (.single (reads_fieldDefinition hr)) .fail

theorem reads_classBody : Reads [] (classBody recur) Any :=
  .free rfl <|
  .step (.punct rfl) fun _ =>
  .step (.many (reads_classMember hr)) fun _ =>
  .last (.punct rfl) (by simp)

theorem reads_classTail (nameRequired : Bool) :
    Reads [] (classTail recur nameRequired) fun l => l ≠ [] ∧ Declares l ∧ Houses (outline l) := by
  refine .bind (.keyword _) fun kw hkw =>
    .skip .peekWord fun w =>
    .either (P := fun l => ∀ s ∈ l, IsLeaf .typeIdentifier s) (.done ⟨by simp, nofun⟩)
      (.opt (reads_nameAs (by decide))) fun name hname =>
    .guard fun _ =>
    .bind (.opt ((reads_typeParameters hr).to Yields.node)) fun tps htps =>
    .bind (.opt ((reads_classHeritage hr).to Yields.node)) fun heritage hheritage =>
    .bind ((reads_classBody hr).to Yields.node) fun body hbody =>
    .done ⟨by simp, by simp, ?_, ?_⟩
  · simp only [append_assoc, cons_append, nil_append]
    refine .cons hkw.headFree ?_
    simp only [forall_mem_append, forall_mem_map, forall_mem_singleton]
    refine ⟨fun s hs => (hname s hs).tame_part rfl,
      fun _ _ => Shape.tame_part (by decide),
      fun s hs => Shape.tame_of_field_none (hheritage s hs).2, Shape.tame_part (by decide)⟩
  · have hbody : (body.part .body).label = .named .classBody := hbody.1
    rw [append_assoc, append_assoc, append_assoc, singleton_append,
      ← append_assoc, ← append_assoc]
    refine .intro hkw.begins ?_ (by rw [hbody]; rfl) rfl
    simp only [forall_mem_append, forall_mem_map]
    refine ⟨⟨fun s hs => ?_, fun s hs => ?_⟩, fun s hs => ?_⟩
    · obtain ⟨a, b, rfl⟩ := hname s hs
      exact ⟨rfl, fun _ => .inl rfl⟩
    · exact Shape.fore_part rfl (by decide) (by decide) (htps s hs).1
    · exact Shape.fore_of_label rfl (hheritage s hs)

theorem reads_classExpression : Reads [] (classExpression recur) Any :=
  .housing rfl <|
  .bind ((reads_decorators hr).and (begins_decorators hr)) fun _ hdecs =>
  .bind (reads_classTail hr false) fun _ htail =>
  .done ⟨by simp, by simp [htail.1], .append hdecs.1 htail.2.1, .append hdecs.2 htail.2.2⟩

/-! ## Operands -/

omit hr

theorem reads_metaProperty (first second : String) : Reads [] (metaProperty first second) Any :=
  .free rfl <|
  .step (.keyword _) fun _ =>
  .step (.punct rfl) fun _ =>
  .last (.keyword _) (by simp)

theorem passes_instantiationEnds : Passes instantiationEnds := by
  refine .bind .newlineAhead fun _ => ?_
  split
  · exact .pure _
  · refine .bind .atEnd fun _ => ?_
    split
    · exact .pure _
    · exact .bind .peekPunct fun _ => .pure _

theorem reads_behind {left : Shape} {k : Kind} {p : Reader (List Shape)} (hk : k.role = .free)
    (hcall : (Label.named k).isCall = false)
    (hp : Reads [left] p fun l => ∃ f rest, l = left.part f :: rest ∨ l = left :: rest) :
    Reads [left] (node k p) fun s => left.HeadFree → s.HeadFree := by
  refine .node <| hp.weaken fun l hl => ?_
  obtain ⟨f, rest, rfl | rfl⟩ := hl
  · refine ⟨nofun, fits_of_free hk _, fun d hleft => .mk hcall fun c hc => ?_⟩
    cases Option.mem_some.1 hc
    exact Shape.headFree_part.2 hleft
  · refine ⟨nofun, fits_of_free hk _, fun d hleft => .mk hcall fun c hc => ?_⟩
    cases Option.mem_some.1 hc
    exact hleft

include hr

theorem reads_accessStep (left : Shape) :
    Reads [left] (accessStep recur left) fun s => left.HeadFree → s.HeadFree := by
  refine .skip .peekPunct fun t => ?_
  split
  · exact reads_memberAccess (.weaken (.punct rfl) fun _ => IsToken.field_ne)
      reads_memberName
  · refine .or (reads_memberAccess reads_optionalChain reads_memberName) <|
      .or (reads_behind rfl rfl ?_) .fail
    exact .step reads_optionalChain fun _ =>
      .step (.punct rfl) fun _ =>
      .step (hr _) fun _ =>
      .step (.punct rfl) fun _ =>
      .done ⟨by simp, _, _, .inl rfl⟩
  · refine reads_behind rfl rfl ?_
    exact .step (.punct rfl) fun _ =>
      .step (hr _) fun _ =>
      .step (.punct rfl) fun _ =>
      .done ⟨by simp, _, _, .inl rfl⟩
  · refine .skip .newlineAhead fun _ => .guard fun _ => reads_behind rfl rfl ?_
    exact .step (.punct rfl) fun _ => .done ⟨by simp, .object, _, .inr rfl⟩
  · exact .fail

theorem reads_callStep (left : Shape) : Reads [left] (callStep recur left) Any := by
  refine .skip .peekPunct fun t => ?_
  split
  · exact .free rfl <| .last (reads_arguments hr) (by simp)
  · exact .free rfl <| .last (reads_templateString hr) (by simp)
  · exact .free rfl <|
      .step (.punct rfl) fun _ =>
      .step (.opt (reads_typeArguments hr)) fun _ =>
      .last (reads_arguments hr) (by simp)
  · exact .or (.free rfl <|
        .step (reads_typeArguments hr) fun _ =>
        .step (.or (reads_arguments hr) <|
          .or (reads_templateString hr) .fail) fun _ =>
        .done (by simp)) <|
      .or (.free rfl <|
        .step (reads_typeArguments hr) fun _ =>
        .skip passes_instantiationEnds fun _ =>
        .guard fun _ =>
        .done (by simp)) .fail
  · exact .fail

theorem reads_newExpression : Reads [] (newExpression recur) Any := by
  refine .free rfl <| .step (.keyword _) fun n => .step (hr _) fun first => ?_
  refine .takeOver (P := Any) _ (.grow (fun left _ => (reads_accessStep hr left).any) trivial)
    fun target _ => ?_
  refine .step (P := Any) (.or ?_ <| .or ?_ .fail) fun tail =>
    .done (by simp)
  · exact .step (reads_typeArguments hr) fun _ =>
      .last (.opt (reads_arguments hr)) (by simp)
  · exact .last (.opt (reads_arguments hr)) (by simp)

theorem reads_wordOperand (w : String) : Reads [] (wordOperand recur w) Any := by
  unfold wordOperand
  split
  · exact reads_functionExpression hr
  · exact .or (.skip (passes_afterWord _) fun _ => .guard fun _ =>
      reads_functionExpression hr) <| .or reads_identifier.any .fail
  · exact reads_classExpression hr
  · exact .or (reads_metaProperty _ _) <|
      .or (reads_newExpression hr) .fail
  iterate 6 exact .any (.wordAs _ rfl)
  · exact .or (reads_metaProperty _ _) <|
      .or (.any (.wordAs _ rfl)) .fail
  · exact reads_identifier.any

theorem reads_operand : Reads [] (operand recur) Any := by
  refine .skip .peekWord fun w => .ite (fun _ => reads_wordOperand hr w) fun _ => ?_
  refine .skip .peekChar fun c => ?_
  split
  · exact reads_parenthesized hr
  · exact reads_arrayLiteral hr
  · exact reads_objectLiteral hr
  · exact reads_templateString hr
  · exact reads_regex
  · exact reads_classExpression hr
  · exact Reads.privateName.any
  · exact .skip .read fun _ => .guard fun _ => (hr _).any
  · exact .or reads_stringLiteral.any <| .or Reads.number.any .fail

theorem reads_leftHand : Reads [] (leftHand recur) Any :=
  .step (reads_operand hr) fun _ =>
  .grow (fun left _ => .or (reads_accessStep hr left).any <|
    .or (reads_callStep hr left) .fail) trivial

theorem reads_assignmentTarget : Reads [] (assignmentTarget recur) Shape.HeadFree := by
  refine .bind (P := Shape.HeadFree) ?_ fun first hfirst =>
    .grow (fun left hleft => (reads_accessStep hr left).weaken fun _ h => h hleft) hfirst
  exact .or (.weaken (.wordAs _ rfl) fun _ h => h.headFree rfl) <|
    .or (.weaken (.wordAs _ rfl) fun _ h => h.headFree rfl) <|
    .or (reads_identifier.weaken fun _ h => h.headFree rfl) .fail

/-! ## Operators -/

theorem reads_assertionStep (left : Shape) : Reads [left] (assertionStep recur left) Any := by
  refine .skip .newlineAhead fun _ => .guard fun _ => .skip .peekWord fun w => ?_
  split
  · exact .free rfl <|
      .step (.keyword _) fun _ =>
      .step (P := Any) (.or (Reads.keyword _).any <| .or (hr _) .fail)
        fun _ =>
      .done (by simp)
  · exact .free rfl <|
      .step (.keyword _) fun _ => .last (hr _) (by simp)
  · exact .fail

theorem reads_awaitExpression : Reads [] (awaitExpression recur) Any :=
  .free rfl <|
  .step (.keyword _) fun _ =>
  .step (hr _) fun _ =>
  .takeOver (P := Any) _ (.grow (fun left _ => reads_assertionStep hr left) trivial) fun _ _ =>
  .done (by simp)

theorem reads_typeAssertion : Reads [] (typeAssertion recur) Any :=
  .free rfl <|
  .skip .read fun _ =>
  .guard fun _ =>
  .step (reads_typeArguments hr) fun _ =>
  .last (hr _) (by simp)

theorem reads_unaryExpression {op : Reader Shape} (hop : Reads [] op IsToken) :
    Reads [] (unaryExpression recur op) Any :=
  .free rfl <|
  hop.step fun _ =>
  .last (hr _) (by simp)

theorem reads_unary : Reads [] (unary recur) Any := by
  refine .skip .peekWord fun w => ?_
  refine .ite (fun _ => reads_unaryExpression hr (.keyword w)) fun _ => ?_
  refine .ite (fun _ => .or (reads_awaitExpression hr) <|
    .or (reads_leftHand hr) .fail) fun _ => ?_
  refine .skip .peekPunct fun t => ?_
  refine .ite (fun ht => reads_unaryExpression hr
    (.punct (Reads.isEmpty_of_contains (by decide) ht))) fun _ => ?_
  refine .ite (fun ht => ?_) fun _ => .skip .read fun i => .ite (fun _ => reads_typeAssertion hr) fun _ => ?_
  · have hne : t.isEmpty = false := String.isEmpty_eq_false_iff.2 <| by
      rintro rfl
      exact absurd ht (by decide)
    exact .free rfl <| .step (.punct hne) fun _ => .last (hr _) (by simp)
  · refine .step (reads_leftHand hr) fun v => .or (.free rfl ?_) <|
      .or (.done (by simp)) .fail
    exact .skip .newlineAhead fun _ =>
      .guard fun _ =>
      .last (.punctOf (by decide)) (by simp)

theorem reads_binaryStep (allowIn : Bool) (level : Nat) (left : Shape) :
    Reads [left] (binaryStep recur allowIn level left) Any := by
  refine .skip .peekWord fun w =>
    .ite (fun _ => .skip (.pure w) fun op => ?_) fun _ => .skip .peekPunct fun op => ?_
  -- whichever token was seen, an operator with a level is not empty
  all_goals
    dsimp only
    split
    · exact .ite (fun _ => reads_assertionStep hr left) fun _ => .fail
    · next l hlevel =>
      have hop : op.isEmpty = false := String.isEmpty_eq_false_iff.2 <| by
        rintro rfl
        cases hlevel
      refine .guard fun _ => .free rfl <| .either (.keyword w) (.punct hop) fun _ _ => ?_
      exact .last (hr _) (by simp)

theorem reads_binary (allowIn : Bool) (level : Nat) : Reads [] (binary recur allowIn level) Any :=
  .step (hr _) fun _ =>
  .grow (fun left _ => reads_binaryStep hr allowIn level left) trivial

theorem reads_conditional (allowIn arrowTypes : Bool) :
    Reads [] (conditional recur allowIn arrowTypes) Any := by
  refine .step (hr _) fun test => .or (.free rfl <|
      .step (.punct rfl) fun q =>
      .step (P := Any) (.or ?_ <| .or ?_ .fail) fun rest =>
      .done (by simp)) <|
    .or (.done (by simp)) .fail
  all_goals
    exact .step (hr _) fun _ =>
      .step (.punct rfl) fun _ =>
      .last (hr _) (by simp)

/-! ## Assignments -/

theorem reads_yieldExpression (allowIn : Bool) : Reads [] (yieldExpression recur allowIn) Any :=
  .free rfl <|
  .step (.keyword _) fun _ =>
  .skip .newlineAhead fun _ =>
  .ite (fun _ => .done (by simp)) fun _ =>
  .step (.opt (.punct rfl)) fun _ =>
  .last (.opt (hr _)) (by simp)

theorem reads_patternAssignment (allowIn : Bool) : Reads [] (patternAssignment recur allowIn) Any :=
  .free rfl <|
  .step (reads_pattern hr) fun _ =>
  .step (.punct rfl) fun _ =>
  .last (hr _) (by simp)

theorem reads_plainAssignment (allowIn arrowTypes : Bool) :
    Reads [] (plainAssignment recur allowIn arrowTypes) Any := by
  refine .step (reads_conditional hr allowIn arrowTypes) fun left => .skip .peekPunct fun op => ?_
  split
  · exact .guard fun _ => .free rfl <|
      .step (.punct rfl) fun _ => .last (hr _) (by simp)
  · refine .ite (fun hop => .free rfl ?_) fun _ => .done (by simp)
    exact .step (.punct (Reads.isEmpty_of_contains (by decide) hop)) fun _ =>
      .last (hr _) (by simp)

theorem reads_assignment (allowIn arrowTypes : Bool) :
    Reads [] (assignment recur allowIn arrowTypes) Any := by
  have hplain := reads_plainAssignment hr allowIn arrowTypes
  refine .skip .peekWord fun w => .ite (fun _ => reads_yieldExpression hr allowIn) fun _ => ?_
  refine .skip passes_arrowAhead fun _ => .ite (fun _ => ?_) fun _ => ?_
  · exact .or (reads_arrowFunction hr allowIn arrowTypes) <|
      .or hplain .fail
  · refine .skip .peekPunct fun t => .ite (fun _ => ?_) fun _ => hplain
    exact .or hplain <| .or (reads_patternAssignment hr allowIn) .fail

theorem reads_expression (allowIn : Bool) : Reads [] (expression recur allowIn) Any := by
  refine .step (hr _) fun first => .skip .peekPunct fun t => .ite (fun _ => ?_) fun _ =>
    .done (by simp)
  refine .or (.free rfl <| .step (.many (P := Any) ?_) fun rest => .guard fun _ =>
      .done (by simp)) <|
    .or (.done (by simp)) .fail
  exact .step (.punct rfl) fun _ => .last (hr _) (by simp)

/-! ## Markup -/

omit hr

theorem lt_markupNameEnd {cs : Array Char} {pos : Nat} {c : Char} (hc : cs[pos]? = some c)
    (hstart : isNameStart c = true) : pos < markupNameEnd cs pos := by
  unfold isNameStart at hstart
  rw [Bool.and_eq_true] at hstart
  exact lt_findFrom hc (by simp [hstart.1])

theorem reads_markupName {k : Kind} (hk : (Label.named k).standsAlone = true) :
    Reads [] (markupName k) (IsLeaf k) := by
  intro input a pos s next hrow h
  obtain ⟨b, hle, h⟩ := bind_nextStart_eq_some (bind_read_eq_some h)
  obtain ⟨hc, h⟩ := bind_guardThat_eq_some h
  cases h
  obtain ⟨c, hc, hstart⟩ := (Option.any_eq_true _ _).1 hc
  have hlt := lt_markupNameEnd hc hstart
  exact ⟨.leaf hk (Nat.le_trans hrow.aligned.le hle) hlt (lt_size_of_getElem?_eq_some hc)
    (Nat.le_refl _), b, _, rfl⟩

theorem reads_elementName : Reads [] elementName Any :=
  .step (reads_markupName (by decide)) fun _ =>
  .skip .peekPunct fun _ =>
  .ite (fun _ => .free rfl <|
    .step (.punct rfl) fun _ =>
    .last (reads_markupName (by decide)) (by simp)) fun _ =>
  .grow (fun left _ => (reads_dotAccess left).any) trivial

include hr

theorem reads_markupExpression : Reads [] (markupExpression recur) Any :=
  .free rfl <|
  .step (.punct rfl) fun _ =>
  .step (.opt (.or (reads_spreadElement hr) <| .or (hr _).any .fail)) fun _ =>
  .last (.punct rfl) (by simp)

omit hr in
theorem reads_attributeString {quote : String} (hq : quote.isEmpty = false) :
    Reads [] (attributeString quote) Shape.CallFree := by
  refine .text rfl rfl ?_
  intro input a pos l next hrow h
  obtain ⟨o, q, ho, h⟩ := bind_eq_some (bind_read_eq_some h)
  obtain ⟨hopen, htoken⟩ := Reads.symbol hq hrow ho
  obtain ⟨b, -, -, -, rfl⟩ := symbol_eq_some ho
  obtain ⟨u, e, hset, h⟩ := bind_eq_some h
  cases hset
  obtain ⟨c, r, hc, h⟩ := bind_eq_some h
  cases h
  obtain ⟨hclose, hctoken⟩ := reads_exactly hq (.nil (Nat.le_refl _)) hc
  refine ⟨(hopen.append (.findFrom (by decide) _ _ _)).append hclose, nofun, ?_,
    by simpa using htoken.bare⟩
  simp only [cons_append, forall_mem_cons, forall_mem_append]
  refine ⟨htoken.callFree, fun s hs => ?_, hctoken.callFree, nofun⟩
  split at hs
  · rw [mem_singleton.1 hs]
    exact .mk rfl nofun
  · cases hs

theorem reads_markupAttribute : Reads [] (markupAttribute recur) Any := by
  refine .or (reads_markupExpression hr) <| .or (.free rfl ?_) .fail
  refine .bind (reads_markupName (by decide)) fun name hname => ?_
  refine .step (.optAll (P := Any) (.step (.punct rfl) fun _ =>
    .last (reads_markupName (by decide)) (by simp)) trivial) fun spaced => ?_
  refine .step (.optAll (P := Any) (.step (.punct rfl) fun _ => .step (P := Any) ?_ fun _ =>
    .done (by simp)) trivial) fun value => ?_
  · exact .or (reads_attributeString rfl).any <|
      .or (reads_attributeString rfl).any <|
      .or (reads_markupExpression hr) <| .or (hr _).any .fail
  intro input a pos l next hrow h
  cases h
  obtain ⟨c, hfull, hvalue⟩ := hrow.of_append
  refine ⟨Row.append (l := [_]) ?_ hvalue, nofun⟩
  split
  · next hempty =>
    cases List.isEmpty_iff.1 hempty
    exact hfull
  · obtain ⟨d, hfirst, hspaced⟩ := Row.of_append (l := [name]) hfull
    have hlabelled := row_relabel hname (show (Label.named .identifier).standsAlone = true by decide) [] hfirst
    exact (hlabelled.append hspaced).branch nofun (fits_of_free rfl _) _

theorem reads_tagParts : Reads [] (tagParts recur) Any :=
  .step reads_elementName fun _ =>
  .step (.opt (reads_typeArguments hr)) fun _ =>
  .last (.many (P := Any) (.last (reads_markupAttribute hr) (by simp))) (by simp)

theorem reads_selfClosing : Reads [] (selfClosing recur) Any :=
  .free rfl <|
  .step (.symbol rfl) fun _ =>
  .step (reads_tagParts hr) fun _ =>
  .last (.symbol rfl) (by simp)

theorem reads_openingTag : Reads [] (openingTag recur) Any :=
  .free rfl <|
  .step (.symbol rfl) fun _ =>
  .step (.optAll (reads_tagParts hr) trivial) fun _ =>
  .last (.symbol rfl) (by simp)

omit hr

theorem reads_closingTag : Reads [] closingTag Any :=
  .free rfl <|
  .step (.symbol rfl) fun _ =>
  .step (.opt reads_elementName) fun _ =>
  .last (.symbol rfl) (by simp)

theorem reads_markupText : Reads [] markupText (∀ s ∈ ·, Any s) := by
  intro input a pos l next hrow h
  obtain ⟨hlt, h⟩ := bind_guardThat_eq_some (bind_get_eq_some (bind_read_eq_some h))
  have hlt := of_decide_eq_true hlt
  obtain ⟨u, e, hset, h⟩ := bind_eq_some h
  cases hset
  refine ⟨?_, fun _ _ => trivial⟩
  dsimp only at h
  split at h
  · cases h
    exact .nil (Nat.le_trans hrow.aligned.le (Nat.le_of_lt hlt))
  · cases h
    exact .leaf rfl hrow.aligned.le hlt (lt_size_of_lt_findFrom hlt) (Nat.le_refl _)

include hr

theorem reads_markupChild : Reads [] (markupChild recur) (∀ s ∈ ·, Any s) :=
  .or reads_markupText <|
  .or (.skip .peekPunct fun _ => .guard fun _ => .single (reads_markupExpression hr)) <|
  .or (.skip .read fun _ => .skip .nextStart fun _ => .guard fun _ => .single (hr _).any)
    .fail

theorem reads_element : Reads [] (element recur) Any :=
  .or (reads_selfClosing hr) <|
  .or (.free rfl <|
    .step (reads_openingTag hr) fun _ =>
    .step (.many (reads_markupChild hr)) fun _ =>
    .last reads_closingTag (by simp)) .fail

end ScriptAtlas.Syntax.Grammar
