import ScriptAtlas.Proofs.ReadingLabels
import ScriptAtlas.Syntax.Grammar

/-!
# Every parsed source is sound

The rules for statements and declarations, and the recursion closed over the goals:

* `Grammar.sound_goal`: a goal reads sound shapes, however deep it may nest;
* `Grammar.row_parse`: the statements of a source stand in a row of sound shapes.
-/

namespace ScriptAtlas.Syntax.Grammar

open List Reader

variable {recur : Recur}

/-! ## Control flow -/

variable (hr : recur.Sound)

include hr

theorem reads_statements : Reads [] (many (do return [← recur .statement])) (∀ s ∈ ·, Any s) :=
  .many (.single (hr .statement))

theorem reads_bodyStatements :
    Reads [] (many (do return [(← recur .statement).part .body])) (∀ s ∈ ·, Any s) :=
  .many <| .last (hr _) (by simp)

theorem reads_blockStatement : Reads [] (blockStatement recur) Any :=
  .free rfl <|
  .step (.punct rfl) fun _ =>
  .step (reads_statements hr) fun _ =>
  .last (.punct rfl) (by simp)

theorem reads_ifStatement : Reads [] (ifStatement recur) Any :=
  .free rfl <|
  .step (.keyword _) fun _ =>
  .step (reads_parenthesized hr) fun _ =>
  .step (hr _) fun _ =>
  .step (.opt (.free rfl <|
    .step (.keyword _) fun _ => .last (hr _) (by simp))) fun _ =>
  .done (by simp)

theorem reads_switchCase : Reads [] (switchCase recur) Any :=
  .or (.free rfl <|
    .step (.keyword _) fun _ =>
    .step (hr _) fun _ =>
    .step (.punct rfl) fun _ =>
    .last (reads_bodyStatements hr) (by simp)) <|
  .or (.free rfl <|
    .step (.keyword _) fun _ =>
    .step (.punct rfl) fun _ =>
    .last (reads_bodyStatements hr) (by simp)) .fail

theorem reads_switchStatement : Reads [] (switchStatement recur) Any :=
  .free rfl <|
  .step (.keyword _) fun _ =>
  .step (reads_parenthesized hr) fun _ =>
  .step (.free rfl <|
    .step (.punct rfl) fun _ =>
    .step (.many (.single (reads_switchCase hr))) fun _ =>
    .last (.punct rfl) (by simp)) fun _ =>
  .done (by simp)

omit hr in
theorem reads_emptyStatement : Reads [] emptyStatement Any :=
  .free rfl <| .last (.punct rfl) (by simp)

theorem reads_variableDeclarator (allowIn : Bool) :
    Reads [] (variableDeclarator recur allowIn) Any := by
  refine .declaring rfl <|
    .bind (hr .pattern) fun name hname =>
    .bind (.opt (.skip .newlineAhead fun _ => .guard fun _ => (.punct rfl))) fun sure hsure =>
    .step (.opt (reads_annotatedType hr)) fun t =>
    .bind (.optAll (reads_initialValue hr allowIn) nofun) fun v hv =>
    .done ⟨by simp, by simp, ?_⟩
  simp only [append_assoc, cons_append, nil_append]
  refine .cons (Shape.headFree_part.2 hname) ?_
  simp only [forall_mem_append]
  exact ⟨fun s hs => (hsure s hs).tame, Shape.tame_map_part (by decide) t, hv⟩

theorem reads_variableList (allowIn : Bool) :
    Reads [] (variableList recur allowIn) fun r => r.2 ≠ [] ∧ r.1.role = .free := by
  refine .skip .peekWord fun w => .guard fun _ => .step (.keyword w) fun kw => ?_
  refine .step (.commaSep1 (P := Any) (.step (reads_variableDeclarator hr allowIn) fun _ =>
    .done (by simp)) fun _ _ => trivial) fun ds => ?_
  exact .ite (fun _ => .done ⟨by simp, by simp, rfl⟩) fun _ => .done ⟨by simp, by simp, rfl⟩

theorem reads_variableStatement : Reads [] (variableStatement recur) Any :=
  .skip .nextStart fun _ =>
  .bind (reads_variableList hr true) fun _ hl =>
  .step .semicolon fun _ =>
  .doneBranch (by simp) (by simp [hl.1]) (fits_of_free hl.2 _) trivial

theorem reads_forInHead : Reads [] (forInHead recur) Any :=
  .step (.punct rfl) fun _ =>
  .step (P := Any)
    (.or (.step (.keywordOf _) fun _ =>
      .step (hr _) fun _ =>
      .last (.optAll (reads_initialValue hr false) nofun) (by simp)) <|
    .or (.last (hr _) (by simp)) <|
    .or (.last (hr _) (by simp)) .fail) fun _ =>
  .step (.keywordOf _) fun _ =>
  .step (hr _) fun _ =>
  .last (.punct rfl) (by simp)

theorem reads_forInStatement : Reads [] (forInStatement recur) Any :=
  .free rfl <|
  .step (.keyword _) fun _ =>
  .step (.opt (.keyword _)) fun _ =>
  .step (reads_forInHead hr) fun _ =>
  .last (hr _) (by simp)

theorem reads_loopVariables : Reads [] (do
    let at_ ← nextStart
    let (k, parts) ← variableList recur false
    return [(Shape.branch k at_ (parts ++ [← punct ";"])).part .initializer]) Any := by
  refine .skip .nextStart fun at_ => .bind (reads_variableList hr false) fun l hl => ?_
  refine .step (.punct rfl) fun c => ?_
  intro input a pos x next hrow h
  cases h
  have hbranch := hrow.branch (k := l.1) (by simp) (fits_of_free hl.2 _) at_
  exact ⟨hbranch.congr (by simp), trivial⟩

theorem reads_forStatement : Reads [] (forStatement recur) Any :=
  .free rfl <|
  .step (.keyword _) fun _ =>
  .step (.punct rfl) fun _ =>
  .step (P := Any)
    (.or (.last reads_emptyStatement (by simp)) <|
    .or (reads_loopVariables hr) <|
    .or (.step (hr _) fun _ =>
      .last (.punct rfl) (by simp)) .fail) fun _ =>
  .step (P := Any)
    (.or (.last reads_emptyStatement (by simp)) <|
    .or (.step (hr _) fun _ =>
      .last (.punct rfl) (by simp)) .fail) fun _ =>
  .step (.opt (hr _)) fun _ =>
  .step (.punct rfl) fun _ =>
  .last (hr _) (by simp)

theorem reads_whileStatement : Reads [] (whileStatement recur) Any :=
  .free rfl <|
  .step (.keyword _) fun _ =>
  .step (reads_parenthesized hr) fun _ =>
  .last (hr _) (by simp)

theorem reads_doStatement : Reads [] (doStatement recur) Any :=
  .free rfl <|
  .step (.keyword _) fun _ =>
  .step (hr _) fun _ =>
  .step (.keyword _) fun _ =>
  .step (reads_parenthesized hr) fun _ =>
  .last .semicolon (by simp)

theorem reads_tryStatement : Reads [] (tryStatement recur) Any :=
  .free rfl <|
  .step (.keyword _) fun _ =>
  .step (hr _) fun _ =>
  .step (.opt (.free rfl <|
    .step (.keyword _) fun _ =>
    .step (.optAll (P := Any) (.step (.punct rfl) fun _ =>
      .step (hr _) fun _ =>
      .step (.opt (reads_annotatedType hr)) fun _ =>
      .last (.punct rfl) (by simp)) trivial) fun _ =>
    .last (hr _) (by simp))) fun _ =>
  .step (.opt (.free rfl <|
    .step (.keyword _) fun _ => .last (hr _) (by simp))) fun _ =>
  .done (by simp)

theorem reads_withStatement : Reads [] (withStatement recur) Any :=
  .free rfl <|
  .step (.keyword _) fun _ =>
  .step (reads_parenthesized hr) fun _ =>
  .last (hr _) (by simp)

omit hr in
theorem reads_jumpStatement {k : Kind} (hk : k.role = .free) (w : String) :
    Reads [] (jumpStatement k w) Any :=
  .free hk <|
  .step (.keyword _) fun _ =>
  .skip .newlineAhead fun _ =>
  .either (P := Any) (.done (by simp)) (Reads.opt (reads_nameAs (by decide))).any fun _ _ =>
  .last .semicolon (by simp)

theorem reads_valueStatement {k : Kind} (hk : k.role = .free) (w : String) :
    Reads [] (valueStatement recur k w) Any :=
  .free hk <|
  .step (.keyword _) fun _ =>
  .skip .newlineAhead fun _ =>
  .either (P := Any) (.done (by simp)) (Reads.opt (hr _)).any fun _ _ =>
  .last .semicolon (by simp)

theorem reads_labeledStatement : Reads [] (labeledStatement recur) Any :=
  .free rfl <|
  .step (reads_nameAs (by decide)) fun _ =>
  .step (.punct rfl) fun _ =>
  .last (hr _) (by simp)

theorem reads_expressionStatement : Reads [] (expressionStatement recur) Any :=
  .free rfl <|
  .step (hr _) fun _ =>
  .last .semicolon (by simp)

/-! ## Declarations -/

theorem reads_functionDeclaration : Reads [] (functionDeclaration recur) Any := by
  refine .skip .nextStart fun start =>
    .bind (.opt reads_asyncMark) fun a ha =>
    .bind (.keyword _) fun f hf =>
    .bind (.opt (.punct rfl)) fun star hstar =>
    .bind reads_identifier fun name hname =>
    .bind (reads_callSignature hr) fun sig hsig => ?_
  have hall (tail : List Shape) (htail : ∀ s ∈ tail, s.Tame) :
      Role.function.Fits (a ++ [f] ++ star ++ [name.part .name] ++ sig ++ tail) := by
    refine ⟨?_, hsig.parametrized fun s hs => by simp [hs]⟩
    simp only [append_assoc, cons_append, nil_append]
    refine .append (fun s hs => (ha s hs).headFree) (.cons hf.headFree ?_)
    simp only [forall_mem_append, forall_mem_cons]
    exact ⟨fun s hs => (hstar s hs).tame,
      hname.tame_part rfl, hsig.tame, htail⟩
  refine .or (.step (hr _) fun body => ?_) <|
    .or (.bind .semicolon fun c hc => ?_) .fail
  · have hbody := hall [body.part .body] (forall_mem_singleton.2 (Shape.tame_part (by decide)))
    exact .doneBranch (by simp) (by simp) (fits_ite hbody hbody) trivial
  · exact .doneBranch (by simp) (by simp) (hall c fun s hs => (hc s hs).tame) trivial

theorem reads_classDeclarationWith {decs : List Shape}
    (hdecs : ∀ s ∈ decs, s.HeadFree) (hbegins : ∀ s ∈ decs, s.Begins) :
    Reads decs (classDeclarationWith recur decs) Any := by
  refine .skip .nextStart fun start =>
    .bind (.opt (.keyword _)) fun a ha =>
    .bind (reads_classTail hr true) fun parts hparts => ?_
  have hall : Role.housing.Fits (decs ++ a ++ parts) := by
    rw [append_assoc]
    exact ⟨.append hdecs (.append (fun s hs => (ha s hs).headFree) hparts.2.1),
      .append hbegins (.append (fun s hs => (ha s hs).begins) hparts.2.2)⟩
  exact .doneBranch (by simp) (by simp [hparts.1]) (fits_ite hall hall) trivial

theorem reads_interfaceDeclaration : Reads [] (interfaceDeclaration recur) Any := by
  have hext : Reads [] (node .extendsTypeClause do
      let e ← keyword "extends"
      let types ← commaSep1 (do return [(← typeReference recur).part .type])
      return e :: types) Any := by
    refine .free rfl <| .step (.keyword _) fun e => .step (.commaSep1 (P := Any) ?_ fun _ _ => trivial)
      fun types => .done (by simp)
    exact .last (reads_typeReference hr) (by simp)
  refine .housing rfl <|
    .bind (.keyword _) fun kw hkw =>
    .bind (reads_nameAs (by decide)) fun name hname =>
    .bind (.opt ((reads_typeParameters hr).to Yields.node)) fun tps htps =>
    .bind (.opt (hext.to Yields.node)) fun ext hext =>
    .bind ((reads_objectTypeBody hr rfl).to Yields.node) fun body hbody =>
    .done ⟨by simp, by simp, ?_, ?_⟩
  · simp only [append_assoc, cons_append, nil_append]
    refine .cons hkw.headFree ?_
    simp only [forall_mem_cons, forall_mem_append]
    exact ⟨hname.tame_part rfl,
      Shape.tame_map_part (by decide) tps, fun s hs => Shape.tame_of_field_none (hext s hs).2,
      Shape.tame_part (by decide), forall_mem_nil _⟩
  · have hbody : (body.part .body).label = .named .interfaceBody := hbody.1
    rw [cons_append, cons_append]
    refine .intro hkw.begins ?_ (by rw [hbody]; rfl) rfl
    simp only [cons_append, nil_append, forall_mem_cons, forall_mem_append,
      forall_mem_map]
    refine ⟨?_, fun s hs => ?_, fun s hs => Shape.fore_of_label rfl (hext s hs)⟩
    · obtain ⟨a, b, rfl⟩ := hname
      exact ⟨rfl, fun _ => .inl rfl⟩
    · exact Shape.fore_part rfl (by decide) (by decide) (htps s hs).1

theorem reads_typeAliasDeclaration : Reads [] (typeAliasDeclaration recur) Any := by
  refine .node <|
    .bind (.keyword _) fun kw hkw =>
    .bind (reads_nameAs (by decide)) fun name hname =>
    .step (.opt (reads_typeParameters hr)) fun tps =>
    .bind (.punct rfl) fun eq heq =>
    .step (hr _) fun v =>
    .bind .semicolon fun c hc =>
    .done ⟨by simp, by simp, ⟨?_, .inr ⟨name.part .name, by simp, rfl⟩, ?_⟩, fun _ => trivial⟩
  · simp only [append_assoc, cons_append, nil_append]
    refine .cons hkw.headFree ?_
    simp only [forall_mem_cons, forall_mem_append]
    exact ⟨hname.tame_part rfl,
      Shape.tame_map_part (by decide) tps, heq.tame, Shape.tame_part (by decide),
      fun s hs => (hc s hs).tame⟩
  · obtain ⟨a, b, rfl⟩ := hname
    simp only [forall_mem_append, forall_mem_cons, forall_mem_map]
    exact ⟨⟨⟨⟨(absurd · hkw.field_ne), fun _ => rfl, nofun⟩, fun _ _ => nofun⟩,
      (absurd · heq.field_ne), nofun, nofun⟩, fun s hs => (absurd · (hc s hs).field_ne)⟩

theorem reads_enumMember : Reads [] (enumMember recur) Any := by
  refine .bind (reads_propertyName hr) fun name hname => .or (.property rfl ?_) <|
    .or (.done (by simp)) .fail
  exact .bind (reads_initialValue hr true) fun v hv =>
    .done ⟨by simp, .cons (Shape.headFree_part.2 hname) hv, name.part .name, by simp, rfl⟩

theorem reads_enumDeclaration : Reads [] (enumDeclaration recur) Any := by
  refine .housing rfl <|
    .bind (.opt (.keyword _)) fun c hc =>
    .bind (.keyword _) fun kw hkw =>
    .bind reads_identifier fun name hname =>
    .bind ((reads_brackets rfl rfl rfl (reads_enumMember hr)).to Yields.node)
      fun body hbody =>
    .done ⟨by simp, by simp, .append (fun s hs => (hc s hs).headFree) (.cons hkw.headFree ?_),
      .append (fun s hs => (hc s hs).begins) ?_⟩
  · simp only [forall_mem_cons]
    exact ⟨hname.tame_part rfl, Shape.tame_part (by decide),
      nofun⟩
  · have hbody : (body.part .body).label = .named .enumBody := hbody.1
    refine .intro (l := [name.part .name]) hkw.begins ?_ (by rw [hbody]; rfl) rfl
    obtain ⟨a, b, rfl⟩ := hname
    exact forall_mem_singleton.2 ⟨rfl, fun _ => .inr rfl⟩

theorem reads_moduleParts (w : String) :
    Reads [] (moduleParts recur w) fun l => l ≠ [] ∧ Declares l := by
  refine .bind (.keyword _) fun kw hkw =>
    .skip .newlineAhead fun _ =>
    .guard fun _ =>
    .bind (P := Shape.CallFree) (.or reads_stringLiteral <|
      .or (.skip .peekWord fun _ => .guard fun _ => reads_entityName) .fail)
      fun name hname =>
    .step (.opt (hr _)) fun body =>
    .guard fun _ =>
    .done ⟨by simp, by simp, .cons hkw.headFree ?_⟩
  refine forall_mem_cons.2 ⟨?_, Shape.tame_map_part (by decide) body⟩
  exact (Shape.headFree_part.2 hname.headFree).tame

theorem reads_moduleDeclaration : Reads [] (moduleDeclaration recur) Any :=
  .declaring rfl (reads_moduleParts hr _)

theorem reads_internalModule : Reads [] (internalModule recur) Any :=
  .declaring rfl (reads_moduleParts hr _)

omit hr in
theorem reads_importAlias : Reads [] importAlias Any :=
  .free rfl <|
  .step (.keyword _) fun _ =>
  .step reads_identifier fun _ =>
  .step (.punct rfl) fun _ =>
  .step reads_entityName fun _ =>
  .skip .peekPunct fun _ =>
  .guard fun _ =>
  .last .semicolon (by simp)

theorem reads_declaration {ambient : Reader Shape}
    (hambient : Reads [] ambient Any) : Reads [] (declaration recur ambient) Any := by
  refine .skip .peekWord fun w => ?_
  split
  iterate 2 exact reads_functionDeclaration hr
  iterate 2 exact reads_classDeclarationWith hr nofun nofun
  · exact reads_interfaceDeclaration hr
  · exact reads_typeAliasDeclaration hr
  · exact reads_enumDeclaration hr
  · exact .or (reads_enumDeclaration hr) <|
      .or (reads_variableStatement hr) .fail
  iterate 2 exact reads_variableStatement hr
  · exact reads_internalModule hr
  · exact reads_moduleDeclaration hr
  · exact reads_importAlias
  · exact hambient
  · exact .fail

theorem reads_ambientDeclaration : Reads [] (ambientDeclaration recur) Any := by
  refine .node <| (Reads.and (P := (· ≠ [])) ?_ (introduces_ambientDeclaration hr)).weaken
    fun _ hl => ⟨hl.1, hl.2, fun _ => trivial⟩
  exact .step (.keyword _) fun _ =>
    .skip .newlineAhead fun _ =>
    .guard fun _ =>
    .or (.step (.keyword _) fun _ => .last (hr _) (by simp)) <|
    .or (.last (reads_declaration hr .fail) (by simp)) <|
    .or (.step (.keyword _) fun _ =>
      .step (.punct rfl) fun _ =>
      .step (.anyWord rfl) fun _ =>
      .step (.punct rfl) fun _ =>
      .step (hr _) fun _ =>
      .last .semicolon (by simp)) .fail

theorem reads_statementDeclaration : Reads [] (statementDeclaration recur) Any :=
  .skip .peekWord fun _ =>
  .ite (fun _ => .free rfl <|
    .step (reads_internalModule hr) fun _ => .last .semicolon (by simp))
    fun _ => reads_declaration hr (reads_ambientDeclaration hr)

/-! ## Modules -/

omit hr in
theorem reads_fromClause : Reads [] fromClause Any :=
  .step (.keyword _) fun _ =>
  .last reads_stringLiteral (by simp)

theorem reads_importAttribute : Reads [] (importAttribute recur) Any :=
  .free rfl <|
  .skip .newlineAhead fun _ =>
  .guard fun _ =>
  .step (.keywordOf _) fun _ =>
  .last (reads_objectLiteral hr) (by simp)

omit hr

theorem reads_exportedName : Reads [] exportedName fun s => s.CallFree ∧ s.Worded :=
  .or (.weaken (.anyWord rfl) fun _ h => ⟨h.callFree rfl, h.worded⟩) <|
  .or (reads_stringLiteral.and worded_stringLiteral) .fail

theorem reads_typeMark (follows : String → Bool) : Reads [] (typeMark follows) IsToken :=
  .bind (.keywordOf _) fun _ ht =>
  .skip .peekWord fun _ =>
  .guard fun _ =>
  .done ⟨by simp, ht⟩

theorem reads_specifier {k : Kind} (hk : k.role = .entry) (hcall : (Label.named k).isCall = false) :
    Reads [] (specifier k) Shape.CallFree := by
  have hrenamed : Reads [] (do
      let name ← exportedName
      let more ← optAll (do return [← keyword "as", (← exportedName).part .alias])
      return name.part .name :: more) fun l =>
        (∀ s ∈ l, s.CallFree ∧ s.Tight) ∧ ∃ s ∈ l, s.field = some .name := by
    refine .bind reads_exportedName fun name hname =>
      .bind (.optAll (P := fun l => ∀ s ∈ l, s.CallFree ∧ s.Tight) ?_ nofun) fun more hmore =>
      .done ⟨by simp, forall_mem_cons.2
        ⟨⟨Shape.callFree_part.2 hname.1, hname.2.tight_part _⟩, hmore⟩, _, mem_cons_self, rfl⟩
    exact .bind (.keyword _) fun _ hw =>
      .bind reads_exportedName fun _ halias =>
      .done ⟨by simp, forall_mem_cons.2 ⟨⟨hw.callFree, hw.tight⟩, forall_mem_singleton.2
        ⟨Shape.callFree_part.2 halias.1, halias.2.tight_part _⟩⟩⟩
  refine .entry hk hcall <| .or ?_ <| .or ?_ .fail
  · refine .bind (reads_typeMark _) fun _ ht =>
      hrenamed.bind fun _ hrest =>
      .skip .peekPunct fun _ =>
      .guard fun _ =>
      .done ⟨by simp, forall_mem_cons.2 ⟨⟨ht.callFree, ht.tight⟩, hrest.1⟩, ?_⟩
    obtain ⟨s, hs, hfield⟩ := hrest.2
    exact ⟨s, mem_cons_of_mem _ hs, hfield⟩
  · exact hrenamed.bind fun _ hrest =>
      .skip .peekPunct fun _ =>
      .guard fun _ =>
      .done ⟨by simp, hrest⟩

theorem reads_specifiers {k : Kind} (hk : k.role = .free) (hcall : (Label.named k).isCall = false)
    {slot : Kind} (hslot : slot.role = .entry) (hcall' : (Label.named slot).isCall = false) :
    Reads [] (node k (bracketed "\x7b" "\x7d" (do return [← specifier slot]))) Shape.CallFree :=
  .callFree (.inl hk) hcall <|
  (Reads.bracketed rfl rfl (.single (reads_specifier hslot hcall'))
    fun _ => IsToken.callFree).weaken fun _ hl => ⟨hl.1, hl.2.2⟩

theorem reads_namedImports : Reads [] namedImports Shape.CallFree :=
  reads_specifiers rfl rfl rfl rfl

theorem reads_namespaceImport : Reads [] namespaceImport Shape.CallFree :=
  .callFree (.inr rfl) rfl <|
  .bind (.punct rfl) fun _ ho =>
  .bind (.keyword _) fun _ hw =>
  .bind reads_identifier fun _ hn =>
  .done ⟨by simp, by simp, by simpa using ⟨ho.callFree, hw.callFree, hn.callFree rfl⟩⟩

theorem reads_importClause : Reads [] importClause Shape.CallFree := by
  have hwhole : Reads [] (do return [← firstOf [namespaceImport, namedImports]])
      fun l => l ≠ [] ∧ ∀ s ∈ l, s.CallFree := by
    refine .bind (P := Shape.CallFree) (.or reads_namespaceImport <|
      .or reads_namedImports .fail) fun s hs => ?_
    exact .done ⟨by simp, by simp, by simpa using hs⟩
  refine .callFree (.inr rfl) rfl <| .or hwhole <| .or ?_ .fail
  refine .bind reads_identifier fun name hname =>
    .bind (.optAll (P := fun l => ∀ s ∈ l, s.CallFree) ?_ nofun) fun more hmore =>
    .done ⟨by simp, by simp, forall_mem_cons.2 ⟨hname.callFree rfl, hmore⟩⟩
  exact .bind (.punct rfl) fun _ hc =>
    hwhole.bind fun _ hl =>
    .done ⟨by simp, forall_mem_cons.2 ⟨hc.callFree, hl.2⟩⟩

theorem reads_importRequireClause : Reads [] importRequireClause Shape.CallFree := by
  refine .callFree (.inr rfl) rfl <|
    .bind reads_identifier fun name hname =>
    .bind (.punct rfl) fun eq heq =>
    .bind (.keyword _) fun r hr =>
    .bind (.punct rfl) fun o ho =>
    .bind reads_stringLiteral fun s hs =>
    .bind (.punct rfl) fun c hc =>
    .done ⟨by simp, by simp, ?_⟩
  simp only [forall_mem_cons, Shape.callFree_part]
  exact ⟨hname.callFree rfl, heq.callFree, hr.callFree, ho.callFree, hs, hc.callFree,
    forall_mem_nil _⟩

include hr

theorem reads_importStatement : Reads [] (importStatement recur) Any := by
  have hbody (marked : List Shape) : Reads marked (do
      let rest ← firstOf [
        do
          let clause ← importClause
          return clause :: (← fromClause),
        do return [← importRequireClause],
        do return [(← stringLiteral).part .source]]
      return marked ++ rest) Any :=
    .step (P := Any)
      (.or (.step reads_importClause fun _ =>
        .last reads_fromClause (by simp)) <|
      .or (.last reads_importRequireClause (by simp)) <|
      .or (.last reads_stringLiteral (by simp)) .fail)
      fun _ => .done (by simp)
  exact .free rfl <|
    .step (.keyword _) fun _ =>
    .step (.or (.step (.keywordOf _) fun t => hbody [t]) <|
      .or (hbody []) .fail) fun _ =>
    .step (.opt (reads_importAttribute hr)) fun _ =>
    .last .semicolon (by simp)

omit hr

theorem reads_exportClause : Reads [] exportClause Shape.CallFree :=
  reads_specifiers rfl rfl rfl rfl

theorem reads_namespaceExport : Reads [] namespaceExport Shape.CallFree :=
  .callFree (.inr rfl) rfl <|
  .bind (.punct rfl) fun _ ho =>
  .bind (.keyword _) fun _ hw =>
  .bind reads_exportedName fun _ hn =>
  .done ⟨by simp, by simp, by simpa using ⟨ho.callFree, hw.callFree, hn.1⟩⟩

include hr

theorem reads_defaultExport (decs : List Shape) : Reads decs (defaultExport recur decs) Any := by
  refine .step (.keyword _) fun kw => .or ?_ <| .or ?_ .fail
  · refine .skip .peekWord fun _ => .skip .peekPunct fun _ => .guard fun _ => ?_
    refine .bind ((reads_decorators hr).and (begins_decorators hr)) fun inner hinner => ?_
    refine .skip .peekWord fun _ => .skip .peekWord fun _ => .ite (fun _ => ?_) fun _ => ?_
    · exact .takeOver _ (reads_classDeclarationWith hr hinner.1 hinner.2) fun _ _ => .done (by simp)
    · exact .forget <| .last (reads_declaration hr .fail) (by simp)
  · exact .step (hr _) fun _ => .last .semicolon (by simp)

theorem reads_exportTail : Reads [] (exportTail recur) Any := by
  refine .or ?_ <| .or ?_ <| .or ?_ <| .or ?_ <|
    .or ?_ <| .or (reads_defaultExport hr []) <| .or ?_ <|
    .or ?_ .fail
  · exact .step (.opt (.keyword _)) fun _ =>
      .step (.punct rfl) fun _ =>
      .step reads_fromClause fun _ =>
      .step (.opt (reads_importAttribute hr)) fun _ =>
      .last .semicolon (by simp)
  · exact .step (.opt (.keyword _)) fun _ =>
      .step reads_namespaceExport fun _ =>
      .step reads_fromClause fun _ =>
      .step (.opt (reads_importAttribute hr)) fun _ =>
      .last .semicolon (by simp)
  · exact .step (.opt (.keyword _)) fun _ =>
      .step reads_exportClause fun _ =>
      .step (.optAll reads_fromClause trivial) fun _ =>
      .step (.opt (reads_importAttribute hr)) fun _ =>
      .last .semicolon (by simp)
  · exact .step (.punct rfl) fun _ =>
      .step (hr _) fun _ =>
      .last .semicolon (by simp)
  · exact .step (.keyword _) fun _ =>
      .step (.keyword _) fun _ =>
      .step reads_identifier fun _ =>
      .last .semicolon (by simp)
  · refine .bind ((reads_decorators hr).and (begins_decorators hr)) fun inner hinner =>
      .ite (fun _ => ?_) fun _ => ?_
    · exact .forget <| .last (reads_declaration hr (reads_ambientDeclaration hr)) (by simp)
    · exact .takeOver _ (reads_classDeclarationWith hr hinner.1 hinner.2) fun _ _ =>
        .done (by simp)
  · exact .step (.keyword _) fun _ =>
      .step reads_importRequireClause fun _ =>
      .last .semicolon (by simp)

theorem reads_exportStatementWith {decs : List Shape}
    (hdecs : ∀ s ∈ decs, IsAside s) : Reads decs (exportStatementWith recur decs) Any := by
  refine .node <| (Reads.and (P := (· ≠ [])) ?_ (exports_exportStatement hr hdecs)).weaken
    fun _ hl => ⟨hl.1, hl.2, fun _ => trivial⟩
  exact .step (.keyword _) fun _ =>
    .last (reads_exportTail hr) (by simp)

theorem reads_decoratedStatement : Reads [] (decoratedStatement recur) Any :=
  .bind (((reads_decorators hr).and (isAside_decorators hr)).and (begins_decorators hr)) fun _ hdecs =>
  .guard fun _ =>
  .skip .peekWord fun _ =>
  .ite (fun _ => reads_exportStatementWith hr hdecs.1.2) fun _ =>
    reads_classDeclarationWith hr hdecs.1.1 hdecs.2

/-! ## Statements -/

theorem reads_wordStatement (w : String) : Reads [] (wordStatement recur w) Any := by
  have hexpression := reads_expressionStatement hr
  unfold wordStatement
  split
  · exact reads_ifStatement hr
  · exact reads_switchStatement hr
  · exact .or (reads_forInStatement hr) <|
      .or (reads_forStatement hr) .fail
  · exact reads_whileStatement hr
  · exact reads_doStatement hr
  · exact reads_tryStatement hr
  · exact reads_withStatement hr
  iterate 2 exact reads_jumpStatement rfl _
  iterate 2 exact reads_valueStatement hr rfl _
  · exact .free rfl <| .step (.keyword _) fun _ => .last .semicolon (by simp)
  · exact .or reads_importAlias <| .or (reads_importStatement hr) <|
      .or hexpression .fail
  · exact reads_exportStatementWith hr (forall_mem_nil _)
  · exact .or (reads_statementDeclaration hr) <|
      .or (reads_labeledStatement hr) <| .or hexpression .fail

theorem reads_statement : Reads [] (statement recur) Any := by
  refine .skip .peekWord fun w => .ite (fun _ => reads_wordStatement hr w) fun _ => ?_
  refine .skip .peekPunct fun t => ?_
  split
  · exact reads_emptyStatement
  · exact reads_blockStatement hr
  · exact .or (reads_decoratedStatement hr) <|
      .or (reads_expressionStatement hr) .fail
  · exact reads_expressionStatement hr

/-! ## The whole source -/

theorem reads_rule (g : Goal) : Reads [] (rule recur g) g.Post := by
  cases g with
  | statement => exact reads_statement hr
  | block => exact (reads_blockStatement hr).to (.inner rfl)
  | expression allowIn => exact (reads_expression hr allowIn).to (inner_expression hr allowIn)
  | assignment allowIn arrowTypes =>
    exact (reads_assignment hr allowIn arrowTypes).to (inner_assignment hr allowIn arrowTypes)
  | binary allowIn level => exact (reads_binary hr allowIn level).to (inner_binary hr allowIn level)
  | unary => exact (reads_unary hr).to (inner_unary hr)
  | operand => exact (reads_operand hr).to (inner_operand hr)
  | leftHand => exact (reads_leftHand hr).to (inner_leftHand hr)
  | target => exact reads_assignmentTarget hr
  | type => exact reads_typeExpression hr
  | typeOperand => exact reads_typeOperand hr
  | pattern => exact reads_pattern hr
  | element => exact (reads_element hr).to inner_element

omit hr

/-- However deep a goal may nest, it reads sound shapes. -/
theorem sound_goal (fuel : Nat) : Recur.Sound (goal fuel) := by
  induction fuel with
  | zero => exact fun _ => .fail
  | succ fuel ih => exact fun g => reads_rule ih g

theorem reads_hashBangLine : Reads [] hashBangLine Any := by
  intro input a pos s next hrow h
  obtain ⟨hg, h⟩ := bind_guardThat_eq_some (bind_get_eq_some (bind_read_eq_some h))
  cases h
  rw [Bool.and_eq_true, beq_iff_eq] at hg
  obtain ⟨rfl, hstands⟩ := hg
  have hc : input.chars[0]? = some '#' := by
    rw [standsAt, Bool.and_eq_true, beq_iff_eq] at hstands
    exact hstands.1
  have hlt : 0 < findFrom input.chars isLineEnd input.chars.size 0 := lt_findFrom hc (by decide)
  exact ⟨.leaf rfl hrow.aligned.le hlt (lt_size_of_getElem?_eq_some hc) (Nat.le_refl _), trivial⟩

theorem reads_program (fuel : Nat) : Reads [] (program fuel) Any :=
  .step (.opt reads_hashBangLine) fun _ =>
  .last (reads_statements (sound_goal fuel)) (by simp)

theorem row_parse (input : Input) :
    ∃ next, Row input.chars.size 0 (parse input).children next := by
  change ∃ next, Row input.chars.size 0
    (((program (fuelFor input.chars.size)).runAt input 0).elim [] Prod.fst) next
  cases h : (program (fuelFor input.chars.size)).runAt input 0 with
  | none => exact ⟨0, .nil (Nat.le_refl 0)⟩
  | some r => exact ⟨r.2, (reads_program _ (.nil (Nat.le_refl 0)) h).1⟩

end ScriptAtlas.Syntax.Grammar
