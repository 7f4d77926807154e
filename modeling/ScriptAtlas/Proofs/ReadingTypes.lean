import ScriptAtlas.Proofs.Reading
import ScriptAtlas.Syntax.Grammar.Type

/-!
# Literals, signatures and types are sound

One lemma for each rule of the grammar, from literals up to types. A rule that others rely on for more
than soundness says so: names and patterns begin with no call, and nothing is called in a literal.
-/

namespace ScriptAtlas.Syntax

open List

/-- What is known of a goal's result beyond its soundness. -/
def Goal.Post : Goal → Shape → Prop
  | .pattern | .target => Shape.HeadFree
  | .statement | .type | .typeOperand => Any
  | _ => Shape.Inner

/-- A reader of goals that reads sound shapes. -/
def Recur.Sound (recur : Recur) : Prop := ∀ g, Reads [] (recur g) g.Post

namespace Grammar

open Reader

variable {recur : Recur}
variable {k : Kind} {p : Reader Shape}

/-! ## Words -/

theorem reads_nameAs (hk : (Label.named k).standsAlone = true) :
    Reads [] (nameAs k) (IsLeaf k) :=
  .skip .peekWord fun _ =>
  .guard fun _ =>
  .anyWord hk

theorem reads_identifier : Reads [] identifier (IsLeaf .identifier) := reads_nameAs (by decide)

theorem passes_afterWord (p : Reader Bool) : Passes (afterWord p) := .isAhead _

theorem passes_propertyNameAhead : Passes propertyNameAhead := by
  refine .bind .peekWord fun w => ?_
  split
  · exact .pure _
  · refine .bind .peekChar fun c => ?_
    split <;> exact .pure _

theorem reads_modifier (w : String) : Reads [] (modifier w) IsToken :=
  .bind (.keyword w) fun _ ht =>
  .skip passes_propertyNameAhead fun _ =>
  .guard fun _ =>
  .done ⟨by simp, ht⟩

/-! ## Literals -/

theorem lt_escapeEnd (cs : Array Char) (pos : Nat) : pos < escapeEnd cs pos := by
  unfold escapeEnd
  split
  · next e he => exact (lt_of_nameEscapeEnd?_eq_some he).1
  · have := le_findFrom cs (fun d => !d.isDigit) 3 (pos + 1)
    grind

theorem lt_size_of_lt_plainRunEnd {cs : Array Char} {stops : Nat → Bool} {fuel pos : Nat}
    (h : pos < plainRunEnd cs stops fuel pos) : pos < cs.size := by
  cases fuel with
  | zero => exact absurd h (Nat.lt_irrefl pos)
  | succ fuel =>
    unfold plainRunEnd at h
    split at h
    · next hc =>
      rw [Bool.and_eq_true, Bool.and_eq_true, decide_eq_true_eq] at hc
      exact hc.1.1
    · exact absurd h (Nat.lt_irrefl pos)

theorem reads_plainRun (hk : (Label.named k).standsAlone = true) (stops : Array Char → Nat → Bool) :
    Reads [] (plainRun k stops) (IsLeaf k) := by
  intro input a pos s next hrow h
  obtain ⟨hlt, h⟩ := bind_guardThat_eq_some (bind_get_eq_some (bind_read_eq_some h))
  cases h
  have hlt := of_decide_eq_true hlt
  exact ⟨.leaf hk hrow.aligned.le hlt (lt_size_of_lt_plainRunEnd hlt) (Nat.le_refl _), _, _, rfl⟩

theorem reads_escape : Reads [] escape (IsLeaf .escapeSequence) := by
  intro input a pos s next hrow h
  obtain ⟨hc, h⟩ := bind_guardThat_eq_some (bind_get_eq_some (bind_read_eq_some h))
  have hn := lt_size_of_getElem?_eq_some (beq_iff_eq.1 hc)
  cases h
  have hlt := lt_escapeEnd input.chars pos
  exact ⟨.leaf rfl hrow.aligned.le (Nat.lt_min.2 ⟨hn, hlt⟩) hn (Nat.le_refl _), _, _, rfl⟩

theorem reads_exactly {text : String} (ht : text.isEmpty = false) :
    Reads [] (exactly text) IsToken := by
  intro input a pos s next hrow h
  obtain ⟨hat, h⟩ := bind_guardThat_eq_some (bind_read_eq_some (bind_get_eq_some h))
  cases h
  obtain ⟨hne, hlen⟩ := Reads.length_pos_of_isEmpty ht
  have hlt := lt_of_standsAt (mt String.toList_eq_nil_iff.1 hne) hat
  exact ⟨.leaf rfl hrow.aligned.le (Nat.lt_add_of_pos_right hlen) hlt (Nat.le_refl _),
    text, pos, _, rfl⟩

theorem reads_quoted {quote : String} (hq : quote.isEmpty = false) :
    Reads [] (quoted quote) Shape.CallFree := by
  refine .text rfl rfl <| .bind (.symbol hq) fun o ho => ?_
  have hpart : Reads [] (firstOf [
      do return [← plainRun .stringFragment fun cs pos => standsAt cs quote.toList pos],
      do return [← escape]]) (∀ s ∈ ·, s.CallFree) :=
    .or (.single ((reads_plainRun (by decide) _).weaken fun _ => IsLeaf.callFree rfl)) <|
    .or (.single (reads_escape.weaken fun _ => IsLeaf.callFree rfl)) .fail
  refine .bind (.many hpart) fun parts hparts => .bind (reads_exactly hq) fun c hc => ?_
  refine .done ⟨by simp, by simp, ?_, by simpa using ho.bare⟩
  simp only [cons_append, forall_mem_cons, forall_mem_append]
  exact ⟨ho.callFree, hparts, hc.callFree, nofun⟩

theorem reads_stringLiteral : Reads [] stringLiteral Shape.CallFree :=
  .or (reads_quoted rfl) <|
  .or (reads_quoted rfl) .fail

theorem worded_stringLiteral : Yields stringLiteral Shape.Worded :=
  .or (Yields.node.weaken fun _ h => .inr h.1) <|
  .or (Yields.node.weaken fun _ h => .inr h.1) .fail

theorem reads_template {k slot : Kind} (hk : k.role = .free) (hslot : slot.role = .free)
    {P : Shape → Prop} (hp : Reads [] p P) :
    Reads [] (template k slot p) Any := by
  refine .free hk <| .step (.symbol rfl) fun o => ?_
  refine .step (.many (P := Any) ?_) fun parts => .last (reads_exactly rfl) (by simp)
  refine .or (.single (reads_plainRun (by decide) _).any) <|
    .or (.single reads_escape.any) <|
    .or (.single (.free hslot ?_)) .fail
  exact .step (reads_exactly rfl) fun a => .step hp fun e =>
    .last (.punct rfl) (by simp)

variable (hr : recur.Sound)

include hr

theorem reads_templateString : Reads [] (templateString recur) Any :=
  reads_template rfl rfl (hr _)

omit hr

theorem regexBodyEnd_lt {cs : Array Char} {fuel : Nat} {inClass : Bool} {pos e : Nat}
    (h : regexBodyEnd cs fuel inClass pos = some e) : e < cs.size := by
  induction fuel generalizing inClass pos with
  | zero => cases h
  | succ fuel ih =>
    unfold regexBodyEnd at h
    split at h
    · cases h
    · cases h
    iterate 3 exact ih h
    · next hc =>
      split at h
      · exact ih h
      · cases h
        exact lt_size_of_getElem?_eq_some hc
    · exact ih h

theorem reads_regex : Reads [] regex Any := by
  refine .free rfl ?_
  intro input a pos l next hrow h
  obtain ⟨o, q, ho, h⟩ := bind_eq_some (bind_read_eq_some h)
  obtain ⟨hopen, -⟩ := Reads.symbol rfl hrow ho
  obtain ⟨b, -, -, -, rfl⟩ := symbol_eq_some ho
  cases hend : regexBodyEnd input.chars (input.chars.size + 1) false q with
  | none =>
    rw [Shape.token, Shape.stop, hend] at h
    cases h
  | some e =>
    rw [Shape.token, Shape.stop, hend] at h
    obtain ⟨hlt, h⟩ := bind_guardThat_eq_some h
    cases h
    have hlt : q < e := of_decide_eq_true hlt
    have he : e < input.chars.size := regexBodyEnd_lt hend
    have hbody := (hopen.append (.leaf (l := .named .regexPattern) (f := some .pattern) rfl
      (Nat.le_refl q) hlt (Nat.lt_trans hlt he) (Nat.le_refl e))).append
      (.leaf (l := .token "/") (f := none) rfl (Nat.le_refl e) (Nat.lt_succ_self e) he
        (Nat.le_refl (e + 1)))
    exact ⟨hbody.append (.findFrom (by decide) _ _ _), by simp⟩

/-! ## Types in their places -/

include hr

theorem reads_annotatedType : Reads [] (annotatedType recur) Any :=
  .free rfl <|
  .step (.punct rfl) fun _ =>
  .last (hr _) (by simp)

omit hr in
/-- Elements with commas between them and perhaps one behind, in angle brackets. -/
theorem reads_angled (hk : k.role = .free) (hp : Reads [] p Any) :
    Reads [] (node k do
      let o ← symbol "<"
      let args ← commaSep1 (do return [← p])
      let trailing ← opt (punct ",")
      let c ← symbol ">"
      return o :: args ++ trailing ++ [c]) Any :=
  .free hk <|
  .step (.symbol rfl) fun _ =>
  .step (.commaSep1 (P := Any) (hp.bind fun _ _ => .done (by simp)) fun _ _ => trivial) fun _ =>
  .step (.opt (.punct rfl)) fun _ =>
  .last (.symbol rfl) (by simp)

theorem reads_typeArguments : Reads [] (typeArguments recur) Any :=
  reads_angled rfl (hr _)

theorem reads_constraint : Reads [] (constraint recur) Any :=
  .free rfl <|
  .step (.keyword _) fun _ =>
  .last (hr _) (by simp)

theorem reads_defaultType : Reads [] (defaultType recur) Any :=
  .free rfl <|
  .step (.punct rfl) fun _ =>
  .last (hr _) (by simp)

omit hr in
theorem reads_typeParameterModifier (w : String) : Reads [] (typeParameterModifier w) IsToken :=
  .bind (.keyword w) fun _ ht =>
  .skip .peekWord fun _ =>
  .guard fun _ =>
  .done ⟨by simp, ht⟩

theorem reads_typeParameter : Reads [] (typeParameter recur) Any := by
  have hmod : Reads [] (firstOf [typeParameterModifier "const", typeParameterModifier "in",
      typeParameterModifier "out"]) IsToken :=
    .or (reads_typeParameterModifier _) <|
    .or (reads_typeParameterModifier _) <|
    .or (reads_typeParameterModifier _) .fail
  refine .declaring rfl <|
    .bind (.many (.single hmod)) fun mods hmods =>
    .bind (.anyWord rfl) fun name hname =>
    .step (.opt (reads_constraint hr)) fun bound =>
    .step (.opt (reads_defaultType hr)) fun fallback =>
    .done ⟨by simp, by simp, ?_⟩
  simp only [append_assoc, cons_append, nil_append]
  refine .append (fun s hs => (hmods s hs).headFree) (.cons ?_ ?_)
  · exact Shape.headFree_part.2 (hname.headFree rfl)
  · exact forall_mem_append.2
      ⟨Shape.tame_map_part (by decide) bound, Shape.tame_map_part (by decide) fallback⟩

theorem reads_typeParameters : Reads [] (typeParameters recur) Any :=
  reads_angled rfl (reads_typeParameter hr)

omit hr in
theorem reads_predicateSubject : Reads [] predicateSubject Any :=
  .or (.any (.wordAs _ rfl)) <|
  .or reads_identifier.any .fail

theorem reads_typePredicate : Reads [] (typePredicate recur) Any :=
  .free rfl <|
  .step reads_predicateSubject fun _ =>
  .skip .newlineAhead fun _ =>
  .guard fun _ =>
  .step (.keyword _) fun _ =>
  .last (hr _) (by simp)

theorem reads_assertsClause : Reads [] (assertsClause recur) Any :=
  .free rfl <|
  .step (.keyword _) fun _ =>
  .skip .newlineAhead fun _ =>
  .guard fun _ =>
  .last (.or (reads_typePredicate hr) (.or reads_predicateSubject .fail)) (by simp)

theorem reads_resultClause : Reads [] (resultClause recur) Any :=
  .or (.free rfl <|
    .step (.punct rfl) fun _ =>
    .last (reads_assertsClause hr) (by simp)) <|
  .or (.free rfl <|
    .step (.punct rfl) fun _ =>
    .last (reads_typePredicate hr) (by simp)) <|
  .or (reads_annotatedType hr) .fail

/-! ## Arguments, decorators and property names -/

theorem reads_spreadElement : Reads [] (spreadElement recur) Any :=
  .free rfl <|
  .step (.punct rfl) fun _ =>
  .last (hr _) (by simp)

omit hr

variable {o c : String} {P : Shape → Prop}

theorem reads_brackets (hk : k.role = .free) (ho : o.isEmpty = false) (hc : c.isEmpty = false)
    (hp : Reads [] p P) : Reads [] (node k (bracketed o c (do return [← p]))) Any :=
  .free hk <|
  (Reads.bracketed (P := Any) ho hc (.single hp.any) fun _ _ => trivial).weaken fun _ hl => hl.1

theorem reads_brackets_headFree (hk : k.role = .free) (hcall : (Label.named k).isCall = false)
    (ho : o.isEmpty = false) (hc : c.isEmpty = false) (hp : Reads [] p P) :
    Reads [] (node k (bracketed o c (do return [← p]))) Shape.HeadFree :=
  .headFree hk hcall <|
  (Reads.bracketed (P := Any) ho hc (.single hp.any) fun _ _ => trivial).weaken fun _ hl =>
    ⟨hl.1, fun s hs => (hl.2.1 s hs).headFree⟩

include hr

theorem reads_arguments : Reads [] (arguments recur) Any :=
  reads_brackets rfl rfl rfl <|
  .or (reads_spreadElement hr) (.or (hr _).any .fail)

omit hr

theorem reads_memberAccess {left : Shape} {dot name : Reader Shape}
    (hdot : Reads [] dot (·.field ≠ some .property))
    (hname : Reads [] name (·.label.kind?.any Kind.isIdentifier = true)) :
    Reads [left] (node .memberExpression do
      let d ← dot
      let n ← name
      return [left.part .object, d, n.part .property]) fun s => left.HeadFree → s.HeadFree := by
  refine .node <| hdot.bind fun d hd => hname.bind fun n hn => .done ⟨by simp, by simp, ?_, ?_⟩
  · change ∀ c ∈ [left.part .object, d, n.part .property], _
    simp only [forall_mem_cons]
    exact ⟨nofun, fun h => absurd h hd, fun _ => hn, nofun⟩
  · intro at_ hleft
    refine .mk rfl fun c hc => ?_
    cases Option.mem_some.1 hc
    exact Shape.headFree_part.2 hleft

theorem reads_dotAccess (left : Shape) : Reads [left] (node .memberExpression do
    let dot ← punct "."
    let name ← anyWord .propertyIdentifier
    return [left.part .object, dot, name.part .property]) fun s => left.HeadFree → s.HeadFree :=
  reads_memberAccess (.weaken (.punct rfl) fun _ => IsToken.field_ne)
    (.weaken (.anyWord rfl) fun _ => IsLeaf.isIdentifier rfl)

theorem reads_dottedName : Reads [] dottedName Any :=
  .bind (.anyWord rfl) fun _ _ =>
  .grow (fun left _ => (reads_dotAccess left).any) trivial

include hr

theorem reads_parenthesized : Reads [] (parenthesized recur) Any :=
  .free rfl <|
  .step (.punct rfl) fun _ =>
  .step (hr _) fun _ =>
  .step (.opt (reads_annotatedType hr)) fun _ =>
  .last (.punct rfl) (by simp)

theorem reads_decorator : Reads [] (decorator recur) Shape.HeadFree := by
  refine .node <|
    .bind (.punct rfl) fun a ha =>
    .step (.or reads_dottedName (.or (reads_parenthesized hr) .fail))
      fun target =>
    .takeOver (P := Any) ([] ++ parts a) ?_ fun call _ =>
    .done ⟨by simp, by simp, ?_, fun _ => .mk rfl (by simpa using ha.headFree)⟩
  · exact .or (.free rfl <|
        .step (.opt (reads_typeArguments hr)) fun _ =>
        .last (reads_arguments hr) (by simp)) <|
      .or (.done (by simp)) .fail
  · rintro s ⟨⟩
    exact ha.bare

theorem reads_decorators : Reads [] (decorators recur) (∀ s ∈ ·, s.HeadFree) :=
  .many <| (reads_decorator hr).bind fun _ hd =>
    .done ⟨by simp, by simpa using hd⟩

theorem begins_decorators : Yields (decorators recur) (∀ s ∈ ·, s.Begins) :=
  Reads.yields <| .many <| ((reads_decorator hr).and Yields.node).bind fun _ hd =>
    .done ⟨by simp, forall_mem_singleton.2 ⟨.inr hd.2.1, nofun, nofun⟩⟩

theorem reads_computedPropertyName : Reads [] (computedPropertyName recur) Shape.HeadFree :=
  .headFree rfl rfl <|
  .bind (.punct rfl) fun _ ho =>
  .step (hr _) fun _ =>
  .step (.punct rfl) fun _ =>
  .done ⟨by simp, by simp, by simpa using ho.headFree⟩

theorem reads_propertyName : Reads [] (propertyName recur) Shape.HeadFree :=
  .or (.weaken (.anyWord rfl) fun _ h => h.headFree rfl) <|
  .or (Reads.privateName.weaken fun _ h => h.headFree rfl) <|
  .or (reads_stringLiteral.weaken fun _ => Shape.CallFree.headFree) <|
  .or (Reads.number.weaken fun _ h => h.headFree rfl) <|
  .or (reads_computedPropertyName hr) .fail

theorem reads_initialValue (allowIn : Bool) :
    Reads [] (initialValue recur allowIn) (∀ s ∈ ·, s.Tame) :=
  .bind (.punct rfl) fun _ heq =>
  .step (hr _) fun _ =>
  .done ⟨by simp, by simpa using ⟨heq.tame, Shape.tame_part (by decide)⟩⟩

/-! ## Parameters -/

omit hr

theorem reads_accessibilityModifier : Reads [] accessibilityModifier Shape.HeadFree :=
  .headFree rfl rfl <|
  .bind (.keywordOf _) fun _ hw =>
  .done ⟨by simp, by simp, by simpa using hw.headFree⟩

theorem reads_beforePattern {P : Shape → Prop} (hp : Reads [] p P) :
    Reads [] (beforePattern p) P :=
  hp.bind fun _ hm =>
  .skip .peekWord fun _ =>
  .skip .peekChar fun _ =>
  .guard fun _ =>
  .done ⟨by simp, hm⟩

include hr

theorem reads_parameter : Reads [] (parameter recur) Any := by
  refine .skip .nextStart fun start =>
    .bind (reads_decorators hr) fun decs hdecs =>
    .bind (.opt (reads_beforePattern reads_accessibilityModifier)) fun access haccess =>
    .bind (.opt (reads_beforePattern (.wordAs _ rfl))) fun overriding hover =>
    .bind (.opt (reads_beforePattern (.keyword _))) fun fixed hfixed =>
    .bind (hr .pattern) fun target htarget =>
    .bind (.opt (.punct rfl)) fun mark hmark =>
    .step (.opt (reads_annotatedType hr)) fun type =>
    .bind (.optAll (reads_initialValue hr true) nofun) fun value hvalue => ?_
  refine .doneBranch (by simp) (by simp) ?_ trivial
  have hdeclares : Declares (decs ++ access ++ overriding ++ fixed ++ [target.part .pattern] ++ mark
      ++ type.map (·.part .type) ++ value) := by
    simp only [append_assoc, cons_append, nil_append]
    refine .append hdecs (.append haccess (.append ?_ (.append ?_ (.cons ?_ ?_))))
    · exact fun s hs => (hover s hs).headFree rfl
    · exact fun s hs => (hfixed s hs).headFree
    · exact Shape.headFree_part.2 htarget
    · simp only [forall_mem_append]
      exact ⟨fun s hs => (hmark s hs).tame, Shape.tame_map_part (by decide) type, hvalue⟩
  split <;> exact hdeclares

theorem reads_formalParameters : Reads [] (formalParameters recur) Any :=
  reads_brackets rfl rfl rfl (reads_parameter hr)

/-- The parts of a signature: none is a name, and one lists the parameters. -/
structure IsSignature (l : List Shape) : Prop where
  tame : ∀ s ∈ l, s.Tame
  parameters : ∃ s ∈ l, s.field = some .parameters
  listed : ∀ s ∈ l, s.field = some .parameters → s.label = .named .formalParameters

omit hr

theorem IsSignature.ne_nil {l : List Shape} (h : IsSignature l) : l ≠ [] := by
  obtain ⟨s, hs, -⟩ := h.parameters
  exact ne_nil_of_mem hs

theorem IsSignature.parametrized {l m : List Shape} (h : IsSignature l) (hlm : ∀ s ∈ l, s ∈ m) :
    Parametrized m := by
  obtain ⟨s, hs, hfield⟩ := h.parameters
  exact .inl ⟨s, hlm s hs, hfield⟩

/-- Modifiers, a name, a mark, a signature and perhaps a body make a method. -/
theorem IsSignature.methodical {mods mark sig tail : List Shape} {name : Shape} (h : IsSignature sig)
    (hmods : ∀ s ∈ mods, s.HeadFree ∧ s.field = none) (hname : name.HeadFree)
    (hmark : ∀ s ∈ mark, IsToken s) (htail : ∀ s ∈ tail, s.field = some .body) :
    Methodical (mods ++ [name.part .name] ++ mark ++ sig ++ tail) := by
  refine ⟨?_, ⟨name.part .name, by simp, rfl⟩, h.parametrized fun s hs => by simp [hs], ?_⟩
  · simp only [append_assoc, cons_append, nil_append]
    refine .append (fun s hs => (hmods s hs).1) (.cons (Shape.headFree_part.2 hname) ?_)
    simp only [forall_mem_append]
    refine ⟨fun s hs => (hmark s hs).tame, h.tame, fun s hs hfield => ?_⟩
    cases (htail s hs).symm.trans hfield
  · simp only [forall_mem_append, forall_mem_singleton]
    refine ⟨⟨⟨⟨fun s hs hfield => ?_, nofun⟩, fun s hs => (absurd · (hmark s hs).field_ne)⟩,
      h.listed⟩, fun s hs hfield => ?_⟩
    · cases (hmods s hs).2.symm.trans hfield
    · cases (htail s hs).symm.trans hfield

include hr

theorem reads_callSignature : Reads [] (callSignature recur) IsSignature := by
  refine .step (.opt (reads_typeParameters hr)) fun tps =>
    .bind ((reads_formalParameters hr).and Yields.node) fun ps hps =>
    .step (.opt (reads_resultClause hr)) fun result =>
    .done ⟨by simp, ?_, ⟨ps.part .parameters, by simp, rfl⟩, ?_⟩
  · simp only [forall_mem_append, forall_mem_singleton]
    exact ⟨⟨Shape.tame_map_part (by decide) tps, Shape.tame_part (by decide)⟩,
      Shape.tame_map_part (by decide) result⟩
  · simp only [forall_mem_append, forall_mem_singleton, forall_mem_map]
    exact ⟨⟨fun _ _ => nofun, fun _ => hps.2.1⟩, fun _ _ => nofun⟩

/-! ## Binding patterns -/

theorem reads_patternTarget : Reads [] (patternTarget recur) Any := by
  refine .skip .peekPunct fun t => .ite (fun _ => (hr .pattern).any) fun _ => ?_
  exact .or (.step (hr .leftHand) fun _ => .guard fun _ => .done (by simp)) <|
    .or (hr .pattern).any .fail

theorem reads_restPattern : Reads [] (restPattern recur) Shape.HeadFree :=
  .headFree rfl rfl <|
  .bind (.punct rfl) fun _ hd =>
  .step (reads_patternTarget hr) fun _ =>
  .done ⟨by simp, by simp, by simpa using hd.headFree⟩

theorem reads_patternWithDefault : Reads [] (patternWithDefault recur) Any :=
  .step (reads_patternTarget hr) fun _ =>
  .or (.free rfl <|
    .step (.punct rfl) fun _ =>
    .last (hr _) (by simp)) <|
  .or (.done (by simp)) .fail

theorem reads_pairPattern : Reads [] (pairPattern recur) Any :=
  .free rfl <|
  .step (reads_propertyName hr) fun _ =>
  .step (.punct rfl) fun _ =>
  .last (reads_patternWithDefault hr) (by simp)

theorem reads_shorthandPattern : Reads [] (shorthandPattern recur) Any :=
  .step (reads_nameAs (by decide)) fun _ =>
  .or (.free rfl <|
    .step (.punct rfl) fun _ =>
    .last (hr _) (by simp)) <|
  .or (.done (by simp)) .fail

theorem reads_objectPattern : Reads [] (objectPattern recur) Shape.HeadFree :=
  reads_brackets_headFree rfl rfl rfl rfl <|
  .or (reads_restPattern hr).any <|
  .or (reads_pairPattern hr) <|
  .or (reads_shorthandPattern hr) .fail

theorem reads_arrayPattern : Reads [] (arrayPattern recur) Shape.HeadFree :=
  reads_brackets_headFree rfl rfl rfl rfl (reads_patternWithDefault hr)

theorem reads_pattern : Reads [] (pattern recur) Shape.HeadFree := by
  refine .skip .peekPunct fun t => ?_
  split
  · exact reads_objectPattern hr
  · exact reads_arrayPattern hr
  · exact reads_restPattern hr
  · refine .skip (passes_afterWord _) fun access => .ite (fun _ => hr .target) fun _ => ?_
    exact .or (.weaken (.wordAs _ rfl) fun _ h => h.headFree rfl) <|
      .or (.weaken (.wordAs _ rfl) fun _ h => h.headFree rfl) <|
      .or (reads_identifier.weaken fun _ h => h.headFree rfl) .fail

/-! ## Names of types -/

omit hr

/-- Two neighbours read as one token. -/
theorem row_merge {n a b : Nat} {s t : Shape} (h : Row n a [s, t] b) (text : String) :
    Row n a [.token text s.start t.stop] b := by
  have hs := h.plain s (by simp)
  have ht := h.plain t (by simp)
  obtain ⟨h₁, h₂, h₃, h₄⟩ := (Aligned.cons_iff hs).1 h.aligned
  obtain ⟨i₁, i₂, i₃, i₄⟩ := (Aligned.cons_iff ht).1 h₄
  exact .leaf rfl h₁ (Nat.lt_trans (Nat.lt_of_lt_of_le h₂ i₁) i₂) h₃ i₄

theorem row_relabel {n a b : Nat} {s : Shape} (hs : IsLeaf k s) {k' : Kind}
    (hk : (Label.named k').standsAlone = true) (front : List Shape) (h : Row n a (front ++ [s]) b) :
    Row n a (front ++ [s.relabel k']) b := by
  obtain ⟨c, hfront, hlast⟩ := h.of_append
  obtain ⟨h₁, h₂, h₃, h₄⟩ := (Aligned.cons_iff (hlast.plain s (by simp))).1 hlast.aligned
  obtain ⟨x, y, rfl⟩ := hs
  exact hfront.append (.leaf hk h₁ h₂ h₃ h₄)

theorem reads_predefinedType : Reads [] predefinedType Any := by
  refine .free rfl <| .or ?_ <|
    .or (.last (.keywordOf _) (by simp)) .fail
  refine .step (.keyword _) fun u => .step (.keyword _) fun s => ?_
  intro input a pos l next hrow h
  cases h
  exact ⟨row_merge hrow _, by simp⟩

/-- A dot and the word behind it. -/
def IsDotted (p : Shape × Shape) : Prop := IsToken p.1 ∧ IsLeaf .identifier p.2

theorem reads_dottedWords : Reads [] dottedWords (∀ p ∈ ·, IsDotted p) := by
  intro input a pos l next hrow h
  refine Reads.repeatUpTo rfl (fun xs ys => flatMap_append) ?_ _ hrow h
  refine .bind (.punct rfl) fun dot hdot => .bind (.anyWord rfl) fun w hw => ?_
  exact .done ⟨by simp, by simpa using ⟨hdot, hw⟩⟩

/-- An access by a word, which becomes the name of a property. -/
theorem row_wordAccess {n a b : Nat} {left dot w : Shape} (hk : k.role = .member ∨ k.role = .free)
    (hw : IsDotted (dot, w)) (h : Row n a [left, dot, w] b) (d : Nat) :
    Row n a [.branch k d
      [left.part .object, dot, (w.relabel .propertyIdentifier).part .property]] b := by
  have hrow : Row n a [left, dot, w.relabel .propertyIdentifier] b :=
    row_relabel hw.2 (by decide) [left, dot] h
  refine (hrow.congr (by simp)).branch (by simp) ?_ d
  change k.role.Fits _
  rcases hk with hk | hk <;> rw [hk]
  · change ∀ c ∈ [left.part .object, dot, (w.relabel .propertyIdentifier).part .property], _
    simp only [forall_mem_cons]
    exact ⟨nofun, fun hf => absurd hf hw.1.field_ne, fun _ => rfl, nofun⟩
  · trivial

theorem callFree_wordAccess {left dot w : Shape} (hk : (Label.named k).isCall = false)
    (hw : IsDotted (dot, w)) (hleft : left.CallFree) (d : Nat) :
    (Shape.branch k d
      [left.part .object, dot, (w.relabel .propertyIdentifier).part .property]).CallFree := by
  refine .mk hk ?_
  simp only [forall_mem_cons, Shape.callFree_part]
  obtain ⟨x, y, rfl⟩ := hw.2
  exact ⟨hleft, hw.1.callFree, .mk rfl (forall_mem_nil _), forall_mem_nil _⟩

theorem row_nestedName {n a b : Nat} {words : List (Shape × Shape)} {left : Shape}
    (hwords : ∀ p ∈ words, IsDotted p) (hleft : left.CallFree)
    (h : Row n a (left :: words.flatMap fun p => [p.1, p.2]) b) :
    Row n a [nestedName words left] b ∧ (nestedName words left).CallFree := by
  induction words generalizing left with
  | nil => exact ⟨h, hleft⟩
  | cons p rest ih =>
    obtain ⟨dot, w⟩ := p
    have hp : IsDotted (dot, w) := hwords _ mem_cons_self
    rcases rest with _ | ⟨q, rest⟩
    · exact ⟨row_wordAccess (.inr rfl) hp h _, callFree_wordAccess rfl hp hleft _⟩
    · obtain ⟨c, hfront, hrest⟩ := Row.of_append (l := [left, dot, w]) h
      refine ih (fun p hm => hwords p (mem_cons_of_mem _ hm)) ?_ ?_
      · exact callFree_wordAccess rfl hp hleft _
      · exact (row_wordAccess (.inl rfl) hp hfront _).append hrest

theorem reads_entityName : Reads [] entityName Shape.CallFree := by
  refine .bind (.anyWord rfl) fun first hfirst => ?_
  refine .bind reads_dottedWords fun words hwords => ?_
  intro input a pos s next hrow h
  cases h
  exact row_nestedName hwords (hfirst.callFree rfl) hrow

theorem reads_typeName : Reads [] typeName Any := by
  refine .bind (.anyWord rfl) fun first hfirst => ?_
  refine .bind reads_dottedWords fun words hwords => ?_
  intro input a pos s next hrow h
  cases hrev : words.reverse with
  | nil =>
    rw [hrev] at h
    cases h
    obtain rfl := reverse_eq_nil_iff.1 hrev
    exact ⟨row_relabel hfirst (by decide) [] hrow, trivial⟩
  | cons p front =>
    obtain ⟨dot, last⟩ := p
    rw [hrev] at h
    cases h
    obtain rfl : words = front.reverse ++ [(dot, last)] := by
      rw [← reverse_reverse words, hrev, reverse_cons]
    simp only [forall_mem_append, forall_mem_singleton] at hwords
    rw [parts_pairs, flatMap_append, ← append_assoc] at hrow
    obtain ⟨c, hfront, hlast⟩ := hrow.of_append
    obtain ⟨hq, -⟩ := row_nestedName hwords.1 (hfirst.callFree rfl) hfront
    have hall := row_relabel hwords.2.2 (show (Label.named .typeIdentifier).standsAlone = true by decide)
      [nestedName front.reverse first, dot] (hq.append hlast)
    exact ⟨(hall.congr (by simp)).branch (by simp) (fits_of_free rfl _) _, trivial⟩

include hr

theorem reads_typeReference : Reads [] (typeReference recur) Any :=
  .step reads_typeName fun _ =>
  .or (.free rfl <|
    .last (reads_typeArguments hr) (by simp)) <|
  .or (.done (by simp)) .fail

/-! ## Members of object types -/

theorem reads_mappedTypeClause : Reads [] (mappedTypeClause recur) Any :=
  .free rfl <|
  .step (.anyWord rfl) fun _ =>
  .step (.keyword _) fun _ =>
  .step (hr _) fun _ =>
  .step (.optAll (P := Any)
    (.step (.keyword _) fun _ => .last (hr _) (by simp)) trivial) fun _ =>
  .done (by simp)

theorem reads_indexedResult : Reads [] (indexedResult recur) Any :=
  .or (.free rfl <|
    .step (.symbol rfl) fun _ => .last (hr _) (by simp)) <|
  .or (.free rfl <|
    .step (.symbol rfl) fun _ => .last (hr _) (by simp)) <|
  .or (.free rfl <|
    .step (.symbol rfl) fun _ => .last (hr _) (by simp)) <|
  .or (reads_annotatedType hr) .fail

theorem reads_indexSignature : Reads [] (indexSignature recur) Any :=
  .free rfl <|
  .step (.optAll (P := Any)
    (.step (.opt (.punctOf (by decide))) fun _ =>
      .last (.keyword _) (by simp)) trivial) fun _ =>
  .step (.punct rfl) fun _ =>
  .step (P := Any)
    (.or (.last (reads_mappedTypeClause hr) (by simp)) <|
      .or (.step (.anyWord rfl) fun _ =>
        .step (.punct rfl) fun _ =>
        .last (hr _) (by simp)) .fail) fun _ =>
  .step (.punct rfl) fun _ =>
  .last (.opt (reads_indexedResult hr)) (by simp)

theorem reads_constructSignature : Reads [] (constructSignature recur) Any :=
  .free rfl <|
  .step (.opt (.keyword _)) fun _ =>
  .step (.keyword _) fun _ =>
  .step (.opt (reads_typeParameters hr)) fun _ =>
  .step (reads_formalParameters hr) fun _ =>
  .last (.opt (reads_annotatedType hr)) (by simp)

omit hr

theorem reads_beforeName {P : Shape → Prop} (hp : Reads [] p P) :
    Reads [] (do
      let m ← p
      guardThat (← propertyNameAhead)
      return m) P :=
  hp.bind fun _ hm =>
  .skip passes_propertyNameAhead fun _ =>
  .guard fun _ =>
  .done ⟨by simp, hm⟩

theorem reads_modifiers : Reads [] (many (do
    return [← firstOf [
      do
        let m ← accessibilityModifier
        guardThat (← propertyNameAhead)
        return m,
      modifier "static",
      do
        let m ← wordAs .overrideModifier "override"
        guardThat (← propertyNameAhead)
        return m,
      modifier "readonly", modifier "async", modifier "get", modifier "set", punct "*"]]))
    (∀ s ∈ ·, s.HeadFree ∧ s.field = none) := by
  have htoken {s : Shape} (h : IsToken s) : s.HeadFree ∧ s.field = none :=
    ⟨h.headFree, h.field_eq_none⟩
  have hword (w : String) : Reads [] (modifier w) fun s => s.HeadFree ∧ s.field = none :=
    (reads_modifier w).weaken fun _ => htoken
  have haccess : Reads [] accessibilityModifier fun s => s.HeadFree ∧ s.field = none :=
    (reads_accessibilityModifier.and Yields.node).weaken fun _ h => ⟨h.1, h.2.2⟩
  have hoverride : Reads [] (wordAs .overrideModifier "override") fun s =>
      s.HeadFree ∧ s.field = none := by
    refine .weaken (.wordAs _ rfl) fun s h => ⟨h.headFree rfl, ?_⟩
    obtain ⟨a, b, rfl⟩ := h
    rfl
  exact .many <| .single <|
    .or (reads_beforeName haccess) <|
    .or (hword _) <|
    .or (reads_beforeName hoverride) <|
    .or (hword _) <| .or (hword _) <| .or (hword _) <|
    .or (hword _) <|
    .or (.weaken (.punct rfl) fun _ => htoken) .fail

include hr

theorem reads_namedTypeMember : Reads [] (namedTypeMember recur) Any := by
  refine .skip .nextStart fun start =>
    .bind reads_modifiers fun mods hmods =>
    .bind (reads_propertyName hr) fun name hname =>
    .bind (.opt (.punct rfl)) fun mark hmark => ?_
  refine .or (.bind (reads_callSignature hr) fun sig hsig => ?_) <|
    .or (.step (.opt (reads_annotatedType hr)) fun t => ?_) .fail
  · have hmethod := hsig.methodical hmods hname hmark (forall_mem_nil _)
    rw [append_nil] at hmethod
    exact .doneBranch (by simp) (by simp) hmethod trivial
  · refine .doneBranch (by simp) (by simp) ⟨?_, name.part .name, by simp, rfl⟩ trivial
    simp only [append_assoc, cons_append, nil_append]
    refine .append (fun s hs => (hmods s hs).1) (.cons (Shape.headFree_part.2 hname) ?_)
    exact forall_mem_append.2
      ⟨fun s hs => (hmark s hs).tame, Shape.tame_map_part (by decide) t⟩

theorem reads_typeMember : Reads [] (typeMember recur) Any :=
  .or (.free rfl ((reads_callSignature hr).weaken fun _ hl => hl.ne_nil)) <|
  .or (reads_constructSignature hr) <|
  .or (reads_indexSignature hr) <|
  .or (reads_namedTypeMember hr) .fail

theorem reads_objectTypeBody (hk : k.role = .free) : Reads [] (objectTypeBody recur k) Any :=
  .free hk <|
  .step (.punct rfl) fun _ =>
  .step (.many (.single (P := Any)
    (.or (.any (.punct rfl)) <|
      .or (.any (.punct rfl)) <|
      .or (reads_typeMember hr) .fail))) fun _ =>
  .last (.punct rfl) (by simp)

/-! ## Primary types -/

theorem reads_tupleMember : Reads [] (tupleMember recur) Any := by
  have hname : Reads [] (firstOf [node .restPattern do return [← punct "...", ← anyWord .identifier],
      anyWord .identifier]) Shape.HeadFree :=
    .or (.headFree rfl rfl <|
      .bind (.punct rfl) fun _ hd =>
      .step (.anyWord rfl) fun _ =>
      .done ⟨by simp, by simp, by simpa using hd.headFree⟩) <|
    .or (.weaken (.anyWord rfl) fun _ h => h.headFree rfl)
      .fail
  refine .or (.declaring rfl <|
      hname.bind fun name hname =>
      .step (reads_annotatedType hr) fun t =>
      .done ⟨by simp, by simp, .cons (Shape.headFree_part.2 hname) ?_⟩) <|
    .or (.declaring rfl <|
      .bind (.anyWord rfl) fun name hname =>
      .bind (.punct rfl) fun q hq =>
      .step (reads_annotatedType hr) fun t =>
      .done ⟨by simp, by simp, .cons (Shape.headFree_part.2 (hname.headFree rfl)) ?_⟩) <|
    .or (.free rfl <|
      .step (.punct rfl) fun _ => .last (hr _) (by simp)) <|
    .or (.step (hr _) fun _ =>
      .or (.free rfl <| .last (.punct rfl) (by simp)) <|
      .or (.done (by simp)) .fail) .fail
  · exact forall_mem_singleton.2 (Shape.tame_part (by decide))
  · exact forall_mem_cons.2
      ⟨hq.tame, forall_mem_singleton.2 (Shape.tame_part (by decide))⟩

theorem reads_functionType : Reads [] (functionType recur) Any := by
  refine .node <|
    .step (.opt (reads_typeParameters hr)) fun tps =>
    .step (reads_formalParameters hr) fun ps =>
    .bind (.punct rfl) fun arrow harrow =>
    .step (P := Any) (.or (reads_assertsClause hr) <|
      .or (reads_typePredicate hr) <| .or (hr _) .fail) fun result =>
    .done ⟨by simp, by simp, ?_, fun _ => trivial⟩
  change ∀ c ∈ _, _
  simp only [forall_mem_append, forall_mem_cons, forall_mem_map]
  exact ⟨fun _ _ => nofun, nofun, harrow.field_ne, nofun, nofun⟩

theorem reads_constructorType : Reads [] (constructorType recur) Any := by
  refine .node <|
    .bind (.opt (.keyword _)) fun a ha =>
    .bind (.keyword _) fun n hn =>
    .step (.opt (reads_typeParameters hr)) fun tps =>
    .step (reads_formalParameters hr) fun ps =>
    .bind (.punct rfl) fun arrow harrow =>
    .step (hr _) fun result =>
    .done ⟨by simp, by simp, ?_, fun _ => trivial⟩
  change ∀ c ∈ _, _
  simp only [forall_mem_append, forall_mem_cons, forall_mem_map]
  exact ⟨⟨⟨fun s hs => (ha s hs).field_ne, hn.field_ne, nofun⟩, fun _ _ => nofun⟩, nofun,
    harrow.field_ne, nofun, nofun⟩

theorem reads_importCall : Reads [] (node .callExpression do
    let i ← wordAs .importKeyword "import"
    let args ← arguments recur
    return [i.part .function, args.part .arguments]) Any :=
  .free rfl <|
  .step (.wordAs _ rfl) fun _ =>
  .last (reads_arguments hr) (by simp)

omit hr

theorem reads_optionalChain : Reads [] (do
    let t ← punct "?."
    return (Shape.leaf .optionalChain t.start t.stop).part .optionalChain)
    (·.field ≠ some .property) :=
  (Reads.asLeaf (k := .optionalChain) (f := some .optionalChain) (.punct rfl)
    (by decide)).weaken fun s hs => by
      obtain ⟨a, b, rfl⟩ := hs
      exact nofun

theorem reads_memberName : Reads [] (firstOf [privateName, anyWord .propertyIdentifier])
    (·.label.kind?.any Kind.isIdentifier = true) :=
  .or (Reads.privateName.weaken fun _ => IsLeaf.isIdentifier rfl) <|
  .or (.weaken (.anyWord rfl) fun _ => IsLeaf.isIdentifier rfl) .fail

include hr

theorem reads_typeQuerySubject : Reads [] (typeQuerySubject recur) Any := by
  refine .step (P := Any) (.or (reads_importCall hr) <|
    .or (.any (.wordAs _ rfl)) <|
    .or (.any (.anyWord rfl)) .fail) fun first => ?_
  refine .takeOver (P := Any) [] (.grow (fun left _ => ?_) trivial) fun accessed _ => ?_
  · refine .or (reads_memberAccess ?_ reads_memberName).any <|
      .or (.free rfl ?_) .fail
    · exact .or (.weaken (.punct rfl) fun _ => IsToken.field_ne) <|
        .or reads_optionalChain .fail
    · exact .skip .newlineAhead fun _ =>
        .guard fun _ =>
        .step (.punct rfl) fun _ =>
        .step (P := Any) (.or reads_predefinedType <|
          .or reads_stringLiteral.any <|
          .or Reads.number.any .fail) fun _ =>
        .last (.punct rfl) (by simp)
  · exact .or (.free rfl <|
        .last (reads_typeArguments hr) (by simp)) <|
      .or (.done (by simp)) .fail

theorem reads_importedType : Reads [] (importedType recur) Any := by
  refine .step (reads_importCall hr) fun first => ?_
  refine .takeOver (P := Any) [] (.grow (fun left _ => (reads_dotAccess left).any) trivial)
    fun accessed _ => ?_
  exact .or (.free rfl <|
      .last (reads_typeArguments hr) (by simp)) <|
    .or (.done (by simp)) .fail

theorem reads_inferType : Reads [] (inferType recur) Any :=
  .free rfl <|
  .step (.keyword _) fun _ =>
  .step (.anyWord rfl) fun _ =>
  .step (.optAll (P := Any)
    (.step (.keyword _) fun _ => .last (hr _) (by simp)) trivial) fun _ =>
  .done (by simp)

omit hr

theorem reads_literalType : Reads [] literalType Any :=
  .free rfl <|
  .step (P := Any)
    (.or (.any (.wordAs _ rfl)) <|
      .or (.any (.wordAs _ rfl)) <|
      .or (.any (.wordAs _ rfl)) <|
      .or (.any (.wordAs _ rfl)) <|
      .or reads_stringLiteral.any <|
      .or Reads.number.any <|
      .or (.free rfl <|
        .step (.punctOf (by decide)) fun _ =>
        .last .number (by simp)) .fail) fun _ =>
  .done (by simp)

theorem reads_prefixWord (w : String) : Reads [] (prefixWord w) IsToken :=
  .bind (.keyword w) fun _ ht =>
  .skip .peekWord fun _ =>
  .skip .peekChar fun _ =>
  .guard fun _ =>
  .done ⟨by simp, ht⟩

include hr

theorem reads_wordType (w : String) : Reads [] (wordType recur w) Any := by
  have href := reads_typeReference hr
  unfold wordType
  split
  · exact .free rfl <|
      .step (.keyword _) fun _ => .last (reads_typeQuerySubject hr) (by simp)
  iterate 2
    exact .or (.free rfl <|
      .step (reads_prefixWord _) fun _ => .last (hr _) (by simp)) <|
      .or href .fail
  · exact .or (reads_inferType hr) <| .or href .fail
  · exact reads_constructorType hr
  · exact .or (reads_constructorType hr) <| .or href .fail
  · exact .or reads_predefinedType <| .or href .fail
  · exact .any (.wordAs _ rfl)
  · exact reads_importedType hr
  iterate 4 exact reads_literalType
  · exact .ite (fun _ => reads_predefinedType) fun _ => href

theorem reads_primaryType : Reads [] (primaryType recur) Any := by
  refine .skip .peekWord fun w => .ite (fun _ => reads_wordType hr w) fun _ => ?_
  refine .skip .peekChar fun c => ?_
  split
  · exact .or (reads_functionType hr) <| .or (.free rfl <|
      .step (.punct rfl) fun _ =>
      .step (hr _) fun _ =>
      .last (.punct rfl) (by simp)) .fail
  · exact reads_functionType hr
  · exact reads_objectTypeBody hr rfl
  · exact reads_brackets rfl rfl rfl (reads_tupleMember hr)
  · exact reads_template rfl rfl (hr _)
  · exact reads_literalType

theorem reads_typeOperand : Reads [] (typeOperand recur) Any := by
  refine .step (reads_primaryType hr) fun first => .grow (P := Any) (fun left _ => ?_) trivial
  refine .skip .newlineAhead fun _ => .guard fun _ => ?_
  exact .or (.free rfl <|
      .step (.punct rfl) fun _ =>
      .last (.punct rfl) (by simp)) <|
    .or (.free rfl <|
      .step (.punct rfl) fun _ =>
      .step (hr _) fun _ =>
      .last (.punct rfl) (by simp)) .fail

omit hr in
theorem reads_joinedTypes {op : String} (hop : op.isEmpty = false) (hk : k.role = .free)
    {operand : Reader Shape} (hoperand : Reads [] operand Any) :
    Reads [] (joinedTypes op k operand) Any := by
  refine .skip .nextStart fun start =>
    .step (.opt (.punct hop)) fun lead => hoperand.step fun first => ?_
  have hgrow (left : Shape) :
      Reads [left] (grow (fun left => node k do return [left, ← punct op, ← operand]) left) Any :=
    .grow (fun left _ => .free hk <|
      .step (.punct hop) fun _ => hoperand.step fun _ => .done (by simp)) trivial
  intro input a pos s next hrow h
  refine hgrow _ ?_ h
  rcases lead with _ | ⟨t, lead⟩
  · exact hrow
  · exact hrow.branch (by simp) (fits_of_free hk _) start

theorem reads_unionType : Reads [] (unionType recur) Any :=
  reads_joinedTypes rfl rfl (reads_joinedTypes rfl rfl (reads_typeOperand hr))

theorem reads_typeExpression : Reads [] (typeExpression recur) Any :=
  .step (reads_unionType hr) fun _ =>
  .or (.free rfl <|
    .step (.keyword _) fun _ =>
    .step (hr _) fun _ =>
    .step (.punct rfl) fun _ =>
    .step (hr _) fun _ =>
    .step (.punct rfl) fun _ =>
    .last (hr _) (by simp)) <|
  .or (.done (by simp)) .fail

end Grammar

end ScriptAtlas.Syntax
