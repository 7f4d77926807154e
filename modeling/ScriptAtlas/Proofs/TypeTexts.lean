import Mathlib.Data.List.TakeWhile
import ScriptAtlas.Proofs.TextCuts
import ScriptAtlas.Symbol.Type

/-!
# What the text of a type tells

The text of a type shows its grouping only in part: the element of an array is put into parentheses,
the members of a union or an intersection never are.

* `Written grouped t`: types of names, arrays, tuples, functions, unions and intersections; where they
  are `grouped`, no union is a member of an intersection, and a function comes last among the members;
* `read`: reads the text of a type;
* `Written.readsBack`: a grouped type is what its text is read as.
-/

namespace ScriptAtlas.StaticType

open List Syntax Text

/-! ## Types that can be told apart -/

/-- Characters that part names. -/
def isDelimiter (c : Char) : Bool :=
  [' ', '(', ')', '[', ']', '<', '>', ',', '|', '&', ':', '='].contains c

/-- A text that can be the name of a type or a parameter. -/
def IsName (s : String) : Prop := s ≠ "" ∧ s.toList.all (!isDelimiter ·) = true

instance (s : String) : Decidable (IsName s) := inferInstanceAs (Decidable (_ ∧ _))

def primitives : List String :=
  Grammar.predefinedTypes ++ ["unique symbol", "null", "undefined"]

def isUnion : StaticType → Bool
  | union _ => true
  | _ => false

def isIntersection : StaticType → Bool
  | intersection _ => true
  | _ => false

/-- Types whose text ends in the result of a function. -/
def endsInResult : StaticType → Bool
  | function _ _ => true
  | intersection members => members.getLast?.any fun m => m.isCompound
  | _ => false

/-- Types made of names, where a union is no member of a union and an intersection none of an
intersection. In a grouped type, parentheses around members would be needless. -/
inductive Written (grouped : Prop) : StaticType → Prop
  | primitive {text : String} (h : text ∈ primitives) : Written grouped (.primitive text)
  | named {name : String} {args : List StaticType} (hname : IsName name) (hnew : name ∉ primitives)
      (h : ∀ a ∈ args, Written grouped a) : Written grouped (.named name args)
  | array {element : StaticType} (h : Written grouped element) : Written grouped (.array element)
  | tuple {elements : List StaticType} (h : ∀ e ∈ elements, Written grouped e) :
      Written grouped (.tuple elements)
  | function {parameters : List (String × StaticType)} {result : StaticType}
      (hname : ∀ p ∈ parameters, IsName p.1) (h : ∀ p ∈ parameters, Written grouped p.2)
      (hresult : Written grouped result) : Written grouped (.function parameters result)
  | union {members : List StaticType} (hlen : 2 ≤ members.length)
      (h : ∀ m ∈ members, Written grouped m) (hflat : ∀ m ∈ members, m.isUnion = false)
      (hlast : grouped → ∀ m ∈ members.dropLast, m.endsInResult = false) :
      Written grouped (.union members)
  | intersection {members : List StaticType} (hlen : 2 ≤ members.length)
      (h : ∀ m ∈ members, Written grouped m) (hflat : ∀ m ∈ members, m.isIntersection = false)
      (hunion : grouped → ∀ m ∈ members, m.isUnion = false)
      (hlast : grouped → ∀ m ∈ members.dropLast, m.endsInResult = false) :
      Written grouped (.intersection members)

/-! ## Reading texts -/

/-- A value at the beginning of a text, and the text behind it. -/
abbrev Reading (α : Type) := List Char → Option (α × List Char)

/-- Items with separators between them, at most `n`. -/
def items {α : Type} (sep : String) (item : Reading α) : Nat → Reading (List α)
  | 0, _ => none
  | n + 1, s => do
    let (x, s) ← item s
    match afterList? sep.toList s with
    | none => return ([x], s)
    | some s =>
      let (xs, s) ← items sep item n s
      return (x :: xs, s)

/-- Items with commas between them up to a bracket. -/
def itemsUntil {α : Type} (close : Char) (item : Reading α) : Reading (List α) := fun s =>
  if s.head? = some close then return ([], s.tail)
  else do
    let (xs, s) ← items ", " item (s.length + 1) s
    let s ← afterList? [close] s
    return (xs, s)

/-- The arrays that the brackets behind a type make of it. -/
def arrays : StaticType → Reading StaticType
  | t, '[' :: ']' :: s => arrays (.array t) s
  | t, s => some (t, s)

def readParameter (type : Reading StaticType) : Reading (String × StaticType) := fun s => do
  let name := String.ofList (s.takeWhile (!isDelimiter ·))
  let s ← afterList? ": ".toList (s.dropWhile (!isDelimiter ·))
  let (t, s) ← type s
  return ((name, t), s)

/-- Characters behind which a list goes on or is at its end. -/
abbrev closers : List Char := [',', '>', ']', ')']

/-- Whether a type begins here, and not a parameter or the end of a list. -/
def startsType (s : List Char) : Bool :=
  s.head?.all (· ∉ closers) && (s.dropWhile (!isDelimiter ·)).head? != some ':'

/-- A type that begins with a name. -/
def readNamed (type : Reading StaticType) : Reading StaticType := fun s =>
  let name := String.ofList (s.takeWhile (!isDelimiter ·))
  match s.dropWhile (!isDelimiter ·) with
  | ' ' :: 's' :: s => arrays (.primitive "unique symbol") (s.drop 5)
  | '<' :: s => do
    let (args, s) ← itemsUntil '>' type s
    arrays (.named name args) s
  | s => arrays (if name ∈ primitives then .primitive name else .named name []) s

/-- A type without operators, given how to read the types in it. -/
def readFactor (type : Reading StaticType) : Reading StaticType
  | '(' :: s =>
    if startsType s then do
      let (t, s) ← type s
      let s ← afterList? [')'] s
      arrays t s
    else do
      let (ps, s) ← itemsUntil ')' (readParameter type) s
      let s ← afterList? " => ".toList s
      let (result, s) ← type s
      return (.function ps result, s)
  | '[' :: s => do
    let (elements, s) ← itemsUntil ']' type s
    arrays (.tuple elements) s
  | s => readNamed type s

/-- The operators, by how closely they bind. -/
inductive Operator where
  | and | or

namespace Operator

def text : Operator → String
  | and => " & "
  | or => " | "

/-- What an operator joins in a type. -/
def members : Operator → StaticType → List StaticType
  | and, .intersection ms => ms
  | or, .union ms => ms
  | _, t => [t]

def join : Operator → List StaticType → StaticType
  | _, [t] => t
  | and, ms => .intersection ms
  | or, ms => .union ms

/-- Types joined by an operator. -/
def reading (op : Operator) (item : Reading StaticType) : Reading StaticType := fun s => do
  let (ms, s) ← items op.text item (s.length + 1) s
  return (op.join ms, s)

end Operator

/-- The type at the beginning of a text; `n` bounds how deeply types are nested. -/
def read : Nat → Reading StaticType
  | 0, _ => none
  | n + 1, s => Operator.or.reading (Operator.and.reading (readFactor (read n))) s

variable {t u : StaticType} {s r : List Char} {grouped : Prop} {type : Reading StaticType}
variable {name : String}

/-! ## Lists -/

theorem afterList?_append (p s : List Char) : afterList? p (p ++ s) = some s :=
  afterList?_eq_some_iff.2 rfl

section Lists

variable {α : Type} {text : α → String} {sep : String} {item : Reading α} {xs : List α}

theorem toList_join_cons_cons (text : α → String) (x y : α) (l : List α) (r : List Char) :
    (Text.join sep ((x :: y :: l).map text)).toList ++ r =
      (text x).toList ++ (sep.toList ++ ((Text.join sep ((y :: l).map text)).toList ++ r)) := by
  simp [Text.join]

theorem items_join {n : Nat} (hr : afterList? sep.toList r = none) (hne : xs ≠ []) (hn : xs.length ≤ n)
    (hinit : ∀ x ∈ xs.dropLast, ∀ s,
      item ((text x).toList ++ (sep.toList ++ s)) = some (x, sep.toList ++ s))
    (hlast : ∀ x ∈ xs.getLast?, item ((text x).toList ++ r) = some (x, r)) :
    items sep item n ((Text.join sep (xs.map text)).toList ++ r) = some (xs, r) := by
  induction xs generalizing n with
  | nil => exact absurd rfl hne
  | cons x xs ih =>
    obtain ⟨n, rfl⟩ : ∃ m, n = m + 1 := ⟨n - 1, by simp at hn; omega⟩
    cases xs with
    | nil =>
      have hx : item ((Text.join sep ([x].map text)).toList ++ r) = some (x, r) := hlast x rfl
      simp only [items, hx, hr, Option.bind_eq_bind, Option.bind_some]
      rfl
    | cons y xs =>
      have hx := hinit x mem_cons_self ((Text.join sep ((y :: xs).map text)).toList ++ r)
      have hrest := ih (cons_ne_nil _ _) (Nat.le_of_succ_le_succ hn)
        (fun z hz => hinit z (mem_cons_of_mem _ hz)) (by simpa using hlast)
      simp only [toList_join_cons_cons, items, hx, Option.bind_eq_bind, Option.bind_some,
        afterList?_append, hrest]
      rfl

theorem length_le_join (hsep : sep ≠ "") (l : List String) :
    l.length ≤ (Text.join sep l).toList.length + 1 := by
  induction l with
  | nil => simp
  | cons x l ih =>
    cases l with
    | nil => simp
    | cons y l =>
      have hpos : 0 < sep.toList.length := length_pos_iff.2 (mt String.toList_eq_nil_iff.1 hsep)
      simp only [Text.join, String.toList_append, length_append, length_cons] at ih ⊢
      omega

/-- The text ends here, or what surrounds it goes on. -/
def Stops (s : List Char) : Prop := ∀ c ∈ s.head?, c ∈ closers

theorem stops_cons {c : Char} (hc : c ∈ closers) (s : List Char) : Stops (c :: s) := by
  rintro _ ⟨⟩
  exact hc

theorem itemsUntil_join {close : Char} (hclose : close ∈ ['>', ']', ')'])
    (hstart : ∀ x ∈ xs, ∀ s, Stops s → ((text x).toList ++ s).head? ≠ some close)
    (hitem : ∀ x ∈ xs, ∀ s, Stops s → item ((text x).toList ++ s) = some (x, s)) :
    itemsUntil close item ((Text.join ", " (xs.map text)).toList ++ close :: r) = some (xs, r) := by
  have hend := stops_cons (mem_cons_of_mem ',' hclose) r
  have hcomma (s : List Char) : Stops (", ".toList ++ s) := stops_cons (by decide) _
  have hne : ',' ≠ close := fun h => absurd (h ▸ hclose) (by decide)
  unfold itemsUntil
  cases xs with
  | nil => simp [Text.join]
  | cons x xs =>
    have hlen := length_le_join (by decide : ", " ≠ "") ((x :: xs).map text)
    rw [length_map] at hlen
    rw [if_neg, items_join (by simp [afterList?, hne]) (cons_ne_nil x xs)
      (by rw [length_append]; omega)
      (fun x hx s => hitem x (dropLast_subset _ hx) _ (hcomma s))
      (fun x hx => hitem x (mem_of_getLast? hx) _ hend)]
    · simp [afterList?]
    · cases xs with
      | nil => exact hstart x mem_cons_self _ hend
      | cons y xs =>
        rw [toList_join_cons_cons]
        exact hstart x mem_cons_self _ (hcomma _)

end Lists

/-! ## Types without operators -/

theorem renderAll_eq_map (ts : List StaticType) : renderAll ts = ts.map render := by
  induction ts with
  | nil => rfl
  | cons t ts ih => rw [renderAll, ih, map_cons]

def parameterText (p : String × StaticType) : String := p.1 ++ ": " ++ p.2.render

theorem renderParameters_eq_map (ps : List (String × StaticType)) :
    renderParameters ps = ps.map parameterText := by
  induction ps with
  | nil => rfl
  | cons p ps ih => rw [renderParameters, ih, map_cons, parameterText]

theorem IsName.takeWhile_append (h : IsName name)
    (hs : ∀ c ∈ s.head?, isDelimiter c = true) :
    (name.toList ++ s).takeWhile (!isDelimiter ·) = name.toList ∧
      (name.toList ++ s).dropWhile (!isDelimiter ·) = s := by
  have hall := all_eq_true.1 h.2
  rw [takeWhile_append_of_pos hall, dropWhile_append_of_pos hall]
  cases s with
  | nil => simp
  | cons c s => simp [hs c rfl]

theorem IsName.toList_eq_cons (h : IsName name) :
    ∃ c l, name.toList = c :: l ∧ isDelimiter c = false := by
  obtain ⟨c, l, hc⟩ := exists_cons_of_ne_nil fun hnil => h.1 (String.toList_inj.1 hnil)
  exact ⟨c, l, hc, by simpa using all_eq_true.1 h.2 c (hc ▸ mem_cons_self)⟩

theorem isName_or_eq_of_primitive :
    ∀ text ∈ primitives, IsName text ∨ text = "unique symbol" := by
  decide +kernel

theorem readFactor_of_name (h : IsName name) :
    readFactor type (name.toList ++ s) = readNamed type (name.toList ++ s) := by
  obtain ⟨c, l, hc, hfree⟩ := h.toList_eq_cons
  rw [hc, cons_append, readFactor]
  iterate 2
    rintro s ⟨rfl, -⟩
    cases hfree

theorem isDelimiter_of_mem_closers {c : Char} (h : c ∈ closers) :
    isDelimiter c = true ∧ c ≠ ':' := by
  simp only [mem_cons, not_mem_nil, or_false] at h
  rcases h with rfl | rfl | rfl | rfl <;> decide

/-- What follows a type: the end, or one of several texts if the type does not end in the result of a
function, which would take them in. -/
def Behind (ps : List String) (t : StaticType) (s : List Char) : Prop :=
  Stops s ∨ t.endsInResult = false ∧ ∃ p ∈ ps, p.toList <+: s

theorem Behind.head (h : Behind [" & ", " | ", "[]"] t s) :
    (∀ c ∈ s.head?, isDelimiter c = true ∧ c ≠ '<') ∧ ∀ z, s ≠ ' ' :: 's' :: z := by
  rcases h with h | ⟨-, p, hp, z, rfl⟩
  · refine ⟨fun c hc => ⟨(isDelimiter_of_mem_closers (h c hc)).1, ?_⟩, ?_⟩
    · rintro rfl
      exact absurd (h '<' hc) (by decide)
    · rintro z rfl
      exact absurd (h ' ' rfl) (by decide)
  · simp only [mem_cons, not_mem_nil, or_false] at hp
    rcases hp with rfl | rfl | rfl <;> exact ⟨by simp [isDelimiter], by simp⟩

theorem Behind.arrays (h : Behind [" & ", " | "] t s) : t.arrays s = some (t, s) := by
  rw [StaticType.arrays]
  rintro z rfl
  rcases h with h | ⟨-, p, hp, hpre⟩
  · exact absurd (h '[' rfl) (by decide)
  · simp only [mem_cons, not_mem_nil, or_false] at hp
    rcases hp with rfl | rfl <;> simp at hpre

theorem readFactor_bare (h : IsName name) (hs : Behind [" & ", " | ", "[]"] t s) :
    readFactor type (name.toList ++ s) =
      arrays (if name ∈ primitives then .primitive name else .named name []) s := by
  obtain ⟨htake, hdrop⟩ := h.takeWhile_append fun c hc => (hs.head.1 c hc).1
  rw [readFactor_of_name h, readNamed]
  simp only [htake, hdrop, String.ofList_toList]
  split
  · exact absurd rfl (hs.head.2 _)
  · exact absurd rfl (hs.head.1 '<' rfl).2
  · rfl

theorem toList_tuple (elements : List StaticType) : (tuple elements).render.toList ++ s =
    '[' :: ((Text.join ", " (elements.map render)).toList ++ ']' :: s) := by
  rw [render, renderAll_eq_map]
  simp

theorem toList_function (ps : List (String × StaticType)) (result : StaticType) :
    (function ps result).render.toList ++ s = '(' :: ((Text.join ", " (ps.map parameterText)).toList ++
      ')' :: (" => ".toList ++ (result.render.toList ++ s))) := by
  rw [render, renderParameters_eq_map]
  simp

theorem toList_parameterText (p : String × StaticType) : (parameterText p).toList ++ s =
    p.1.toList ++ (": ".toList ++ (p.2.render.toList ++ s)) := by
  simp [parameterText]

theorem toList_named (name : String) (a : StaticType) (args : List StaticType) :
    (named name (a :: args)).render.toList ++ s =
      name.toList ++ '<' :: ((Text.join ", " ((a :: args).map render)).toList ++ '>' :: s) := by
  rw [render, renderAll_eq_map]
  simp [applied]

/-- A name does not begin like the end of a list. -/
theorem IsName.head_append (h : IsName name) :
    ∀ c ∈ (name.toList ++ s).head?, c ∉ closers := by
  obtain ⟨c, l, hc, hfree⟩ := h.toList_eq_cons
  rw [hc]
  rintro _ ⟨⟩ hmem
  exact Bool.false_ne_true (hfree.symm.trans (isDelimiter_of_mem_closers hmem).1)

/-- What can follow a type. -/
def Follows (s : List Char) : Prop := ∀ c ∈ s.head?, isDelimiter c = true ∧ c ≠ ':'

theorem follows_cons {c : Char} (h : isDelimiter c = true ∧ c ≠ ':') (s : List Char) :
    Follows (c :: s) := by
  rintro _ ⟨⟩
  exact h

theorem IsName.startsType (h : IsName name) (hs : Follows s) :
    startsType (name.toList ++ s) = true := by
  rw [StaticType.startsType, (h.takeWhile_append fun c hc => (hs c hc).1).2, Bool.and_eq_true,
    Option.all_eq_true]
  refine ⟨fun c hc => ?_, ?_⟩
  · simpa using h.head_append c hc
  · cases s with
    | nil => rfl
    | cons d s => simpa using (hs d rfl).2

theorem Written.startsType (h : Written grouped t) (hs : Follows s) :
    startsType (t.render.toList ++ s) = true := by
  induction h generalizing s with
  | primitive h =>
    rcases isName_or_eq_of_primitive _ h with hname | rfl
    · exact hname.startsType hs
    · exact (by decide : IsName "unique").startsType (follows_cons (by decide) ("symbol".toList ++ s))
  | @named name args hname _ _ _ =>
    cases args with
    | nil => exact hname.startsType hs
    | cons a args =>
      rw [toList_named]
      exact hname.startsType (follows_cons (by decide) _)
  | @array element _ ih =>
    rw [render]
    split
    · simp [StaticType.startsType, isDelimiter]
    · rw [String.toList_append, append_assoc]
      exact ih (follows_cons (by decide) _)
  | tuple =>
    rw [toList_tuple]
    simp [StaticType.startsType, isDelimiter]
  | function =>
    rw [toList_function]
    simp [StaticType.startsType, isDelimiter]
  | @union members hlen _ _ _ ih | @intersection members hlen _ _ _ _ ih =>
    rw [render, renderAll_eq_map]
    match members, hlen with
    | m :: m' :: ms, _ =>
      rw [toList_join_cons_cons]
      exact ih m mem_cons_self (follows_cons (by decide) _)

/-! ## Types back from their texts -/

/-- The type is read off its text in front of `s`, and nothing more. -/
def Reads (item : Reading StaticType) (t : StaticType) (s : List Char) : Prop :=
  item (t.render.toList ++ s) = some (t, s)

theorem itemsUntil_types {close : Char} {ts : List StaticType} (hclose : close ∈ ['>', ']', ')'])
    (hw : ∀ a ∈ ts, Written grouped a) (h : ∀ a ∈ ts, ∀ s, Stops s → Reads type a s) :
    itemsUntil close type ((Text.join ", " (ts.map render)).toList ++ close :: s) = some (ts, s) := by
  refine itemsUntil_join hclose (fun a ha s hs hhead => ?_) h
  have hstart := (hw a ha).startsType fun c hc => isDelimiter_of_mem_closers (hs c hc)
  rw [startsType, hhead] at hstart
  simp_all

theorem readFactor_named {args : List StaticType} (hname : IsName name)
    (hnew : name ∉ primitives) (hw : ∀ a ∈ args, Written grouped a)
    (h : ∀ a ∈ args, ∀ s, Stops s → Reads type a s) (hs : Behind [" & ", " | ", "[]"] t s) :
    readFactor type ((named name args).render.toList ++ s) = arrays (named name args) s := by
  cases args with
  | nil => exact (readFactor_bare hname hs).trans (by rw [if_neg hnew])
  | cons a args =>
    obtain ⟨htake, hdrop⟩ := hname.takeWhile_append (s := '<' :: _) (by rintro _ ⟨⟩; rfl)
    have hargs := itemsUntil_types (s := s) (by decide : '>' ∈ ['>', ']', ')']) hw h
    rw [toList_named, readFactor_of_name hname, readNamed, htake, hdrop, String.ofList_toList]
    simp only [hargs, Option.bind_eq_bind, Option.bind_some]

theorem readFactor_tuple {elements : List StaticType} (hw : ∀ a ∈ elements, Written grouped a)
    (h : ∀ a ∈ elements, ∀ s, Stops s → Reads type a s) :
    readFactor type ((tuple elements).render.toList ++ s) = arrays (tuple elements) s := by
  rw [toList_tuple, readFactor, itemsUntil_types (by decide) hw h]
  rfl

theorem readParameter_eq {p : String × StaticType} (hname : IsName p.1) (h : Reads type p.2 s) :
    readParameter type ((parameterText p).toList ++ s) = some (p, s) := by
  obtain ⟨htake, hdrop⟩ := hname.takeWhile_append
    (s := ": ".toList ++ (p.2.render.toList ++ s)) (by rintro _ ⟨⟩; rfl)
  rw [toList_parameterText, readParameter, htake, hdrop, afterList?_append, String.ofList_toList]
  simp only [show type _ = _ from h, Option.bind_eq_bind, Option.bind_some]
  rfl

theorem reads_function {ps : List (String × StaticType)} {result : StaticType}
    (hname : ∀ p ∈ ps, IsName p.1) (h : ∀ p ∈ ps, ∀ s, Stops s → Reads type p.2 s)
    (hresult : Reads type result s) : Reads (readFactor type) (function ps result) s := by
  have hps := itemsUntil_join (r := " => ".toList ++ (result.render.toList ++ s))
    (by decide : ')' ∈ ['>', ']', ')'])
    (fun p hp s _ hhead => by
      rw [toList_parameterText] at hhead
      exact (hname p hp).head_append _ hhead (by decide))
    (fun p hp s hs => readParameter_eq (hname p hp) (h p hp s hs))
  have hstart (r : List Char) :
      ¬ startsType ((Text.join ", " (ps.map parameterText)).toList ++ ')' :: r) = true := by
    cases ps with
    | nil => simp [startsType, Text.join]
    | cons p ps =>
      obtain ⟨z, hz⟩ : ∃ z, (Text.join ", " ((p :: ps).map parameterText)).toList ++ ')' :: r =
          p.1.toList ++ ':' :: z := by
        cases ps <;> simp [Text.join, parameterText]
      rw [hz, startsType, ((hname p mem_cons_self).takeWhile_append (by rintro _ ⟨⟩; rfl)).2]
      simp
  rw [Reads, toList_function, readFactor, if_neg (hstart _), hps]
  simp only [afterList?_append, show type _ = _ from hresult, Option.bind_eq_bind, Option.bind_some]
  rfl

theorem Operator.render_eq_join (op : Operator) (t : StaticType) :
    t.render = Text.join op.text ((op.members t).map render) := by
  cases op <;> cases t
  case and.intersection | or.union => rw [render, renderAll_eq_map]; rfl
  all_goals rfl

theorem Written.join_members (h : Written grouped t) (op : Operator) :
    op.members t ≠ [] ∧ op.join (op.members t) = t := by
  cases op <;> cases h
  case and.intersection ms hlen _ _ _ _ | or.union ms hlen _ _ _ =>
    match ms, hlen with
    | _ :: _ :: _, _ => exact ⟨cons_ne_nil _ _, rfl⟩
  all_goals exact ⟨cons_ne_nil _ _, rfl⟩

theorem Operator.sizeOf_le {op : Operator} {m : StaticType} (h : m ∈ op.members t) :
    sizeOf m ≤ sizeOf t := by
  cases op <;> cases t
  case and.intersection ms | or.union ms =>
    have hlt : sizeOf m < sizeOf ms := sizeOf_lt_of_mem h
    simp
    omega
  all_goals exact (congrArg sizeOf (mem_singleton.1 h)).le

/-- Only the last member of a grouped type can end in the result of a function. -/
theorem Written.endsInResult_of_mem_dropLast (h : Written True t) {op : Operator} {m : StaticType}
    (hm : m ∈ (op.members t).dropLast) : m.endsInResult = false := by
  cases op <;> cases h
  case and.intersection hlast | or.union hlast => exact hlast trivial m hm
  all_goals cases hm

theorem Written.reads_join {op : Operator} {item : Reading StaticType} (h : Written grouped t)
    (hr : afterList? op.text.toList r = none)
    (hinit : ∀ m ∈ (op.members t).dropLast, ∀ s, Reads item m (op.text.toList ++ s))
    (hlast : ∀ m ∈ (op.members t).getLast?, Reads item m r) : Reads (op.reading item) t r := by
  obtain ⟨hne, hjoin⟩ := h.join_members op
  have hlen := length_le_join (by cases op <;> decide : op.text ≠ "") ((op.members t).map render)
  rw [length_map] at hlen
  rw [Reads, Operator.reading, op.render_eq_join t, items_join hr hne
    (by rw [length_append]; omega) hinit hlast]
  exact congrArg (fun u => some (u, r)) hjoin

theorem Stops.afterList?_eq_none (h : Stops r) (op : Operator) : afterList? op.text.toList r = none := by
  have hspace : ∀ c ∈ r.head?, ' ' ≠ c := by
    rintro _ hc rfl
    exact absurd (h ' ' hc) (by decide)
  cases op <;> cases r <;> simp_all [Operator.text, afterList?]

/-- How a grouped type is read: as a member of an intersection or the element of an array, as a member
of a union, and by itself. -/
structure ReadsBack (t : StaticType) : Prop where
  factor : t.isUnion = false → t.isIntersection = false → ∀ n s, sizeOf t ≤ n + 1 →
    Behind [" & ", " | ", "[]"] t s → readFactor (read n) (t.render.toList ++ s) = arrays t s
  alternative : t.isUnion = false → ∀ n s, sizeOf t ≤ n + 1 → Behind [" | "] t s →
    Reads (Operator.and.reading (readFactor (read n))) t s
  whole : ∀ n s, sizeOf t ≤ n → Stops s → Reads (read n) t s

theorem Written.reads_alternative (h : Written True t) {n : Nat}
    (hfactor : ∀ m ∈ Operator.and.members t, ∀ s, Behind [" & ", " | ", "[]"] m s →
      readFactor (read n) (m.render.toList ++ s) = arrays m s) (hr : Behind [" | "] t r) :
    Reads (Operator.and.reading (readFactor (read n))) t r := by
  have hmember : ∀ m ∈ Operator.and.members t, ∀ s, Behind [" & ", " | "] m s →
      Reads (readFactor (read n)) m s := by
    intro m hm s hs
    rw [Reads, hfactor m hm s (hs.imp id (And.imp_right fun ⟨p, hp, hpre⟩ =>
      ⟨p, mem_append_left ["[]"] hp, hpre⟩)), hs.arrays]
  refine h.reads_join ?_ (fun m hm s => hmember m (dropLast_subset _ hm) _
    (.inr ⟨h.endsInResult_of_mem_dropLast hm, " & ", by simp, s, rfl⟩))
    fun m hm => hmember m (mem_of_getLast? hm) _ ?_
  · rcases hr with hr | ⟨-, p, hp, z, rfl⟩
    · exact hr.afterList?_eq_none .and
    · cases mem_singleton.1 hp
      rfl
  · refine hr.imp id (And.imp (fun hend => ?_) fun ⟨p, hp, hpre⟩ =>
      ⟨p, mem_cons_of_mem _ hp, hpre⟩)
    cases t
    case intersection members =>
      rw [endsInResult, show members.getLast? = some m from hm] at hend
      cases m <;> first | rfl | cases hend
    all_goals
      cases hm
      exact hend

theorem Written.reads_whole (h : Written True t)
    (halternative : ∀ m ∈ Operator.or.members t, ∀ n r, sizeOf m ≤ n + 1 → Behind [" | "] m r →
      Reads (Operator.and.reading (readFactor (read n))) m r) (n : Nat) (r : List Char)
    (hn : sizeOf t ≤ n) (hr : Stops r) : Reads (read n) t r := by
  obtain ⟨n, rfl⟩ : ∃ k, n = k + 1 := ⟨n - 1, by cases h <;> simp at hn ⊢ <;> omega⟩
  have hsize {m : StaticType} (hm : m ∈ Operator.or.members t) : sizeOf m ≤ n + 1 :=
    (Operator.sizeOf_le hm).trans hn
  exact h.reads_join (hr.afterList?_eq_none .or)
    (fun m hm s => halternative m (dropLast_subset _ hm) n _ (hsize (dropLast_subset _ hm))
      (.inr ⟨h.endsInResult_of_mem_dropLast hm, " | ", by simp, s, rfl⟩))
    fun m hm => halternative m (mem_of_getLast? hm) n _ (hsize (mem_of_getLast? hm)) (.inl hr)

theorem ReadsBack.of_factor (h : Written True t) (hu : t.isUnion = false) (hi : t.isIntersection = false)
    (hfactor : ∀ n s, sizeOf t ≤ n + 1 → Behind [" & ", " | ", "[]"] t s →
      readFactor (read n) (t.render.toList ++ s) = arrays t s) : ReadsBack t := by
  have hand : Operator.and.members t = [t] := by cases t <;> first | rfl | cases hi
  have hor : Operator.or.members t = [t] := by cases t <;> first | rfl | cases hu
  have halternative (n : Nat) (s : List Char) (hn : sizeOf t ≤ n + 1) (hs : Behind [" | "] t s) :
      Reads (Operator.and.reading (readFactor (read n))) t s := by
    refine h.reads_alternative (fun m hm s hs => ?_) hs
    cases mem_singleton.1 (hand ▸ hm)
    exact hfactor n s hn hs
  refine ⟨fun _ _ => hfactor, fun _ => halternative, h.reads_whole fun m hm => ?_⟩
  cases mem_singleton.1 (hor ▸ hm)
  exact halternative

theorem Written.readsBack (h : Written True t) : ReadsBack t := by
  induction h with
  | @primitive text h =>
    refine .of_factor (.primitive h) rfl rfl fun n s _ hs => ?_
    rcases isName_or_eq_of_primitive text h with hname | rfl
    · exact (readFactor_bare hname hs).trans (by rw [if_pos h])
    · rfl
  | @named name args hname hnew h ih =>
    refine .of_factor (.named hname hnew h) rfl rfl fun n s hn hs => ?_
    refine readFactor_named hname hnew h (fun a ha s hs => (ih a ha).whole n s ?_ hs) hs
    have := sizeOf_lt_of_mem ha
    simp at hn
    omega
  | @array element h ih =>
    refine .of_factor (.array h) rfl rfl fun n s hn hs => ?_
    simp at hn
    rw [render]
    split
    · have hread := ih.whole n (')' :: '[' :: ']' :: s) (by omega) (stops_cons (by decide) _)
      have hstart := h.startsType (follows_cons (by decide : _ ∧ ')' ≠ ':') ('[' :: ']' :: s))
      rw [show ("(" ++ element.render ++ ")[]").toList ++ s =
        '(' :: (element.render.toList ++ ')' :: '[' :: ']' :: s) by simp, readFactor, if_pos hstart,
        show read n _ = _ from hread]
      rfl
    · next hc =>
      rw [String.toList_append, append_assoc, ih.factor ?_ ?_ n _ (by omega)
        (.inr ⟨?_, "[]", by decide, s, rfl⟩)]
      · rfl
      all_goals cases element <;> first | rfl | exact absurd rfl hc
  | @tuple elements h ih =>
    refine .of_factor (.tuple h) rfl rfl fun n s hn hs => ?_
    refine readFactor_tuple h fun a ha s hs => (ih a ha).whole n s ?_ hs
    have := sizeOf_lt_of_mem ha
    simp at hn
    omega
  | @function ps result hname h hresult ih ihresult =>
    refine .of_factor (.function hname h hresult) rfl rfl fun n r hn hr => ?_
    have hstop : Stops r := hr.resolve_right fun hend => Bool.noConfusion hend.1
    simp at hn
    refine (reads_function hname (fun p hp s hs => (ih p hp).whole n s ?_ hs)
      (ihresult.whole n r (by omega) hstop)).trans (Behind.arrays (.inl hstop)).symm
    have hlt := sizeOf_lt_of_mem hp
    rw [show sizeOf p = 1 + sizeOf p.1 + sizeOf p.2 from rfl] at hlt
    omega
  | @union members hlen h hflat hlast ih =>
    refine ⟨nofun, nofun, Written.reads_whole (.union hlen h hflat hlast) fun m hm => ?_⟩
    exact (ih m hm).alternative (hflat m hm)
  | @intersection members hlen h hflat hunion hlast ih =>
    have hw : Written True (.intersection members) := .intersection hlen h hflat hunion hlast
    have halternative (n : Nat) (r : List Char) (hn : sizeOf (StaticType.intersection members) ≤ n + 1)
        (hr : Behind [" | "] (.intersection members) r) :
        Reads (Operator.and.reading (readFactor (read n))) (.intersection members) r :=
      hw.reads_alternative (fun m hm r hr => (ih m hm).factor (hunion trivial m hm) (hflat m hm) n r
        ((Operator.sizeOf_le hm).trans hn) hr) hr
    refine ⟨nofun, fun _ => halternative, hw.reads_whole fun m hm => ?_⟩
    cases mem_singleton.1 hm
    exact halternative

/-! ## Texts that regroup -/

theorem render_union (ms : List StaticType) :
    (union ms).render = Text.join " | " (ms.map render) := by
  rw [render, renderAll_eq_map]

theorem render_intersection (ms : List StaticType) :
    (intersection ms).render = Text.join " & " (ms.map render) := by
  rw [render, renderAll_eq_map]

theorem render_join (op : Operator) (ms : List StaticType) :
    (op.join ms).render = Text.join op.text (ms.map render) := by
  rcases ms with _ | ⟨m, _ | ⟨m', ms⟩⟩ <;> cases op <;>
    first | rfl | exact render_union _ | exact render_intersection _

/-- A text that is cut inside an item is that of the lists on both sides of the cut. -/
theorem join_append_cut (sep x y : String) (xs ys : List String) :
    Text.join sep (xs ++ (x ++ y) :: ys) = Text.join sep (xs ++ [x]) ++ Text.join sep (y :: ys) := by
  induction xs with
  | nil => exact Text.join_append_cons sep x y ys
  | cons w xs ih =>
    rw [cons_append, cons_append, Text.join_cons (by simp), Text.join_cons (by simp), ih,
      ← String.append_assoc]

theorem exists_join_ends (sep : String) (l : List String) :
    ∃ s, ∀ x y, Text.join sep (x :: l ++ [y]) = x ++ s ++ y := by
  induction l with
  | nil => exact ⟨sep, fun x y => rfl⟩
  | cons z l ih =>
    obtain ⟨s, hs⟩ := ih
    refine ⟨sep ++ (z ++ s), fun x y => ?_⟩
    have hjoin : Text.join sep (x :: z :: l ++ [y]) = x ++ sep ++ Text.join sep (z :: l ++ [y]) := rfl
    rw [hjoin, hs]
    simp [String.append_assoc]

/-- Grouped types with one text are one type. Without groups the text does not tell where an operator
binds: the members at the ends of a union in an intersection are taken over by their neighbours, and
what follows the result of a function belongs to the result. -/
theorem render_injective_of_grouped (t u a b : StaticType) (before between behind : List StaticType)
    (ps : List (String × StaticType)) (op : Operator) :
    (Written True t → Written True u → (t.render = u.render ↔ t = u)) ∧
    (intersection (before ++ union (a :: between ++ [b]) :: behind)).render =
      (union (Operator.and.join (before ++ [a]) :: between ++
        [Operator.and.join (b :: behind)])).render ∧
    (op.join (before ++ function ps a :: b :: behind)).render =
      (op.join (before ++ [function ps (op.join (a :: b :: behind))])).render ∧
    (Operator.or.join (before ++ intersection (between ++ [function ps a]) :: b :: behind)).render =
      (Operator.or.join (before ++
        [intersection (between ++ [function ps (union (a :: b :: behind))])])).render := by
  obtain ⟨s, hs⟩ : ∃ s, ∀ r, (function ps r).render = s ++ r.render := ⟨_, fun r => by rw [render]⟩
  have hcut (sep x y : String) (l : List String) :
      Text.join sep (l ++ [x ++ y]) = Text.join sep (l ++ [x]) ++ y :=
    join_append_cut sep x y l []
  refine ⟨fun ht hu => ⟨fun h => ?_, congrArg render⟩, ?_, ?_, ?_⟩
  · have hstop : Stops [] := nofun
    have hread := ht.readsBack.whole (max (sizeOf t) (sizeOf u)) [] (Nat.le_max_left _ _) hstop
    rw [Reads, h, hu.readsBack.whole _ [] (Nat.le_max_right _ _) hstop] at hread
    exact (congrArg Prod.fst (Option.some.inj hread)).symm
  · obtain ⟨mid, hmid⟩ := exists_join_ends " | " (between.map render)
    simp only [render_intersection, render_union, render_join, map_append, map_cons,
      map_nil, hmid, Operator.text, join_append_cut, hcut]
  · simp only [render_join, map_append, map_cons, map_nil, hs, join_append_cut, hcut]
  · simp only [render_intersection, render_union, render_join, map_append, map_cons,
      map_nil, hs, Operator.text, join_append_cut, hcut]

/-- `(A | B) & C` and `A | (B & C)` have one text. -/
theorem render_regroups :
    Written False (intersection [union [named "A" [], named "B" []], named "C" []]) ∧
    Written False (union [named "A" [], intersection [named "B" [], named "C" []]]) ∧
    (intersection [union [named "A" [], named "B" []], named "C" []]).render =
      (union [named "A" [], intersection [named "B" [], named "C" []]]).render ∧
    intersection [union [named "A" [], named "B" []], named "C" []] ≠
      union [named "A" [], intersection [named "B" [], named "C" []]] := by
  have hname (name : String) (h : IsName name ∧ name ∉ primitives) : Written False (.named name []) :=
    .named h.1 h.2 nofun
  have hA := hname "A" (by decide)
  have hB := hname "B" (by decide)
  have hC := hname "C" (by decide)
  refine ⟨.intersection (by decide) ?_ (by simp [isIntersection]) False.elim False.elim,
    .union (by decide) ?_ (by simp [isUnion]) False.elim, by decide, nofun⟩
  · have hunion : Written False (.union [named "A" [], named "B" []]) :=
      .union (by decide) (by simp [hA, hB]) (by simp [isUnion]) False.elim
    simp [hunion, hC]
  · have hboth : Written False (.intersection [named "B" [], named "C" []]) :=
      .intersection (by decide) (by simp [hB, hC]) (by simp [isIntersection]) False.elim False.elim
    simp [hA, hboth]

end ScriptAtlas.StaticType

