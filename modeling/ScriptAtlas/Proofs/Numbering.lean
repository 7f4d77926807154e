import ScriptAtlas.Syntax.Tree

/-!
# The numbering of syntax trees

Entering a shape into a table lists its nodes in the order in which they begin. A `Spot` is a node of
the shape with its number, and `Sits root p up` says that the spot `p` is found in `root` below the
spots `up`, nearest first.

* `Shape.toList_enter`: the table holds the spots of the shape, one entry each;
* `Sits.unique`, `exists_sits`: a number below the size belongs to exactly one spot;
* `Sits.entry`: what the table says about a spot.
-/

namespace ScriptAtlas.Syntax

open List

/-! ## Spots -/

mutual

/-- The number of nodes in a shape. -/
def Shape.count : Shape → Nat
  | .mk _ _ _ _ cs => 1 + Shape.countAll cs

def Shape.countAll : List Shape → Nat
  | [] => 0
  | c :: cs => c.count + Shape.countAll cs

end

/-- The numbers of shapes that are entered one after the other. -/
def Shape.numbers (i : Nat) : List Shape → List Nat
  | [] => []
  | c :: cs => i :: numbers (i + c.count) cs

/-- A node of a shape with its number. -/
structure Spot where
  id : Nat
  shape : Shape

mutual

/-- The spots of a shape in the order in which they begin, each with the spots around it. -/
def Shape.walk (up : List Spot) (i : Nat) : Shape → List (Spot × List Spot)
  | .mk l f a b cs => (⟨i, .mk l f a b cs⟩, up) :: Shape.walkAll (⟨i, .mk l f a b cs⟩ :: up) (i + 1) cs

def Shape.walkAll (up : List Spot) (i : Nat) : List Shape → List (Spot × List Spot)
  | [] => []
  | c :: cs => c.walk up i ++ Shape.walkAll up (i + c.count) cs

end

/-- What a table says about a spot. -/
def Spot.entry (p : Spot) (up : List Spot) : Entry :=
  { label := p.shape.label, field := p.shape.field, start := p.shape.start, stop := p.shape.stop
    ancestors := up.map Spot.id
    children := Shape.numbers (p.id + 1) p.shape.children
    size := p.shape.count }

namespace Shape

mutual

theorem length_walk (up : List Spot) (i : Nat) : ∀ s : Shape, (s.walk up i).length = s.count
  | .mk l f a b cs => by
    rw [walk, count, length_cons, length_walkAll, Nat.add_comm]

theorem length_walkAll (up : List Spot) (i : Nat) :
    ∀ cs : List Shape, (walkAll up i cs).length = countAll cs
  | [] => rfl
  | c :: cs => by
    rw [walkAll, countAll, length_append, length_walk, length_walkAll]

end

theorem countAll_append (l m : List Shape) : countAll (l ++ m) = countAll l + countAll m := by
  induction l with
  | nil => rw [nil_append, countAll, Nat.zero_add]
  | cons c l ih => rw [cons_append, countAll, countAll, ih, Nat.add_assoc]

theorem modify_append_length {α : Type} (l r : List α) (a : α) (f : α → α) :
    (l ++ a :: r).modify l.length f = l ++ f a :: r := by
  induction l with
  | nil => rfl
  | cons b l ih => simp [ih]

theorem toList_complete {table filled : Array Entry} {e : Entry} {rest : List Entry}
    (h : filled.toList = (table.push e).toList ++ rest) (ids : List Nat) :
    (filled.modify table.size fun e =>
      { e with children := ids, size := filled.size - table.size }).toList =
      table.toList ++ { e with children := ids, size := 1 + rest.length } :: rest := by
  have hsize : filled.size - table.size = 1 + rest.length := by
    rw [← Array.length_toList, h, length_append, Array.length_toList, Array.size_push]
    omega
  rw [hsize, Array.toList_modify, h, Array.toList_push, append_assoc, singleton_append,
    ← Array.length_toList, modify_append_length]

mutual

theorem toList_enter (up : List Spot) : ∀ (s : Shape) (table : Array Entry),
    (s.enter (up.map Spot.id) table).toList =
      table.toList ++ (s.walk up table.size).map fun q => q.1.entry q.2
  | .mk l f a b cs, table => by
    obtain ⟨hfilled, hids⟩ := toList_enterAll (⟨table.size, .mk l f a b cs⟩ :: up) cs (table.push
      { label := l, field := f, start := a, stop := b, ancestors := up.map Spot.id, children := []
        size := 1 })
    rw [Array.size_push] at hfilled
    rw [Array.size_push, map_cons] at hids
    refine (toList_complete hfilled _).trans ?_
    rw [hids, length_map, length_walkAll]
    rfl

theorem toList_enterAll (up : List Spot) : ∀ (cs : List Shape) (table : Array Entry),
    (enterAll (up.map Spot.id) cs table).1.toList =
      table.toList ++ (walkAll up table.size cs).map (fun q => q.1.entry q.2) ∧
    (enterAll (up.map Spot.id) cs table).2 = numbers table.size cs
  | [], table => by
    rw [enterAll, walkAll, map_nil, append_nil]
    exact ⟨rfl, rfl⟩
  | c :: cs, table => by
    have hc := toList_enter up c table
    have hsize : (c.enter (up.map Spot.id) table).size = table.size + c.count := by
      rw [← Array.length_toList, hc, length_append, length_map, length_walk,
        Array.length_toList]
    obtain ⟨hcs, hids⟩ := toList_enterAll up cs (c.enter (up.map Spot.id) table)
    rw [enterAll, walkAll, numbers]
    refine ⟨?_, ?_⟩
    · rw [hcs, hc, hsize, map_append, append_assoc]
    · change table.size :: (enterAll _ cs (c.enter _ table)).2 = _
      rw [hids, hsize]

end

mutual

theorem id_of_getElem?_walk {up : List Spot} {i : Nat} : ∀ {s : Shape} {k : Nat} {q : Spot × List Spot},
    (s.walk up i)[k]? = some q → q.1.id = i + k
  | .mk l f a b cs, k, q, h => by
    rw [walk] at h
    cases k with
    | zero =>
      cases h
      rfl
    | succ k =>
      rw [getElem?_cons_succ] at h
      rw [id_of_getElem?_walkAll h]
      omega

theorem id_of_getElem?_walkAll {up : List Spot} {i : Nat} :
    ∀ {cs : List Shape} {k : Nat} {q : Spot × List Spot},
      (walkAll up i cs)[k]? = some q → q.1.id = i + k
  | c :: cs, k, q, h => by
    rw [walkAll, getElem?_append, length_walk] at h
    split at h
    · exact id_of_getElem?_walk h
    · rw [id_of_getElem?_walkAll h]
      omega

end

end Shape

/-! ## Where a spot is found -/

/-- The spot is found in the shape below the given spots, nearest first. -/
inductive Sits (root : Shape) : Spot → List Spot → Prop
  | root : Sits root ⟨0, root⟩ []
  | part {p : Spot} {up : List Spot} (h : Sits root p up) {k : Nat} {c : Shape}
      (hc : p.shape.children[k]? = some c) :
      Sits root ⟨p.id + 1 + Shape.countAll (p.shape.children.take k), c⟩ (p :: up)

namespace Shape

mutual

theorem sits_of_mem_walk {root : Shape} {up : List Spot} {i : Nat} :
    ∀ {s : Shape} {q : Spot × List Spot}, Sits root ⟨i, s⟩ up → q ∈ s.walk up i → Sits root q.1 q.2
  | .mk l f a b cs, q, h, hq => by
    rw [walk] at hq
    rcases mem_cons.1 hq with rfl | hq
    · exact h
    · exact sits_of_mem_walkAll h [] rfl hq

/-- The same for the parts behind the parts `front` of a spot. -/
theorem sits_of_mem_walkAll {root : Shape} {up : List Spot} {p : Spot} :
    ∀ {cs : List Shape} {q : Spot × List Spot}, Sits root p up → ∀ front : List Shape,
      p.shape.children = front ++ cs → q ∈ walkAll (p :: up) (p.id + 1 + countAll front) cs →
      Sits root q.1 q.2
  | c :: cs, q, h, front, hchildren, hq => by
    rw [walkAll] at hq
    rcases mem_append.1 hq with hq | hq
    · refine sits_of_mem_walk ?_ hq
      have hc : p.shape.children[front.length]? = some c := by simp [hchildren]
      have htake : p.shape.children.take front.length = front := by simp [hchildren]
      have hpart := h.part hc
      rwa [htake] at hpart
    · have hrest : p.shape.children = (front ++ [c]) ++ cs := by simp [hchildren]
      refine sits_of_mem_walkAll h (front ++ [c]) hrest ?_
      rwa [countAll_append, countAll, countAll, Nat.add_zero, ← Nat.add_assoc]

end

theorem mem_walk_self (s : Shape) (up : List Spot) (i : Nat) : (⟨i, s⟩, up) ∈ s.walk up i := by
  cases s
  exact mem_cons_self

theorem mem_walkAll_of_getElem? {up : List Spot} {cs : List Shape} {k : Nat} {c : Shape} {i : Nat}
    (h : cs[k]? = some c) : (⟨i + countAll (cs.take k), c⟩, up) ∈ walkAll up i cs := by
  induction cs generalizing k i with
  | nil => cases h
  | cons d cs ih =>
    rw [walkAll]
    cases k with
    | zero =>
      cases h
      exact mem_append_left _ (mem_walk_self c up i)
    | succ k =>
      have hk := ih (i := i + d.count) h
      rw [Nat.add_assoc] at hk
      exact mem_append_right _ hk

mutual

theorem mem_walk_part {p : Spot} {up : List Spot} {k : Nat} {c : Shape}
    (hc : p.shape.children[k]? = some c) : ∀ {s : Shape} {above : List Spot} {i : Nat},
      (p, up) ∈ s.walk above i →
      (⟨p.id + 1 + countAll (p.shape.children.take k), c⟩, p :: up) ∈ s.walk above i
  | .mk l f a b cs, above, i, h => by
    rw [walk] at h ⊢
    rcases mem_cons.1 h with heq | h
    · cases heq
      exact mem_cons_of_mem _ (mem_walkAll_of_getElem? hc)
    · exact mem_cons_of_mem _ (mem_walkAll_part hc h)

theorem mem_walkAll_part {p : Spot} {up : List Spot} {k : Nat} {c : Shape}
    (hc : p.shape.children[k]? = some c) : ∀ {cs : List Shape} {above : List Spot} {i : Nat},
      (p, up) ∈ walkAll above i cs →
      (⟨p.id + 1 + countAll (p.shape.children.take k), c⟩, p :: up) ∈ walkAll above i cs
  | d :: cs, above, i, h => by
    rw [walkAll] at h ⊢
    rcases mem_append.1 h with h | h
    · exact mem_append_left _ (mem_walk_part hc h)
    · exact mem_append_right _ (mem_walkAll_part hc h)

end

end Shape

namespace Sits

variable {root : Shape} {p q : Spot} {up up' : List Spot}

theorem mem_walk (h : Sits root p up) : (p, up) ∈ root.walk [] 0 := by
  induction h with
  | root => exact root.mem_walk_self [] 0
  | part h hc ih => exact Shape.mem_walk_part hc ih

theorem getElem?_walk (h : Sits root p up) : (root.walk [] 0)[p.id]? = some (p, up) := by
  obtain ⟨k, hk⟩ := mem_iff_getElem?.1 h.mem_walk
  have hid : p.id = 0 + k := Shape.id_of_getElem?_walk hk
  rwa [hid, Nat.zero_add]

/-- A number belongs to one spot, and what is around it is determined. -/
theorem unique (hp : Sits root p up) (hq : Sits root q up') (hid : p.id = q.id) :
    p = q ∧ up = up' := by
  have h := hp.getElem?_walk
  rw [hid, hq.getElem?_walk] at h
  cases h
  exact ⟨rfl, rfl⟩

/-- Of the spots around a spot, each is found below those that follow it. -/
theorem of_append {front : List Spot} (h : Sits root p (front ++ q :: up)) : Sits root q up := by
  generalize hup : front ++ q :: up = above at h
  induction h generalizing front with
  | root => simp at hup
  | part h hc ih =>
    rcases front with _ | ⟨r, front⟩
    · cases hup
      exact h
    · exact ih (List.cons.inj hup).2

theorem entry (h : Sits root p up) : (root.enter [] #[])[p.id]? = some (p.entry up) := by
  rw [← Array.getElem?_toList]
  have hlist := root.toList_enter [] #[]
  rw [map_nil] at hlist
  rw [hlist, Array.toList_empty, nil_append, getElem?_map]
  exact congrArg (Option.map _) h.getElem?_walk

end Sits

theorem exists_sits {root : Shape} {i : Nat} (h : i < (root.enter [] #[]).size) :
    ∃ s up, Sits root ⟨i, s⟩ up := by
  have hlist := root.toList_enter [] #[]
  rw [map_nil] at hlist
  have hi : i < (root.walk [] 0).length := by
    rw [← Array.length_toList, hlist] at h
    simpa using h
  obtain ⟨⟨⟨j, s⟩, up⟩, hget⟩ : ∃ q, (root.walk [] 0)[i]? = some q :=
    ⟨_, getElem?_eq_getElem hi⟩
  obtain rfl : j = i := by simpa using Shape.id_of_getElem?_walk hget
  exact ⟨s, up, Shape.sits_of_mem_walk .root (mem_of_getElem? hget)⟩

end ScriptAtlas.Syntax
