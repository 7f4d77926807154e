import ScriptAtlas.Data.Json

/-!
# Records in JSON

A record is written as an object with a field for each of its parts, or as a list of its parts in
order. Parts that are missing keep their defaults; fields of other names are passed over.
-/

namespace ScriptAtlas.Json

/-- The parts of a record by their names, in the order of the names. A part given twice is an error,
as is a part of another name that `ignorable` does not accept, and any other kind of value. -/
def record? (names : List String) (ignorable : Json → Bool) (j : Json) :
    Option (List (Option Json)) :=
  match j with
  | .object fields =>
    let known := fields.filter fun f => names.contains f.1
    let unknown := fields.filter fun f => !names.contains f.1
    if unknown.all (fun f => ignorable f.2) && names.all (fun n => (known.countP (·.1 == n)) ≤ 1) then
      some (names.map fun n => (known.find? (·.1 == n)).map Prod.snd)
    else none
  | .array items => some ((List.range names.length).map fun i => items[i]?)
  | _ => none

def stringList? (j : Json) : Option (List String) :=
  j.asArray?.bind fun items => items.mapM asString?

/-- A part that may be missing, read by `f`; the default stands in for it. -/
def part? {α : Type} (f : Json → Option α) (fallback : α) : Option Json → Option α
  | none => some fallback
  | some j => f j

def optionalPart? {α : Type} (f : Json → Option α) : Option Json → Option (Option α)
  | none => some none
  | some .null => some none
  | some j => (f j).map some

end ScriptAtlas.Json
