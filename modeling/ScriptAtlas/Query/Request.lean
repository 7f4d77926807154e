import ScriptAtlas.Query.CallTree
import ScriptAtlas.Query.DeadCode
import ScriptAtlas.Query.Hierarchy

/-!
# Options of queries as records

How the options of queries are read from JSON. What is left out has its default; what is of the wrong
kind makes the whole record unreadable.
-/

namespace ScriptAtlas.Query

namespace Request

/-- A record whose list form is no longer than it has parts. -/
def record? (names : List String) (j : Json) : Option (List (Option Json)) :=
  match j with
  | .array items =>
    if items.length ≤ names.length then Json.record? names (fun _ => true) j else none
  | _ => Json.record? names (fun _ => true) j

def count? (j : Json) : Option Nat := j.asNat?.filter (· < pow2 64)

def depth? (j : Json) : Option Int :=
  j.asInt?.filter fun n => -(pow2 31 : Int) ≤ n && n < (pow2 31 : Int)

def word? : Json → Option String
  | .string s => some s
  | .object [(s, .null)] => some s
  | _ => none

def direction? (j : Json) : Option Calls.Direction :=
  (word? j).bind fun
    | "outgoing" => some .outgoing
    | "incoming" => some .incoming
    | "both" => some .both
    | _ => none

def kinds? (j : Json) : Option (List SymbolKind) :=
  j.asArray?.bind fun items => items.mapM fun k => (word? k).bind SymbolKind.ofWord?

def calls? (j : Json) : Option Calls.Options := do
  match ← record? ["depth", "direction"] j with
  | [depth, direction] =>
    return {
      depth := ← Json.part? depth? Calls.Options.default.depth depth
      direction := ← Json.part? direction? Calls.Options.default.direction direction }
  | _ => none

def references? (j : Json) : Option References.Options := do
  match ← record? ["includeTests", "timeoutMs"] j with
  | [tests, timeout] =>
    return {
      includeTests := ← Json.part? Json.asBool? References.Options.default.includeTests tests
      timeoutMs := ← Json.optionalPart? count? timeout }
  | _ => none

def hierarchy? (j : Json) : Option Hierarchy.Options := do
  match ← record? ["timeoutMs"] j with
  | [timeout] => return { timeoutMs := ← Json.optionalPart? count? timeout }
  | _ => none

def deadCode? (j : Json) : Option DeadCode.Options := do
  match ← record? ["inclusive", "includeTests", "kinds", "include", "exclude", "maxResults",
      "timeoutMs"] j with
  | [inclusive, tests, kinds, included, excluded, cap, timeout] =>
    return {
      inclusive := ← Json.part? Json.asBool? false inclusive
      includeTests := ← Json.part? Json.asBool? false tests
      kinds := ← Json.part? kinds? [] kinds
      include_ := ← Json.part? Json.stringList? [] included
      exclude := ← Json.part? Json.stringList? [] excluded
      maxResults := ← Json.optionalPart? count? cap
      timeoutMs := ← Json.optionalPart? count? timeout }
  | _ => none

end Request

end ScriptAtlas.Query
