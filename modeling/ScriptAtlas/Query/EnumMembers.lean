import ScriptAtlas.Query.Locate

/-!
# Members of enums

The members of an enum with their values. A member without an initializer has the value of the
member before it plus one; after a member whose value is no number that value is not known.
-/

namespace ScriptAtlas.Query

open Project Syntax

namespace EnumMembers

/-! ## Numbers -/

def digitValue? (c : Char) : Option Nat :=
  if c.isDigit then some (c.toNat - '0'.toNat)
  else if 'a' ≤ c && c ≤ 'z' then some (c.toNat - 'a'.toNat + 10)
  else if 'A' ≤ c && c ≤ 'Z' then some (c.toNat - 'A'.toNat + 10)
  else none

def digitsOfBase? (base : Nat) (digits : List Char) : Option Nat :=
  if digits.isEmpty then none
  else digits.foldlM (fun n c =>
    ((digitValue? c).filter (· < base)).map fun d => n * base + d) 0

def integerOfBase? (base : Nat) (text : List Char) : Option Int :=
  let (negative, digits) := match text with
    | '-' :: rest => (true, rest)
    | '+' :: rest => (false, rest)
    | _ => (false, text)
  (digitsOfBase? base digits).bind fun n =>
    if negative then if n ≤ pow2 63 then some (-(n : Int)) else none
    else if n < pow2 63 then some (n : Int) else none

def prefixed? (text : String) : Option Binary64 :=
  ([("0x", "0X", 16), ("0b", "0B", 2), ("0o", "0O", 8)] : List (String × String × Nat)).findSome?
    fun (lower, upper, base) =>
      ((Text.after? lower text <|> Text.after? upper text).bind fun digits =>
        integerOfBase? base digits.toList).map Binary64.ofInt

/-- The value of a numeric literal, which may be negated; underscores separate digits. -/
def numericValue? (text : String) : Option Binary64 :=
  let cleaned := String.ofList ((Text.trim text).toList.filter (· != '_'))
  match Text.after? "-" cleaned with
  | some rest =>
    let digits := Text.dropStart Text.isWhiteSpace rest
    (prefixed? digits <|> Binary64.ofText? digits).map Binary64.neg
  | none => prefixed? cleaned <|> Binary64.ofText? cleaned

/-- How a value that was counted up is shown: as an integer if it is a moderate one. -/
def renderValue (v : Binary64) : String :=
  match (v.truncAbs?.filter fun n => v.isIntegral && n < pow10 15) with
  | some n => toString (if v.isNegative then -(n : Int) else n)
  | none => v.text

/-! ## Members -/

structure Member where
  name : String
  value : String
  line : Nat
  isComputed : Bool
deriving DecidableEq, Repr, Inhabited

structure Report where
  symbol : SymbolRef
  isConst : Bool
  members : List Member
deriving DecidableEq, Repr, Inhabited

def memberParts? (n : Node) : Option (Node × Option Node) :=
  match n.kind? with
  | some .enumAssignment => (n.field? .name).map fun name => (name, n.field? .value)
  | some .propertyIdentifier | some .string => some (n, none)
  | _ => none

def isNumeric (init : Node) : Bool :=
  init.hasKind .number
    || (init.hasKind .unaryExpression && (init.field? .operator).any (·.isToken "-")
      && (init.field? .argument).any (·.hasKind .number))

def isPlainText (init : Node) : Bool :=
  init.hasKindIn [.string, .templateString] && !Text.contains "$\x7b" init.text

/-- The value of a member as shown, whether it is computed, and the value of a member behind it that
has no initializer. -/
def memberValue (init : Option Node) (next : Option Binary64) : String × Bool × Option Binary64 :=
  match init.map Node.unwrap with
  | none =>
    match next with
    | some v => (renderValue v, false, some v.addOne)
    | none => ("", true, none)
  | some e =>
    if isPlainText e then (e.text, false, none)
    else if isNumeric e then (e.text, false, (numericValue? e.text).map Binary64.addOne)
    else (e.text, true, none)

def members : Option Binary64 → List (Node × Option Node) → List Member
  | _, [] => []
  | next, (name, init) :: rest =>
    let (value, isComputed, after) := memberValue init next
    { name := name.bareText, value, line := name.line, isComputed } :: members after rest

def report (d : Declaration) : Report :=
  let parts := (d.node.typeBody?.map fun b => b.namedChildren.filterMap memberParts?).getD []
  { symbol := d.ref
    isConst := d.node.hasToken "const"
    members := members (some (Binary64.ofInt 0)) parts }

end EnumMembers

def enumMembers (idx : Index) (q : SymbolQuery) : Except Failure EnumMembers.Report :=
  (locateDeclaration idx q).bind fun d =>
    if d.kind == .enumType then .ok (EnumMembers.report d) else .error (.notAnEnum d.name d.kind)

end ScriptAtlas.Query
