import ScriptAtlas.Query.References

/-!
# Callbacks

Where a callable is passed to a call as an argument, and whether it takes or returns functions
itself.
-/

namespace ScriptAtlas.Query

open Project Syntax

inductive CallbackVia where
  | identifier | memberAccess | bind
deriving DecidableEq, Repr, Inhabited

namespace CallbackVia

def text : CallbackVia → String
  | identifier => "identifier"
  | memberAccess => "memberAccess"
  | bind => "bind"

def title : CallbackVia → String
  | identifier => "Identifier"
  | memberAccess => "MemberAccess"
  | bind => "Bind"

end CallbackVia

namespace Callbacks

structure Usage where
  filePath : String
  line : Nat
  receiver : String
  argumentIndex : Nat
  via : CallbackVia
deriving DecidableEq, Repr, Inhabited

structure Report where
  symbol : SymbolRef
  usages : List Usage
  isHigherOrder : Bool
  functionParameters : List String
  returnsFunction : Bool
  partly : Bool
deriving DecidableEq, Repr, Inhabited

def receiverName (call : Node) : String :=
  match (call.field? .function <|> call.field? .constructor).map Node.unwrap with
  | some c =>
    if c.hasKind .memberExpression then ((c.field? .property).map Node.text).getD "" else c.text
  | none => ""

def bindMember? (e : Node) : Option Node :=
  e.parent?.filter fun m =>
    m.hasKind .memberExpression && e.isFieldOf .object m
      && (m.field? .property).any (·.text == "bind")

/-- The expression that passes the function named by a token, and how. A call of `bind` passes the
bound function. -/
def passedExpression? (name : Node) : Option (Node × CallbackVia) :=
  let access := name.parent?.filter fun p =>
    p.hasKind .memberExpression && name.isFieldOf .property p
  let e := (access.getD name).outermostWrapper
  match bindMember? e with
  | some m =>
    (m.parent?.filter fun c => c.hasKind .callExpression && m.isFieldOf .function c).map fun c =>
      (c.outermostWrapper, .bind)
  | none => some (e, if access.isSome then .memberAccess else .identifier)

/-- The call that receives the function named by a token, the place among its arguments, and how it is
passed. -/
def passedTo? (name : Node) : Option (String × Nat × CallbackVia) := do
  let (e, via) ← passedExpression? name
  let args ← e.parent?.filter (·.hasKind .arguments)
  let call ← args.parent?.filter (·.hasKindIn [.callExpression, .newExpression])
  let i ← args.parts.findIdx? (· == e)
  some (receiverName call, i, via)

def usage? (site : ReferenceSite) : Option Usage :=
  (passedTo? site.node).map fun (receiver, argumentIndex, via) =>
    { filePath := site.file.relPath, line := site.line, receiver, argumentIndex, via }

def usageLe (a b : Usage) : Bool :=
  if (a.filePath, a.line) == (b.filePath, b.line) then a.argumentIndex ≤ b.argumentIndex
  else locationLe (a.filePath, a.line) (b.filePath, b.line)

def report (idx : Index) (d : Declaration) : Report :=
  let found := References.find idx (idx.merged d)
    (SearchOptions.within idx.settings.referenceTimeoutMs)
  let s := (idx.callSignatures (idx.declarationType d)).head?
  let functionParameters := (s.map fun s =>
    (s.parameters.filter (·.2.isFunctionLike)).map Prod.fst).getD []
  let returnsFunction := s.any (·.result.isFunctionLike)
  { symbol := d.ref
    usages := (found.sites.filterMap usage?).mergeSort usageLe
    isHigherOrder := !functionParameters.isEmpty || returnsFunction
    functionParameters
    returnsFunction
    partly := found.partly }

end Callbacks

def callbacks (idx : Index) (q : SymbolQuery) : Except Failure Callbacks.Report :=
  (locateCallable idx q).map (Callbacks.report idx)

end ScriptAtlas.Query
