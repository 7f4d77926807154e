import ScriptAtlas.Query.Locate

/-!
# Type flow

The types of a project that flow through the parameters and the result of a callable: those that its
annotations name, and those that its types are made of, aliases expanded.
-/

namespace ScriptAtlas.Query

open Project Syntax

namespace TypeFlow

def excludedNames : List String :=
  ["string", "number", "boolean", "bigint", "symbol", "object", "any", "unknown", "never",
   "void", "undefined", "null", "Array", "ReadonlyArray", "Promise", "PromiseLike", "Record",
   "Partial", "Required", "Readonly", "Pick", "Omit", "Exclude", "Extract", "NonNullable",
   "ReturnType", "Parameters", "InstanceType", "Awaited", "Map", "Set", "WeakMap", "WeakSet",
   "ReadonlyMap", "ReadonlySet", "Iterable", "Iterator", "IterableIterator", "AsyncIterable",
   "AsyncIterator", "Generator", "AsyncGenerator", "Date", "RegExp", "Error", "Function",
   "Object", "String", "Number", "Boolean", "Symbol", "BigInt", "JSON", "Math"]

/-- The declaration that is reported for one that a type touches: an enum for its member, and only
types of the project. -/
def reported? (d : Declaration) : Option Declaration :=
  (if d.kind == .enumMember then d.container? else some d).filter fun d =>
    (d.kind == .classType || d.kind == .interfaceType || d.kind == .typeAlias
      || d.kind == .enumType)
      && d.isUser && !excludedNames.contains d.name

/-! ## What a type is made of -/

structure Touched where
  found : List Declaration
  expanded : List DeclarationKey
deriving Inhabited

def Touched.add (s : Touched) (d : Declaration) : Touched := { s with found := s.found ++ [d] }

mutual

/-- Adds the declarations that a type is made of; each alias is expanded once. -/
def touch : StaticType → Touched → Touched
  | .instanceOf d args, s => touchAll args (s.add d)
  | .aliasOf d target args, s =>
    let s := touchAll args (s.add d)
    if s.expanded.contains d.key then s
    else touch target { s with expanded := d.key :: s.expanded }
  | .enumLiteral d, s =>
    match d.container? with
    | some owner => s.add owner
    | none => s
  | .valueOf d, s => if d.kind == .classType || d.kind == .enumType then s.add d else s
  | .named _ args, s => touchAll args s
  | .union members, s | .intersection members, s | .tuple members, s => touchAll members s
  | .array element, s => touch element s
  | .function parameters result, s => touch result (touchParameters parameters s)
  | .primitive _, s | .literal _, s | .typeParameter _, s | .object _ _, s | .unknown, s => s

def touchAll : List StaticType → Touched → Touched
  | [], s => s
  | t :: ts, s => touchAll ts (touch t s)

def touchParameters : List (String × StaticType) → Touched → Touched
  | [], s => s
  | (_, t) :: ps, s => touchParameters ps (touch t s)

end

def semanticDeclarations (t : StaticType) : List Declaration := (touch t ⟨[], []⟩).found

/-! ## What an annotation names -/

/-- Whether a node inside an annotation names a type, or a value whose type is asked for. -/
def isTypeName (n : Node) : Bool :=
  match n.kind? with
  | some .typeIdentifier =>
    n.parent?.all fun p => !p.hasKind .nestedTypeIdentifier || n.isFieldOf .name p
  | some .identifier => n.parentHasKind .typeQuery
  | _ => false

def namedDeclarations (idx : Index) (file : SourceFile) (node : Node) : List Declaration :=
  (node.descendants.filter isTypeName).flatMap fun n =>
    ((idx.resolveAt? file n).map Symbol.declarations).getD []

def writtenText (node : Node) : String :=
  if node.hasKind .annotatedType then (node.namedChildren.head?.map Node.text).getD ""
  else Text.trim (Text.dropStart (· == ':') node.text)

/-! ## Answers -/

structure Entry where
  name : String
  typeText : String
  resolvedTypes : List SymbolRef
deriving DecidableEq, Repr, Inhabited

structure Report where
  symbol : SymbolRef
  parameters : List Entry
  returnType : Option Entry
  referencedTypes : List SymbolRef
deriving DecidableEq, Repr, Inhabited

def entry (idx : Index) (file : SourceFile) (name : String) (written : Option Node)
    (t : StaticType) : Entry :=
  let named := (written.map (namedDeclarations idx file)).getD []
  { name
    typeText := match written with
      | some node => writtenText node
      | none => t.render
    resolvedTypes := SymbolRef.sortedSet
      (((named ++ semanticDeclarations t).filterMap reported?).map Declaration.ref) }

/-- The declaration whose signature is traced: the constructor for a class. -/
def callable? (d : Declaration) : Option Declaration :=
  if d.kind == .classType then d.constructorNode?.bind (Declaration.ofNode? d.file)
  else if d.node.functionNode?.isSome then some d else none

def signature? (idx : Index) (d : Declaration) : Option Signature :=
  (idx.callSignatures (idx.declarationType d)).head?

def parameterEntries (idx : Index) (file : SourceFile) (function : Node) (s : Option Signature) :
    List Entry :=
  (List.range function.parameters.length).zipWith (fun i p =>
    let t := ((s.bind fun s => s.parameters[i]?).map Prod.snd).getD .unknown
    entry idx file p.parameterName (p.field? .type) t) function.parameters

def resultEntry? (idx : Index) (file : SourceFile) (function : Node) (s : Option Signature) :
    Option Entry :=
  let t := (s.map (·.result)).getD .unknown
  let written := function.field? .returnType
  if written.isSome || !t.isUnknown then some (entry idx file "return" written t) else none

def report (idx : Index) (d : Declaration) : Report :=
  let callable := callable? d
  let function := callable.bind fun c => c.node.functionNode?.map fun f => (c, f)
  let s := callable.bind (signature? idx)
  let parameters : List Entry := match function with
    | none => []
    | some (c, f) => parameterEntries idx c.file f s
  let returnType : Option Entry := match function with
    | none => none
    | some (c, f) =>
      if c.kind == SymbolKind.constructor then none else resultEntry? idx c.file f s
  { symbol := d.ref
    parameters
    returnType
    referencedTypes := SymbolRef.sortedSet
      ((parameters ++ returnType.toList).flatMap (·.resolvedTypes)) }

end TypeFlow

def typeFlow (idx : Index) (q : SymbolQuery) : Except Failure TypeFlow.Report :=
  (locateCallable idx q).map (TypeFlow.report idx)

end ScriptAtlas.Query
