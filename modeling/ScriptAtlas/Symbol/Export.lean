import ScriptAtlas.Symbol.Scope

/-!
# Exports

Which declarations a module exports under a name. A module may hand the question on to others, so a
search remembers where it has been and takes up no question twice. Blocks that declare a module by
name, and modules that stand behind a name, are searched from scratch: there the search asks a new
question and waits for the answer. Nothing bounds how often that happens, and a question may lead to
itself: answers therefore run on fuel, and one that runs out says so (`none`) instead of answering.
-/

namespace ScriptAtlas

open Project Syntax

namespace Export

/-! ## Forms of export statements -/

/-- What an export statement says. -/
inductive Form where
  /-- A declaration, as the default or under its own names. -/
  | declaration (node : Node) (isDefault : Bool)
  /-- A value, as the default. -/
  | value (node : Node) (isDefault : Bool)
  /-- A value in place of the whole module. -/
  | whole (target : Option Node)
  /-- A list of names, of this module or of another. -/
  | names (clause : Node) (source : Option Node)
  /-- Another module under one name. -/
  | space (node : Node)
  /-- Everything that another module exports. -/
  | star (source : Node)
  | none
deriving Inhabited

def formOf (stmt : Node) : Form :=
  let isDefault := stmt.hasToken "default"
  let source := stmt.field? .source
  match stmt.field? .declaration, stmt.field? .value with
  | some d, _ => .declaration d isDefault
  | _, some v => .value v isDefault
  | _, _ =>
    if stmt.hasToken "=" then .whole stmt.parts.head?
    else match stmt.namedChildren.find? (·.hasKind .exportClause),
        stmt.namedChildren.find? (·.hasKind .namespaceExport), source with
      | some clause, _, _ => .names clause source
      | _, some ns, _ => .space ns
      | _, _, some src => .star src
      | _, _, _ => .none

structure Renaming where
  inner : String
  outer : String
deriving DecidableEq, Repr

def renamings (clause : Node) : List Renaming :=
  (clause.namedChildren.filter (·.hasKind .exportSpecifier)).filterMap fun spec =>
    (spec.field? .name).map fun inner =>
      { inner := inner.stringValue
        outer := ((spec.field? .alias).getD inner).stringValue }

/-- The declarations of a value that is exported without a name: what a plain name stands for, a
function or a class with a name of its own, or else the value itself under the keyword before it. -/
def valueDeclarations (idx : Index) (file : SourceFile) (stmt value : Node) : List Declaration :=
  if value.hasKind .identifier then
    ((idx.resolveName file stmt value.text .any).map Symbol.declarations).getD []
  else match if value.declarationName?.isSome then Declaration.ofNode? file value else none with
    | some d => [d]
    | none =>
      match stmt.children.find? fun c => c.isToken "default" || c.isToken "=" with
      | some keyword =>
        [{ file, kind := value.declarationKind?.getD .variableName, node := value,
           nameNode := keyword }]
      | none => []

def namedDeclarations (file : SourceFile) (stmt : Node) (name : String) : List Declaration :=
  (stmt.statementDeclarations.filter fun (_, n) => n.text == name).filterMap fun (d, n) =>
    Declaration.make? file d n

/-- What an export statement of the given form contributes under a name without asking other
modules. -/
def ownDeclarations (idx : Index) (file : SourceFile) (stmt : Node) (form : Form) (name : String) :
    List Declaration :=
  match form with
  | .declaration d isDefault =>
    if !isDefault then namedDeclarations file stmt name
    else if name == "default" then (Declaration.ofNode? file d).toList else []
  | .value v isDefault =>
    if isDefault && name == "default" then valueDeclarations idx file stmt v else []
  | .names clause none =>
    ((renamings clause).filter (·.outer == name)).flatMap fun r =>
      ((idx.resolveName file stmt r.inner .any).map Symbol.declarations).getD []
  | .space ns =>
    match ns.parts.head? with
    | some n => if n.stringValue == name then
        [{ file, kind := .namespaceName, node := ns, nameNode := n }] else []
    | none => []
  | _ => []

def importSource? (stmt binding : Node) : Option String :=
  match stmt.field? .source with
  | some src => some src.stringValue
  | none =>
    let clause := if binding.hasKind .importRequireClause then some binding
      else stmt.namedChildren.find? (·.hasKind .importRequireClause)
    (clause.bind fun c => c.field? .source <|> c.namedChildren.find? (·.hasKind .string)).map
      Node.stringValue

def bindingSource? (binding : Node) : Option String :=
  (binding.findAncestor? (·.hasKind .importStatement)).bind (importSource? · binding)

/-- The module that stands behind a declaration: an imported module, or one that is exported under a
name. -/
def moduleBehind? (d : Declaration) : Option String :=
  match d.node.kind? with
  | some .namespaceImport | some .importRequireClause => bindingSource? d.node
  | some .namespaceExport => (d.node.parent?.bind (·.field? .source)).map Node.stringValue
  | _ => none

/-- What the body of a namespace declares under a name, or else imports under it. -/
def blockPartsNamed (file : SourceFile) (body : Node) (name : String) : List Declaration :=
  let declared := (body.blockDeclarations.filter fun (_, n) => n.text == name).filterMap
    fun (m, n) => Declaration.make? file m n
  if declared.isEmpty then (Scope.importBindings file body).filter (·.name == name) else declared

/-- The parts with a name of a namespace, a class, an interface or an enum. -/
def partsNamed (d : Declaration) (name : String) : List Declaration :=
  match d.node.kind? with
  | some .internalModule | some .moduleDeclaration =>
    match d.node.field? .body with
    | some body => blockPartsNamed d.file body name
    | none => []
  | some .enumDeclaration | some .classDeclaration | some .abstractClassDeclaration
  | some .classExpression | some .interfaceDeclaration => d.ownMembers name
  | _ => []

/-- Whether a block that declares the module `declared` is meant by a specifier; one `*` in the
declared name stands for anything. -/
def ambientMatches (declared specifier : String) : Bool :=
  match Text.splitOnce? '*' declared with
  | some (before, after) =>
    before.length + after.length ≤ specifier.length
      && Text.beginsWith before specifier && Text.endsWith after specifier
  | none => declared == specifier

/-! ## Searches -/

/-- A question that is answered from scratch. -/
inductive Question where
  /-- What a file exports under a name. -/
  | file (id : Nat) (name : String)
  /-- What the module that a specifier in a file means exports under a name. -/
  | specifier (file : Nat) (specifier name : String)
  /-- What the blocks that declare the module of a specifier export under a name. -/
  | ambient (specifier name : String)
deriving DecidableEq, Repr

/-- A name that a search has taken up, in the block of a file that begins at a byte. -/
structure Goal where
  file : Nat
  block : Nat
  name : String
deriving DecidableEq, Repr

def goalOf (file : SourceFile) (block : Node) (name : String) : Goal :=
  { file := file.id, block := block.startByte, name }

/-- A search for declarations: it knows the goals taken up so far. Questions are asked in `m`. -/
abbrev Search (m : Type → Type) := StateT (List Goal) m (List Declaration)

/-- How to search the exports of a block: its file, the block, the name, and whether the block
exports all that it declares. -/
abbrev BlockSearch (m : Type → Type) := SourceFile → Node → String → Bool → Search m

variable {m : Type → Type} [Monad m]

namespace Search

def first : List (Search m) → Search m
  | [] => pure []
  | s :: rest => do
    let found ← s
    if found.isEmpty then first rest else pure found

def all : List (Search m) → Search m
  | [] => pure []
  | s :: rest => do
    let found ← s
    let more ← all rest
    pure (found ++ more)

def await (answer : m (List Declaration)) : Search m := fun visited => do
  let found ← answer
  pure (found, visited)

/-- The answer of a search that starts with nothing taken up. -/
def start (s : Search m) : m (List Declaration) := do
  let (found, _) ← s []
  pure found

end Search

variable (idx : Index) (ask : Question → m (List Declaration)) (search : BlockSearch m)

/-- The exports of the module that a specifier in a file means: the first file it was resolved to
that has any, or else those of blocks that declare the module. -/
def ofModule (file : Nat) (specifier name : String) : Search m :=
  Search.first
    ((idx.linked file specifier).map (fun target => search target target.root name false)
      ++ [Search.await (ask (.ambient specifier name))])

def member (d : Declaration) (name : String) : Search m :=
  match moduleBehind? d with
  | some specifier => Search.await (ask (.specifier d.file.id specifier name))
  | none => pure (partsNamed d name)

/-- What one export statement contributes under a name, apart from stars. -/
def ofStatement (file : SourceFile) (stmt : Node) (name : String) : Search m :=
  match formOf stmt with
  | .names clause (some src) =>
    Search.all (((renamings clause).filter (·.outer == name)).map fun r =>
      ofModule idx ask search file.id src.stringValue r.inner)
  | .whole (some target) =>
    let values := valueDeclarations idx file stmt target
    if name == "default" then pure values
    else Search.all (values.map fun d => member ask d name)
  | form => pure (ownDeclarations idx file stmt form name)

/-- What one statement of a block contributes under a name, apart from stars. In a block that
declares a module every declaration is exported. -/
def ofBlockStatement (file : SourceFile) (ambientBlock : Bool) (name : String) (stmt : Node) :
    Search m :=
  if stmt.hasKind .exportStatement then ofStatement idx ask search file stmt name
  else pure (if ambientBlock then namedDeclarations file stmt name else [])

/-- The module whose exports a statement hands on, all but the default. -/
def starSource? (name : String) (stmt : Node) : Option String :=
  if stmt.hasKind .exportStatement && name != "default" then
    match formOf stmt with
    | .star src => some src.stringValue
    | _ => none
  else none

def ofStatements (file : SourceFile) (block : Node) (name : String) (ambientBlock : Bool) :
    Search m :=
  Search.all (block.namedChildren.map (ofBlockStatement idx ask search file ambientBlock name))

def ofStars (file : SourceFile) (block : Node) (name : String) : Search m :=
  Search.first ((block.namedChildren.filterMap (starSource? name)).map fun specifier =>
    ofModule idx ask search file.id specifier name)

/-- The exports of a block under a name: what its own statements export goes before what stars hand
on. -/
def ofBlock (file : SourceFile) (block : Node) (name : String) (ambientBlock : Bool) : Search m := do
  let found ← ofStatements idx ask search file block name ambientBlock
  if found.isEmpty then ofStars idx ask search file block name else pure found

/-- The exports of a block, with `search` for the blocks that it leads to; nothing when the search has
taken up the same goal before. -/
def step : BlockSearch m := fun file block name ambientBlock visited =>
  if visited.contains (goalOf file block name) then pure ([], visited)
  else ofBlock idx ask search file block name ambientBlock (goalOf file block name :: visited)

/-- The exports of a block, through at most `fuel` blocks on the way; one more ends in `halt`. -/
def upTo (idx : Index) (ask : Question → m (List Declaration))
    (halt : m (List Declaration × List Goal)) : Nat → BlockSearch m
  | 0 => fun _ _ _ _ _ => halt
  | fuel + 1 => fun file block name ambientBlock visited =>
    step idx ask (upTo idx ask halt fuel) file block name ambientBlock visited

/-! ## Answers -/

/-- The bodies of the blocks that declare the module of a specifier, with their files. -/
def ambientBlocks (specifier : String) : List (SourceFile × Node) :=
  (idx.ambientModules.filter fun m => ambientMatches m.name specifier).filterMap fun m =>
    (idx.ambientNode? m).bind fun (file, node) => (node.field? .body).map fun body => (file, body)

def searchFor : Question → Search m
  | .file id name =>
    match idx.file? id with
    | some file => search file file.root name false
    | none => pure []
  | .specifier file specifier name => ofModule idx ask search file specifier name
  | .ambient specifier name =>
    Search.all ((ambientBlocks idx specifier).map fun (file, body) => search file body name true)

/-- The answer to a question, through at most `fuel` questions on the way and, for each, at most
`fuel` blocks. -/
def answerUpTo (idx : Index) : Nat → Question → Option (List Declaration)
  | 0, _ => none
  | fuel + 1, q =>
    (searchFor idx (answerUpTo idx fuel) (upTo idx (answerUpTo idx fuel) none fuel) q).start

/-- A bound on the texts that can be a name or a specifier on the way: those of the nodes, the empty
text, and the one that was asked for. -/
def textBound : Nat := idx.nodeCount + 2

def goalBound : Nat := (idx.files.size + idx.ambientModules.length) * textBound idx

def questionBound : Nat := (idx.files.size + 1) * (textBound idx * textBound idx)

/-- Fuel for answers: an answer that exists needs no question twice on the way, and a search no goal
twice. -/
def fuel : Nat := goalBound idx + questionBound idx + 2

end Export

namespace Project.Index

open Export

def answer? (idx : Index) (q : Question) : Option (List Declaration) :=
  answerUpTo idx (Export.fuel idx) q

def moduleExport (idx : Index) (file : SourceFile) (name : String) : List Declaration :=
  (idx.answer? (.file file.id name)).getD []

def ambientExport (idx : Index) (specifier name : String) : List Declaration :=
  (idx.answer? (.ambient specifier name)).getD []

def specifierExport (idx : Index) (file : SourceFile) (specifier name : String) :
    List Declaration :=
  (idx.answer? (.specifier file.id specifier name)).getD []

def namespaceMember (idx : Index) (d : Declaration) (name : String) : List Declaration :=
  (member idx.answer? d name).start.getD []

def exportEntrySymbol? (idx : Index) (file : SourceFile) (spec : Node) : Option Symbol := do
  let stmt ← spec.parent?.bind Node.parent?
  let inner ← spec.field? .name
  match stmt.field? .source with
  | some src => Symbol.ofList? (idx.specifierExport file src.stringValue inner.stringValue)
  | none => idx.resolveName file stmt inner.stringValue .any

end Project.Index

end ScriptAtlas
