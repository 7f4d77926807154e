import ScriptAtlas.Query.Locate
import ScriptAtlas.Query.Usage

/-!
# References

All places in the code of a project that refer to a symbol. Only identifiers that are spelled like the
symbol or like one of the names under which it is imported or exported come into question, and of
those the ones that stand for one of its declarations.
-/

namespace ScriptAtlas.Query

open Project Syntax

/-- The time that a search may take, in milliseconds. Time does not pass within a query: only a limit
of zero is ever reached. -/
structure Deadline where
  milliseconds : Nat
deriving DecidableEq, Repr, Inhabited

def Deadline.expired (d : Deadline) : Bool := d.milliseconds == 0

structure SearchOptions where
  includeTests : Bool
  /-- No limit when absent. -/
  deadline : Option Deadline
  /-- Whether the first file with a reference is enough. -/
  firstOnly : Bool
  /-- Whether lists of exported names of the symbol's own module do not count. -/
  skipLocalExports : Bool
deriving DecidableEq, Repr, Inhabited

def SearchOptions.expired (o : SearchOptions) : Bool := o.deadline.any Deadline.expired

def SearchOptions.within (milliseconds : Nat) : SearchOptions :=
  { includeTests := true, deadline := some ⟨milliseconds⟩, firstOnly := false
    skipLocalExports := false }

structure ReferenceSite where
  file : SourceFile
  node : Node
deriving Inhabited

namespace ReferenceSite

def line (s : ReferenceSite) : Nat := s.node.line

def kind (s : ReferenceSite) : UsageKind := classify s.node

end ReferenceSite

structure SearchResult where
  sites : List ReferenceSite
  partly : Bool
deriving Inhabited

namespace References

/-! ## Names -/

/-- The names under which lists of imports and exports of a file give the name `name`. -/
def aliasesIn (file : SourceFile) (name : String) : List String :=
  (file.tree.nodes.filter (·.hasKindIn [.importSpecifier, .exportSpecifier])).filterMap fun spec =>
    match spec.field? .name, spec.field? .alias with
    | some inner, some outer => if inner.bareText == name then some outer.bareText else none
    | _, _ => none

def aliasesOf (idx : Index) (name : String) : List String :=
  (idx.filesWithToken name).flatMap fun f => aliasesIn f name

/-- Adds the names that the pending ones lead to, until none is pending. -/
def closeNames (next : String → List String) : Nat → List String → List String → List String
  | 0, _, names => names
  | _, [], names => names
  | fuel + 1, name :: pending, names =>
    let fresh := ((next name).filter (!names.contains ·)).eraseDups
    closeNames next fuel (fresh ++ pending) (names ++ fresh)

/-- The names that a name leads to, itself included; each is the text of a node, which bounds how
many there are. -/
def searchNames (idx : Index) (name : String) : List String :=
  closeNames (aliasesOf idx) (idx.nodeCount + 1) [name] [name]

/-! ## Sites -/

/-- Whether an identifier is the new name in a list of imports or exports; the name before it is the
reference. -/
def isAliasName (n : Node) : Bool :=
  n.parent?.any fun p =>
    p.hasKindIn [.importSpecifier, .exportSpecifier] && n.isFieldOf .alias p
      && (p.field? .name).isSome

def isLocalExportName (n : Node) : Bool :=
  n.parent?.any fun spec =>
    spec.hasKind .exportSpecifier && n.isFieldOf .name spec
      && (spec.findAncestor? (·.hasKind .exportStatement)).any fun stmt =>
        (stmt.field? .source).isNone

/-- Whether an identifier of a file may refer to a symbol with the given names and keys. -/
def isCandidate (names : List String) (keys : List DeclarationKey) (skipLocalExports : Bool)
    (file : SourceFile) (n : Node) : Bool :=
  names.contains n.text && !keys.contains ⟨file.id, n.startByte⟩ && !isAliasName n
    && !(skipLocalExports && isLocalExportName n)

/-- Whether an identifier stands for a symbol with the given keys. -/
def refersTo (idx : Index) (keys : List DeclarationKey) (file : SourceFile) (n : Node) : Bool :=
  (idx.resolveAt? file n).any fun s => s.declarations.any fun d => keys.contains d.key

def inFile (idx : Index) (names : List String) (keys : List DeclarationKey)
    (skipLocalExports : Bool) (file : SourceFile) : List ReferenceSite :=
  (((SourceFile.identifiers file.tree).filter
    (isCandidate names keys skipLocalExports file)).filter (refersTo idx keys file)).map
      fun node => { file, node }

def inFiles (search : SourceFile → List ReferenceSite) (firstOnly : Bool) :
    List SourceFile → List ReferenceSite
  | [] => []
  | f :: rest =>
    let found := search f
    if firstOnly && !found.isEmpty then found else found ++ inFiles search firstOnly rest

def siteLe (a b : ReferenceSite) : Bool :=
  locationLe (a.file.relPath, a.node.startByte) (b.file.relPath, b.node.startByte)

def find (idx : Index) (target : Symbol) (options : SearchOptions) : SearchResult :=
  let names := searchNames idx target.name
  let files := idx.filesWithAnyToken names
  if options.expired then { sites := [], partly := !files.isEmpty }
  else
    let scanned := files.filter fun f => f.isUser && (options.includeTests || !f.isTest)
    let sites := inFiles (inFile idx names target.keys options.skipLocalExports) options.firstOnly
      scanned
    { sites := sites.mergeSort siteLe, partly := false }

/-! ## Summaries -/

/-- A module that exports a symbol under a name, from another module or under a new name. -/
structure ReExport where
  exportedAs : String
  file : String
  from_ : String
deriving DecidableEq, Repr, Inhabited

/-- The re-export that an entry of an export list makes of a symbol with the given names and keys. -/
def reExport? (idx : Index) (names : List String) (keys : List DeclarationKey) (file : SourceFile)
    (source : Option Node) (spec : Node) : Option ReExport := do
  let name ← spec.field? .name
  let outer := spec.field? .alias
  if (source.isNone && outer.isNone) || !names.contains name.bareText then none
  else
    let symbol := idx.resolveSymbol (← idx.exportEntrySymbol? file spec)
    if symbol.declarations.any fun d => keys.contains d.key then
      some
        { exportedAs := (outer.getD name).bareText
          file := file.relPath
          from_ := match source with
            | some src => src.stringValue
            | none => symbol.first.file.relPath }
    else none

def reExportsIn (idx : Index) (names : List String) (keys : List DeclarationKey)
    (file : SourceFile) : List ReExport :=
  (file.root.namedChildren.filter (·.hasKind .exportStatement)).flatMap fun stmt =>
    match stmt.namedChildren.find? (·.hasKind .exportClause) with
    | none => []
    | some clause =>
      (clause.namedChildren.filter (·.hasKind .exportSpecifier)).filterMap
        (reExport? idx names keys file (stmt.field? .source))

def reExports (idx : Index) (target : Symbol) : List ReExport :=
  let names := searchNames idx target.name
  let found := ((idx.filesWithAnyToken names).filter (·.isUser)).flatMap
    (reExportsIn idx names target.keys)
  found.mergeSort fun a b =>
    if a.file < b.file then true
    else if b.file < a.file then false
    else !(b.exportedAs < a.exportedAs)

structure FileReferences where
  filePath : String
  lines : List Nat
  usageKinds : List UsageKind
  isTestFile : Bool
deriving DecidableEq, Repr, Inhabited

structure Summary where
  symbol : SymbolRef
  totalCount : Nat
  fileCount : Nat
  files : List FileReferences
  reExports : List ReExport
  partly : Bool
deriving DecidableEq, Repr, Inhabited

def sortedLines (lines : List Nat) : List Nat := (lines.mergeSort (· ≤ ·)).eraseDups

def fileReferences (path : String) (sites : List ReferenceSite) : FileReferences :=
  { filePath := path
    lines := sortedLines (sites.map (·.line))
    usageKinds := UsageKind.all.filter fun k => sites.any (·.kind == k)
    isTestFile := (sites.head?.map (·.file.isTest)).getD false }

/-- Sites grouped by path; sites are sorted, so the paths come in order. -/
def byFile (sites : List ReferenceSite) : List FileReferences :=
  ((sites.map (·.file.relPath)).eraseDups).map fun path =>
    fileReferences path (sites.filter (·.file.relPath == path))

structure Options where
  includeTests : Bool
  timeoutMs : Option Nat
deriving DecidableEq, Repr, Inhabited

def Options.default : Options := ⟨true, none⟩

def summarize (idx : Index) (d : Declaration) (options : SearchOptions) : Summary :=
  let target := idx.merged d
  let result := find idx target options
  let files := byFile result.sites
  { symbol := d.ref
    totalCount := result.sites.length
    fileCount := files.length
    files
    reExports := reExports idx target
    partly := result.partly }

end References

def references (idx : Index) (q : SymbolQuery) (options : References.Options) :
    Except Failure References.Summary :=
  (locateDeclaration idx q).map fun d =>
    References.summarize idx d
      { includeTests := options.includeTests
        deadline := some ⟨options.timeoutMs.getD idx.settings.referenceTimeoutMs⟩
        firstOnly := false
        skipLocalExports := false }

end ScriptAtlas.Query
