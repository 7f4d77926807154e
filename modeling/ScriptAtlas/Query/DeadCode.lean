import ScriptAtlas.Query.References

/-!
# Dead code

The declarations of a project that nothing refers to. The scan goes through the files of the project
in order and through the declarations directly in each of them; it stops when it has found enough or
has no time left.
-/

namespace ScriptAtlas.Query

open Project Syntax Pattern

inductive Confidence where
  | low | medium | high
deriving DecidableEq, Repr, Inhabited

namespace Confidence

def text : Confidence → String
  | low => "low"
  | medium => "medium"
  | high => "high"

def title : Confidence → String
  | low => "Low"
  | medium => "Medium"
  | high => "High"

end Confidence

namespace DeadCode

structure Options where
  /-- Whether declarations that are not exported count too. -/
  inclusive : Bool
  includeTests : Bool
  /-- The kinds to report; none means all. -/
  kinds : List SymbolKind
  /-- Patterns for the files to scan; none means all. -/
  include_ : List String
  exclude : List String
  maxResults : Option Nat
  timeoutMs : Option Nat
deriving DecidableEq, Repr, Inhabited

def Options.default : Options :=
  { inclusive := false, includeTests := false, kinds := [], include_ := [], exclude := []
    maxResults := none, timeoutMs := none }

structure Item where
  name : String
  kind : SymbolKind
  file : String
  line : Nat
  exported : Bool
  confidence : Confidence
  reason : String
deriving DecidableEq, Repr, Inhabited

structure Summary where
  scannedFiles : Nat
  scannedDeclarations : Nat
  found : Nat
  partly : Bool
  timedOut : Bool
deriving DecidableEq, Repr, Inhabited

structure Report where
  items : List Item
  summary : Summary
deriving DecidableEq, Repr, Inhabited

def scannedKinds : List SymbolKind :=
  [.function, .classType, .interfaceType, .typeAlias, .enumType, .variableName]

/-- How sure it is that a declaration which is not exported is not used. Variables are often kept for
an effect. -/
def localConfidence : SymbolKind → Confidence
  | .function | .classType => .high
  | .enumType | .interfaceType | .typeAlias => .medium
  | _ => .low

/-- Patterns for paths; a pattern that is none is a failure. -/
def compileGlobs (patterns : List String) : Except Failure (List Glob) :=
  patterns.mapM fun p =>
    match Glob.parse p with
    | .ok g => .ok g
    | .error e => .error (.invalidGlob p e)

def scansFile (options : Options) (include_ exclude : List Glob) (f : SourceFile) : Bool :=
  (options.includeTests || !f.isTest)
    && (include_.isEmpty || include_.any (·.accepts f.relPath))
    && !exclude.any (·.accepts f.relPath)

def scannedDeclarations (options : Options) (f : SourceFile) : List Declaration :=
  (f.root.blockDeclarations.filterMap fun (node, name) => Declaration.make? f node name).filter
    fun d =>
      scannedKinds.contains d.kind
        && (options.kinds.isEmpty || options.kinds.contains d.effectiveKind)
        && (d.isExported || options.inclusive)

/-- The declarations of a file that are to be judged: those that belong together once, at the
first. -/
def judgedDeclarations (idx : Index) (options : Options) (f : SourceFile) : List Declaration :=
  (scannedDeclarations options f).filter fun d => (idx.merged d).first.sameAs d

/-- Whether nothing refers to a declaration, apart from lists of exports in its own file. -/
def isUnreferenced (idx : Index) (d : Declaration) : Bool :=
  (References.find idx (idx.merged d)
    { includeTests := true, deadline := none, firstOnly := true
      skipLocalExports := true }).sites.isEmpty

def item (d : Declaration) : Item :=
  let kind := d.effectiveKind
  { name := d.name
    kind
    file := d.file.relPath
    line := d.line
    exported := d.isExported
    confidence := if d.isExported then .high else localConfidence kind
    reason := if d.isExported then "exported but never referenced" else "never referenced" }

structure Scan where
  items : List Item
  files : Nat
  declarations : Nat
  full : Bool
deriving Inhabited

/-- Judges the declarations of a file, until enough has been found. -/
def scanDeclarations (unreferenced : Declaration → Bool) (cap : Nat) :
    Scan → List Declaration → Scan
  | s, [] => s
  | s, d :: rest =>
    let s := { s with declarations := s.declarations + 1 }
    if unreferenced d then
      let s := { s with items := s.items ++ [item d] }
      if cap ≤ s.items.length then { s with full := true }
      else scanDeclarations unreferenced cap s rest
    else scanDeclarations unreferenced cap s rest

def scanFiles (unreferenced : Declaration → Bool) (judged : SourceFile → List Declaration)
    (cap : Nat) : Scan → List SourceFile → Scan
  | s, [] => s
  | s, f :: rest =>
    let s := scanDeclarations unreferenced cap { s with files := s.files + 1 } (judged f)
    if s.full then s else scanFiles unreferenced judged cap s rest

def detect (idx : Index) (options : Options) : Except Failure Report := do
  let include_ ← compileGlobs options.include_
  let exclude ← compileGlobs options.exclude
  let cap := options.maxResults.getD idx.settings.deadCodeMaxResults
  let deadline : Deadline := ⟨options.timeoutMs.getD idx.settings.deadCodeTimeoutMs⟩
  let files := idx.userFiles.filter (scansFile options include_ exclude)
  if deadline.expired then
    let timedOut := !files.isEmpty
    return { items := [], summary :=
      { scannedFiles := 0, scannedDeclarations := 0, found := 0, partly := timedOut, timedOut } }
  else
    let s := scanFiles (isUnreferenced idx) (judgedDeclarations idx options) cap
      { items := [], files := 0, declarations := 0, full := false } files
    return {
      items := s.items.mergeSort fun a b => locationLe (a.file, a.line) (b.file, b.line)
      summary :=
        { scannedFiles := s.files, scannedDeclarations := s.declarations, found := s.items.length
          partly := s.full, timedOut := false } }

end DeadCode

end ScriptAtlas.Query
