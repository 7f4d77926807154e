import ScriptAtlas.Project.Resolution
import ScriptAtlas.Project.Settings
import ScriptAtlas.Syntax.Declaration

/-!
# Source files

A parsed file of a project or of a package that it uses, with what the index needs to know about it:
whether it is the user's own code, whether it is a module, and which modules it refers to.
-/

namespace ScriptAtlas.Project

open Storage Syntax

structure SourceFile where
  id : Nat
  path : Path
  /-- The path as results show it: relative to the root of the project. -/
  relPath : String
  tree : Tree
  /-- Code of the project itself: under its root, not foreign, and not a mere declaration of types. -/
  isUser : Bool
  isStub : Bool
  /-- Whether the file imports or exports; other files share one global scope. -/
  isModule : Bool
  isTest : Bool
deriving Inhabited

namespace SourceFile

def root (f : SourceFile) : Node := f.tree.root

def identifiers (t : Tree) : List Node := t.nodes.filter fun n => n.kind?.any Kind.isIdentifier

def hasMarkup (p : Path) : Bool := p.extension? == some "tsx" || p.extension? == some "jsx"

def parseTree (p : Path) (text : String) : Tree := Tree.parse text (hasMarkup p)

def new (id : Nat) (root : Path) (settings : Settings) (path : Path) (tree : Tree) : SourceFile :=
  let relPath := root.relativeTo path
  let isStub := isDeclarationPath path
  { id, path, relPath, tree, isStub
    isUser := path.isWithin root && !isVendorPath root path settings.vendorDirs && !isStub
    isModule := tree.root.namedChildren.any (·.hasKindIn [.importStatement, .exportStatement])
    isTest := isTestFile settings.testFilePatterns relPath }

/-! ## Modules that a file refers to -/

/-- The specifiers of an import or export statement: its own, or else those of the clauses in it that
require a module. -/
def statementSpecifiers (stmt : Node) : List String :=
  if !stmt.hasKindIn [.importStatement, .exportStatement] then []
  else match stmt.field? .source with
    | some src => [src.stringValue]
    | none =>
      (stmt.namedChildren.filter (·.hasKind .importRequireClause)).filterMap fun clause =>
        (clause.field? .source <|> clause.namedChildren.find? (·.hasKind .string)).map
          Node.stringValue

def callSpecifier? (call : Node) : Option String :=
  if !call.hasKind .callExpression then none
  else do
    let callee ← call.field? .function
    if callee.text != "require" && callee.text != "import" then none
    let args ← call.field? .arguments
    let first ← args.namedChildren.head?
    if first.hasKind .string then some first.stringValue else none

/-- The specifiers of the modules that a file refers to, each once: those of its statements, then
those of calls anywhere in it. -/
def moduleSpecifiers (t : Tree) : List String :=
  let all := t.root.namedChildren.flatMap statementSpecifiers ++ t.nodes.filterMap callSpecifier?
  (all.filter (· != "")).eraseDups

end SourceFile

end ScriptAtlas.Project
