import ScriptAtlas.Project.SourceFile
import Std.Data.HashMap
import Std.Data.HashSet

/-!
# The index of a project

All files of a project and of the packages that it refers to, parsed and linked, as one value:
queries look at it and never at the file system.
-/

namespace ScriptAtlas.Project

open Storage Syntax

structure AmbientModule where
  file : Nat
  name : String
  /-- The number of the declaring node in its file. -/
  node : Nat
deriving DecidableEq, Repr, Inhabited

structure Link where
  from_ : Nat
  specifier : String
  targets : List Nat
deriving DecidableEq, Repr, Inhabited

/-! ## Tokens -/

/-- The texts of the identifiers of a file, each once. -/
def SourceFile.names (f : SourceFile) : List String :=
  (Std.HashSet.ofList ((identifiers f.tree).map Node.text)).toList

def enterToken (id : Nat) (table : Std.HashMap String (List Nat)) (name : String) :
    Std.HashMap String (List Nat) :=
  table.insert name (table.getD name [] ++ [id])

def tokenTable (files : Array SourceFile) : Std.HashMap String (List Nat) :=
  let filled := files.toList.foldl (fun table f => f.names.foldl (enterToken f.id) table) ∅
  filled.map fun _ ids => ids.mergeSort (· ≤ ·)

structure Tokens (files : Array SourceFile) where
  table : Std.HashMap String (List Nat)
  table_eq : table = tokenTable files

namespace Tokens

def of (files : Array SourceFile) : Tokens files := ⟨tokenTable files, rfl⟩

instance (files : Array SourceFile) : Inhabited (Tokens files) := ⟨of files⟩

end Tokens

/-- The index of a project. The file with number `i` stands at place `i`. -/
structure Index where
  root : Path
  settings : Settings
  build : Option BuildConfig
  files : Array SourceFile
  links : List Link
  tokens : Tokens files
  ambientModules : List AmbientModule
deriving Inhabited

inductive IndexError where
  | notADirectory (root : Path)
  | noSources (root : Path)
deriving DecidableEq, Repr

/-! ## Scanning -/

/-- The source files that belong to a project, in the order of their paths: those that a walk shows,
without foreign directories and without what the build configuration leaves out. -/
def sourcePaths (fs : FileSystem) (root : Path) (settings : Settings) (build : Option BuildConfig) :
    List Path :=
  let fileSet := build.filter fun b => !b.isSolution
  let shown := fs.walk root fs.depthBound fun name => !settings.isVendorDir name
  let kept := shown.filter fun p =>
    isSourcePath p && !isVendorPath root p settings.vendorDirs
      && !(fileSet.any fun b => p.isWithin b.dir && !b.covers p)
  kept.mergeSort Path.le

def parseFile? (fs : FileSystem) (p : Path) : Option (Path × Tree) :=
  (fs.readText? p).map fun text => (p.normalize, SourceFile.parseTree p text)

/-! ## Linking -/

/-- An index that is still growing: its files, its links, and how many files links have added. -/
structure Linking where
  files : Array SourceFile
  links : List Link
  added : Nat

namespace Linking

/-- The number of the file at a path, the one added last if there are several. -/
def find? (st : Linking) (p : Path) : Option Nat :=
  (st.files.findRev? (·.path == p)).map (·.id)

structure Context where
  resolver : Resolver
  settings : Settings

/-- Finds the number of a candidate, adding its file if it is new, readable and within the limit. -/
def reach (ctx : Context) (st : Linking) (candidate : Path) : Linking × Option Nat :=
  match st.find? candidate with
  | some id => (st, some id)
  | none =>
    if ctx.settings.maxExternalFiles ≤ st.added then (st, none)
    else
      match parseFile? ctx.resolver.fs candidate with
      | none => (st, none)
      | some (path, tree) =>
        let id := st.files.size
        let file := SourceFile.new id ctx.resolver.root ctx.settings path tree
        ({ st with files := st.files.push file, added := st.added + 1 }, some id)

def reachAll (ctx : Context) : Linking → List Path → List Nat → Linking × List Nat
  | st, [], targets => (st, targets)
  | st, candidate :: rest, targets =>
    let (st, id) := st.reach ctx candidate
    let targets := match id with
      | some id => if targets.contains id then targets else targets ++ [id]
      | none => targets
    reachAll ctx st rest targets

def linkSpecifier (ctx : Context) (file : SourceFile) (st : Linking) (specifier : String) :
    Linking :=
  let (st, targets) := reachAll ctx st (ctx.resolver.resolve specifier file.path) []
  { st with links := st.links ++ [{ from_ := file.id, specifier, targets }] }

def linkFrom (ctx : Context) : Nat → Nat → Linking → Linking
  | 0, _, st => st
  | fuel + 1, i, st =>
    match st.files[i]? with
    | none => st
    | some file =>
      linkFrom ctx fuel (i + 1)
        ((SourceFile.moduleSpecifiers file.tree).foldl (linkSpecifier ctx file) st)

/-- Links all files. Linking adds at most as many files as the settings allow, which bounds the
number of files to go through. -/
def linkAll (ctx : Context) (st : Linking) : Linking :=
  linkFrom ctx (st.files.size + ctx.settings.maxExternalFiles + 1) 0 st

end Linking

/-! ## Building -/

def ambientModulesOf (f : SourceFile) : List AmbientModule :=
  (f.root.namedChildren.filter (·.hasKind .ambientDeclaration)).flatMap fun stmt =>
    (stmt.namedChildren.filter (·.hasKind .moduleDeclaration)).filterMap fun m =>
      ((m.field? .name).filter (·.hasKind .string)).map fun name =>
        { file := f.id, name := name.stringValue, node := m.id }

/-- The parsed files in index order: those with code first, then those that only declare types. -/
def indexOrder (parsed : List (Path × Tree)) : List (Path × Tree) :=
  parsed.filter (fun f => !isDeclarationPath f.1) ++ parsed.filter (fun f => isDeclarationPath f.1)

namespace Index

def build_ (fs : FileSystem) (root : Path) (settings : Settings) : Except IndexError Index :=
  if !fs.isDir root then .error (.notADirectory root)
  else
    let root := root.normalize
    let config := BuildConfig.select fs root none
    let parsed := (sourcePaths fs root settings config).filterMap (parseFile? fs)
    if parsed.isEmpty then .error (.noSources root)
    else
      let files := (indexOrder parsed).foldl (fun files (path, tree) =>
        files.push (SourceFile.new files.size root settings path tree)) #[]
      let ctx : Linking.Context := { resolver := Resolver.new fs root config, settings }
      let linked := Linking.linkAll ctx { files, links := [], added := 0 }
      .ok {
        root, settings, build := config
        files := linked.files
        links := linked.links
        tokens := .of linked.files
        ambientModules := linked.files.toList.flatMap ambientModulesOf }

/-! ## Looking things up -/

def file? (idx : Index) (id : Nat) : Option SourceFile := idx.files[id]?

def userFiles (idx : Index) : List SourceFile := idx.files.toList.filter (·.isUser)

def fileByPath? (idx : Index) (p : Path) : Option SourceFile :=
  idx.files.findRev? (·.path == p.normalize)

/-- The file that a hint means: an absolute path, a path under the root, or the end of a path. -/
def findFile? (idx : Index) (hint : String) : Option SourceFile :=
  let trimmed := Text.dropLeading "./" hint
  if Path.isAbsoluteText trimmed then idx.fileByPath? (Path.ofText trimmed)
  else idx.fileByPath? (idx.root.join trimmed)
    <|> idx.files.find? fun f => Text.endsWith trimmed f.relPath

/-- The files that a specifier in a file was resolved to, best first. -/
def linked (idx : Index) (from_ : Nat) (specifier : String) : List SourceFile :=
  match idx.links.find? fun l => l.from_ == from_ && l.specifier == specifier with
  | some l => l.targets.filterMap idx.file?
  | none => []

def tokenIds (idx : Index) (name : String) : List Nat := idx.tokens.table.getD name []

def filesWithToken (idx : Index) (name : String) : List SourceFile :=
  (idx.tokenIds name).filterMap idx.file?

def filesWithAnyToken (idx : Index) (names : List String) : List SourceFile :=
  ((names.flatMap idx.tokenIds).eraseDups.mergeSort (· ≤ ·)).filterMap idx.file?

def ambientNode? (idx : Index) (m : AmbientModule) : Option (SourceFile × Node) :=
  (idx.file? m.file).map fun f => (f, f.tree.node m.node)

def nodeCount (idx : Index) : Nat := idx.files.foldl (fun n f => n + f.tree.size) 0

end Index

end ScriptAtlas.Project
