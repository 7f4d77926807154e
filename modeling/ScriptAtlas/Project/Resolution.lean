import ScriptAtlas.Project.BuildConfig
import ScriptAtlas.Project.Manifest
import ScriptAtlas.Storage.IgnoreRules

/-!
# Module resolution

The files that a module specifier may mean: a path relative to the importing file, a mapped name, a
package of the workspace or an installed package.
-/

namespace ScriptAtlas.Project

open Storage Text Pattern

/-! ## Source files -/

def sourceExtensions : List String := ["ts", "tsx", "mts", "cts", "js", "jsx", "mjs", "cjs"]

def isSourcePath (p : Path) : Bool := p.extension?.any sourceExtensions.contains

def isDeclarationPath (p : Path) : Bool :=
  p.fileName?.any fun n => endsWith ".d.ts" n || endsWith ".d.mts" n || endsWith ".d.cts" n

/-- Whether a path, given as a text, has a directory of foreign code below the root. -/
def isVendorText (root text : String) (vendorDirs : List String) : Bool :=
  (Path.textPartsBelow root text).any vendorDirs.contains

def isVendorPath (root p : Path) (vendorDirs : List String) : Bool :=
  ((root.below? p).getD ("/" :: p.segments)).any vendorDirs.contains

/-! ## Files by path -/

def probeExtensions : List String :=
  [".ts", ".tsx", ".d.ts", ".mts", ".d.mts", ".cts", ".d.cts", ".js", ".jsx", ".mjs", ".cjs"]

def sourceOf : List (String × List String) :=
  [(".js", [".ts", ".tsx", ".d.ts"]), (".jsx", [".tsx"]), (".mjs", [".mts", ".d.mts"]),
   (".cjs", [".cts", ".d.cts"])]

def replaceEnd? (p : Path) (old new : String) : Option Path :=
  match p.segments.getLast? with
  | none => none
  | some last => (before? old last).map fun stem => ⟨p.segments.dropLast ++ [stem ++ new]⟩

/-- The file a path means: the source that it was compiled from, itself, or itself with an
extension. -/
def resolveFile? (fs : FileSystem) (p : Path) : Option Path :=
  let p := p.normalize
  let compiled := sourceOf.flatMap fun (old, news) => news.filterMap (replaceEnd? p old)
  (compiled.find? fs.isFile)
    <|> (if fs.isFile p && isSourcePath p then some p else none)
    <|> ((probeExtensions.map p.append).find? fs.isFile)

def resolveIndex? (fs : FileSystem) (dir : Path) : Option Path :=
  (probeExtensions.map fun e => dir.child ("index" ++ e)).find? fs.isFile

/-- The file that a path written in an import means; a directory stands for its entry or index. -/
def resolvePath? (fs : FileSystem) (p : Path) : Option Path :=
  let p := p.normalize
  match resolveFile? fs p with
  | some f => some f
  | none =>
    if fs.isDir p then
      let entries := ((Manifest.read? fs p).map (·.entryPoints)).getD []
      (entries.findSome? fun e => resolveFile? fs (p.join e)) <|> resolveIndex? fs p
    else none

def resolvePackage (fs : FileSystem) (dir : Path) (subpath : Option String) : List Path :=
  let manifest := Manifest.read? fs dir
  let exported := match manifest.bind (·.exports?) with
    | none => []
    | some exports =>
      let key := match subpath with
        | some sub => "./" ++ sub
        | none => "."
      ((exportTargets exports key).filterMap fun t => resolvePath? fs (dir.join t)).eraseDups
  if !exported.isEmpty then exported
  else match subpath with
    | some sub => (resolvePath? fs (dir.join sub)).toList
    | none =>
      let entries := (manifest.map (·.entryPoints)).getD []
      let found := (entries.filterMap fun e => resolveFile? fs (dir.join e)).eraseDups
      if found.isEmpty then (resolveIndex? fs dir).toList else found

/-! ## Workspaces -/

def workspacePackages (fs : FileSystem) (root : Path) : List (String × Path) :=
  let patterns := ((Manifest.read? fs root).map (·.workspacePatterns)).getD []
  if patterns.isEmpty then []
  else
    let globs := patterns.filterMap fun p =>
      (Glob.parse (dropEnd (· == '/') (dropLeading "./" p))).toOption
    (fs.walk root 4 fun _ => true).filterMap fun file =>
      if file.fileName? != some Manifest.fileName then none
      else do
        let dir ← file.parent?
        let below ← root.below? dir
        if below.isEmpty || below.contains "node_modules" then none
        if !(globs.any fun g => g.accepts (Text.join "/" below)) then none
        let manifest ← Manifest.read? fs dir
        let name ← manifest.name?
        return (name, dir)

/-! ## Specifiers -/

structure Resolver where
  fs : FileSystem
  root : Path
  build : Option BuildConfig
  workspaces : List (String × Path)

namespace Resolver

def new (fs : FileSystem) (root : Path) (build : Option BuildConfig) : Resolver :=
  { fs, root, build, workspaces := workspacePackages fs root }

/-- How well a pattern of a build configuration fits a specifier, and what its star stands for. An
exact pattern fits best, then the one with the longest text before its star. -/
def patternFit? (pattern specifier : String) : Option (Option Nat × String) :=
  match splitOnce? '*' pattern with
  | some (front, back) =>
    ((after? front specifier).bind (before? back)).map fun captured =>
      (some front.utf8ByteSize, captured)
  | none => if pattern == specifier then some (none, "") else none

def fitsBetter : Option Nat → Option Nat → Bool
  | none, _ => true
  | some _, none => false
  | some a, some b => b ≤ a

def mappedFiles (r : Resolver) (build : BuildConfig) (specifier : String) : List Path :=
  let fits := build.paths.filterMap fun (pattern, targets) =>
    (patternFit? pattern specifier).map fun (fit, captured) => (fit, targets, captured)
  let ordered := fits.mergeSort fun a b => fitsBetter a.1 b.1
  let found := ordered.map fun (_, targets, captured) =>
    (targets.filterMap fun t =>
      resolvePath? r.fs (build.pathsBase.join (replace '*' captured t))).eraseDups
  (found.find? (!·.isEmpty)).getD []

/-- Path patterns first, then the base directory. -/
def resolveMapped (r : Resolver) (specifier : String) : List Path :=
  match r.build with
  | none => []
  | some build =>
    match r.mappedFiles build specifier with
    | [] => (build.baseUrl.bind fun b => resolvePath? r.fs (b.join specifier)).toList
    | found => found

/-- The files of an installed package, in the nearest directory around the importing file that has
any: the package itself, then types published for it. -/
def resolveInstalled (r : Resolver) (spec : PackageSpecifier) (dir : Path) : List Path :=
  (dir.withParents.findSome? fun d =>
    let installed := d.child "node_modules"
    if !r.fs.isDir installed then none
    else
      let places := [installed.join spec.package,
        (installed.child "@types").join (typesPackageName spec.package)]
      places.findSome? fun p =>
        if r.fs.isDir p then
          match resolvePackage r.fs p spec.subpath with
          | [] => none
          | found => some found
        else none).getD []

def isRelative (specifier : String) : Bool :=
  beginsWith "./" specifier || beginsWith "../" specifier || specifier == "." || specifier == ".."

/-- The files that a specifier may mean in a file, best first. -/
def resolve (r : Resolver) (specifier : String) (file : Path) : List Path :=
  let dir := file.parent?.getD r.root
  if isRelative specifier then (resolvePath? r.fs (dir.join specifier)).toList
  else if Path.isAbsoluteText specifier then (resolvePath? r.fs (Path.ofText specifier)).toList
  else
    match r.resolveMapped specifier with
    | [] =>
      let spec := PackageSpecifier.ofText specifier
      let local_ := match r.workspaces.find? (·.1 == spec.package) with
        | some (_, dir) => resolvePackage r.fs dir spec.subpath
        | none => []
      if local_.isEmpty then r.resolveInstalled spec dir else local_
    | found => found

end Resolver

end ScriptAtlas.Project
