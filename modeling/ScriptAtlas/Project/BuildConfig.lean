import ScriptAtlas.Data.Json5
import ScriptAtlas.Data.Record
import ScriptAtlas.Pattern.Glob
import ScriptAtlas.Storage.FileSystem

/-!
# Build configurations

Which files belong to a build and how it maps module names to paths. A configuration may extend
others: it takes from them what it does not say itself. A configuration that only refers to others
has no files of its own.
-/

namespace ScriptAtlas.Project

open Storage Text Pattern

structure RawBuildConfig where
  extends_ : List String
  baseUrl : Option String
  paths : Option (List (String × List String))
  include_ : Option (List String)
  exclude : Option (List String)
  files : Option (List String)
  references : List String
deriving Inhabited

namespace RawBuildConfig

def bases? : Json → Option (List String)
  | .string s => some [s]
  | .array items => items.mapM Json.asString?
  | _ => none

/-- Path patterns with their targets, sorted by pattern; of equal patterns the last counts. -/
def paths? : Json → Option (List (String × List String))
  | .object fields =>
    if fields.all fun f => (Json.stringList? f.2).isSome then
      (Json.sortedFields fields).mapM fun (k, v) =>
        (Json.stringList? v).map fun targets => (k, targets)
    else none
  | _ => none

def options? (j : Json) : Option (Option String × Option (List (String × List String))) := do
  match ← Json.record? ["baseUrl", "paths"] Json5.isReadable j with
  | [base, paths] =>
    return (← Json.optionalPart? Json.asString? base, ← Json.optionalPart? paths? paths)
  | _ => none

def reference? (j : Json) : Option String := do
  match ← Json.record? ["path"] Json5.isReadable j with
  | [some path] => path.asString?
  | _ => none

def references? (j : Json) : Option (List String) :=
  j.asArray?.bind fun items => items.mapM reference?

def ofJson? (j : Json) : Option RawBuildConfig := do
  let names := ["extends", "compilerOptions", "include", "exclude", "files", "references"]
  match ← Json.record? names Json5.isReadable j with
  | [bases, options, included, excluded, files, references] =>
    let options ← Json.optionalPart? options? options
    return {
      extends_ := (← Json.optionalPart? bases? bases).getD []
      baseUrl := options.bind Prod.fst
      paths := options.bind Prod.snd
      include_ := ← Json.optionalPart? Json.stringList? included
      exclude := ← Json.optionalPart? Json.stringList? excluded
      files := ← Json.optionalPart? Json.stringList? files
      references := (← Json.optionalPart? references? references).getD [] }
  | _ => none

def ofText? (text : String) : Option RawBuildConfig := (Json5.parse? text).bind ofJson?

end RawBuildConfig

structure BuildConfig where
  path : Path
  dir : Path
  baseUrl : Option Path
  paths : List (String × List String)
  pathsBase : Path
  include_ : Option (List String)
  exclude : Option (List String)
  files : Option (List String)
  references : List Path
deriving Inhabited

inductive BuildConfigError where
  | unreadable
  | malformed
  | cyclic
deriving DecidableEq, Repr

namespace BuildConfig

def fileName : String := "tsconfig.json"

/-! ## File sets -/

def isSolution (c : BuildConfig) : Bool :=
  !c.references.isEmpty &&
    match c.files, c.include_ with
    | some files, none => files.isEmpty
    | none, none => true
    | _, _ => false

/-- The globs that a pattern stands for: a bare directory also stands for all below it. -/
def patternGlobs (pattern : String) : List String :=
  let trimmed := dropEnd (· == '/') (dropLeading "./" pattern)
  let hasGlob := hasChar '*' trimmed || hasChar '?' trimmed || hasChar '[' trimmed
  if hasGlob || (Path.textExtension? trimmed).isSome then [trimmed]
  else [trimmed, trimmed ++ "/**/*"]

/-- Whether one of the patterns matches a path; patterns that are no globs never do. -/
def matchesAny (patterns : List String) (path : String) : Bool :=
  (patterns.flatMap patternGlobs).any fun p =>
    match Glob.parse p with
    | .ok g => g.accepts path
    | .error _ => false

def covers (c : BuildConfig) (p : Path) : Bool :=
  match c.dir.below? p with
  | none => false
  | some below =>
    let listed := c.files.any fun fs => fs.any fun f => (c.dir.join f).normalize == p.normalize
    if listed then true
    else if c.files.isSome && c.include_.isNone then false
    else
      let rel := Text.join "/" below
      (c.include_.map (matchesAny · rel)).getD true
        && !(c.exclude.map (matchesAny · rel)).getD false

/-! ## Loading -/

/-- What is written in a file at its own place, before its bases are merged in. -/
def blank (path : Path) : BuildConfig :=
  let dir := path.parent?.getD Path.root
  { path, dir, baseUrl := none, paths := [], pathsBase := dir, include_ := none, exclude := none,
    files := none, references := [] }

/-- Takes over from a base what is still open. File patterns of a base are relative to its own
directory, so they are taken over only within one directory. -/
def inherit_ (c base : BuildConfig) : BuildConfig :=
  let c := if c.baseUrl.isNone then
      { c with baseUrl := base.baseUrl, pathsBase := base.pathsBase }
    else c
  let c := if c.paths.isEmpty then { c with paths := base.paths } else c
  if base.dir == c.dir then
    { c with
      include_ := c.include_ <|> base.include_
      exclude := c.exclude <|> base.exclude
      files := c.files <|> base.files }
  else c

/-- The configuration that a reference names: a file, or the default file of a directory. -/
def referenceTarget (dir : Path) (text : String) : Path :=
  let p := (dir.join text).normalize
  if p.extension? == some "json" then p else p.child fileName

def override_ (c : BuildConfig) (raw : RawBuildConfig) : BuildConfig :=
  let c := match raw.baseUrl with
    | some text =>
      let base := (c.dir.join text).normalize
      { c with baseUrl := some base, pathsBase := base }
    | none => c
  let c := match raw.paths with
    | some paths =>
      { c with paths, pathsBase := if c.baseUrl.isNone then c.dir else c.pathsBase }
    | none => c
  { c with
    include_ := raw.include_ <|> c.include_
    exclude := raw.exclude <|> c.exclude
    files := raw.files <|> c.files
    references := raw.references.map (referenceTarget c.dir) }

def joinedText (dir : Path) (text : String) : String :=
  if Path.isAbsoluteText text then text
  else if dir.segments.isEmpty then "/" ++ text
  else dir.text ++ "/" ++ text

def withExtension (text : String) : Path :=
  if Path.textExtension? text == some "json" then Path.ofText text
  else Path.ofText (text ++ ".json")

/-- The files that may be meant by a base, as they are written: one relative to the directory, or those in
the packages around it, best first. -/
def baseCandidates (dir : Path) (spec : String) : List Path :=
  if beginsWith "." spec || Path.isAbsoluteText spec then [withExtension (joinedText dir spec)]
  else
    dir.withParents.flatMap fun d =>
      let base := joinedText (d.child "node_modules") spec
      [withExtension base, (Path.ofText base).child fileName]

def basePath? (isFile : Path → Bool) (dir : Path) (spec : String) : Option Path :=
  (baseCandidates dir spec).find? isFile

/-- An attempt to load the file at a path, with the files that were visited before and are afterwards. -/
abbrev Loader := List Path → Path → Except BuildConfigError BuildConfig × List Path

/-- Takes over what one base says; a base that is not there or cannot be loaded is passed over. -/
def mergeBase (isFile : Path → Bool) (load : Loader) (state : BuildConfig × List Path)
    (spec : String) : BuildConfig × List Path :=
  match basePath? isFile state.1.dir spec with
  | none => state
  | some path =>
    match load state.2 path with
    | (.ok base, visited) => (state.1.inherit_ base, visited)
    | (.error _, visited) => (state.1, visited)

/-- Loads a configuration with its bases, one after the other. A file counts as visited from the moment at
which it is looked at until its configuration is complete, and for good if it cannot be read or parsed; a
visited file is not loaded. No more files than there are can be loading at a time. Whether a base is there
is asked about its path as it is written (`isFile`), while the normal form of the path is read. -/
def loadFrom (fs : FileSystem) (isFile : Path → Bool) : Nat → Loader
  | 0, visited, _ => (.error .cyclic, visited)
  | fuel + 1, visited, path =>
    let path := path.normalize
    if visited.contains path then (.error .cyclic, visited)
    else
      let visited := path :: visited
      match fs.readText? path with
      | none => (.error .unreadable, visited)
      | some text =>
        match RawBuildConfig.ofText? text with
        | none => (.error .malformed, visited)
        | some raw =>
          let (merged, visited) :=
            raw.extends_.foldl (mergeBase isFile (loadFrom fs isFile fuel)) (blank path, visited)
          (.ok (merged.override_ raw), visited.filter (· != path))

/-- Loads a configuration where `isFile` says at which paths, as they are written, there is a file. Links
may lead such a path elsewhere than its normal form says. -/
def loadWith (fs : FileSystem) (isFile : Path → Bool) (path : Path) :
    Except BuildConfigError BuildConfig :=
  (loadFrom fs isFile (fs.files.length + 2) [] path).1

def load (fs : FileSystem) (path : Path) : Except BuildConfigError BuildConfig :=
  loadWith fs fs.isFile path

/-! ## Selection -/

/-- The first configuration referred to that covers the target, or else contains the directory. -/
def coveringReference? (fs : FileSystem) (c : BuildConfig) (start : Path) (target : Option Path) :
    Option BuildConfig :=
  c.references.findSome? fun r =>
    match load fs r with
    | .error _ => none
    | .ok sub =>
      let covered := match target with
        | some file => sub.covers file
        | none => start.isWithin sub.dir
      if covered then some sub else none

/-- Walks up from a directory, given as the list of directories to try. A configuration that only
refers to others gives way to one of those, and else to a configuration further up; only when there
is none is the nearest such configuration taken. -/
def selectFrom (fs : FileSystem) (start : Path) (target : Option Path) :
    List Path → Option BuildConfig → Option BuildConfig
  | [], fallback => fallback
  | dir :: rest, fallback =>
    let candidate := dir.child fileName
    match if fs.isFile candidate then (load fs candidate).toOption else none with
    | none => selectFrom fs start target rest fallback
    | some c =>
      if c.isSolution then
        match coveringReference? fs c start target with
        | some sub => some sub
        | none => selectFrom fs start target rest (fallback <|> some c)
      else some c

def select (fs : FileSystem) (start : Path) (target : Option Path) : Option BuildConfig :=
  selectFrom fs start target start.withParents none

end BuildConfig

end ScriptAtlas.Project
