import ScriptAtlas.Pattern.Glob
import ScriptAtlas.Storage.FileSystem

/-!
# Ignore files

Lists of patterns that hide files from a walk over a directory tree. A line is a pattern; `#` begins
a comment, `!` takes files back in, a slash at the end means directories only, and a slash elsewhere
ties the pattern to the directory of the list. The last line that matches decides.
-/

namespace ScriptAtlas.Storage

open Pattern Text

inductive Verdict where
  | ignore
  | keep
deriving DecidableEq, Repr

structure IgnoreRule where
  glob : Glob
  verdict : Verdict
  onlyDirs : Bool

namespace IgnoreRule

/-- A line without the blanks at its end; a blank behind a backslash stays. -/
def trimLine (line : String) : String :=
  if endsWith "\\ " line then line else dropEnd isWhiteSpace line

/-- The pattern of a line relative to its directory, once its marks are taken off: without a slash
it may match at any depth, and `/**` at its end means what is inside. -/
def anchored (isAbsolute : Bool) (body : String) : String :=
  let body :=
    if !isAbsolute && !hasChar '/' body && !(beginsWith "**/" body || body == "**") then
      "**/" ++ body
    else body
  if endsWith "/**" body then body ++ "/*" else body

/-- The rule of a line; comments, empty lines and patterns that do not parse give none. -/
def ofLine? (raw : String) : Option IgnoreRule :=
  if beginsWith "#" raw then none
  else
    let line := trimLine raw
    if line == "" then none
    else
      let (verdict, isAbsolute, line) :=
        if beginsWith "\\!" line || beginsWith "\\#" line then
          let rest := (after? "\\" line).getD line
          (Verdict.ignore, beginsWith "/" rest, rest)
        else
          let (verdict, rest) := match after? "!" line with
            | some rest => (Verdict.keep, rest)
            | none => (Verdict.ignore, line)
          match after? "/" rest with
          | some rest => (verdict, true, rest)
          | none => (verdict, false, rest)
      let (onlyDirs, body) := match before? "/" line with
        | some rest => (true, (before? "\\" rest).getD rest)
        | none => (false, line)
      match Glob.parse (anchored isAbsolute body) with
      | .ok glob => some { glob, verdict, onlyDirs }
      | .error _ => none

def applies (r : IgnoreRule) (below : List String) (isDir : Bool) : Bool :=
  (!r.onlyDirs || isDir) && r.glob.acceptsSegments (Text.join "/" below)

end IgnoreRule

structure IgnoreList where
  dir : Path
  rules : List IgnoreRule
deriving Inhabited

namespace IgnoreList

def lines (text : String) : List String :=
  (split '\n' text).map fun l => (before? "\r" l).getD l

def load (fs : FileSystem) (dir file : Path) : IgnoreList :=
  { dir, rules := ((fs.readText? file).map fun t => (lines t).filterMap IgnoreRule.ofLine?).getD [] }

/-- What the list says about a path: the last rule that applies. -/
def verdict? (l : IgnoreList) (p : Path) (isDir : Bool) : Option Verdict :=
  (l.dir.below? p).bind fun below =>
    (l.rules.reverse.find? (·.applies below isDir)).map (·.verdict)

end IgnoreList

structure IgnoreLevel where
  general : IgnoreList
  versioned : IgnoreList
  excluded : IgnoreList
  /-- Whether a repository begins here. -/
  hasRepository : Bool
deriving Inhabited

namespace IgnoreLevel

def load (fs : FileSystem) (dir : Path) : IgnoreLevel :=
  { general := .load fs dir (dir.child ".ignore")
    versioned := .load fs dir (dir.child ".gitignore")
    excluded := .load fs dir (((dir.child ".git").child "info").child "exclude")
    hasRepository := fs.pathExists (dir.child ".git") }

/-- The levels that the rules of a repository reach: up to the one where it begins. -/
def inRepository : List IgnoreLevel → List IgnoreLevel
  | [] => []
  | l :: rest => if l.hasRepository then [l] else l :: inRepository rest

/-- What the ignore files around a path say, given from the nearest directory up: general lists
first, then the lists of the repository, if there is one. -/
def verdict? (levels : List IgnoreLevel) (p : Path) (isDir : Bool) : Option Verdict :=
  let repository := if levels.any (·.hasRepository) then inRepository levels else []
  (levels.findSome? fun l => l.general.verdict? p isDir)
    <|> (repository.findSome? fun l => l.versioned.verdict? p isDir)
    <|> (repository.findSome? fun l => l.excluded.verdict? p isDir)

/-- Whether a walk passes a path by: an ignore file says so, or its name begins with a dot and no
ignore file takes it back in. -/
def skips (levels : List IgnoreLevel) (p : Path) (isDir : Bool) : Bool :=
  match verdict? levels p isDir with
  | some .ignore => true
  | some .keep => false
  | none => p.fileName?.any (beginsWith ".")

end IgnoreLevel

namespace FileSystem

/-- The files below a directory that a walk shows, `depth` levels deep. `levels` are the ignore files
of the directory and of those around it, nearest first; `enter` may refuse names. -/
def walkFrom (fs : FileSystem) (enter : String → Bool) :
    Nat → List IgnoreLevel → Path → List Path
  | 0, _, _ => []
  | depth + 1, levels, dir =>
    (fs.list dir).flatMap fun name =>
      let p := dir.child name
      let isDir := fs.dirAt p
      if !enter name || IgnoreLevel.skips levels p isDir then []
      else if isDir then walkFrom fs enter depth (IgnoreLevel.load fs p :: levels) p
      else [p]

/-- The files below a root that a walk shows, with the ignore files of the directories around the
root taken into account. -/
def walk (fs : FileSystem) (root : Path) (depth : Nat) (enter : String → Bool) : List Path :=
  fs.walkFrom enter depth (root.withParents.map (IgnoreLevel.load fs)) root

/-- More levels than any path has. -/
def depthBound (fs : FileSystem) : Nat :=
  (fs.files.map fun f => f.1.segments.length).foldl max 0 + 1

end FileSystem

end ScriptAtlas.Storage
