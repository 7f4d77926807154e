import ScriptAtlas.Data.Json5
import ScriptAtlas.Data.Record
import ScriptAtlas.Pattern.Expression
import ScriptAtlas.Storage.FileSystem

/-!
# Settings of a project

Which directories hold foreign code, which files are tests, and the limits of the searches. A
project may set them in a file at its root; what it leaves out keeps its default.
-/

namespace ScriptAtlas.Project

open Storage

/-- The settings of a project. Times are in milliseconds. -/
structure Settings where
  vendorDirs : List String
  testFilePatterns : List String
  maxExternalFiles : Nat
  deadCodeTimeoutMs : Nat
  deadCodeMaxResults : Nat
  hierarchyTimeoutMs : Nat
  referenceTimeoutMs : Nat
deriving DecidableEq, Repr, Inhabited

inductive SettingsError where
  | unreadable
  | malformed (file : Path)
deriving DecidableEq, Repr

namespace Settings

def fileName : String := ".tracescope.json"

def default : Settings where
  vendorDirs := ["node_modules", "bower_components", "jspm_packages"]
  testFilePatterns :=
    ["\\.(test|spec)\\.[cm]?[jt]sx?$", "(^|/)(__tests__|__mocks__)/", "(^|/)tests?/"]
  maxExternalFiles := 2000
  deadCodeTimeoutMs := 30000
  deadCodeMaxResults := 500
  hierarchyTimeoutMs := 10000
  referenceTimeoutMs := 20000

def partNames : List String :=
  ["vendorDirs", "testFilePatterns", "maxExternalFiles", "deadCodeTimeoutMs",
   "deadCodeMaxResults", "hierarchyTimeoutMs", "referenceTimeoutMs"]

def ofRecord? (count? : Json → Option Nat) (ignorable : Json → Bool) (j : Json) :
    Option Settings := do
  match ← Json.record? partNames ignorable j with
  | [dirs, patterns, files, deadTime, deadMax, hierarchyTime, referenceTime] =>
    return {
      vendorDirs := ← Json.part? Json.stringList? default.vendorDirs dirs
      testFilePatterns := ← Json.part? Json.stringList? default.testFilePatterns patterns
      maxExternalFiles := ← Json.part? count? default.maxExternalFiles files
      deadCodeTimeoutMs := ← Json.part? count? default.deadCodeTimeoutMs deadTime
      deadCodeMaxResults := ← Json.part? count? default.deadCodeMaxResults deadMax
      hierarchyTimeoutMs := ← Json.part? count? default.hierarchyTimeoutMs hierarchyTime
      referenceTimeoutMs := ← Json.part? count? default.referenceTimeoutMs referenceTime }
  | _ => none

def looseCount? : Json → Option Nat
  | .number literal => Json5.toCount? literal
  | _ => none

/-- A count as strict JSON writes it: an integer of 64 bits. -/
def strictCount? (j : Json) : Option Nat := j.asNat?.filter (· < pow2 64)

def ofText? (text : String) : Option Settings :=
  (Json5.parse? text).bind (ofRecord? looseCount? Json5.isReadable)

def ofJson? (j : Json) : Option Settings := ofRecord? strictCount? (fun _ => true) j

def load (fs : FileSystem) (root : Path) : Except SettingsError Settings :=
  let file := root.child fileName
  match fs.read? file with
  | none => .ok default
  | some .binary => .error .unreadable
  | some (.text t) =>
    match ofText? t with
    | some s => .ok s
    | none => .error (.malformed file)

def isVendorDir (s : Settings) (name : String) : Bool := s.vendorDirs.contains name

def toJson (s : Settings) : Json :=
  .object [
    ("vendorDirs", .strings s.vendorDirs),
    ("testFilePatterns", .strings s.testFilePatterns),
    ("maxExternalFiles", .nat s.maxExternalFiles),
    ("deadCodeTimeoutMs", .nat s.deadCodeTimeoutMs),
    ("deadCodeMaxResults", .nat s.deadCodeMaxResults),
    ("hierarchyTimeoutMs", .nat s.hierarchyTimeoutMs),
    ("referenceTimeoutMs", .nat s.referenceTimeoutMs)]

end Settings

/-- Whether one of the patterns occurs in a path; patterns that are no expressions never do. -/
def isTestFile (patterns : List String) (path : String) : Bool :=
  let word := path.toList.toArray
  (patterns.filterMap Pattern.Expression.parse?).any fun r => r.occursIn word

end ScriptAtlas.Project
