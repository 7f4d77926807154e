import ScriptAtlas.Data.Json.Parser
import ScriptAtlas.Storage.FileSystem

/-!
# Package manifests

What a package says about itself: its name, its entry files, the files behind the subpaths that it
exports, and the packages of its workspace.
-/

namespace ScriptAtlas.Project

open Storage Text

structure Manifest where
  json : Json
deriving Inhabited

namespace Manifest

def fileName : String := "package.json"

def read? (fs : FileSystem) (dir : Path) : Option Manifest :=
  (fs.readText? (dir.child fileName)).bind fun t => (Json.parse? t).map Manifest.mk

def name? (m : Manifest) : Option String := (m.json.get? "name").bind Json.asString?

def entryPoints (m : Manifest) : List String :=
  ["types", "typings", "main"].filterMap fun k => (m.json.get? k).bind Json.asString?

/-- The globs of the workspace: a list, or a list under `packages`. -/
def workspacePatterns (m : Manifest) : List String :=
  let items := match m.json.get? "workspaces" with
    | some (.array items) => items
    | some (.object fields) => ((Json.object fields).get? "packages").bind Json.asArray? |>.getD []
    | _ => []
  items.filterMap Json.asString?

def exports? (m : Manifest) : Option Json := m.json.get? "exports"

end Manifest

/-! ## Specifiers of packages -/

structure PackageSpecifier where
  package : String
  subpath : Option String
deriving DecidableEq, Repr

/-- Cuts a specifier behind the package's name, which has a slash of its own under a scope. -/
def PackageSpecifier.ofText (specifier : String) : PackageSpecifier :=
  match splitOnce? '/' specifier with
  | none => ⟨specifier, none⟩
  | some (first, rest) =>
    if beginsWith "@" specifier then
      match splitOnce? '/' rest with
      | none => ⟨specifier, none⟩
      | some (second, sub) => ⟨first ++ "/" ++ second, some sub⟩
    else ⟨first, some rest⟩

def typesPackageName (package : String) : String :=
  match after? "@" package with
  | some rest =>
    match splitOnce? '/' rest with
    | some (scope, name) => scope ++ "__" ++ name
    | none => rest
  | none => package

/-! ## Exported subpaths -/

/-- The conditions under which a target counts, best first. -/
def exportConditions : List String := ["types", "import", "require", "node", "default"]

def addTargets (out more : List String) : List String :=
  more.foldl (fun out t => if out.contains t then out else out ++ [t]) out

mutual

/-- The targets of a value in order, with repetitions: its text, those of its items, or those of its
conditions, best first. -/
def conditionTargets : Json → List String
  | .string s => [s]
  | .array items => conditionTargetsAll items
  | .object fields =>
    let perField := conditionTargetsFields fields
    exportConditions.flatMap fun c =>
      ((perField.reverse.find? (·.1 == c)).map Prod.snd).getD []
  | _ => []

def conditionTargetsAll : List Json → List String
  | [] => []
  | j :: rest => conditionTargets j ++ conditionTargetsAll rest

def conditionTargetsFields : List (String × Json) → List (String × List String)
  | [] => []
  | (k, j) :: rest => (k, conditionTargets j) :: conditionTargetsFields rest

end

def distinctTargets (j : Json) : List String := addTargets [] (conditionTargets j)

/-- What a key with a star, or a key for a directory, leaves of a subpath that it matches. -/
def keyCapture? (key subpath : String) : Option String :=
  match splitOnce? '*' key with
  | some (front, back) => (after? front subpath).bind (before? back)
  | none => if endsWith "/" key then after? key subpath else none

/-- The longest key that matches, with its value and what it leaves; of equally long keys the first
in order. -/
def bestKey? (fields : List (String × Json)) (subpath : String) :
    Option (String × Json × String) :=
  fields.foldl (fun best (key, value) =>
    match keyCapture? key subpath with
    | none => best
    | some captured =>
      match best with
      | some (k, _, _) =>
        if k.utf8ByteSize < key.utf8ByteSize then some (key, value, captured) else best
      | none => some (key, value, captured)) none

/-- The files behind a subpath (`.` or `./x`) that an `exports` value names, best first. -/
def exportTargets (exports : Json) (subpath : String) : List String :=
  match exports with
  | .object fields =>
    if fields.any fun f => beginsWith "." f.1 then
      match exports.get? subpath with
      | some value => distinctTargets value
      | none =>
        match bestKey? (Json.sortedFields fields) subpath with
        | none => []
        | some (key, value, captured) =>
          (distinctTargets value).map fun target =>
            if hasChar '*' key then replace '*' captured target else target ++ captured
    else if subpath == "." then distinctTargets exports else []
  | _ => if subpath == "." then distinctTargets exports else []

end ScriptAtlas.Project
