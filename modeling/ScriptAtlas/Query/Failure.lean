import ScriptAtlas.Project.Index

/-!
# Failures

Why a query has no answer, with the class of the failure and its wording.
-/

namespace ScriptAtlas.Query

open Storage Project

inductive Failure where
  | symbolNotFound (name : String) (scannedFiles : Nat)
  | notADirectory (root : Path)
  | noSources (root : Path)
  | emptyName
  | settingsUnreadable
  | settingsMalformed (file : Path)
  | fileNotIndexed (file : String)
  | notAHierarchy (name : String) (kind : SymbolKind)
  | notAnEnum (name : String) (kind : SymbolKind)
  | invalidGlob (pattern : String) (reason : Pattern.GlobError)
deriving Repr

inductive FailureCode where
  | symbolNotFound | noProject | invalidArgument | internal
deriving DecidableEq, Repr

def FailureCode.text : FailureCode → String
  | symbolNotFound => "symbolNotFound"
  | noProject => "noProject"
  | invalidArgument => "invalidArgument"
  | internal => "internal"

namespace Failure

def code : Failure → FailureCode
  | symbolNotFound _ _ => .symbolNotFound
  | notADirectory _ | noSources _ => .noProject
  | settingsUnreadable => .internal
  | _ => .invalidArgument

def scannedFiles? : Failure → Option Nat
  | symbolNotFound _ n => some n
  | _ => none

/-- What went wrong, without details of how a pattern or a settings file is malformed. -/
def headline : Failure → String
  | symbolNotFound name n => s!"Symbol '{name}' not found after scanning {n} files"
  | notADirectory root => "No project: " ++ root.text ++ " is not a directory"
  | noSources root => "No project: no TypeScript or JavaScript files under " ++ root.text
  | emptyName => "Invalid argument: empty symbol name"
  | settingsUnreadable => "Internal error: I/O error: stream did not contain valid UTF-8"
  | settingsMalformed file => "Invalid argument: " ++ file.text
  | fileNotIndexed file => s!"Invalid argument: file '{file}' is not indexed"
  | notAHierarchy name kind =>
    s!"Invalid argument: '{name}' is a {kind.text}, not a class or interface"
  | notAnEnum name kind => s!"Invalid argument: '{name}' is a {kind.text}, not an enum"
  | invalidGlob pattern _ => s!"Invalid argument: glob '{pattern}'"

/-- What went wrong, with the details of a malformed pattern. -/
def message : Failure → String
  | invalidGlob pattern reason =>
    (invalidGlob pattern reason).headline ++ ": " ++ Pattern.GlobError.message pattern reason
  | f => f.headline

def ofIndexError : IndexError → Failure
  | .notADirectory root => .notADirectory root
  | .noSources root => .noSources root

def ofSettingsError : SettingsError → Failure
  | .unreadable => .settingsUnreadable
  | .malformed file => .settingsMalformed file

end Failure

end ScriptAtlas.Query
