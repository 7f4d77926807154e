import ScriptAtlas.CommandLine.Command
import ScriptAtlas.Data.Json.Printer
import ScriptAtlas.Engine
import ScriptAtlas.Report.Encoding
import ScriptAtlas.Report.View

/-!
# The command line

Runs a command on the files of a machine: what it prints, and with which code it ends. Answers and
failures of queries go to the output, as JSON or as a table; other errors go to the error output.
-/

namespace ScriptAtlas.CommandLine

open Storage Project Query Report

structure Outcome where
  exit : Nat
  stdout : String
  stderr : String
deriving DecidableEq, Repr, Inhabited

namespace Outcome

def success (line : String) : Outcome := ⟨0, line ++ "\n", ""⟩

def failed (message : String) : Outcome := ⟨1, "", "error: " ++ message ++ "\n"⟩

end Outcome

def versionText : String := "tracescope 0.1.0"

def usageText : String :=
  "Usage: tracescope [OPTIONS] <COMMAND>\n\n" ++
  "Commands: locate, calls, type-flow, refs, hierarchy, guards, callbacks, confusables, dead-code, " ++
  "enum, schema\n" ++
  "Options: --table, --fresh, --verbose, --help, --version"

/-- The answer to a query as a run: a table where one is asked for and there is one, else an
envelope. -/
def answer {α : Type} (toJson : α → Json) (view : Option (α → String)) (result : Except Failure α) :
    Outcome :=
  match result, view with
  | .ok a, some draw => .success (draw a)
  | .ok a, none => .success (envelope (.ok (toJson a))).pretty
  | .error f, _ => ⟨1, (envelope (.error f)).pretty ++ "\n", ""⟩

def kindsOf (words : List String) : Except String (List SymbolKind) := words.mapM SymbolKind.ofText

def resultNames : List String :=
  ["locate", "calls", "type-flow", "refs", "hierarchy", "guards", "callbacks", "confusables",
   "dead-code", "enum"]

/-- What is common to all results: an object with a status. -/
def envelopeSchema : Json :=
  .object [("type", .string "object"), ("required", .strings ["status"])]

def execute (fs : FileSystem) (cwd : Path) (inv : Invocation) : Outcome :=
  let ask {α : Type} (root : String) (question : Index → Except Failure α) : Except Failure α :=
    ((World.new fs none).ask (cwd.join root) question).1
  let view {α : Type} (draw : α → String) : Option (α → String) :=
    if inv.table then some draw else none
  match inv.command with
  | .locate root q => answer LocatedSymbol.toJson (view locatedView) (ask root (locate · q))
  | .calls root q options =>
    answer Calls.Hierarchy.toJson (view callsView) (ask root (callHierarchy · q options))
  | .typeFlow root q => answer TypeFlow.Report.toJson (view typeFlowView) (ask root (typeFlow · q))
  | .refs root q options =>
    answer References.Summary.toJson (view referencesView) (ask root (references · q options))
  | .hierarchy root q options =>
    answer Hierarchy.Report.toJson none (ask root (typeHierarchy · q options))
  | .guards root q => answer Narrowing.Report.toJson (view guardsView) (ask root (narrowing · q))
  | .callbacks root q =>
    answer Callbacks.Report.toJson (view callbacksView) (ask root (callbacks · q))
  | .confusables root file =>
    answer Confusables.Report.toJson (view confusablesView) (ask root (confusables · file))
  | .deadCode root kinds options =>
    match kindsOf kinds with
    | .error message => .failed message
    | .ok kinds =>
      answer (DeadCode.Report.toJson (some 0)) (view (deadCodeView 0))
        (ask root (DeadCode.detect · { options with kinds }))
  | .enum root q => answer EnumMembers.Report.toJson (view enumView) (ask root (enumMembers · q))
  | .schema result =>
    if resultNames.contains result then .success envelopeSchema.pretty
    else .failed ("unknown result '" ++ result ++ "'")

def run (fs : FileSystem) (cwd : Path) (words : List String) : Outcome :=
  match Invocation.ofWords words with
  | .ok inv => execute fs cwd inv
  | .error .version => .success versionText
  | .error .help => .success usageText
  | .error .invalid => ⟨2, "", usageText ++ "\n"⟩

end ScriptAtlas.CommandLine
