import ScriptAtlas.Query.Callbacks
import ScriptAtlas.Query.CallTree
import ScriptAtlas.Query.Confusables
import ScriptAtlas.Query.DeadCode
import ScriptAtlas.Query.EnumMembers
import ScriptAtlas.Query.Narrowing
import ScriptAtlas.Query.TypeFlow
import ScriptAtlas.Report.Table

/-!
# Answers as tables

How the answers of queries are shown to people: a table, with a line above or below it where the answer
has a summary.
-/

namespace ScriptAtlas.Report

open Query

def yesNo (b : Bool) : String := if b then "true" else "false"

def locationText (r : SymbolRef) : String := r.filePath ++ ":" ++ toString r.line

def lineNumbers (lines : List Nat) : String := Text.join "," (lines.map toString)

def partlyNote (partly : Bool) : String := if partly then " (partial)" else ""

def locatedView (s : LocatedSymbol) : String :=
  let row (r : SymbolRef) (kind modifiers : String) : List String :=
    [r.name, kind, locationText r, yesNo s.exported, modifiers]
  Table.render {
    header := ["name", "kind", "location", "exported", "modifiers"]
    rows := row s.symbol s.kind.text (Text.join " " s.modifiers)
      :: s.merged.map fun r => row r "merged" "" }

/-! ## Call trees -/

def callNote : CallMark → String
  | .cyclic => "cyclic"
  | .depthLimited => "depth limited"
  | _ => ""

mutual

def callRows (direction : String) (depth : Nat) : CallTree Declaration → List (List String)
  | .node target lines mark children =>
    let r := target.ref
    [direction, String.ofList (List.replicate (2 * depth) ' ') ++ r.name, locationText r,
      lineNumbers lines, callNote mark] :: callRowsAll direction (depth + 1) children

def callRowsAll (direction : String) (depth : Nat) :
    List (CallTree Declaration) → List (List String)
  | [] => []
  | t :: ts => callRows direction depth t ++ callRowsAll direction depth ts

end

def callsView (h : Calls.Hierarchy) : String :=
  h.symbol.name ++ " (" ++ locationText h.symbol ++ ")\n" ++ Table.render {
    header := ["direction", "symbol", "location", "lines", "note"]
    rows := callRowsAll "out" 0 h.outgoing ++ callRowsAll "in" 0 h.incoming }

/-! ## Other answers -/

def typeFlowView (r : TypeFlow.Report) : String :=
  Table.render {
    header := ["name", "type", "resolved"]
    rows := (r.parameters ++ r.returnType.toList).map fun e =>
      [e.name, e.typeText,
       Text.join ", " (e.resolvedTypes.map fun t => t.name ++ " (" ++ locationText t ++ ")")] }

def referencesView (s : References.Summary) : String :=
  toString s.totalCount ++ " references in " ++ toString s.fileCount ++ " files"
    ++ partlyNote s.partly ++ "\n" ++ Table.render {
    header := ["file", "lines", "usage", "test"]
    rows := s.files.map fun f =>
      [f.filePath, lineNumbers f.lines, Text.join "," (f.usageKinds.map UsageKind.text),
       yesNo f.isTestFile] }

def guardsView (r : Narrowing.Report) : String :=
  Table.render {
    header := ["line", "kind", "variable", "text"]
    rows := r.guards.map fun g => [toString g.line, g.kind.title, g.subject.getD "", g.text] }

def callbacksView (r : Callbacks.Report) : String :=
  Table.render {
    header := ["file", "line", "receiver", "argument", "via"]
    rows := r.usages.map fun u =>
      [u.filePath, toString u.line, u.receiver, toString u.argumentIndex, u.via.title] }

/-- The suspicious names of a file, and below them the pairs that look alike. -/
def confusablesView (r : Confusables.Report) : String :=
  let names := Table.render {
    header := ["line", "name", "scripts", "scope", "severity"]
    rows := r.identifiers.map fun i =>
      [toString i.line, Text.visible i.name, Text.join "+" i.scripts, i.scope, i.severity.title] }
  let pairs := r.pairs.map fun p =>
    p.first ++ ":" ++ toString p.firstLine ++ " ~ " ++ p.second ++ ":" ++ toString p.secondLine
      ++ "  " ++ p.reason
  names ++ "\n" ++ Text.join "\n" pairs

def deadCodeView (elapsedMs : Nat) (r : DeadCode.Report) : String :=
  let items := Table.render {
    header := ["file", "line", "name", "kind", "confidence"]
    rows := r.items.map fun i =>
      [i.file, toString i.line, i.name, i.kind.text, i.confidence.title] }
  let s := r.summary
  items ++ "\n" ++ toString s.found ++ " found, " ++ toString s.scannedFiles ++ " files, "
    ++ toString s.scannedDeclarations ++ " declarations, " ++ toString elapsedMs ++ " ms"
    ++ partlyNote s.partly

def enumView (r : EnumMembers.Report) : String :=
  Table.render {
    header := ["line", "name", "value", "computed"]
    rows := r.members.map fun m => [toString m.line, m.name, m.value, yesNo m.isComputed] }

end ScriptAtlas.Report
