import ScriptAtlas.Query.Callbacks
import ScriptAtlas.Query.CallTree
import ScriptAtlas.Query.Confusables
import ScriptAtlas.Query.DeadCode
import ScriptAtlas.Query.EnumMembers
import ScriptAtlas.Query.Hierarchy
import ScriptAtlas.Query.Narrowing
import ScriptAtlas.Query.TypeFlow

/-!
# Answers as records

How the answers of queries are written in JSON: the parts in a fixed order, absent ones left out.
-/

namespace ScriptAtlas.Query

def recordOf (parts : List (String × Option Json)) : Json :=
  .object (parts.filterMap fun (name, value) => value.map fun v => (name, v))

def mark (b : Bool) : Option Json := if b then some (.bool true) else none

def lineList (lines : List Nat) : Json := .array (lines.map .nat)

def SymbolRef.toJson (r : SymbolRef) : Json :=
  recordOf [
    ("name", some (.string r.name)),
    ("filePath", some (.string r.filePath)),
    ("line", some (.nat r.line)),
    ("isAbstract", mark r.isAbstract)]

def refList (rs : List SymbolRef) : Json := .array (rs.map SymbolRef.toJson)

def LocatedSymbol.toJson (s : LocatedSymbol) : Json :=
  recordOf [
    ("symbol", some s.symbol.toJson),
    ("kind", some (.string s.kind.text)),
    ("exported", some (.bool s.exported)),
    ("modifiers", some (.strings s.modifiers)),
    ("merged", if s.merged.isEmpty then none else some (refList s.merged))]

/-! ## Call trees -/

structure CallWords where
  target : String
  children : String

def outgoingWords : CallWords := ⟨"target", "outgoingCalls"⟩

def incomingWords : CallWords := ⟨"source", "incomingCallers"⟩

mutual

def callToJson (words : CallWords) : CallTree Declaration → Json
  | .node target lines m children =>
    recordOf [
      (words.target, some target.ref.toJson),
      ("callSiteLines", some (lineList lines)),
      (words.children, some (.array (callsToJson words children))),
      ("cyclic", mark (m == .cyclic)),
      ("depthLimited", mark (m == .depthLimited))]

def callsToJson (words : CallWords) : List (CallTree Declaration) → List Json
  | [] => []
  | t :: ts => callToJson words t :: callsToJson words ts

end

def Calls.Hierarchy.toJson (h : Calls.Hierarchy) : Json :=
  .object [
    ("symbol", h.symbol.toJson),
    ("depth", .number (toString h.depth)),
    ("outgoingCalls", .array (callsToJson outgoingWords h.outgoing)),
    ("incomingCallers", .array (callsToJson incomingWords h.incoming))]

/-! ## Types -/

def TypeFlow.Entry.toJson (e : TypeFlow.Entry) : Json :=
  .object [
    ("name", .string e.name),
    ("type", .string e.typeText),
    ("resolvedTypes", refList e.resolvedTypes)]

def TypeFlow.Report.toJson (r : TypeFlow.Report) : Json :=
  recordOf [
    ("symbol", some r.symbol.toJson),
    ("parameters", some (.array (r.parameters.map TypeFlow.Entry.toJson))),
    ("returnType", r.returnType.map TypeFlow.Entry.toJson),
    ("referencedTypes", some (refList r.referencedTypes))]

def Hierarchy.TypeParameter.toJson (p : Hierarchy.TypeParameter) : Json :=
  recordOf [
    ("name", some (.string p.name)),
    ("constraint", p.bound.map .string),
    ("default", p.default.map .string)]

def Hierarchy.Report.toJson (r : Hierarchy.Report) : Json :=
  recordOf [
    ("symbol", some r.symbol.toJson),
    ("kind", some (.string r.kind.text)),
    ("extends", r.extends_.map SymbolRef.toJson),
    ("implements", some (refList r.implements)),
    ("subtypes", some (refList r.subtypes)),
    ("isAbstract", mark r.isAbstract),
    ("typeParameters", some (.array (r.typeParameters.map Hierarchy.TypeParameter.toJson))),
    ("partial", mark r.partly)]

def EnumMembers.Member.toJson (m : EnumMembers.Member) : Json :=
  .object [
    ("name", .string m.name),
    ("value", .string m.value),
    ("line", .nat m.line),
    ("isComputed", .bool m.isComputed)]

def EnumMembers.Report.toJson (r : EnumMembers.Report) : Json :=
  .object [
    ("symbol", r.symbol.toJson),
    ("isConst", .bool r.isConst),
    ("members", .array (r.members.map EnumMembers.Member.toJson))]

/-! ## References -/

def References.FileReferences.toJson (f : References.FileReferences) : Json :=
  .object [
    ("filePath", .string f.filePath),
    ("lines", lineList f.lines),
    ("usageKinds", .strings (f.usageKinds.map UsageKind.text)),
    ("isTestFile", .bool f.isTestFile)]

def References.ReExport.toJson (r : References.ReExport) : Json :=
  .object [
    ("exportedAs", .string r.exportedAs),
    ("file", .string r.file),
    ("from", .string r.from_)]

def References.Summary.toJson (s : References.Summary) : Json :=
  recordOf [
    ("symbol", some s.symbol.toJson),
    ("totalCount", some (.nat s.totalCount)),
    ("fileCount", some (.nat s.fileCount)),
    ("files", some (.array (s.files.map References.FileReferences.toJson))),
    ("reExports", some (.array (s.reExports.map References.ReExport.toJson))),
    ("partial", mark s.partly)]

/-! ## Patterns of use -/

def GuardEntry.toJson (g : GuardEntry) : Json :=
  recordOf [
    ("kind", some (.string g.kind.text)),
    ("line", some (.nat g.line)),
    ("text", some (.string g.text)),
    ("variable", g.subject.map .string),
    ("narrowedTo", g.narrowedTo.map .string),
    ("polarity", g.polarity.map fun p => .string p.text),
    ("components", if g.components.isEmpty then none
      else some (.strings (g.components.map GuardKind.text)))]

def Narrowing.Report.toJson (r : Narrowing.Report) : Json :=
  .object [
    ("symbol", r.symbol.toJson),
    ("isTypeGuard", .bool r.isTypeGuard),
    ("isAssertion", .bool r.isAssertion),
    ("guards", .array (r.guards.map GuardEntry.toJson))]

def Callbacks.Usage.toJson (u : Callbacks.Usage) : Json :=
  .object [
    ("filePath", .string u.filePath),
    ("line", .nat u.line),
    ("receiver", .string u.receiver),
    ("argumentIndex", .nat u.argumentIndex),
    ("via", .string u.via.text)]

def Callbacks.Report.toJson (r : Callbacks.Report) : Json :=
  recordOf [
    ("symbol", some r.symbol.toJson),
    ("usages", some (.array (r.usages.map Callbacks.Usage.toJson))),
    ("isHigherOrder", some (.bool r.isHigherOrder)),
    ("functionParameters", some (.strings r.functionParameters)),
    ("returnsFunction", some (.bool r.returnsFunction)),
    ("partial", mark r.partly)]

def Confusables.IdentifierReport.toJson (r : Confusables.IdentifierReport) : Json :=
  .object [
    ("name", .string r.name),
    ("line", .nat r.line),
    ("scripts", .strings r.scripts),
    ("mixedScript", .bool r.mixedScript),
    ("hasBidi", .bool r.hasBidi),
    ("hasZeroWidth", .bool r.hasZeroWidth),
    ("nfc", .string r.nfc),
    ("isNfc", .bool r.isNfc),
    ("scope", .string r.scope),
    ("severity", .string r.severity.text)]

def Confusables.Pair.toJson (p : Confusables.Pair) : Json :=
  .object [
    ("first", .string p.first),
    ("firstLine", .nat p.firstLine),
    ("second", .string p.second),
    ("secondLine", .nat p.secondLine),
    ("skeleton", .string p.skeleton),
    ("reason", .string p.reason),
    ("severity", .string p.severity.text)]

def Confusables.Report.toJson (r : Confusables.Report) : Json :=
  recordOf [
    ("filePath", some (.string r.filePath)),
    ("identifiers", some (.array (r.identifiers.map Confusables.IdentifierReport.toJson))),
    ("confusablePairs", some (.array (r.pairs.map Confusables.Pair.toJson))),
    ("maxSeverity", r.maxSeverity.map fun s => .string s.text)]

/-! ## Dead code -/

def DeadCode.Item.toJson (i : DeadCode.Item) : Json :=
  .object [
    ("name", .string i.name),
    ("kind", .string i.kind.text),
    ("file", .string i.file),
    ("line", .nat i.line),
    ("exported", .bool i.exported),
    ("confidence", .string i.confidence.text),
    ("reason", .string i.reason)]

/-- The summary of a scan; the time that it took is given where it is shown. -/
def DeadCode.Summary.toJson (elapsedMs : Option Nat) (s : DeadCode.Summary) : Json :=
  recordOf [
    ("scannedFiles", some (.nat s.scannedFiles)),
    ("scannedDeclarations", some (.nat s.scannedDeclarations)),
    ("found", some (.nat s.found)),
    ("partial", some (.bool s.partly)),
    ("timedOut", some (.bool s.timedOut)),
    ("elapsedMs", elapsedMs.map .nat)]

def DeadCode.Report.toJson (elapsedMs : Option Nat) (r : DeadCode.Report) : Json :=
  .object [
    ("items", .array (r.items.map DeadCode.Item.toJson)),
    ("summary", DeadCode.Summary.toJson elapsedMs r.summary)]

/-! ## Envelopes -/

def Failure.toJson (f : Failure) : Json :=
  recordOf [
    ("code", some (.string f.code.text)),
    ("message", some (.string f.message)),
    ("scannedFiles", f.scannedFiles?.map .nat)]

def envelope : Except Failure Json → Json
  | .ok data => .object [("status", .string "ok"), ("data", data)]
  | .error f => .object [("status", .string "error"), ("error", f.toJson)]

end ScriptAtlas.Query
