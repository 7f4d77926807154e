import ScriptAtlas.CommandLine.Arguments
import ScriptAtlas.Query.CallTree
import ScriptAtlas.Query.DeadCode
import ScriptAtlas.Query.Hierarchy

/-!
# Commands

What can be asked on a command line, and how a command is read from its words.
-/

namespace ScriptAtlas.CommandLine

open Query

/-- A command; `root` is the text of the directory of the project. -/
inductive Command where
  | locate (root : String) (query : SymbolQuery)
  | calls (root : String) (query : SymbolQuery) (options : Calls.Options)
  | typeFlow (root : String) (query : SymbolQuery)
  | refs (root : String) (query : SymbolQuery) (options : References.Options)
  | hierarchy (root : String) (query : SymbolQuery) (options : Hierarchy.Options)
  | guards (root : String) (query : SymbolQuery)
  | callbacks (root : String) (query : SymbolQuery)
  | confusables (root : String) (file : String)
  /-- Dead code; the kinds are still words. -/
  | deadCode (root : String) (kinds : List String) (options : DeadCode.Options)
  | enum (root : String) (query : SymbolQuery)
  | schema (result : String)
deriving Repr

def Command.root? : Command → Option String
  | locate root _ | calls root _ _ | typeFlow root _ | refs root _ _ | hierarchy root _ _
  | guards root _ | callbacks root _ | confusables root _ | deadCode root _ _ | enum root _ =>
    some root
  | schema _ => none

structure Invocation where
  command : Command
  table : Bool
deriving Repr

/-! ## Options -/

def commonOptions : List OptionSpec := [⟨"table", .flag⟩, ⟨"fresh", .flag⟩, ⟨"verbose", .flag⟩]

def symbolOptions : List OptionSpec := [⟨"file", .value⟩, ⟨"line", .value⟩]

def timeoutOption : OptionSpec := ⟨"timeout-ms", .value⟩

def commandOptions? : String → Option (List OptionSpec)
  | "locate" | "type-flow" | "guards" | "callbacks" | "enum" => some symbolOptions
  | "calls" => some (symbolOptions ++ [⟨"depth", .number⟩, ⟨"direction", .value⟩])
  | "refs" => some (symbolOptions ++ [⟨"no-tests", .flag⟩, timeoutOption])
  | "hierarchy" => some (symbolOptions ++ [timeoutOption])
  | "confusables" | "schema" => some []
  | "dead-code" => some [
      ⟨"inclusive", .flag⟩, ⟨"include-tests", .flag⟩, ⟨"kind", .repeated⟩, ⟨"include", .repeated⟩,
      ⟨"exclude", .repeated⟩, ⟨"max-results", .value⟩, timeoutOption]
  | _ => none

/-! ## Reading -/

/-- An option's value, if the option is given; a value that cannot be read stops everything. -/
def optionValue? {α : Type} (a : Arguments) (name : String) (read? : String → Option α) :
    Except Stop (Option α) :=
  match a.value? name with
  | none => .ok none
  | some text => match read? text with
    | some v => .ok (some v)
    | none => .error .invalid

def direction? : String → Option Calls.Direction
  | "outgoing" => some .outgoing
  | "incoming" => some .incoming
  | "both" => some .both
  | _ => none

def symbolWords (a : Arguments) : Except Stop (String × SymbolQuery) := do
  match a.words with
  | [root, name] =>
    if root == "" then .error .invalid
    else return (root, { name, file := a.value? "file", line := ← optionValue? a "line" line? })
  | _ => .error .invalid

def timeoutValue (a : Arguments) : Except Stop (Option Nat) :=
  optionValue? a "timeout-ms" (count? 64)

def callsCommand (a : Arguments) : Except Stop Command := do
  let (root, query) ← symbolWords a
  let depth ← optionValue? a "depth" depth?
  let direction ← optionValue? a "direction" direction?
  return .calls root query {
    depth := depth.getD Calls.Options.default.depth
    direction := direction.getD Calls.Options.default.direction }

def deadCodeCommand (a : Arguments) : Except Stop Command := do
  match a.words with
  | [root] =>
    if root == "" then .error .invalid
    else
      let cap ← optionValue? a "max-results" (count? 64)
      let timeout ← timeoutValue a
      return .deadCode root (a.values "kind") { DeadCode.Options.default with
        inclusive := a.has "inclusive"
        includeTests := a.has "include-tests"
        include_ := a.values "include"
        exclude := a.values "exclude"
        maxResults := cap
        timeoutMs := timeout }
  | _ => .error .invalid

def commandOf (name : String) (a : Arguments) : Except Stop Command := do
  match name with
  | "locate" => let (root, query) ← symbolWords a; return .locate root query
  | "calls" => callsCommand a
  | "type-flow" => let (root, query) ← symbolWords a; return .typeFlow root query
  | "refs" =>
    let (root, query) ← symbolWords a
    return .refs root query {
      includeTests := !a.has "no-tests", timeoutMs := ← timeoutValue a }
  | "hierarchy" =>
    let (root, query) ← symbolWords a
    return .hierarchy root query { timeoutMs := ← timeoutValue a }
  | "guards" => let (root, query) ← symbolWords a; return .guards root query
  | "callbacks" => let (root, query) ← symbolWords a; return .callbacks root query
  | "confusables" =>
    match a.words with
    | [root, file] => if root == "" then .error .invalid else return .confusables root file
    | _ => .error .invalid
  | "dead-code" => deadCodeCommand a
  | "enum" => let (root, query) ← symbolWords a; return .enum root query
  | "schema" =>
    match a.words with
    | [result] => return .schema result
    | _ => .error .invalid
  | _ => .error .invalid

def readInvocation : List String → Arguments → Except Stop Invocation
  | [], _ => .error .invalid
  | w :: rest, before =>
    match commandOptions? w with
    | some options => do
      let a ← readArguments (options ++ commonOptions) rest
      return { command := ← commandOf w a, table := before.has "table" || a.has "table" }
    | none =>
      match longOption? w with
      | some ("help", none) => .error .help
      | some ("version", none) => .error .version
      | some (name, none) =>
        match commonOptions.find? (·.name == name) with
        | some spec => (before.addOption spec "").bind (readInvocation rest)
        | none => .error .invalid
      | _ =>
        if w == "help" || Text.beginsWith "-h" w then .error .help
        else if Text.beginsWith "-V" w then .error .version
        else .error .invalid

def Invocation.ofWords (words : List String) : Except Stop Invocation :=
  readInvocation words Arguments.empty

end ScriptAtlas.CommandLine
