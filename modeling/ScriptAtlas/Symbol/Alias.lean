import ScriptAtlas.Symbol.Export

/-!
# Imports as aliases

An import that names one export of another module stands for that export, which may itself
be an import: what an alias finally stands for is the end of a chain, if the chain has one.
-/

namespace ScriptAtlas

open Project Syntax

/-- The name under which the other module exports what an import binds; importing a whole module
has none. -/
def Declaration.importedName? (d : Declaration) : Option String :=
  match d.node.kind? with
  | some .importSpecifier =>
    some (match d.node.field? .name with
      | some n => n.bareText
      | none => "default")
  | some .identifier => some "default"
  | _ => none

/-- Follows a chain of aliases by `hop`, at most `fuel` of them, none twice. -/
def followAliases (hop : Declaration → Option Symbol) :
    Nat → List DeclarationKey → Symbol → Option Symbol
  | 0, _, _ => none
  | fuel + 1, seen, s =>
    if !s.first.isAlias then some s
    else if seen.contains s.first.key then none
    else (hop s.first).bind (followAliases hop fuel (s.first.key :: seen))

namespace Project.Index

/-- What an import stands for, one step further: an export of the files that the specifier was
resolved to, best first, or of a block that declares the module. An imported module stands for
itself. -/
def resolveImport (idx : Index) (d : Declaration) : Option Symbol := do
  let specifier ← Export.bindingSource? d.node
  match d.importedName? with
  | none => some (Symbol.single d)
  | some name =>
    ((idx.linked d.file.id specifier).findSome? fun target =>
        Symbol.ofList? (idx.moduleExport target name))
      <|> Symbol.ofList? (idx.ambientExport specifier name)

/-- What a symbol finally stands for; nothing when its chain of aliases breaks or comes back to
itself. There are fewer aliases than nodes. -/
def aliasTarget? (idx : Index) (s : Symbol) : Option Symbol :=
  followAliases idx.resolveImport (idx.nodeCount + 1) [] s

/-- What a symbol finally stands for, or the symbol itself when that cannot be told. -/
def resolveSymbol (idx : Index) (s : Symbol) : Symbol :=
  if s.first.isAlias then (idx.aliasTarget? s).getD s else s

end Project.Index

end ScriptAtlas
