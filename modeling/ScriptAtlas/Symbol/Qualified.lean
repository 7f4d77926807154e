import ScriptAtlas.Symbol.Alias

/-!
# Qualified names

What a name with dots stands for: the first part is looked up as a plain name, each further part
inside what the parts before it stand for.
-/

namespace ScriptAtlas.Project.Index

open Syntax

def resolveQualifiedUpTo (idx : Index) (file : SourceFile) : Nat → Node → Option Symbol
  | 0, _ => none
  | fuel + 1, node =>
    match node.namedChildren with
    | [] | [_] => none
    | left :: right :: more =>
      let space := match left.kind? with
        | some .identifier | some .typeIdentifier => idx.resolveName file left left.text .any
        | some .nestedIdentifier | some .nestedTypeIdentifier | some .memberExpression =>
          resolveQualifiedUpTo idx file fuel left
        | _ => none
      space.bind fun s =>
        let name := ((right :: more).getLast?.getD right).text
        Symbol.ofList?
          ((idx.resolveSymbol s).declarations.flatMap fun d => idx.namespaceMember d name)

/-- What a qualified name stands for; it has fewer parts than nodes. -/
def resolveQualified (idx : Index) (file : SourceFile) (node : Node) : Option Symbol :=
  idx.resolveQualifiedUpTo file node.entry.size node

end ScriptAtlas.Project.Index
