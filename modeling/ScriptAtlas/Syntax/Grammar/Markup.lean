import ScriptAtlas.Syntax.Grammar.Expression

/-!
# Markup elements

Elements, fragments, attributes and the text between tags. Text that is blank and crosses a line is
layout and leaves no node.
-/

namespace ScriptAtlas.Syntax.Grammar

open Reader

def markupNameEnd (cs : Array Char) (pos : Nat) : Nat :=
  findFrom cs (fun c => !(isNamePart c || c == '-')) (cs.size - pos) pos

def markupName (k : Kind) : Reader Shape := do
  let cs := (← read).chars
  let a ← nextStart
  guardThat ((cs[a]?).any isNameStart)
  let b := markupNameEnd cs a
  set b
  return .leaf k a b

def elementName : Reader Shape := do
  let first ← markupName .identifier
  if (← peekPunct) == ":" then
    node .markupNamespaceName do return [first, ← punct ":", ← markupName .identifier]
  else
    grow (fun left => node .memberExpression do
      let dot ← punct "."
      let name ← anyWord .propertyIdentifier
      return [left.part .object, dot, name.part .property]) first

def markupExpression (recur : Recur) : Reader Shape := node .markupExpression do
  let o ← punct "\x7b"
  let e ← opt (firstOf [spreadElement recur, recur (.expression true)])
  let c ← punct "\x7d"
  return o :: e ++ [c]

def attributeString (quote : String) : Reader Shape := node .string do
  let cs := (← read).chars
  let o ← symbol quote
  let b := findFrom cs (fun c => quote.toList.contains c) (cs.size - o.stop) o.stop
  set b
  let inner := if o.stop < b then [Shape.leaf .stringFragment o.stop b] else []
  return o :: inner ++ [← exactly quote]

def markupAttribute (recur : Recur) : Reader Shape := firstOf [
  markupExpression recur,
  node .markupAttribute do
    let name ← markupName .propertyIdentifier
    let spaced ← optAll (do
      return [← punct ":", ← markupName .propertyIdentifier])
    let full := if spaced.isEmpty then name
      else .branch .markupNamespaceName name.start (name.relabel .identifier :: spaced)
    let value ← optAll (do
      return [← punct "=", ← firstOf [attributeString "\"", attributeString "'",
        markupExpression recur, recur .element]])
    return full :: value]

/-- What stands between the angle brackets of an opening or self-closing tag. -/
def tagParts (recur : Recur) : Reader (List Shape) := do
  let name ← elementName
  let targs ← opt (typeArguments recur)
  let attrs ← many (do return [(← markupAttribute recur).part .attribute])
  return [name.part .name] ++ targs.map (·.part .typeArguments) ++ attrs

def selfClosing (recur : Recur) : Reader Shape := node .markupSelfClosing do
  let o ← symbol "<"
  let parts ← tagParts recur
  return o :: parts ++ [← symbol "/>"]

def openingTag (recur : Recur) : Reader Shape := node .markupOpening do
  let o ← symbol "<"
  let parts ← optAll (tagParts recur)
  return o :: parts ++ [← symbol ">"]

def closingTag : Reader Shape := node .markupClosing do
  let o ← symbol "</"
  let name ← opt elementName
  return o :: name.map (·.part .name) ++ [← symbol ">"]

def markupText : Reader (List Shape) := do
  let cs := (← read).chars
  let a ← get
  let b := findFrom cs (fun c => ['<', '>', '\x7b', '\x7d'].contains c) (cs.size - a) a
  guardThat (a < b)
  set b
  let run := cs.extract a b
  if run.all isBlank && run.any isLineBreak then return []
  return [.leaf .markupText a b]

def markupChild (recur : Recur) : Reader (List Shape) := firstOf [
  markupText,
  do
    guardThat ((← peekPunct) == "\x7b")
    return [← markupExpression recur],
  do
    guardThat (!standsAt (← read).chars ['<', '/'] (← nextStart))
    return [← recur .element]]

def element (recur : Recur) : Reader Shape := firstOf [
  selfClosing recur,
  node .markupElement do
    let o ← openingTag recur
    let children ← many (markupChild recur)
    let c ← closingTag
    return [o.part .openTag] ++ children ++ [c.part .closeTag]]

end ScriptAtlas.Syntax.Grammar
