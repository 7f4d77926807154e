import ScriptAtlas.Text.Cut

/-!
# Paths

An absolute path is a list of segments. A text is read as a path by cutting it at its slashes;
empty pieces and `.` count for nothing, while `..` stays until the path is normalized. Paths are
ordered by their segments, so a directory's contents stay together. A segment is a text: names in
other bytes are left out.
-/

namespace ScriptAtlas.Storage

open Text

structure Path where
  segments : List String
deriving DecidableEq, Repr, Inhabited, Hashable

namespace Path

def root : Path := ⟨[]⟩

def components (text : String) : List String :=
  (split '/' text).filter fun s => s != "" && s != "."

def isAbsoluteText (text : String) : Bool := beginsWith "/" text

def ofText (text : String) : Path := ⟨components text⟩

def join (p : Path) (text : String) : Path :=
  if isAbsoluteText text then ofText text else ⟨p.segments ++ components text⟩

def child (p : Path) (name : String) : Path := ⟨p.segments ++ [name]⟩

/-- Adds a segment to a normalized path, given in reverse: `..` takes one away. -/
def foldSegment (above : List String) (s : String) : List String :=
  if s = ".." then above.tail else s :: above

/-- The path with each `..` applied; above the root there is nothing. -/
def normalize (p : Path) : Path := ⟨(p.segments.foldl foldSegment []).reverse⟩

def text (p : Path) : String := "/" ++ Text.join "/" p.segments

def parent? (p : Path) : Option Path :=
  if p.segments.isEmpty then none else some ⟨p.segments.dropLast⟩

/-- A path and the directories that hold it, nearest first. -/
def withParents (p : Path) : List Path :=
  (List.range (p.segments.length + 1)).map fun n =>
    ⟨p.segments.take (p.segments.length - n)⟩

def fileName? (p : Path) : Option String :=
  p.segments.getLast?.filter (· != "..")

/-- What follows the last dot of a file name; a dot at its beginning does not count. -/
def extensionOf? (name : String) : Option String :=
  match splitLast? '.' name with
  | some (stem, ext) => if stem == "" then none else some ext
  | none => none

def extension? (p : Path) : Option String := p.fileName?.bind extensionOf?

def textExtension? (text : String) : Option String := (ofText text).extension?

def append (p : Path) (suffix : String) : Path :=
  match p.segments.getLast? with
  | some last => ⟨p.segments.dropLast ++ [last ++ suffix]⟩
  | none => ⟨[suffix]⟩

def below? (dir p : Path) : Option (List String) :=
  if dir.segments.isPrefixOf p.segments then some (p.segments.drop dir.segments.length) else none

def isWithin (p dir : Path) : Bool := dir.segments.isPrefixOf p.segments

/-- How a path is shown under a root: relative to it below it, absolute elsewhere. -/
def relativeTo (base p : Path) : String :=
  match base.below? p with
  | some rest => Text.join "/" rest
  | none => Text.join "/" ("" :: p.segments)

/-- The parts of a text read as a path; the root of an absolute text is a part of its own. -/
def textParts (text : String) : List String :=
  if isAbsoluteText text then "/" :: components text else components text

/-- The parts of a text behind those of a base, or all of them if it does not begin with the base. -/
def textPartsBelow (base text : String) : List String :=
  let parts := textParts text
  if (textParts base).isPrefixOf parts then parts.drop (textParts base).length else parts

def relativeText (base text : String) : String :=
  Text.join "/" ((textPartsBelow base text).map fun part => if part == "/" then "" else part)

/-- The order of segment lists: the first difference decides, and a beginning comes first. -/
def segmentsLe : List String → List String → Bool
  | [], _ => true
  | _ :: _, [] => false
  | a :: as, b :: bs => if a < b then true else if b < a then false else segmentsLe as bs

def le (p q : Path) : Bool := segmentsLe p.segments q.segments

end Path

end ScriptAtlas.Storage
