import ScriptAtlas.Storage.Path

/-!
# File systems

What is stored where, as a value: files by their normalized path, and the directories that exist.
Looking a path up walks its segments, so a path through a directory that does not exist leads
nowhere, even if a later `..` would leave it again.

Links are left out. Where what is at a path is asked apart from what is read, a parameter says where
links lead: `Links` for the root of a project, `BuildConfig.loadWith` for the bases of a configuration.
-/

namespace ScriptAtlas.Storage

/-- What a file holds: a text, or bytes that are no text. -/
inductive Content where
  | text (s : String)
  | binary
deriving DecidableEq, Repr, Inhabited

structure FileSystem where
  files : List (Path × Content)
  dirs : List Path
deriving Inhabited

namespace FileSystem

def empty : FileSystem := ⟨[], [Path.root]⟩

def addDir (fs : FileSystem) (p : Path) : FileSystem :=
  { fs with dirs := p.withParents.foldl (fun ds d => if ds.contains d then ds else d :: ds) fs.dirs }

def write (fs : FileSystem) (p : Path) (c : Content) : FileSystem :=
  let placed := match p.parent? with
    | some d => fs.addDir d
    | none => fs
  { placed with files := (p, c) :: fs.files.filter (·.1 != p) }

def remove (fs : FileSystem) (p : Path) : FileSystem :=
  { files := fs.files.filter fun f => !f.1.isWithin p
    dirs := fs.dirs.filter fun d => !d.isWithin p }

def contentAt? (fs : FileSystem) (p : Path) : Option Content :=
  (fs.files.find? (·.1 == p)).map Prod.snd

def dirAt (fs : FileSystem) (p : Path) : Bool := fs.dirs.contains p

/-- Follows the segments of a path from a directory, given in reverse, on. -/
def follow? (fs : FileSystem) (above : List String) : List String → Option Path
  | [] => some ⟨above.reverse⟩
  | s :: rest =>
    if fs.dirAt ⟨above.reverse⟩ then follow? fs (Path.foldSegment above s) rest else none

/-- The normalized path that a path leads to, if its way exists. -/
def locate? (fs : FileSystem) (p : Path) : Option Path := fs.follow? [] p.segments

def isFile (fs : FileSystem) (p : Path) : Bool :=
  (fs.locate? p).any fun q => (fs.contentAt? q).isSome

def isDir (fs : FileSystem) (p : Path) : Bool := (fs.locate? p).any fs.dirAt

def read? (fs : FileSystem) (p : Path) : Option Content := (fs.locate? p).bind fs.contentAt?

def readText? (fs : FileSystem) (p : Path) : Option String :=
  match fs.read? p with
  | some (.text s) => some s
  | _ => none

def pathExists (fs : FileSystem) (p : Path) : Bool := fs.isFile p || fs.isDir p

def list (fs : FileSystem) (dir : Path) : List String :=
  let inside (p : Path) : Option String :=
    match dir.below? p with
    | some [name] => some name
    | _ => none
  let names := fs.files.filterMap (inside ·.1) ++ fs.dirs.filterMap inside
  (names.mergeSort (fun a b => !(b < a))).eraseDups

end FileSystem

end ScriptAtlas.Storage
