import ScriptAtlas.CommandLine

/-!
# The program

Reads the files that a command may look at, runs it, prints what it says and ends with its code.
-/

namespace ScriptAtlas.Main

open Storage

def contentOf (bytes : ByteArray) : Content :=
  match String.fromUTF8? bytes with
  | some s => .text s
  | none => .binary

/-- Adds what a directory entry leads to; what cannot be read counts as absent. -/
partial def loadEntry (fs : FileSystem) (entry : IO.FS.DirEntry) : IO FileSystem := do
  let place := Path.ofText entry.path.toString
  try
    if ← entry.path.isDir then
      let mut all := fs.addDir place
      for child in ← entry.path.readDir do
        all ← loadEntry all child
      return all
    else
      return fs.write place (contentOf (← IO.FS.readBinFile entry.path))
  catch _ => return fs

def loadDirectory (fs : FileSystem) (dir : String) (p : IO.FS.DirEntry → IO Bool) :
    IO FileSystem := do
  try
    let place ← IO.FS.realPath dir
    let mut all := fs
    if ← place.isDir then
      all := all.addDir (Path.ofText place.toString)
      for entry in ← place.readDir do
        if ← p entry then all ← loadEntry all entry
    return all
  catch _ => return fs

/-- The files that a command with the given words may look at: everything below the directories that it
names, and in the directories around them the files and the installed packages. -/
def loadFiles (cwd : String) (words : List String) : IO FileSystem := do
  let mut fs := FileSystem.empty.addDir (Path.ofText cwd)
  for word in words do
    let dir := ((Path.ofText cwd).join word).normalize
    fs ← loadDirectory fs dir.text fun _ => return true
    for above in dir.withParents.drop 1 do
      fs ← loadDirectory fs above.text fun entry => do
        return entry.fileName == "node_modules" || !(← entry.path.isDir)
  return fs

def directoryWords (words : List String) : List String :=
  match CommandLine.Invocation.ofWords words with
  | .ok inv => inv.command.root?.toList
  | .error _ => []

end ScriptAtlas.Main

open ScriptAtlas in
def main (words : List String) : IO UInt32 := do
  let cwd := (← IO.currentDir).toString
  let fs ← Main.loadFiles cwd (Main.directoryWords words)
  let outcome := CommandLine.run fs (Storage.Path.ofText cwd) words
  IO.print outcome.stdout
  IO.eprint outcome.stderr
  return outcome.exit.toUInt32
