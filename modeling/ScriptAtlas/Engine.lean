import ScriptAtlas.Query.Failure

/-!
# The engine

An engine answers questions about projects. The index of a project is built for the first question
about its root and kept until it is dropped; an index that cannot be built is not kept. A `World` is
an engine together with the files that it looks at, and with the links that lead to them.
-/

namespace ScriptAtlas

open Storage Project Query

structure Engine where
  settings : Option Settings
  indexes : List (Path × Index)
deriving Inhabited

/-- How paths lead to places, given the files: the place behind a path once all links are followed, if
anything is there. -/
abbrev Links := FileSystem → Path → Option Path

/-- A path leads where its segments say. -/
def Links.none : Links := fun fs p => if fs.pathExists p then fs.locate? p else .none

/-- What identifies a root: the place that it leads to, or its normal form if nothing is there. -/
def rootKey (links : Links) (fs : FileSystem) (root : Path) : Path :=
  (links fs root).getD root.normalize

def buildIndex (fs : FileSystem) (settings : Option Settings) (key : Path) :
    Except Failure Index :=
  let loaded : Except Failure Settings := match settings with
    | some s => .ok s
    | none => (Settings.load fs key).mapError Failure.ofSettingsError
  loaded.bind fun s => (Index.build_ fs key s).mapError Failure.ofIndexError

namespace Engine

def new (settings : Option Settings) : Engine := ⟨settings, []⟩

def find? (e : Engine) (key : Path) : Option Index := (e.indexes.find? (·.1 == key)).map Prod.snd

def insert (e : Engine) (key : Path) (idx : Index) : Engine :=
  if (e.find? key).isSome then e else { e with indexes := (key, idx) :: e.indexes }

def erase (e : Engine) (key : Path) : Engine :=
  { e with indexes := e.indexes.filter (·.1 != key) }

def clear (e : Engine) : Engine := { e with indexes := [] }

/-- The index of the root with a key: the one that is kept, or a new one. -/
def index (e : Engine) (fs : FileSystem) (key : Path) : Except Failure Index × Engine :=
  match e.find? key with
  | some idx => (.ok idx, e)
  | none =>
    match buildIndex fs e.settings key with
    | .ok idx => (.ok idx, e.insert key idx)
    | .error f => (.error f, e)

end Engine

structure World where
  files : FileSystem
  links : Links
  engine : Engine
deriving Inhabited

namespace World

def linked (links : Links) (files : FileSystem) (settings : Option Settings) : World :=
  ⟨files, links, Engine.new settings⟩

def new (files : FileSystem) (settings : Option Settings) : World := linked .none files settings

/-- What identifies a root now. -/
def key (w : World) (root : Path) : Path := rootKey w.links w.files root

def write (w : World) (p : Path) (c : Content) : World := { w with files := w.files.write p c }

def remove (w : World) (p : Path) : World := { w with files := w.files.remove p }

def invalidate (w : World) (root : Path) : World :=
  { w with engine := w.engine.erase (w.key root) }

def clear (w : World) : World := { w with engine := w.engine.clear }

def ask {α : Type} (w : World) (root : Path) (question : Index → Except Failure α) :
    Except Failure α × World :=
  let (idx, engine) := w.engine.index w.files (w.key root)
  (idx.bind question, { w with engine })

end World

end ScriptAtlas
