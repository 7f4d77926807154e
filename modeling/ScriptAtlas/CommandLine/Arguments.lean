import ScriptAtlas.Number.Power
import ScriptAtlas.Text.Cut

/-!
# Arguments

How the words of a command line are told apart: options with and without a value, and the words in
between. An option's value follows it, or stands behind `=` in the same word. Behind `--` every word
stands for itself.
-/

namespace ScriptAtlas.CommandLine

inductive OptionForm where
  | flag
  | value
  /-- One value, which may be a negative number. -/
  | number
  /-- One value each time that it is given. -/
  | repeated
deriving DecidableEq, Repr

structure OptionSpec where
  name : String
  form : OptionForm
deriving DecidableEq, Repr

/-- Why arguments are not read to the end. -/
inductive Stop where
  | help
  | version
  | invalid
deriving DecidableEq, Repr

/-- The arguments of a command: options with their values in order, and the words in between. -/
structure Arguments where
  words : List String
  options : List (String × String)
deriving DecidableEq, Repr, Inhabited

namespace Arguments

def empty : Arguments := ⟨[], []⟩

def has (a : Arguments) (name : String) : Bool := a.options.any (·.1 == name)

def value? (a : Arguments) (name : String) : Option String :=
  (a.options.find? (·.1 == name)).map Prod.snd

def values (a : Arguments) (name : String) : List String :=
  (a.options.filter (·.1 == name)).map Prod.snd

def addWord (a : Arguments) (w : String) : Arguments := { a with words := a.words ++ [w] }

def addOption (a : Arguments) (spec : OptionSpec) (value : String) : Except Stop Arguments :=
  if spec.form != .repeated && a.has spec.name then .error .invalid
  else .ok { a with options := a.options ++ [(spec.name, value)] }

end Arguments

/-- Whether a word is an option or `--`; a single dash is a word like others. -/
def looksLikeOption (w : String) : Bool := Text.beginsWith "-" w && w != "-"

def isNegativeNumber (w : String) : Bool :=
  match w.toList with
  | '-' :: ds => !ds.isEmpty && ds.all Char.isDigit
  | _ => false

def isValueFor (form : OptionForm) (w : String) : Bool :=
  !looksLikeOption w || (form == .number && isNegativeNumber w)

def longOption? (w : String) : Option (String × Option String) :=
  (Text.after? "--" w).map fun body =>
    match Text.splitOnce? '=' body with
    | some (name, value) => (name, some value)
    | none => (body, none)

/-! ## Reading -/

structure Reading where
  arguments : Arguments
  pending : Option OptionSpec
  /-- Whether every further word stands for itself. -/
  literal : Bool
deriving DecidableEq, Repr, Inhabited

namespace Reading

def start : Reading := ⟨Arguments.empty, none, false⟩

def addWord (r : Reading) (w : String) : Reading := { r with arguments := r.arguments.addWord w }

def addOption (r : Reading) (spec : OptionSpec) (value : String) : Except Stop Reading :=
  (r.arguments.addOption spec value).map fun a => { r with arguments := a, pending := none }

def readLong (specs : List OptionSpec) (r : Reading) (name : String) (attached : Option String) :
    Except Stop Reading :=
  match specs.find? (·.name == name), attached with
  | none, none => .error (if name == "help" then .help else .invalid)
  | none, some _ => .error .invalid
  | some spec, some value =>
    if spec.form == .flag then .error .invalid else r.addOption spec value
  | some spec, none =>
    if spec.form == .flag then r.addOption spec "" else .ok { r with pending := some spec }

def read (specs : List OptionSpec) (r : Reading) (w : String) : Except Stop Reading :=
  if r.literal then .ok (r.addWord w)
  else match r.pending with
    | some spec => if isValueFor spec.form w then r.addOption spec w else .error .invalid
    | none =>
      if w == "--" then .ok { r with literal := true }
      else match longOption? w with
        | some (name, attached) => r.readLong specs name attached
        | none =>
          if Text.beginsWith "-h" w then .error .help
          else if looksLikeOption w then .error .invalid
          else .ok (r.addWord w)

def finish (r : Reading) : Except Stop Arguments :=
  if r.pending.isSome then .error .invalid else .ok r.arguments

end Reading

def readArguments (specs : List OptionSpec) (words : List String) : Except Stop Arguments :=
  (words.foldlM (Reading.read specs) Reading.start).bind Reading.finish

/-! ## Numbers -/

def unsigned? (text : String) : Option Nat :=
  let ds := ((Text.after? "+" text).getD text).toList
  if ds.isEmpty || !ds.all Char.isDigit then none
  else some (ds.foldl (fun n c => n * 10 + (c.toNat - '0'.toNat)) 0)

def signed? (text : String) : Option Int :=
  match Text.after? "-" text with
  | some rest => if Text.beginsWith "+" rest then none else (unsigned? rest).map fun n => -(n : Int)
  | none => (unsigned? text).map Int.ofNat

/-- A number with at most the given number of bits. -/
def count? (bits : Nat) (text : String) : Option Nat := (unsigned? text).filter (· < pow2 bits)

/-- A line, which fits in 32 bits; zero may have a sign. -/
def line? (text : String) : Option Nat :=
  ((signed? text).filter fun n => 0 ≤ n && n < (pow2 32 : Int)).map Int.toNat

/-- A depth, which fits in 32 bits with its sign. -/
def depth? (text : String) : Option Int :=
  (signed? text).filter fun n => -(pow2 31 : Int) ≤ n && n < (pow2 31 : Int)

end ScriptAtlas.CommandLine
