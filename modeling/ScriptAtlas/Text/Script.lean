import ScriptAtlas.Text.NormalForm

/-!
# Scripts and look-alikes

To which script a character belongs, which characters cannot be seen, and the skeleton of a name: what
is left when look-alikes are replaced by the Latin letters that they look like.
-/

namespace ScriptAtlas.Text

def bidiControls : List Char :=
  ['\u202a', '\u202b', '\u202c', '\u202d', '\u202e', '\u2066', '\u2067', '\u2068', '\u2069',
   '\u200e', '\u200f', '\u061c']

def zeroWidth : List Char := ['\u200b', '\u200c', '\u200d', '\u2060', '\ufeff', '\u180e']

def isBidiControl (c : Char) : Bool := bidiControls.contains c

def isZeroWidth (c : Char) : Bool := zeroWidth.contains c

def isInvisible (c : Char) : Bool := isBidiControl c || isZeroWidth c

/-- Ranges of characters with their scripts; the first that fits counts. -/
def scriptRanges : List (Nat × Nat × String) :=
  [(0x0041, 0x005A, "Latin"), (0x0061, 0x007A, "Latin"), (0x00C0, 0x00D6, "Latin"),
   (0x00D8, 0x00F6, "Latin"), (0x00F8, 0x024F, "Latin"), (0x1E00, 0x1EFF, "Latin"),
   (0x0370, 0x03FF, "Greek"), (0x1F00, 0x1FFF, "Greek"), (0x0400, 0x052F, "Cyrillic"),
   (0x0530, 0x058F, "Armenian"), (0x0590, 0x05FF, "Hebrew"), (0x0600, 0x06FF, "Arabic"),
   (0x0750, 0x077F, "Arabic"), (0x0900, 0x097F, "Devanagari"), (0x0E00, 0x0E7F, "Thai"),
   (0x10A0, 0x10FF, "Georgian"), (0x1100, 0x11FF, "Hangul"), (0xAC00, 0xD7AF, "Hangul"),
   (0x13A0, 0x13FF, "Cherokee"), (0x3040, 0x309F, "Hiragana"), (0x30A0, 0x30FF, "Katakana"),
   (0x3400, 0x4DBF, "Han"), (0x4E00, 0x9FFF, "Han"), (0xFF00, 0xFFEF, "Fullwidth"),
   (0x1D400, 0x1D7FF, "Mathematical")]

/-- The script of a character; digits, `_`, `$` and what cannot be seen have none. -/
def scriptOf? (c : Char) : Option String :=
  if c.isDigit || c == '_' || c == '$' || isInvisible c then none
  else
    some (((scriptRanges.find? fun (lo, hi, _) => lo ≤ c.toNat && c.toNat ≤ hi).map
      (·.2.2)).getD "Other")

def scriptsOf (name : String) : List String := (name.toList.filterMap scriptOf?).eraseDups

def lookAlikes : List (Char × Char) :=
  [('а', 'a'), ('в', 'b'), ('е', 'e'), ('о', 'o'), ('р', 'p'), ('с', 'c'), ('у', 'y'), ('х', 'x'),
   ('і', 'i'), ('ј', 'j'), ('ѕ', 's'), ('ԁ', 'd'), ('һ', 'h'), ('ԛ', 'q'), ('ԝ', 'w'), ('А', 'A'),
   ('В', 'B'), ('Е', 'E'), ('К', 'K'), ('М', 'M'), ('Н', 'H'), ('О', 'O'), ('Р', 'P'), ('С', 'C'),
   ('Т', 'T'), ('Х', 'X'), ('І', 'I'), ('Ј', 'J'), ('Ѕ', 'S'), ('Ү', 'Y'), ('α', 'a'), ('ο', 'o'),
   ('ν', 'v'), ('ρ', 'p'), ('ι', 'i'), ('κ', 'k'), ('υ', 'u'), ('Α', 'A'), ('Β', 'B'), ('Ε', 'E'),
   ('Ζ', 'Z'), ('Η', 'H'), ('Ι', 'I'), ('Κ', 'K'), ('Μ', 'M'), ('Ν', 'N'), ('Ο', 'O'), ('Ρ', 'P'),
   ('Τ', 'T'), ('Υ', 'Y'), ('Χ', 'X'), ('ı', 'i'), ('ℓ', 'l')]

/-- The Latin letter that a character looks like, or the character. -/
def lookAlike (c : Char) : Char := ((lookAlikes.find? (·.1 == c)).map Prod.snd).getD c

/-- The skeleton of a name: in compatible form, without what cannot be seen, look-alikes replaced. -/
def skeleton (name : String) : String :=
  String.ofList (((nfkc name).toList.filter fun c => !isInvisible c).map lookAlike)

end ScriptAtlas.Text
