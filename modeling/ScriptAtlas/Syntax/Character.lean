/-!
# Character classes of source text

Which characters separate tokens, which end a line for automatic semicolons, and which may spell a
name. A name may hold every character that is not blank, not a control character and not
punctuation of the language; so joiners and directional marks are letters here, while the zero
width space, the word joiner and the byte order mark are blank.
-/

namespace ScriptAtlas.Syntax

def isBlank (c : Char) : Bool :=
  let n := c.toNat
  (9 ≤ n && n ≤ 13) || n == 0x20 || n == 0xA0 || n == 0x1680 || (0x2000 ≤ n && n ≤ 0x200B)
    || n == 0x2028 || n == 0x2029 || n == 0x202F || n == 0x205F || n == 0x2060 || n == 0x3000
    || n == 0xFEFF

def isLineBreak (c : Char) : Bool :=
  c == '\n' || c.toNat == 0x2028 || c.toNat == 0x2029

def isLineEnd (c : Char) : Bool :=
  c == '\r' || isLineBreak c

def isPunctuation (c : Char) : Bool :=
  ":;`\"'@#.,|^&<=>+-*/\\%?!~()[]\x7b\x7d".toList.contains c

def isNamePart (c : Char) : Bool :=
  !(c.toNat < 0x20) && !isBlank c && !isPunctuation c

def isNameStart (c : Char) : Bool :=
  isNamePart c && !c.isDigit

def isHexDigit (c : Char) : Bool :=
  c.isDigit || ('a' ≤ c && c ≤ 'f') || ('A' ≤ c && c ≤ 'F')

end ScriptAtlas.Syntax
