/-!
# Powers

Powers of two and of ten, for sizes of machine words and for decimal and binary exponents.
-/

namespace ScriptAtlas

def pow2 (n : Nat) : Nat := Nat.pow 2 n

def pow10 (n : Nat) : Nat := Nat.pow 10 n

end ScriptAtlas
