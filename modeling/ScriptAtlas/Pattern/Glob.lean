import ScriptAtlas.Pattern.Regular

/-!
# Globs

Shell patterns for whole paths. `*` and `?` match within the text, `**` between slashes spans
directories, `[a-z]` is a class of characters and `{a,b}` a choice. Text is matched byte by byte, so
a question mark stands for one byte. Whether a star may cross a slash is up to the user of the
pattern.
-/

namespace ScriptAtlas.Pattern

inductive GlobError where
  | unclosedClass
  | invalidRange (low high : Char)
  | unopenedAlternates
  | unclosedAlternates
  | danglingEscape
deriving DecidableEq, Repr

namespace GlobError

def cause : GlobError → String
  | unclosedClass => "unclosed character class; missing ']'"
  | invalidRange a b =>
    "invalid range; '" ++ String.singleton a ++ "' > '" ++ String.singleton b ++ "'"
  | unopenedAlternates =>
    "unopened alternate group; missing '\x7b' (maybe escape '\x7d' with '[\x7d]'?)"
  | unclosedAlternates =>
    "unclosed alternate group; missing '\x7d' (maybe escape '\x7b' with '[\x7b]'?)"
  | danglingEscape => "dangling '\\'"

def message (pattern : String) (e : GlobError) : String :=
  "error parsing glob '" ++ pattern ++ "': " ++ e.cause

end GlobError

inductive GlobToken where
  | literal (c : Char)
  | anyOne
  | star
  /-- A leading `**/`: nothing, or everything up to a slash. -/
  | anyPrefix
  /-- A closing `/**`: everything below. -/
  | anySuffix
  /-- `/**/` between names: a slash, or everything between two slashes. -/
  | anyBetween
  | charClass (negated : Bool) (ranges : List (Char × Char))
  | choice (branches : List (List GlobToken))
deriving Inhabited

structure Glob where
  tokens : List GlobToken
deriving Inhabited

namespace Glob

/-! ## Reading -/

structure ClassState where
  ranges : List (Char × Char)
  inRange : Bool
  first : Bool

def readClass (st : ClassState) : List Char → Except GlobError (List (Char × Char) × List Char)
  | [] => .error .unclosedClass
  | c :: rest =>
    let closeRange (hi : Char) : Except GlobError (List (Char × Char)) :=
      match st.ranges with
      | (lo, _) :: more => if hi < lo then .error (.invalidRange lo hi) else .ok ((lo, hi) :: more)
      | [] => .ok [(hi, hi)]
    if c == ']' && !st.first then
      .ok ((if st.inRange then ('-', '-') :: st.ranges else st.ranges).reverse, rest)
    else if c == '-' && !st.first && !st.inRange then
      readClass { st with inRange := true } rest
    else if st.inRange then
      match closeRange c with
      | .ok rs => readClass { ranges := rs, inRange := false, first := false } rest
      | .error e => .error e
    else readClass { ranges := (c, c) :: st.ranges, inRange := false, first := false } rest

/-- What is being read: the tokens of the open branches, innermost first and each with its latest
token first, the number of branches of each open group, and the character read last. -/
structure ReadState where
  branches : List (List GlobToken)
  groups : List Nat
  prev : Option Char

def ReadState.push (st : ReadState) (t : GlobToken) : ReadState :=
  match st.branches with
  | b :: rest => { st with branches := (t :: b) :: rest }
  | [] => { st with branches := [[t]] }

/-- Reads two stars, of which the rest of the pattern follows. A pair of stars spans directories
only as a whole path segment; elsewhere it is two stars. -/
def readStars (st : ReadState) (rest : List Char) : ReadState × List Char :=
  let plain := (st.push .star).push .star
  let emptyBranch := (st.branches.head?.getD []).isEmpty
  if emptyBranch then
    match rest with
    | [] => (st.push .anyPrefix, [])
    | '/' :: r => ({ st.push .anyPrefix with prev := some '/' }, r)
    | _ => ({ plain with prev := some '*' }, rest)
  else if st.prev != some '/'
      && (st.groups.isEmpty || (st.prev != some ',' && st.prev != some '\x7b')) then
    ({ plain with prev := some '*' }, rest)
  else
    let replaceLast (t : GlobToken) : ReadState :=
      match st.branches with
      | (last :: b) :: more =>
        let kept := match last with
          | .anyPrefix => GlobToken.anyPrefix
          | .anySuffix => GlobToken.anySuffix
          | _ => t
        { st with branches := (kept :: b) :: more }
      | _ => st.push t
    match rest with
    | [] => (replaceLast .anySuffix, [])
    | '/' :: r => ({ replaceLast .anyBetween with prev := some '/' }, r)
    | c :: _ =>
      if (c == ',' || c == '\x7d') && !st.groups.isEmpty then
        ({ replaceLast .anySuffix with prev := some '*' }, rest)
      else ({ plain with prev := some '*' }, rest)

/-- Reads the pattern piece by piece; every round consumes a character. -/
def readFrom : Nat → ReadState → List Char → Except GlobError ReadState
  | 0, st, _ => .ok st
  | _ + 1, st, [] => .ok st
  | fuel + 1, st, c :: rest =>
    let next (st : ReadState) : ReadState := { st with prev := some c }
    match c with
    | '?' => readFrom fuel (next (st.push .anyOne)) rest
    | '*' =>
      match rest with
      | '*' :: r =>
        let (st, r) := readStars st r
        readFrom fuel st r
      | _ => readFrom fuel (next (st.push .star)) rest
    | '[' =>
      let (negated, r) := match rest with
        | '!' :: r => (true, r)
        | '^' :: r => (true, r)
        | r => (false, r)
      match readClass ⟨[], false, true⟩ r with
      | .error e => .error e
      | .ok (ranges, r) =>
        readFrom fuel { st.push (.charClass negated ranges) with prev := some ']' } r
    | '\x7b' =>
      readFrom fuel (next { st with branches := [] :: st.branches, groups := 1 :: st.groups }) rest
    | '\x7d' =>
      match st.groups with
      | [] => .error .unopenedAlternates
      | n :: groups =>
        let inner := (st.branches.take n).reverse.map List.reverse
        let outer : ReadState := { st with branches := st.branches.drop n, groups }
        readFrom fuel (next (outer.push (.choice inner))) rest
    | ',' =>
      match st.groups with
      | [] => readFrom fuel (next (st.push (.literal ','))) rest
      | n :: groups =>
        readFrom fuel (next { st with branches := [] :: st.branches, groups := (n + 1) :: groups })
          rest
    | '\\' =>
      match rest with
      | [] => .error .danglingEscape
      | d :: r => readFrom fuel { st.push (.literal d) with prev := some d } r
    | c => readFrom fuel (next (st.push (.literal c))) rest

def parse (pattern : String) : Except GlobError Glob :=
  let cs := pattern.toList
  match readFrom (cs.length + 1) ⟨[[]], [], none⟩ cs with
  | .error e => .error e
  | .ok st =>
    if st.groups.isEmpty then .ok ⟨(st.branches.head?.getD []).reverse⟩
    else .error .unclosedAlternates

/-! ## Matching -/

def bytes (s : String) : Array UInt8 := s.toUTF8.data

def slash : UInt8 := 0x2F

def anyByte (segment : Bool) : Regular UInt8 :=
  .one fun b => !(segment && b == slash)

def anyBytes : Regular UInt8 := .many (.one fun _ => true)

/-- The bytes that a class of characters admits: each byte of a range's ends, and those between for
ranges of single bytes. -/
def classAdmits (ranges : List (Char × Char)) (b : UInt8) : Bool :=
  ranges.any fun (lo, hi) =>
    if lo.toNat < 0x80 && hi.toNat < 0x80 then lo.toNat ≤ b.toNat && b.toNat ≤ hi.toNat
    else
      let ls := (String.singleton lo).toUTF8.toList
      let hs := (String.singleton hi).toUTF8.toList
      if lo == hi then ls.contains b
      else ls.dropLast.contains b || hs.tail.contains b
        || ((ls.getLast?).any (· ≤ b) && (hs.head?).any (b ≤ ·))

mutual

def tokenPattern (segment : Bool) : GlobToken → Regular UInt8
  | .literal c => .word (String.singleton c).toUTF8.toList
  | .anyOne => anyByte segment
  | .star => .many (anyByte segment)
  | .anyPrefix => .alt (.optional (.one (· == slash))) (.seq anyBytes (.one (· == slash)))
  | .anySuffix => .seq (.one (· == slash)) anyBytes
  | .anyBetween =>
    .alt (.one (· == slash)) (.seq (.one (· == slash)) (.seq anyBytes (.one (· == slash))))
  | .charClass negated ranges => .one fun b => classAdmits ranges b != negated
  | .choice branches => choicePattern segment branches

def tokensPattern (segment : Bool) : List GlobToken → Regular UInt8
  | [] => .empty
  | t :: ts => .seq (tokenPattern segment t) (tokensPattern segment ts)

def choicePattern (segment : Bool) : List (List GlobToken) → Regular UInt8
  | [] => .empty
  | [b] => tokensPattern segment b
  | b :: bs =>
    if b.isEmpty then choicePattern segment bs
    else if bs.all List.isEmpty then tokensPattern segment b
    else .alt (tokensPattern segment b) (choicePattern segment bs)

end

def pattern (segment : Bool) (g : Glob) : Regular UInt8 :=
  match g.tokens with
  | [.anyPrefix] => anyBytes
  | ts => tokensPattern segment ts

/-- Whether a glob matches a whole path; stars and question marks cross slashes. -/
def accepts (g : Glob) (path : String) : Bool := (g.pattern false).accepts (bytes path)

/-- Whether a glob matches a whole path; stars and question marks stay within a segment. -/
def acceptsSegments (g : Glob) (path : String) : Bool := (g.pattern true).accepts (bytes path)

end Glob

end ScriptAtlas.Pattern
