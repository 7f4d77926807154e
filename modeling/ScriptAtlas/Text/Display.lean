import ScriptAtlas.Text.Category

/-!
# How text is shown

The columns that characters take in a line of fixed width, and a form of text in which every character
can be seen.
-/

namespace ScriptAtlas.Text

def wideRanges : List (Nat × Nat) := rangesOf
  ["3cw-3fj 6xm-6xn 6y1-6y2 73d-73g 73k 73n 7i5-7i6 7is-7it 7k8-7kj 7lr 7mb 7mp 7my-7mz 7nh-7ni",
   "7no-7np 7ny 7o4 7oq 7oy-7oz 7p1 7p6 7p9 7ph 7pm-7pn 7qg 7rg 7ri 7rn-7rp 7rr 7th-7tj 7u8 7un",
   "8ij-8ik 8k0 8k5 96o-97d 97f-99v 9a8-9g5 9gw-9h7 9hc-9ih 9io-9j2 9j5-9li 9ln-9of 9ol-9pr",
   "9pt-9r7 9r9-9se 9sg-9ur 9v4-9we 9wg-9xj 9xs-fcv feo-wi4 wi8-wjq xgg-xh8 xz4-16lf 1d6o-1dkv",
   "1e6o-1e6x 1e7k-1e8i 1e8k-1e92 1e94-1e97 1edd-1eg0 1ejk-1ejq 20o0-20o3 20og-20oh 20ow-25fb",
   "25fk-26dx 26f4-26fc 2dbk-2dbn 2dbp-2dbv 2dbx-2dby 2dc0-2dk2 2dki 2dlc-2dle 2dlh 2dlw-2dlz",
   "2dm8-2dx7 2pz8 2q4v 2qa6 2qa9-2qai 2qdc-2qde 2qds-2qez 2qf4-2qfc 2qfk-2qfl 2qg0-2qg5 2qkg-2qlc",
   "2qlp-2qlx 2qlz-2qnw 2qny-2qoj 2qow-2qq2 2qq7-2qqb 2qqo-2qr4 2qr8 2qrc-2qta 2qtc 2qte-2qyk",
   "2qyn-2r0d 2r0r-2r0u 2r0w-2r1j 2r22 2r2t-2r2u 2r38 2r5n-2r7z 2r9c-2rb9 2rbg 2rbk-2rbm 2rbp-2rbr",
   "2rbw-2rbz 2rcb-2rcc 2rck-2rcs 2rj4-2rjf 2rjk 2rrg-2rsq 2rss-2rt1 2rt3-2ry7 2s1c-2s1o 2s1s-2s20",
   "2s28-2s3h 2s3j-2s3p 2s3y-2s4b 2s4g-2s4o 2s4w-2s54 2t4w-47p9 47pc-5m9p"]

/-- Marks that stand in a place of their own. -/
def spacingRanges : List (Nat × Nat) := rangesOf
  ["1s3 1tn 1tq-1ts 1u1-1u4 1u6-1u7 1vm-1vn 1xb-1xc 1xj-1xk 1xn-1xo 1z7 20u-20w 22r 24e-24g 24p",
   "24r-24s 26a-26b 280 287-288 28b-28c 2bj 2bl-2bm 2bq-2bs 2bu-2bw 2dd-2df 2f5-2f8 2gy-2gz 2im",
   "2io-2ip 2ir-2is 2iv-2iw 2iy-2iz 2ki-2kj 2m7-2m8 2me-2mg 2mi-2mk 2o2-2o3 2q8-2q9 2qg-2qm",
   "2r6-2r7 30e-30f 327 36z-370 375 37c 37f-37g 386-387 38i-38k 38n-38t 39f-39g 39j-39o 39r",
   "3a2-3a4 4k5 4l0 4om 4ou-4p1 4p3-4p4 4yr-4yu 4yx-4yz 4z4-4z5 4z7-4zc 55l-55m 579 57b 57l",
   "57n-57o 57x-582 5c4 5dn 5dp-5dt 5dv-5dw 5fm 5gh 5gm-5gn 5gq 5if 5ii-5ik 5im 5iq-5ir 5k4-5kb",
   "5kk-5kl 5pd 5pz x7n-x7o x7r xa8-xa9 xbo-xc3 xg2-xg3 xhf xis-xit xiy-xiz xj2-xj4 xm7-xm8",
   "xmb-xmc xn1 xob xod xrf xri-xrj xrp xyb-xyc xye-xyf xyh-xyi xyk 1hq8 1hqa 1htu 1hv4-1hv6",
   "1hvb-1hvc 1hyk 1hz9-1hza 1i0y 1i2b-1i2d 1i2n-1i2o 1i32 1i5o-1i5q 1i5u-1i5v 1i5x 1iao-1iaq",
   "1ibm-1ibn 1idb 1idd-1idg 1idj-1idk 1idn-1idp 1iea-1ieb 1ik5-1ik7 1ikg-1ikh 1ikl 1inl-1inm 1int",
   "1inv-1inw 1iny 1io1 1iuo-1iup 1iuw-1iuz 1iv2 1iy8-1iya 1iyj-1iyk 1iym 1j1o 1j1q-1j1r 1j1y",
   "1j4w-1j4x 1j52 1jcc-1jce 1jco 1jjl-1jjp 1jjr-1jjs 1jjx 1jk0 1jk2 1jo1-1jo3 1joc-1jof 1jok 1jqx",
   "1jrr-1jrs 1jtj 1k4v 1k5a 1k89 1k8h 1k8k 1kei-1kem 1ker-1kes 1keu 1kol-1kom 20k1-20lj 20og-20oh",
   "2jxi 2jxp"]

/-- Characters that are no marks in the same sense, but extend the one before them. -/
def extenderRanges : List (Nat × Nat) := rangesOf
  ["2xa 6bw 1ehq-1ehr 1hj1-1hj3 1i69 1kow-1kox 1kqe-1kqi 1kqo 1kqq 1ow0 1ow7-1owl 2mxb 2nsc-2nsf",
   "jnz4-jo1r"]

/-- Further characters that take no column: ignorable ones, and vowels and finals that join a
syllable. -/
def absorbedRanges : List (Nat × Nat) := rangesOf
  ["4t 17g 3fk-3jz 4r2 6bv 6bx-6bz 6cq-6cu 6e8-6en 9r8 16ls-16me 16mj-16nv 1edb 1ehs 1ek0-1ek8",
   "2fts-2ftv 2jxv-2jy2 jny8-jnz3 jo1s-jo5b joc0-jr3z"]

/-- Characters that show nothing: controls, marks of format, private ones, and blanks other than the
space. -/
def hiddenRanges : List (Nat × Nat) := rangesOf
  ["0-v 3j-4g 4t 16o-16t 17g 1ct 1e7 1ow-1ox 1r6 4g0 4r2 6bk-6bz 6co-6cv 6e7-6ec 6ee-6en 9hc",
   "188w-1d6n 1edb 1ek9-1ekb 1hvh 1hvx 1ovk-1ovz 2fts-2ftv 2jxv-2jy2 jny9 jnz4-jo1r l2io-mh31",
   "mh34-nvnh"]

/-- Whether a character extends the one before it. -/
def isExtending (c : Char) : Bool :=
  (isMark c && !inRanges spacingRanges c) || inRanges extenderRanges c

def columns (c : Char) : Nat :=
  if c.toNat < 0x80 then 1
  else if isExtending c || inRanges absorbedRanges c then 0
  else if inRanges wideRanges c then 2
  else 1

def width (line : String) : Nat := line.toList.foldl (fun n c => n + columns c) 0

/-! ## Visible forms -/

def hexDigits (n : Nat) : List Char := Nat.toDigits 16 n

def numbered (c : Char) : List Char := '\\' :: 'u' :: '\x7b' :: hexDigits c.toNat ++ ['\x7d']

/-- A character as it can be seen: quotes and backslashes are escaped, and what shows nothing is given
by its number. -/
def visibleChar (c : Char) : List Char :=
  match c with
  | '\x00' => ['\\', '0']
  | '\t' => ['\\', 't']
  | '\r' => ['\\', 'r']
  | '\n' => ['\\', 'n']
  | '\\' => ['\\', '\\']
  | '\x22' => ['\\', '\x22']
  | '\x27' => ['\\', '\x27']
  | _ => if inRanges hiddenRanges c then numbered c else [c]

/-- A text in which every character can be seen; one that extends nothing is given by its number. -/
def visible (s : String) : String :=
  match s.toList with
  | [] => ""
  | c :: rest =>
    String.ofList ((if isExtending c then numbered c else visibleChar c) ++ rest.flatMap visibleChar)

end ScriptAtlas.Text
