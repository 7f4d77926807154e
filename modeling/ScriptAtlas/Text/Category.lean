import ScriptAtlas.Text.Cut

/-!
# Letters, marks and digits

Ranges of the general categories of characters outside ASCII text: letters and letter numbers,
combining marks, decimal digits and connecting punctuation.
-/

namespace ScriptAtlas.Text

/-- Ranges that are given in base 36, with blanks between them. -/
def rangesOf (rows : List String) : List (Nat × Nat) :=
  rows.flatMap fun row => (splitList ' ' row.toList).map fun range =>
    match splitList '-' range with
    | [lo, hi] => (ofBase36 lo, ofBase36 hi)
    | _ => (ofBase36 range, ofBase36 range)

/-- Letters of every kind, and numbers made of letters. -/
def letterRanges : List (Nat × Nat) := rangesOf
  ["1t-2i 2p-3e 4q 51 56 5c-5y 60-6u 6w-jl jq-k1 kg-kk ks ku og-ok om-on oq-ot ov p2 p4-p6 p8",
   "pa-pt pv-s5 s7-w1 wa-10v 10x-11y 121 128-13c 15c-162 167-16a 17k-18q 19q-19r 19t-1cj 1cl",
   "1d1-1d2 1da-1db 1dm-1do 1dr 1e8 1ea-1f3 1fx-1id 1ip 1je-1ka 1kk-1kl 1kq 1kw-1lh 1lm 1lw 1m0",
   "1mo-1nc 1nk-1nu 1o0-1on 1op-1ou 1pc-1qh 1s4-1tl 1tp 1u8 1ug-1up 1v5-1vk 1vp-1vw 1vz-1w0",
   "1w3-1wo 1wq-1ww 1wy 1x2-1x5 1x9 1xq 1y4-1y5 1y7-1y9 1yo-1yp 1z0 1z9-1ze 1zj-1zk 1zn-208",
   "20a-20g 20i-20j 20l-20m 20o-20p 21l-21o 21q 22a-22c 22t-231 233-235 237-23s 23u-240 242-243",
   "245-249 24d 24w 25c-25d 261 26d-26k 26n-26o 26r-27c 27e-27k 27m-27n 27p-27t 27x 28s-28t",
   "28v-28x 29d 29v 29x-2a2 2a6-2a8 2aa-2ad 2ah-2ai 2ak 2am-2an 2ar-2as 2aw-2ay 2b2-2bd 2c0",
   "2dh-2do 2dq-2ds 2du-2eg 2ei-2ex 2f1 2fs-2fu 2fx 2g0-2g1 2gw 2h1-2h8 2ha-2hc 2he-2i0 2i2-2ib",
   "2id-2ih 2il 2jh-2ji 2jk-2jl 2k1-2k2 2kk-2ks 2ku-2kw 2ky-2m2 2m5 2mm 2ms-2mu 2n3-2n5 2nu-2nz",
   "2o5-2om 2oq-2pd 2pf-2pn 2pp 2ps-2py 2rl-2sw 2sy-2sz 2tc-2ti 2v5-2v6 2v8 2va-2ve 2vg-2w3 2w5",
   "2w7-2wg 2wi-2wj 2wt 2ww-2x0 2x2 2xo-2xr 2yo 30g-30n 30p-31o 32g-32k 35s-36y 37j 380-385",
   "38a-38d 38h 38l-38m 38u-38w 391-39d 39q 3a8-3b9 3bb 3bh 3bk-3cq 3cs-3m0 3m2-3m5 3m8-3me 3mg",
   "3mi-3ml 3mo-3ns 3nu-3nx 3o0-3ow 3oy-3p1 3p4-3pa 3pc 3pe-3ph 3pk-3py 3q0-3rk 3rm-3rp 3rs-3tm",
   "3uo-3v3 3vk-3xx 3y0-3y5 3y9-4fg 4fj-4fz 4g1-4gq 4gw-4iy 4j2-4jc 4jk-4k1 4kf-4kx 4lc-4lt",
   "4m8-4mk 4mm-4mo 4n4-4oj 4pj 4po 4rk-4u0 4u8-4uc 4uf-4vc 4ve 4vk-4xh 4xs-4ym 500-50t 50w-510",
   "51c-52j 52o-53d 54w-55i 55s-578 59j 5c5-5df 5dx-5e4 5fn-5gg 5gu-5gv 5h6-5id 5j4-5k3 5l9-5lb",
   "5lm-5ml 5mo-5mw 5n4-5oa 5od-5of 5pl-5po 5pq-5pv 5px-5py 5q2 5q8-5vj 5xc-651 654-659 65c-66d",
   "66g-66l 66o-66v 66x 66z 671 673-67x 680-69g 69i-69o 69q 69u-69w 69y-6a4 6a8-6ab 6ae-6aj",
   "6ao-6b0 6b6-6b8 6ba-6bg 6ep 6f3 6fk-6fw 6iq 6iv 6iy-6j7 6j9 6jd-6jh 6jo 6jq 6js 6ju-6jx",
   "6jz-6k9 6kc-6kf 6kl-6kp 6ku 6lc-6mg 8ow-8v8 8vf-8vi 8vm-8vn 8w0-8x1 8x3 8x9 8xc-8yv 8z3",
   "8zk-906 90g-90m 90o-90u 90w-912 914-91a 91c-91i 91k-91q 91s-91y 920-926 94f 9hh-9hj 9i9-9ih",
   "9ip-9it 9iw-9j0 9j5-9li 9lp-9lr 9lt-9oa 9oc-9of 9ol-9pr 9pt-9se 9sw-9tr 9v4-9vj a9s-fcv",
   "feo-wi4 wk0-wl9 wlc-wss wsw-wtb wtm-wtn wu8-wvi wvz-wwt www-wz3 x07-x0f x0i-x3c x3f-x56",
   "x5c-x5d x5f x5h-x5l x6a-x6p x6r-x6t x6v-x6y x70-x7m x8g-x9v xaa-xbn xde-xdj xdn xdp-xdq",
   "xe2-xet xf4-xfq xgg-xh8 xhg-xiq xjj xk0-xk4 xk6-xkf xkq-xku xkw-xm0 xmo-xmq xms-xmz xnk-xo6",
   "xoa xoe-xpr xpt xpx-xpy xq1-xq5 xq8 xqa xqz-xr1 xr4-xre xrm-xro xs1-xs6 xs9-xse xsh-xsm",
   "xsw-xt2 xt4-xta xtc-xui xuk-xux xv4-xya xz4-16lf 16ls-16me 16mj-16nv 1d6o-1dgt 1dgw-1djt",
   "1dkw-1dl2 1dlf-1dlj 1dlp 1dlr-1dm0 1dm2-1dme 1dmg-1dmk 1dmm 1dmo-1dmp 1dmr-1dms 1dmu-1dpt",
   "1dqr-1e0t 1e1c-1e33 1e36-1e4n 1e5s-1e63 1e9c-1e9g 1e9i-1ed8 1ee9-1eey 1ef5-1efu 1eg6-1eim",
   "1eiq-1eiv 1eiy-1ej3 1ej6-1ejb 1eje-1ejg 1ekg-1ekr 1ekt-1eli 1elk-1em2 1em4-1em5 1em7-1eml",
   "1emo-1en1 1eo0-1ere 1etc-1eus 1f28-1f30 1f34-1f4g 1f5s-1f6n 1f71-1f7u 1f80-1f91 1f9c-1fa5",
   "1fa8-1fb7 1fbc-1fbj 1fbl-1fbp 1fcw-1fh9 1fhs-1fir 1fiw-1fjv 1fk0-1fl3 1flc-1fmr 1fn4-1fne",
   "1fng-1fnu 1fnw-1fo2 1fo4-1fo5 1fo7-1foh 1foj-1fox 1foz-1fp5 1fp7-1fp8 1fr4-1fzq 1g00-1g0l",
   "1g0w-1g13 1g1s-1g1x 1g1z-1g34 1g36-1g3e 1g5c-1g5h 1g5k 1g5m-1g6t 1g6v-1g6w 1g70 1g73-1g7p",
   "1g80-1g8m 1g8w-1g9q 1gbk-1gc2 1gc4-1gc5 1gcg-1gd1 1gdc-1ge1 1gg0-1ghj 1ghq-1ghr 1gjk 1gk0-1gk3",
   "1gk5-1gk7 1gk9-1gl1 1gm8-1gn0 1gn4-1gnw 1gow-1gp3 1gp5-1gpw 1gqo-1gs5 1gsg-1gt1 1gtc-1gtu",
   "1gu8-1gup 1gxs-1gzs 1h1c-1h2q 1h34-1h4i 1h4w-1h5v 1hfk-1hgp 1hgw-1hgx 1hj4-1hjw 1hk7 1hkg-1hl1",
   "1hm8-1hmp 1ho0-1hok 1hpc-1hpy 1hqb-1hrr 1htd-1hte 1hth 1htv-1hv3 1hw0-1hwo 1hxf-1hye 1hz8 1hzb",
   "1hzk-1i0i 1i0m 1i0z-1i2a 1i2p-1i2s 1i3e 1i3g 1i4g-1i4x 1i4z-1i5n 1i80-1i86 1i88 1i8a-1i8d",
   "1i8f-1i8t 1i8v-1i94 1i9c-1iam 1ibp-1ibw 1ibz-1ic0 1ic3-1ico 1icq-1icw 1icy-1icz 1id1-1id5 1id9",
   "1ids 1ie5-1ie9 1iio-1ik4 1ikn-1ikq 1ilb-1ild 1im8-1inj 1io4-1io5 1io7 1itc-1ium 1ivs-1ivv",
   "1iww-1iy7 1iys 1j0g-1j1m 1j20 1j40-1j4q 1j5s-1j5y 1jb4-1jcb 1jfk-1jhb 1ji7-1jie 1jih 1jik-1jir",
   "1jit-1jiu 1jiw-1jjj 1jjz 1jk1 1jmo-1jmv 1jmy-1jo0 1joh 1joj 1jpc 1jpn-1jqq 1jqy 1jrk 1jrw-1jt5",
   "1jtp 1ju8-1jw8 1k3k-1k3s 1k3u-1k4u 1k5c 1k6q-1k7j 1kao-1kau 1kaw-1kax 1kaz-1kc0 1kcm 1kdc-1kdh",
   "1kdj-1kdk 1kdm-1keh 1kew 1ko0-1koi 1kts 1kw0-1lll 1log-1lri 1ls0-1lxf 1nyo-1o1c 1o1s-1ovi",
   "1s00-1sg6 1z40-1zjs 1zk0-1zku 1zlc-1zni 1zo0-1zot 1zpc-1zqn 1zr4-1zr7 1zs3-1zsn 1zst-1ztb",
   "20cg-20e7 20hs-20ju 20k0 20lv-20m7 20o0-20o1 20o3 20ow-25fb 25fk-26dx 26f4-26fc 2dbk-2dbn",
   "2dbp-2dbv 2dbx-2dby 2dc0-2dk2 2dlc-2dle 2dlw-2dlz 2dm8-2dx7 2fpc-2fsa 2fsg-2fss 2fsw-2ft4",
   "2ftc-2ftl 2kg0-2kic 2kie-2kkc 2kke-2kkf 2kki 2kkl-2kkm 2kkp-2kks 2kku-2kl5 2kl7 2kl9-2klf",
   "2klh-2kn9 2knb-2kne 2knh-2kno 2knq-2knw 2kny-2kop 2kor-2kou 2kow-2kp0 2kp2 2kp6-2kpc 2kpe-2kyt",
   "2kyw-2kzk 2kzm-2l0a 2l0c-2l16 2l18-2l1w 2l1y-2l2s 2l2u-2l3i 2l3k-2l4e 2l4g-2l54 2l56-2l60",
   "2l62-2l6q 2l6s-2l6z 2mm8-2mn2 2n0g-2n1o 2n1z-2n25 2n2m 2nbk-2ncd 2ncw-2ne3 2odc-2odi 2odk-2odn",
   "2odp-2odq 2ods-2oe6 2oe8-2ojo 2olc-2on7 2onf 2pkw-2pkz 2pl1-2plr 2plt-2plu 2plw 2plz 2pm1-2pma",
   "2pmc-2pmf 2pmh 2pmj 2pmq 2pmv 2pmx 2pmz 2pn1-2pn3 2pn5-2pn6 2pn8 2pnb 2pnd 2pnf 2pnh 2pnj",
   "2pnl-2pnm 2pno 2pnr-2pnu 2pnw-2po2 2po4-2po7 2po9-2poc 2poe 2pog-2pop 2por-2pp7 2ppd-2ppf",
   "2pph-2ppl 2ppn-2pq3 2t4w-3q3j 3q4g-3tbs 3tc0-3ti5 3ti8-3xy9 3xyo-43q8 464g-46jh 47pc-4bii"]

def markRanges : List (Nat × Nat) := rangesOf
  ["lc-of w3-w9 13l-14t 14v 14x-14y 150-151 153 174-17e 18r-19b 19s 1cm-1cs 1cv-1d0 1d3-1d4",
   "1d6-1d9 1e9 1f4-1fu 1ie-1io 1kb-1kj 1kt 1li-1ll 1ln-1lv 1lx-1lz 1m1-1m5 1nd-1nf 1p4-1pb",
   "1qi-1r5 1r7-1s3 1tm-1to 1tq-1u7 1u9-1uf 1uq-1ur 1vl-1vn 1x8 1xa-1xg 1xj-1xk 1xn-1xp 1xz",
   "1ya-1yb 1z2 1z5-1z7 20s 20u-20y 213-214 217-219 21d 228-229 22d 22p-22r 24c 24e-24l 24n-24p",
   "24r-24t 25e-25f 262-267 269-26b 27w 27y-284 287-288 28b-28d 28l-28n 28y-28z 29u 2bi-2bm",
   "2bq-2bs 2bu-2bx 2c7 2dc-2dg 2f0 2f2-2f8 2fa-2fc 2fe-2fh 2fp-2fq 2g2-2g3 2gx-2gz 2ik 2im-2is",
   "2iu-2iw 2iy-2j1 2j9-2ja 2jm-2jn 2kg-2kj 2m3-2m4 2m6-2mc 2me-2mg 2mi-2ml 2mv 2n6-2n7 2o1-2o3",
   "2q2 2q7-2qc 2qe 2qg-2qn 2r6-2r7 2sx 2t0-2t6 2tj-2tq 2wh 2wk-2ws 2x4-2x9 2zc-2zd 305 307 309",
   "30e-30f 31t-32c 32e-32f 32l-32v 32x-33w 346 36z-37i 386-389 38e-38g 38i-38k 38n-38t 38x-390",
   "39e-39p 39r 3a2-3a5 3tp-3tr 4k2-4k5 4ky-4l0 4lu-4lv 4mq-4mr 4ok-4pf 4pp 4qz-4r1 4r3 4ud-4ue",
   "4vd 4yo-4yz 4z4-4zf 55j-55n 579-57i 57k-58c 58f 59s-5am 5c0-5c4 5dg-5dw 5ez-5f7 5fk-5fm",
   "5gh-5gt 5ie-5ir 5k4-5kn 5ow-5oy 5p0-5pk 5pp 5pw 5pz-5q1 5vk-5xb 6hc-6i8 8vj-8vl 8zj 928-933",
   "9ii-9in 9ll-9lm wvj-wvm wvo-wvx wwu-wwv wz4-wz5 x6q x6u x6z x7n-x7r x7w xa8-xa9 xbo-xc5",
   "xcw-xdd xdr xeu-xf1 xfr-xg3 xhc-xhf xir-xj4 xk5 xm1-xme xmr xn0-xn1 xob-xod xps xpu-xpw",
   "xpz-xq0 xq6-xq7 xq9 xrf-xrj xrp-xrq xyb-xyi xyk-xyl 1dlq 1e68-1e6n 1e74-1e7j 1eyl 1f4w",
   "1f92-1f96 1gjl-1gjn 1gjp-1gjq 1gjw-1gjz 1gl4-1gl6 1glb 1gpx-1gpy 1h5w-1h5z 1hgr-1hgs 1hl2-1hlc",
   "1hmq-1hmt 1hq8-1hqa 1hrs-1hs6 1htc 1htf-1htg 1htr-1htu 1hv4-1hve 1hvm 1hxc-1hxe 1hyf-1hys",
   "1hz9-1hza 1i0j 1i0w-1i0y 1i2b-1i2o 1i2x-1i30 1i32-1i33 1i5o-1i5z 1i66 1ian-1iay 1ibk-1ibn",
   "1id7-1id8 1ida-1idg 1idj-1idk 1idn-1idp 1idz 1iea-1ieb 1iee-1iek 1ieo-1ies 1ik5-1ikm 1ila",
   "1ink-1io3 1iun-1iut 1iuw-1iv4 1ivw-1ivx 1iy8-1iyo 1j1n-1j1z 1j4t-1j57 1jcc-1jcq 1jjk-1jjp",
   "1jjr-1jjs 1jjv-1jjy 1jk0 1jk2-1jk3 1jo1-1jo7 1joa-1jog 1jok 1jpd-1jpm 1jqr-1jqx 1jqz-1jr2 1jrb",
   "1jrl-1jrv 1jt6-1jtl 1k4v-1k52 1k54-1k5b 1k7m-1k87 1k89-1k8m 1kc1-1kc6 1kca 1kcc-1kcd 1kcf-1kcl",
   "1kcn 1kei-1kem 1keo-1kep 1ker-1kev 1koj-1kom 1zow-1zp0 1zqo-1zqu 20jz 20k1-20lj 20lr-20lu 20o4",
   "20og-20oh 2ftp-2ftq 2jgg-2jhp 2jhs-2jie 2jxh-2jxl 2jxp-2jxu 2jy3-2jya 2jyd-2jyj 2jze-2jzh",
   "2k3m-2k3o 2lmo-2lo6 2lob-2lpo 2lpx 2lqc 2lqz-2lr3 2lr5-2lrj 2mtc-2mti 2mtk-2mu0 2mu3-2mu9",
   "2mub-2muc 2mue-2mui 2n1s-2n1y 2nce 2ne4-2ne7 2ok0-2ok6 2on8-2one jo5c-jobz"]

def digitRanges : List (Nat × Nat) := rangesOf
  ["1c-1l 19c-19l 1dc-1dl 1j4-1jd 1uu-1v3 1ye-1yn 21y-227 25i-25r 292-29b 2cm-2cv 2g6-2gf 2jq-2jz",
   "2na-2nj 2qu-2r3 2ts-2u1 2xc-2xl 2zk-2zt 37k-37t 39s-3a1 4ps-4q1 4r4-4rd 4zq-4zz 53k-53t",
   "58g-58p 58w-595 5e8-5eh 5gw-5h5 5kw-5l5 5lc-5ll wtc-wtl xcg-xcp xds-xe1 xjk-xjt xkg-xkp",
   "xn4-xnd xyo-xyx 1eds-1ee1 1fhc-1fhl 1h68-1h6h 1ht2-1htb 1hww-1hx5 1hyu-1hz3 1i34-1i3d",
   "1ib4-1ibd 1ikw-1il5 1iog-1iop 1iz4-1izd 1j28-1j2h 1j5c-1j5l 1jhc-1jhl 1jkg-1jkp 1k5s-1k61",
   "1kcw-1kd5 1kf4-1kfd 1zkw-1zl5 1znk-1znt 1zrk-1zrt 2l72-2l8f 2n28-2n2h 2ne8-2neh 2onk-2ont",
   "2sc0-2sc9"]

def connectorRanges : List (Nat × Nat) := rangesOf
  ["2n 6db-6dc 6dw 1e7n-1e7o 1e8d-1e8f 1ef3"]

def inRanges (ranges : List (Nat × Nat)) (c : Char) : Bool :=
  ranges.any fun (lo, hi) => lo ≤ c.toNat && c.toNat ≤ hi

def isLetter (c : Char) : Bool :=
  if c.toNat < 0x80 then c.isAlpha else inRanges letterRanges c

def isMark (c : Char) : Bool := 0x80 ≤ c.toNat && inRanges markRanges c

def isDecimalDigit (c : Char) : Bool :=
  if c.toNat < 0x80 then c.isDigit else inRanges digitRanges c

def isConnector (c : Char) : Bool :=
  if c.toNat < 0x80 then c == '_' else inRanges connectorRanges c

def isJoiner (c : Char) : Bool := c.toNat == 0x200C || c.toNat == 0x200D

/-- Symbols that count as letters: enclosed letters. -/
def isLetterSymbol (c : Char) : Bool :=
  inRanges [(0x24B6, 0x24E9), (0x1F130, 0x1F149), (0x1F150, 0x1F169), (0x1F170, 0x1F189)] c

def isWordChar (c : Char) : Bool :=
  isLetter c || isMark c || isDecimalDigit c || isConnector c || isJoiner c || isLetterSymbol c

end ScriptAtlas.Text
