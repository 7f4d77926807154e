import ScriptAtlas.Text.Cut

/-!
# Lower case

The lower case forms of letters outside ASCII, as runs of letters that lie one or two apart and
whose lower case forms lie at a fixed distance. Numbers are in base 36.
-/

namespace ScriptAtlas.Text

/-- A run of upper case letters: from one to another, with `-` one apart and with `:` two apart, or only
one, and behind `=` the lower case form of the first. The result is the first, the last, the step, and
that form. -/
def lowerRun (run : List Char) : Nat × Nat × Nat × Nat :=
  let (span, form) := (splitOnceList? '=' run).getD (run, [])
  match splitOnceList? '-' span, splitOnceList? ':' span with
  | some (lo, hi), _ => (ofBase36 lo, ofBase36 hi, 1, ofBase36 form)
  | none, some (lo, hi) => (ofBase36 lo, ofBase36 hi, 2, ofBase36 form)
  | none, none => (ofBase36 span, ofBase36 span, 1, ofBase36 form)

def lowerRuns : List (Nat × Nat × Nat × Nat) :=
  ["5c-5y=68 60-66=6w 74:8e=75 8i:8m=8j 8p:93=8q 96:ae=97 ag=73 ah:al=ai ap=gj aq:as=ar au=gk",
   "av=aw ax-ay=gm az=b0 b2=d9 b3=gp b4=gr b5=b6 b7=gw b8=gz ba=h5 bb=h4 bc=bd bg=hb bh=he bj=hh",
   "bk:bo=bl bq=hs br=bs bt=hv bw=bx by=i0 bz=c0 c1-c2=i2 c3:c5=c4 c7=ia c8=c9 cc=cd ck=cm cl=cm",
   "cn=cp co=cp cq=cs cr:d7=cs da:dq=db dt=dv du:dw=dv dy=b9 dz=cf e0:f2=e1 f4=bi f6:fm=f7 fu=8rp",
   "fv=fw fx=be fy=8rq g1=g2 g3=ao g4=i1 g5=i4 g6:ge=g7 og:oi=oh om=on ov=s3 p2=q4 p4-p6=q5 p8=r0",
   "pa-pb=r1 pd-pt=q9 pv-q3=qr r3=rb rc:ry=rd s4=qg s7=s8 s9=s2 sa=sb sd-sf=or sg-sv=uo sw-tr=ts",
   "v4:w0=v5 wa:xq=wb xs=y7 xt:y5=xu y8:10u=y9 10x-11y=129 3a8-3b9=8w0 3bb=8x3 3bh=8x9 3vk-3xr=xv4",
   "3xs-3xx=3y0 5n4-5oa=3bk 5od-5of=3ct 5xc:61g=5xd 61q=67 61s:64e=61t 64o-64v=64g 654-659=64w",
   "65k-65r=65c 660-667=65s 66g-66l=668 66x:673=66p 67c-67j=674 688-68f=680 68o-68v=68g",
   "694-69b=68w 69k-69l=69c 69m-69n=67k 69o=69f 6a0-6a3=67m 6a4=69v 6ag-6ah=6a8 6ai-6aj=67q",
   "6aw-6ax=6ao 6ay-6az=67u 6b0=6at 6bc-6bd=67s 6be-6bf=67w 6bg=6b7 6jq=qx 6ju=2z 6jv=6d 6k2=6ku",
   "6lc-6lr=6ls 6mb=6mc 792-79r=79s 8ow-8q7=8q8 8rk=8rl 8rm=h7 8rn=5tp 8ro=hp 8rr:8rv=8rs 8rx=gh",
   "8ry=hd 8rz=gg 8s0=gi 8s2=8s3 8s5=8s6 8se-8sf=fz 8sg:8v6=8sh 8vf:8vh=8vg 8vm=8vn wu8:wvg=wu9",
   "ww0:wwq=ww1 x0i:x0u=x0j x0y:x2m=x0z x2x:x2z=x2y x31=5tl x32:x3a=x33 x3f=x3g x3h=h1 x3k:x3m=x3l",
   "x3q:x48=x3r x4a=h2 x4b=gs x4c=gx x4d=h8 x4e=h6 x4g=im x4h=hz x4i=il x4j=xub x4k:x4y=x4l",
   "x50=x3o x51=hu x52=5u6 x53:x55=x54 x5c=x5d x5i:x5k=x5j x6d=x6e 1ee9-1eey=1ef5 1fcw-1fdz=1fe0",
   "1fhs-1fir=1fiw 1fn4-1fne=1fo7 1fng-1fnu=1foj 1fnw-1fo2=1foz 1fo4-1fo5=1fp7 1h1c-1h2q=1h34",
   "1jfk-1jgf=1jgg 20cg-20db=20dc 2olc-2om9=2oma"].flatMap
    fun row => (splitList ' ' row.toList).map lowerRun

/-- The lower case form of one character. A dotted capital I keeps its dot as a mark of its own. -/
def lowerChar (c : Char) : List Char :=
  let n := c.toNat
  if n < 0x80 then [c.toLower]
  else if n = 0x130 then ['i', Char.ofNat 0x307]
  else
    match lowerRuns.find? fun (lo, hi, step, _) => lo ≤ n && n ≤ hi && (n - lo) % step == 0 with
    | some (lo, _, _, form) => [Char.ofNat (n - lo + form)]
    | none => [c]

def lower (s : String) : String := String.ofList (s.toList.flatMap lowerChar)

end ScriptAtlas.Text
