/-!
# Decompositions of characters

How characters are made of others, as tables in base 36. A row has entries with bars between them: a
character, and behind `=` what it is made of. An entry without a character is about the one that comes
after the character of the entry before it.
-/

namespace ScriptAtlas.Text

/-- Characters that are canonically the same as others. A mark in front of the others says that they
are never put together to the character again. -/
def canonicalTable : List String :=
  ["5c=1t lc|1t ld|1t le|1t lf|1t lk|1t lm|5j=1v mf|1x lc|1x ld|1x le|1x lk|21 lc|21 ld|21 le",
   "5r=21 lk|5t=26 lf|27 lc|27 ld|27 le|27 lf|27 lk|61=2d lc|2d ld|2d le|2d lk|2h ld|68=2p lc",
   "69=2p ld|2p le|2p lf|2p lk|2p lm|6f=2r mf|2t lc|2t ld|2t le|2t lk|2x lc|2x ld|2x le|2x lk",
   "6p=32 lf|33 lc|33 ld|33 le|33 lf|33 lk|6x=39 lc|39 ld|39 le|39 lk|3d ld|73=3d lk|1t lg|2p lg",
   "76=1t li|2p li|1t mg|2p mg|1v ld|2r ld|1v le|2r le|1v lj|2r lj|1v lo|2r lo|1w lo|2s lo",
   "7m=1x lg|2t lg|1x li|2t li|1x lj|2t lj|1x mg|2t mg|1x lo|2t lo|1z le|2v le|1z li|2v li|1z lj",
   "81=2v lj|1z mf|2v mf|20 le|2w le|88=21 lf|2x lf|21 lg|2x lg|21 li|2x li|21 mg|2x mg|21 lj",
   "8k=22 le|2y le|23 mf|2z mf|8p=24 ld|30 ld|24 mf|30 mf|24 lo|30 lo|8z=26 ld|32 ld|26 mf|32 mf",
   "93=26 lo|32 lo|98=27 lg|33 lg|27 li|33 li|27 ln|33 ln|9g=2a ld|36 ld|2a mf|36 mf|2a lo|36 lo",
   "9m=2b ld|37 ld|2b le|37 le|2b mf|37 mf|2b lo|37 lo|2c mf|38 mf|2c lo|38 lo|a0=2d lf|39 lf",
   "a2=2d lg|39 lg|2d li|39 li|2d lm|39 lm|2d ln|39 ln|2d mg|39 mg|2f le|3b le|2h le|3d le|2h lk",
   "ah=2i ld|3e ld|2i lj|3e lj|2i lo|3e lo|bk=27 m3|33 m3|bz=2d m3|39 m3|ct=1t lo|2p lo|21 lo",
   "cw=2x lo|27 lo|33 lo|2d lo|39 lo|64 lg|70 lg|64 ld|70 ld|64 lo|70 lo|64 lc|70 lc|da=5g lg",
   "db=6c lg|fa lg|fb lg|5i lg|6e lg|di=1z lo|2v lo|23 lo|2z lo|27 mg|33 mg|dm lg|dn lg|c7 lo",
   "dr=ia lo|2y lo|dw=1z ld|2v ld|e0=26 lc|32 lc|5h ld|6d ld|5i ld|6e ld|60 ld|6w ld|1t lr|2p lr",
   "ea=1t lt|2p lt|1x lr|2t lr|1x lt|2t lt|21 lr|2x lr|21 lt|2x lt|27 lr|33 lr|27 lt|33 lt|2a lr",
   "ep=36 lr|2a lt|36 lt|2d lr|39 lr|2d lt|39 lt|2b me|37 me|2c me|38 me|f2=20 lo|2w lo|fa=1t lj",
   "fb=2p lj|1x mf|2t mf|5y lg|6u lg|5x lg|6t lg|27 lj|33 lj|fi lg|fj lg|2h lg|3d lg|n4=lc|ld",
   "n7=lv|!lk ld|ok=jd|ou=1n|p1=4o ld|pd ld|53|ph ld|pj ld|pl ld|p8=pr ld|pa=px ld|q1 ld|qy ld",
   "q2=pl lk|px lk|q9 ld|qd ld|qf ld|qh ld|qz ld|qy=qh lk|qt lk|qn ld|qt ld|qx ld|r7=r6 ld|r6 lk",
   "sg=t1 lc|t1 lk|sj=sz ld|sn=sm lk|ss=t6 ld|t4 lc|tf li|t5=t4 li|u1=u0 li|uo=tx lc|tx lk",
   "ur=tv ld|uv=uu lk|v0=u2 ld|u0 lc|ub li|vq=vo lr|vp lr|xt=t2 li|ty li|y8=sw li|ts li|sw lk",
   "yb=ts lk|ye=t1 li|tx li|yi=yg lk|yh lk|t2 lk|ty lk|t3 lk|tz lk|yq=t4 lg|u0 lg|t4 lk|u0 lk",
   "yu=ta lk|u6 lk|yy=yw lk|yx lk|tp lk|ul lk|tf lg|ub lg|tf lk|ub lk|tf ln|ub ln|tj lk|uf lk",
   "zc=tn lk|uj lk|17m=17r 18z|17r 190|18o 190|17r 191|18q 190|1c0=1cl 190|1c2=1c1 190|1cj=1ci 190",
   "1t5=1t4 1to|1td=1tc 1to|1tg=1tf 1to|1ug=!1sl 1to|!1sm 1to|!1sn 1to|!1ss 1to|!1sx 1to|!1sy 1to",
   "1um=!1t7 1to|!1tb 1to|1xn=1xj 1xa|1xj 1xz|1y4=!1wh 1x8|!1wi 1x8|1y7=!1wv 1x8|20j=!20i 20s",
   "20m=!20o 20s|21l=!1zq 20s|!1zr 20s|!1zw 20s|21q=!20b 20s|288=287 28m|28b=287 27y|287 28n",
   "28s=!275 27w|!276 27w|2ac=2aa 2c7|2bu=2bq 2bi|2br 2bi|2bq 2c7|2fc=2fa 2fq|2io=2in 2j9",
   "2iv=2iu 2j9|2iu 2ja|2iy=2iu 2iq|2iy 2j9|2mi=2me 2m6|2mf 2m6|2me 2mv|2qi=2qh 2q2|2qk=2qh 2q7",
   "2ql=2qk 2q2|2qh 2qn|30j=!30i 33r|30t=!30s 33r|30y=!30x 33r|313=!312 33r|318=!317 33r",
   "31l=!30g 33p|31v=!31t 31u|31x=!31t 31w|!33m 328|320=!33n 328|329=!31t 328|32r=!32q 33r",
   "331=!330 33r|336=!335 33r|33b=!33a 33r|33g=!33f 33r|33t=!32o 33p|36u=36t 372|5c6=5c5 5dh",
   "5c8=5c7 5dh|5ca=5c9 5dh|5cc=5cb 5dh|5ce=5cd 5dh|5ci=5ch 5dh|5dn=5dm 5dh|5dp=5do 5dh",
   "5ds=5dq 5dh|5dr 5dh|5dv=5du 5dh|5xc=1t md|2p md|1u lj|2q lj|1u mb|2q mb|1u mp|2q mp|5j ld",
   "5xl=6f ld|1w lj|2s lj|1w mb|2s mb|1w mp|2s mp|1w mf|2s mf|1w ml|2s ml|7m lc|7n lc|7m ld|7n ld",
   "5y0=1x ml|2t ml|1x mo|2t mo|fc li|fd li|1y lj|2u lj|1z lg|2v lg|20 lj|2w lj|20 mb|2w mb|20 lk",
   "5yf=2w lk|20 mf|2w mf|20 mm|2w mm|21 mo|2x mo|5r ld|6n ld|23 ld|2z ld|23 mb|2z mb|23 mp|2z mp",
   "5yu=24 mb|30 mb|5yu lg|5yv lg|24 mp|30 mp|24 ml|30 ml|25 ld|31 ld|25 lj|31 lj|25 mb|31 mb",
   "5z8=26 lj|32 lj|26 mb|32 mb|26 mp|32 mp|26 ml|32 ml|5x ld|6t ld|5x lk|6t lk|98 lc|99 lc|98 ld",
   "5zn=99 ld|28 ld|34 ld|28 lj|34 lj|2a lj|36 lj|2a mb|36 mb|5zu lg|5zv lg|2a mp|36 mp|2b lj",
   "601=37 lj|2b mb|37 mb|9m lj|9n lj|9s lj|9t lj|602 lj|603 lj|2c lj|38 lj|2c mb|38 mb|2c mp",
   "60f=38 mp|2c ml|38 ml|2d mc|39 mc|2d mo|39 mo|2d ml|39 ml|a0 ld|a1 ld|a2 lk|a3 lk|2e lf|3a lf",
   "60u=2e mb|3a mb|2f lc|3b lc|2f ld|3b ld|2f lk|3b lk|2f lj|3b lj|2f mb|3b mb|2g lj|3c lj|2g lk",
   "619=3c lk|2h lj|3d lj|2i le|3e le|2i mb|3e mb|2i mp|3e mp|2w mp|38 lk|3b lm|3d lm|61n=an lj",
   "61s=1t mb|2p mb|1t ll|2p ll|5e ld|6a ld|5e lc|6a lc|5e ll|6a ll|5e lf|6a lf|61s le|61t le",
   "626=76 ld|77 ld|76 lc|77 lc|76 ll|77 ll|76 lf|77 lf|61s li|61t li|1x mb|2t mb|1x ll|2t ll",
   "62k=1x lf|2t lf|5m ld|6i ld|5m lc|6i lc|5m ll|6i ll|5m lf|6i lf|62g le|62h le|21 ll|2x ll",
   "62y=21 mb|2x mb|27 mb|33 mb|27 ll|33 ll|5w ld|6s ld|5w lc|6s lc|5w ll|6s ll|5w lf|6s lf|630 le",
   "63d=631 le|bk ld|bl ld|bk lc|bl lc|bk ll|bl ll|bk lf|bl lf|bk mb|bl mb|2d mb|39 mb|2d ll|39 ll",
   "63s=bz ld|c0 ld|bz lc|c0 lc|bz ll|c0 ll|bz lf|c0 lf|bz mb|c0 mb|2h lc|3d lc|2h mb|3d mb|2h ll",
   "647=3d ll|2h lf|3d lf|64g=q9 lv|q9 lw|64g lc|64h lc|64g ld|64h ld|64g n6|64h n6|pd lv|pd lw",
   "64q=64o lc|64p lc|64o ld|64p ld|64o n6|64p n6|qd lv|qd lw|64w lc|64x lc|64w ld|64x ld",
   "654=ph lv|ph lw|654 lc|655 lc|654 ld|655 ld|65c=qf lv|qf lw|65c lc|65d lc|65c ld|65d ld|65c n6",
   "65j=65d n6|pj lv|pj lw|65k lc|65l lc|65k ld|65l ld|65k n6|65l n6|qh lv|qh lw|65s lc|65t lc",
   "65w=65s ld|65t ld|65s n6|65t n6|pl lv|pl lw|660 lc|661 lc|660 ld|661 ld|660 n6|661 n6|qn lv",
   "669=qn lw|668 lc|669 lc|668 ld|669 ld|66g=pr lv|pr lw|66g lc|66h lc|66g ld|66h ld|66o=qt lv",
   "66p=qt lw|66o lc|66p lc|66o ld|66p ld|66o n6|66p n6|66x=px lw|66z=66x lc|671=66x ld|673=66x n6",
   "674=qx lv|qx lw|674 lc|675 lc|674 ld|675 ld|674 n6|675 n6|q1 lv|q1 lw|67c lc|67d lc|67c ld",
   "67h=67d ld|67c n6|67d n6|q9 lc|q4|qd lc|q5|qf lc|q6|qh lc|q7|qn lc|r0|qt lc|r1|qx lc|r2",
   "680=64g n9|64h n9|64i n9|64j n9|64k n9|64l n9|64m n9|64n n9|64o n9|64p n9|64q n9|64r n9|64s n9",
   "68d=64t n9|64u n9|64v n9|65c n9|65d n9|65e n9|65f n9|65g n9|65h n9|65i n9|65j n9|65k n9|65l n9",
   "68q=65m n9|65n n9|65o n9|65p n9|65q n9|65r n9|674 n9|675 n9|676 n9|677 n9|678 n9|679 n9|67a n9",
   "693=67b n9|67c n9|67d n9|67e n9|67f n9|67g n9|67h n9|67i n9|67j n9|q9 li|q9 lg|67k n9|q9 n9",
   "69g=q4 n9|69i=q9 n6|69i n9|pd li|pd lg|pd lc|p2|pd n9|69q=qh|69t=4o n6|67o n9|qf n9|q6 n9",
   "69y=qf n6|69y n9|ph lc|p4|pj lc|p5|pj n9|69r lc|69r ld|69r n6|qh li|qh lg|qy lc|pc|6ae=qh n6",
   "6af=qy n6|pl li|pl lg|pl lc|p6|6al=6bi lc|6bi ld|6bi n6|qt li|qt lg|qz lc|q8|qp lv|qp lw|qt n6",
   "6av=qz n6|px li|px lg|px lc|pa|pt lw|4o lc|p1|2o|6b6=67w n9|qx n9|r2 n9|6ba=qx n6|6ba n9|pr lc",
   "6bd=p8|q1 lc|pb|q1 n9|50|6bk=6bm|6bn|6jq=q1|6ju=23|5h|6my=6mo mw|6mq mw|6ni=6ms mw|6od=6og mw",
   "6oe=6ok mw|6oi mw|6pw=6pv mw|6q1=6q0 mw|6q4=6q3 mw|6qs=6qr mw|6qu=6qt mw|6rl=6rg mw|6ro=6rn mw",
   "6rr=6rp mw|6rt=6rs mw|6sg=1p mw|6si=6sh mw|6st=6rx mw|1o mw|1q mw|6sk mw|6sl mw|6t0=6sy mw",
   "6t1=6sz mw|6t4=6t2 mw|6t3 mw|6tc=6t6 mw|6t7 mw|6tg=6te mw|6tf mw|6tk=6ti mw|6tj mw|6uk=6ua mw",
   "6ul=6ug mw|6uh mw|6uj mw|6w0=6t8 mw|6t9 mw|6tt mw|6tu mw|6wa=6uq mw|6ur mw|6us mw|6ut mw",
   "6y1=9hk|9hl|8gs=!8gt mw|9jg=9jf 9ll|9ji=9jh 9ll|9jk=9jj 9ll|9jm=9jl 9ll|9jo=9jn 9ll",
   "9jq=9jp 9ll|9js=9jr 9ll|9ju=9jt 9ll|9jw=9jv 9ll|9jy=9jx 9ll|9k0=9jz 9ll|9k2=9k1 9ll",
   "9k5=9k4 9ll|9k7=9k6 9ll|9k9=9k8 9ll|9kg=9kf 9ll|9kf 9lm|9kj=9ki 9ll|9ki 9lm|9km=9kl 9ll",
   "9kn=9kl 9lm|9kp=9ko 9ll|9ko 9lm|9ks=9kr 9ll|9kr 9lm|9lg=9ja 9ll|9lq=9lp 9ll|9m4=9m3 9ll",
   "9m6=9m5 9ll|9m8=9m7 9ll|9ma=9m9 9ll|9mc=9mb 9ll|9me=9md 9ll|9mg=9mf 9ll|9mi=9mh 9ll",
   "9mk=9mj 9ll|9mm=9ml 9ll|9mo=9mn 9ll|9mq=9mp 9ll|9mt=9ms 9ll|9mv=9mu 9ll|9mx=9mw 9ll",
   "9n4=9n3 9ll|9n3 9lm|9n7=9n6 9ll|9n6 9lm|9na=9n9 9ll|9n9 9lm|9nd=9nc 9ll|9nc 9lm|9ng=9nf 9ll",
   "9nh=9nf 9lm|9o4=9ly 9ll|9o7=9nz 9ll|9o0 9ll|9o1 9ll|9o2 9ll|9oe=9od 9ll|1d6o=rpk|kc4|s7e|rt4",
   "1d6s=lw1|fg2|gkl|vj0|vj0|hn5|ssx|gw7|hmw|jcm|ne1|p6t|qin|qt6|r20|sjz|kxu|ljv|mah|mvy|q4d|sq2",
   "1d7e=uep|fia|ghh|l50|mjf|qi5|v8e|ifk|m3v|qfh|r50|jih|pnc|qvz|iq2|kd3|lm2|mpo|slq|fpi|g53|gda",
   "1d80=jwk|l3n|mj4|nhj|pa9|qh2|qjg|s1b|tv6|upb|v7e|nt8|nzz|otc|q15|t1g|vb3|rfa|hjz|iro|okg|pdq",
   "1d8m=mle|nuy|rsy|ttj|hjs|i8y|kyb|lp6|lxr|oq7|oxj|tor|gcy|pe3|g64|g5o|o4c|ou6|q29|tpx|rk0|jin",
   "1d98=kxu|rge|fg9|i5j|iz6|mtj|n74|gev|nwb|fr3|iw9|ff1|lho|k1k|opu|gjn|hge|ni9|q4p|re2|la2|sds",
   "1d9u=lfs|jjy|put|jog|n6t|fji|g2x|g5l|kn5|oo7|prj|rf6|ssv|gdx|gn6|ho3|ir0|k3p|m4e|nxm|tkd|ui2",
   "1dag=vbr|vda|gbf|kau|l87|sbm|ino|j9s|jcw|jve|lyb|mdl|n0p|o22|ovo|pdb|s9y|q9a|sgz|t3e|g7r|gbn",
   "1db2=gql|ma0|r0i|re2|iq1|iyd|jnf|l9q|oji|mt1|fl0|h6h|i5j|iii|izg|muq|mzt|p7e|pc6|svo|tti|tvs",
   "1dbo=u1k|fpn|o1a|ss4|trs|j4x|fie|fyy|i5q|i7z|k2h|kxu|mha|ncy|q9o|sjg|vil|k94|tny|gax|kfv|kj7",
   "1dca=lkx|luk|mx5|n6h|nsb|opc|u3i|g31|je6|tq0|fu3|ie1|lpm|sa2|ivf|j7o|kk7|mtj|tqe|g89|glr|i91",
   "1dcw=k5v|kem|ko8|lid|mx2|naa|p6h|r0v|r1d|sss|tsy|gfz|lve|gm5|mhc|n14|qgq|tr7|uvr|vbz|kgn|lor",
   "1ddi=pns|o97|obk|olu|mo0|m8p|riw|fk0|px2|g8q|g7b|ip2|jir|onq|i2t|ljy|kac|saj|qx8|tot|r63|iqb",
   "1de4=g1s|gxs|1de8=hga|1dea=k8k|1ded=g66|mqy|ngq|ny4|nz2|nz9|o0f|tw6|on2|p8d|1deo=qhe|1deq=rg8",
   "1det=shk|sn1|1dey=u7j|u7w|u94|v5g|sm6|trr|fqm|fzb|g25|gcp|gdg|ggh|gwt|gzq|h2g|hfk|hig|i90|i9a",
   "1dfh=j2s|j8o|j9q|jci|k0f|k4i|k9d|kn9|lmf|lqy|lya|mem|mjv|mxu|ntd|ny6|nyh|nyg|nyo|nyu|nz1|o0d",
   "1dg3=o0e|o5c|o75|og0|ovo|ow9|oxt|p6a|pad|pnx|prt|prt|q53|r2o|r6e|rgh|ri1|rtf|ruw|sdy|shk|tsz",
   "1dgp=u0v|u2j|j1x|36cu|pp4|1dgw=ffq|g51|g2w|fpc|g1x|g3k|gcn|ge2|gwt|gut|gwp|gyq|hga|hir|hms|hn8",
   "1dhc=huq|i08|iqa|iqh|iuh|iwd|j4o|j7y|j60|j9q|j8g|jci|jec|jpg|jrw|jte|k0m|k8k|kd3|kd7|keu|l89",
   "1dhy=la2|lkx|lwb|lvv|lya|m5a|mem|nmv|mk5|mnj|mqy|n01|n46|n5n|nbx|nbz|ngq|nh7|nhw|nka|nk0|nv0",
   "1dik=o8h|og0|ol7|orf|ovo|p4u|pad|pxu|q27|qrd|r41|r5y|r6e|ren|rg8|rez|rgh|rge|rfx|ri1|rka|ruw",
   "1dj6=sag|sj6|srd|sxi|tq4|tsz|tw6|tzv|u0v|u17|u2j|umq|vj0|313e|3138|33dh|brx|cns|cop|39e1|3bgw",
   "1djr=3i6r|vgj|vim|1dlp=!15l 14k|1dlr=!16a 14n|1dm2=!161 14x|!161 14y|!1dmx 14x|!1dmx 14y",
   "1dm6=!15c 14n|!15c 14o|!15c 14s|!15d 14s|!15e 14s|!15f 14s|!15g 14s|!15h 14s|!15i 14s",
   "1dmg=!15k 14s|!15l 14s|!15m 14s|!15n 14s|!15o 14s|1dmm=!15q 14s|1dmo=!15s 14s|!15t 14s",
   "1dmr=!15v 14s|!15w 14s|1dmu=!15y 14s|!15z 14s|!160 14s|!161 14s|!162 14s|!15h 14p|!15d 14v",
   "1dn1=!15n 14v|!15w 14v|1fpl=1fpu lj|1fqc=1fq2 lj|1hui=1huh 1hve|1huk=1huj 1hve|1huz=1hut 1hve",
   "1hym=1hyp 1hyf|1hyq 1hyf|1idn=1idj 1ida|1idj 1idz|1if7=1if6 1ih5|1if9=1if8 1igr|1ifi=1iff 1igy",
   "1ifl=1ifk 1ih5|1ih1=1igy 1igy|1ih3=1igy 1igo|1igy 1ih5|1inv=1int 1inu|1int 1ink|1iny=1int 1inx",
   "1iuy=1iuw 1iun|1iux 1iun|1jjs=1jjp 1jjk|1xr5=1xr2 1xr2|1xr2 1xrd|1xr2 1xr3|1xrd 1xr3|1xr2 1xr4",
   "1xra=1xr5 1xr3|1xr6 1xr3|1xr5 1xr4|206g=206f 206f|206b 206f|206h 206f|2jxa=!2jx3 2jxh",
   "2jxb=!2jx4 2jxh|!2jxb 2jxq|!2jxb 2jxr|!2jxb 2jxs|!2jxb 2jxt|!2jxb 2jxu|2jzv=!2jzt 2jxh",
   "2jzw=!2jzu 2jxh|!2jzv 2jxq|!2jzw 2jxq|!2jzv 2jxr|!2jzw 2jxr|464g=fgd|fg8|fgh|2tcy|fog|fqm|fqz",
   "464n=fsy|fwa|fx5|fzb|fyn|ae6|2ud6|g25|g2c|g2s|g3b|2u58|aex|g2v|g3x|2u6j|g47|g4k|fkc|g4s|g51",
   "4658=3ly7|g6t|g77|afz|g8r|g92|gaa|gaf|ahh|gcn|gcp|gdg|ge2|ged|gee|gev|gg9|ggh|ggq|ghf|ghp|ghr",
   "465u=ghr|ghr|2v58|m7k|gju|gkf|2vdv|gkr|gkx|gli|gpq|gmw|gnc|go8|gpu|gs6|gsw|gur|gv7|gw4|gw4|gwp",
   "466g=gx7|gxf|gxu|h7a|gzq|h7b|h1t|h2s|g7b|hke|hce|hdg|he5|haj|hf6|hf5|hik|2x9g|hki|hkn|hl2|hlm",
   "4672=hlu|hnm|2xm0|2xnu|hrg|hsr|ht3|hqw|huu|aum|av0|hzc|i0u|i0u|2y88|i4j|i54|i5j|i5v|2yhk|i67",
   "467n=i6e|itv|i76|ayp|i8w|i9a|ibk|ia5|2z1g|if7|2z1i|ige|igb|igs|ijl|ijm|b3j|ikd|ilk|im5|ind|b4y",
   "4689=2zr7|b5o|ipc|ipf|ipi|iq2|3pg2|iri|3035|3035|poh|isi|isi|b7r|335k|3cgq|iua|iuj|b8j|ivu|ix9",
   "468u=ixj|iyh|j29|bay|ba4|j2s|30t0|j47|j7s|j7w|j7y|j7w|j96|j9q|jaq|jac|jan|jby|jci|jcm|jdc|jdn",
   "469g=jfh|jht|jis|jm8|31n0|jlp|jjw|jmw|jnn|jqc|31td|js2|jph|jop|bhq|ju1|jum|jvh|juf|bjg|k0f|k18",
   "46a2=32mi|k4j|kc8|k7d|bo9|k9d|bns|bms|g42|g45|kcg|k9o|pf1|deh|kd3|kd7|kdd|kf2|ker|33cz|bpl|kje",
   "46ao=kg5|klu|kn9|33hp|kni|kkf|kr8|brx|ksi|kv7|kx6|l2g|33xf|l3v|bvc|l5t|34br|l78|bwu|l82|l9b",
   "46b9=la2|la3|34p9|2yvf|34sa|le6|354s|lhb|lhp|lev|ljq|lku|lmf|lkx|lm1|lmg|lmt|357i|lkk|lrj|lta",
   "46bu=c37|lvv|lvr|35jl|lq1|m0e|35ni|35ou|m2u|m61|m5a|m57|c5y|m6i|m7x|m7r|m99|2u5h|mdh|368z|mfw",
   "46cf=36i3|mjs|mk5|mkw|36yw|mm8|mmt|3779|37dg|mt6|mtn|cdo|mud|ce0|ce0|myv|mzg|n01|n0l|n2i|cgr",
   "46d0=n50|386u|n5q|389e|n74|2zrz|nbk|38v5|38vs|38zo|cn0|cnc|nhw|394j|394i|395l|396b|nj2|nj3|nj3",
   "46dk=nka|cop|nm3|cp2|cra|39r1|nri|nt8|nv0|ctf|3a5i|nyu|3a8q|3a9x|o0f|o2z|cvj|o5c|o5m|o5r|3at8",
   "46e5=3b1j|3b1j|oa6|d1e|3b8r|og6|og9|d2f|3beo|onm|d5s|oo8|oo3|oow|3c06|orn|d8h|ouf|ow2|oxx|d9w",
   "46eq=3ciw|3cjr|dax|3cnt|p6i|3cqm|p79|pa2|pad|3d22|3d43|pcw|3d7s|pdc|33a7|ded|pf6|phf|dfv|pj2",
   "46fa=hx1|3dlz|3dmd|33bn|33bw|poh|pok|sda|dij|psh|psb|pst|gc3|ptd|ptf|ptp|puu|3ebg|put|pwd|pyb",
   "46fv=q0d|pwj|q0t|q1z|q53|pxv|q16|q18|q1o|3eie|3eqz|3emt|dnv|q9d|q9f|qae|3g0a|qck|3f3g|dp9|dpd",
   "46gg=3f75|3ff6|dpn|qj4|qjg|qjr|qjt|qll|qko|qoe|qn6|qrd|qp4|qqz|qrq|dsn|qu9|qv5|dtl|qxs|qxv",
   "46h1=3giv|r13|r1a|dv9|r22|aez|3gz2|3h46|dz2|dzb|rds|rfx|rka|rpx|3hrc|rsb|rsx|rvf|rxz|3i9b|2upw",
   "46hm=s0b|rzw|s1c|2uvy|s7o|sag|3jki|3jl9|sk4|smp|snl|3ju6|snv|svs|t07|t08|sxo|t89|t91|3ksa|tjf",
   "46i7=ej9|tkn|3l2v|eli|ts3|iia|tur|3ltx|3lzu|epa|epi|u00|3mdm|er6|3mhi|u17|u17|u21|3mpi|u76|eur",
   "46is=u95|ucn|ude|uf2|ez2|3nsg|umq|uv4|v0d|f66|f71|v3b|3owe|f7c|3oxx|3p5a|3p8x|vcr|f9y|veh|vem",
   "46jd=vet|vf3|vfa|vgb|3pxc"]

/-- Characters that are compatible with others, with all that they finally stand for. -/
def compatibilityTable : List String :=
  ["4g=w|4o=w lk|4q=2p|4v=w lg|4y=1e|1f|w ld|qk|54=w mf|1d|33|58=1d 6dg 1g|1d 6dg 1e|1f 6dg 1g",
   "8i=21 22|2x 2y|8v=24 53|30 53|95=jg 32|an=37|ck=1w 2i lo|1w 3e lo|2s 3e lo|24 22|24 2y|30 2y",
   "cq=26 22|26 2y|32 2y|dt=1w 2i|1w 3e|2s 3e|j4=2w|h2|2y|36|hl|hn|ht|3b|3d|k8=w li|w lj|w lm|w mg",
   "kc=w lf|w ln|kg=gz|30|37|3c|id|oq=w n9|p0=w ld|w lk ld|r4=qa|qg|px|px ld|px lk|qu|qo|s0=qi|qp",
   "s2=qq|s4=pk|qd|s9=pv|13b=12d 136|19x=17r 19w|18o 19w|1c7 19w|18q 19w|2sz=2tp 2sy|2wj=2x9 2wi",
   "2xo=2wb 2vt|2wb 2w1|2z0=2yz|31z=33m 31t 328|321=33n 31t 328|3cs=3bw|5rg=1t|5i|1u|5rk=1w|1x|b2",
   "5rw=27|f6|28|2a|2c|2d|2f|2p|gg|gh|5qa|2q|2s|2t|gp|gr|gs|2v|5sf=2z|31|97|33|gk|5qu|5qv|34|38|39",
   "5sp=5r1|hb|3a|5r9|5sw=qu|qv|2x|36|39|3a|qa|qb|qp|qu|qv|5tk=u5|5uj=gi|2r|gl|6o|gs|2u|gv|gx|h1",
   "5uv=5tn|il|h9|5tx|in|hd|hc|5v6=hk|hu|hv|bv|i1|i2|5r0|i3|i4|3e|5vj=qg|61m=2p ji|37 lj|69p=w lv",
   "69r=w lv|w n6|w lk n6|6a5=w lv lc|w lv ld|w lv n6|6al=w lw lc|w lw ld|w lw n6|6b1=w lk lc",
   "6b2=w lk ld|6bh=w ld|w lw|6bk=w|w|w|w|w|w|w|w|w|w|w|6c1=6c0|6c7=w mr|6ck=1a|1a 1a|1a 1a 1a",
   "6cv=w|6cz=6cy 6cy|6cy 6cy 6cy|6d2=6d1 6d1|6d1 6d1 6d1|6d8=x x|6da=w lh|6dj=1r 1r|1r x|x 1r",
   "6dz=6cy 6cy 6cy 6cy|6e7=w|6eo=1c|2x|6ey=17|6qa|1p|14|15|32|6fe=17|6qa|1p|14|15|6fk=2p|2t|33|3c",
   "6fo=gp|2w|6fu=34|37|38|6g8=2a 37|6io=2p 1b 2r|2p 1b 37|1v|4w 1v|6it=2r 1b 33|2r 1b 39|b4",
   "6ix=4w 1y|2v|20|20|20|2w|87|21|21|24|30|6j9=26|26 33|6jg=2a|2a|6jk=2b 25|2c 1x 24|2c 25|6jo=2i",
   "6js=2i|6jw=1u|1v|6jz=2t|1x|1y|6k3=25|33|6k9=2x|6kb=1y 1t 2g|qo|qb|pf|ps|6q9|6kl=1w|2s|2t|2x|2y",
   "6kw=1d 6dg 1j|1d 6dg 1l|1d 6dg 1d 1c|1d 6dg 1f|1e 6dg 1f|1d 6dg 1h|1e 6dg 1h|1f 6dg 1h",
   "6l4=1g 6dg 1h|1d 6dg 1i|1h 6dg 1i|1d 6dg 1k|1f 6dg 1k|1h 6dg 1k|1j 6dg 1k|1d 6dg|21|21 21",
   "6le=21 21 21|21 2e|2e|2e 21|2e 21 21|2e 21 21 21|21 2g|2g|2g 21|2g 21 21|24|1v|1w|25|2x|2x 2x",
   "6lu=2x 2x 2x|2x 3a|3a|3a 2x|3a 2x 2x|3a 2x 2x 2x|2x 3c|3c|3c 2x|3c 2x 2x|30|2r|2s|31",
   "6mh=1c 6dg 1f|6r0=6qz 6qz|6qz 6qz 6qz|6r3=6r2 6r2|6r2 6r2 6r2|76x=1d 1c|1d 1d|1d 1e|1d 1f",
   "771=1d 1g|1d 1h|1d 1i|1d 1j|1d 1k|1d 1l|1e 1c|14 1d 15|14 1e 15|14 1f 15|14 1g 15|14 1h 15",
   "77d=14 1i 15|14 1j 15|14 1k 15|14 1l 15|14 1d 1c 15|14 1d 1d 15|14 1d 1e 15|14 1d 1f 15",
   "77l=14 1d 1g 15|14 1d 1h 15|14 1d 1i 15|14 1d 1j 15|14 1d 1k 15|14 1d 1l 15|14 1e 1c 15|1d 1a",
   "77t=1e 1a|1f 1a|1g 1a|1h 1a|1i 1a|1j 1a|1k 1a|1l 1a|1d 1c 1a|1d 1d 1a|1d 1e 1a|1d 1f 1a",
   "785=1d 1g 1a|1d 1h 1a|1d 1i 1a|1d 1j 1a|1d 1k 1a|1d 1l 1a|1e 1c 1a|14 2p 15|14 2q 15|14 2r 15",
   "78f=14 2s 15|14 2t 15|14 2u 15|14 2v 15|14 2w 15|14 2x 15|14 2y 15|14 2z 15|14 30 15|14 31 15",
   "78p=14 32 15|14 33 15|14 34 15|14 35 15|14 36 15|14 37 15|14 38 15|14 39 15|14 3a 15|14 3b 15",
   "78z=14 3c 15|14 3d 15|14 3e 15|7ai=1c|8b0=6qz 6qz 6qz 6qz|8dw=1m 1m 1p|1p 1p|1p 1p 1p|8sc=2y",
   "8sd=2e|8z3=8yp|97j=lal|99v=vj3|9a8=feo|ffs|fg6|fgf|fh5|fid|fik|fj4|fju|g1r|g2t|g2z|g3m|g46|g4r",
   "9an=g68|g6t|g74|gbf|ge1|get|gey|gfs|gg1|ggs|gh5|ghu|gja|gjs|gkj|h5j|h7j|hkb|hky|hl6|hlh|hlz",
   "9b9=ho3|i1c|i2o|i60|i6n|i76|i7s|i9a|i9d|ijf|ijp|ik1|ike|inm|inu|inz|ir8|iri|irv|is3|its|iu9",
   "9bv=iur|iwz|jd4|jee|jez|jzj|jzo|k1z|k2f|k2s|k3d|k4g|k4l|kc0|kco|kdk|l5s|l7m|l89|l9v|laj|las",
   "9ch=laz|lcf|lck|ldg|m7f|mju|mk6|mkb|mkf|mkn|ml5|ml7|mng|mtg|mtl|n30|n3a|n4o|n4v|n54|n5c|n7v",
   "9d3=n82|nee|nel|nfy|ngf|nhq|nob|noi|noz|ny2|o1k|o1q|o6s|o97|oah|okz|ooo|p4m|p5d|p6y|p8d|pa9",
   "9dp=pak|paq|pbn|pdr|pe1|pnn|pnu|po3|poc|pos|pp7|ppb|pri|prm|prs|qj1|qjv|qww|qx8|qxv|r5q|r63",
   "9eb=r82|r9c|rp3|rpi|rpx|rqw|rrx|rxg|rxs|rzn|s6j|s7e|sd7|sds|sdx|sk1|sp5|ssm|sss|ssx|tiv|tj4",
   "9ex=tng|trq|trt|tt4|tw1|twe|twi|twp|tzf|u0d|u0j|u0x|u5k|u6z|u73|uc6|uc9|ucs|ujs|ul4|ulb|un9",
   "9fj=unj|unm|unw|uoq|uzp|vat|vb3|vc5|vcr|vcz|vd9|vdd|veh|vel|vf2|vf7|vfk|vgb|vgq|vgy|vil|vj0",
   "9g5=vj4|9hc=w|9iu=9hu|9iw=gg1|gg4|gg5|9ln=w 9ll|w 9lm|9lr=9l4 9l6|9of=9mb 9mw|9pt=3cw|3cx|3hm",
   "9pw=3cy|3ho|3hp|9q8=3dm|9qc=3dt|9r8=3fk|3dg|3dh|3if|3ig|3ik|3im|3ir|3iv|3ix|3do|3j1|3j3|3dp",
   "9rm=3dq|3ds|3du|3dv|3dz|3e1|9rx=3ea|3ee|3eo|3ev|3f0|3jl|3jm|9s7=3gk|3gl|3go|3gx|3gy|3h0|3ha",
   "9se=3hd|9si=feo|fik|fex|h5n|fey|ffx|fez|n5e|fh5|ffd|fep|hm1|h80|fju|9vk=14 3cw 15|14 3cy 15",
   "9vm=14 3cz 15|14 3d1 15|14 3d2 15|14 3d3 15|14 3d5 15|14 3d7 15|14 3d8 15|14 3da 15|14 3db 15",
   "9vv=14 3dc 15|14 3dd 15|14 3de 15|14 3cw 3fl 15|14 3cy 3fl 15|14 3cz 3fl 15|14 3d1 3fl 15",
   "9w2=14 3d2 3fl 15|14 3d3 3fl 15|14 3d5 3fl 15|14 3d7 3fl 15|14 3d8 3fl 15|14 3da 3fl 15",
   "9w8=14 3db 3fl 15|14 3dc 3fl 15|14 3dd 3fl 15|14 3de 3fl 15|14 3d8 3fy 15",
   "9wd=14 3d7 3ft 3d8 3fp 3hn 15|14 3d7 3ft 3de 3fy 15|9wg=14 feo 15|14 fik 15|14 fex 15",
   "9wj=14 h5n 15|14 fis 15|14 g31 15|14 fer 15|14 g2z 15|14 fh9 15|14 gg1 15|14 kco 15|14 m7f 15",
   "9ws=14 ldg 15|14 kdk 15|14 ssx 15|14 h7j 15|14 k4l 15|14 kkq 15|14 kcp 15|14 ny6 15|14 glp 15",
   "9x1=14 mm1 15|14 rs1 15|14 nz1 15|14 gc4 15|14 fkz 15|14 gos 15|14 i1y 15|14 nhf 15|14 flt 15",
   "9xa=14 rt3 15|14 ggk 15|14 nzh 15|14 fm9 15|14 pnu 15|14 po3 15|gun|inw|k1z|oen|9xs=28 2c 1x",
   "9xt=1e 1d|1e 1e|1e 1f|1e 1g|1e 1h|1e 1i|1e 1j|1e 1k|1e 1l|1f 1c|1f 1d|1f 1e|1f 1f|1f 1g|1f 1h",
   "9y8=3cw|3cy|3cz|9ye=3d5|3d7|3d8|9ym=3cw 3fl|3cy 3fl|3cz 3fl|3d1 3fl|3d2 3fl|3d3 3fl|3d5 3fl",
   "9yt=3d7 3fl|3d8 3fl|3da 3fl|3db 3fl|3dc 3fl|3dd 3fl|3de 3fl|3da 3fl 3hz 3cw 3ft",
   "9z1=3d8 3fy 3d7 3g4|3d7 3fy|9z4=feo|fik|fex|h5n|fis|g31|fer|g2z|fh9|gg1|kco|m7f|ldg|kdk|ssx",
   "9zj=h7j|k4l|kkq|kcp|ny6|glp|mm1|rs1|nz1|gc4|o2g|n5j|ho3|six|g16|ghc|lig|u11|fm9|g49|l7n|fey",
   "a05=ffx|fez|ijq|gkz|gfv|i3b|i1y|nhf|flt|rt3|ggk|hlo|1f 1i|1f 1j|1f 1k|1f 1l|1g 1c|1g 1d|1g 1e",
   "a0o=1g 1f|1g 1g|1g 1h|1g 1i|1g 1j|1g 1k|1g 1l|1h 1c|1d kco|1e kco|1f kco|1g kco|1h kco|1i kco",
   "a12=1j kco|1k kco|1l kco|1d 1c kco|1d 1d kco|1d 1e kco|20 2v|2t 36 2v|2t 2e|24 2c 1w|9lu|9lw",
   "a1e=9ly|9m0|9m2|9m3|9m5|9m7|9m9|9mb|9md|9mf|9mh|9mj|9ml|9mn|9mp|9ms|9mu|9mw|a22=9n6|9n9|9nc",
   "a25=9nf|a2b=9no|9nq|a2n=fl0 gp8|9lu 9n3 9lm 9oc 9mw|9lu 9nv 9n9 9lt|9lu 9o3 9nc 9lm 9lu",
   "a2r=9lu 9oc 9nv|9lw 9mz 9o3 9m7 9ll|9lw 9o3 9mp|9ly 9m1 9o3|9m0 9mh 9m7 9oc 9mw 9ll",
   "a2w=9m0 9oc 9m3 9oc|9m2 9o3 9mh|9m2 9oc 9nk|9m3 9lw 9nu|9m3 9nt 9mr 9mw|9m3 9nx 9nu 9oc",
   "a32=9m3 9ll 9nx 9o3|9m3 9ll 9o3 9ni|9m5 9ll 9m3 9ll|9m5 9ll 9mz 9oc|9m5 9np 9nu 9oc",
   "a37=9m5 9ll 9nv 9mn 9ll 9oc|9m5 9nx|9m5 9nx 9m7 9ll 9nt 9nk|9m5 9nx 9nl 9oc 9mw 9nv",
   "a3b=9m5 9nx 9nz 9mr 9mw|9m7 9ll 9nt 9nk|9m7 9ll 9nt 9nk 9mw 9o3|9m7 9nv 9mj 9ll 9lw 9nx",
   "a3f=9m7 9nx 9oc 9n1|9m9 9oc 9mh|9mb 9nv 9my|9mb 9oc 9nf 9lm|9md 9lw 9m7 9nv",
   "a3k=9md 9o3 9mp 9oc 9nk|9mf 9nu 9o3 9m7 9ll|9mj 9o3 9mp|9mj 9o3 9mw|9mn 9ll 9oc 9mh",
   "a3p=9mu 9ll 9mf|9mw 9ll 9nv|9mw 9o3|9my 9n2|9n2 9mr 9mw|9n3 9lw 9ms|9n3 9lm 9oc 9mj 9o3 9mw",
   "a3w=9n3 9lm 9oc 9ms|9n3 9ll 9oc 9nw 9nv|9n6 9lm 9lu 9mh 9mw 9nv|9n6 9lm 9m7 9nv|9n6 9lm 9mb",
   "a41=9n6 9ll 9nv|9n9 9lt 9nt 9mr 9mw 9ll|9n9 9lv 9oc 9mw|9n9 9ll 9mr 9mf 9lz 9nv|9n9 9nt 9o3",
   "a46=9nc 9m7 9mn 9oc 9nv|9nc 9lm 9ml|9nc 9lm 9mz 9n6|9nc 9nv 9ms|9nc 9lm 9o3 9mh",
   "a4b=9nc 9lm 9oc 9mf 9ll|9nc 9ll 9oc 9mn|9nf 9lm 9lw 9o3 9mw|9nf 9ll 9nv 9mw|9nf 9o3",
   "a4g=9nf 9lm 9o3 9mw 9ll|9nf 9oc 9nv|9nf 9oc 9o3|9ni 9lw 9m7 9nx|9ni 9lw 9nv|9ni 9mr 9n3",
   "a4m=9ni 9nv 9m7|9ni 9o3 9mf 9nr 9o3|9nj 9m7 9nx 9o3|9nj 9nu|9nj 9nu 9n3 9ll 9oc 9nv",
   "a4r=9nl 9m3 9ll|9nl 9m3 9ll 9mw 9o3|9nl 9oc 9mw 9nv|9no 9oc 9mw 9ll|9no 9oc 9nv|9nq 9lu 9o3",
   "a4x=9nu 9mr 9mw 9nv|9nu 9nt|9nv 9n6 9lm 9oc|9nv 9oc 9n9 9ll 9nv|9nw 9nk",
   "a52=9nw 9o3 9mw 9m9 9ll 9o3|9nz 9mr 9mw|1c m9l|1d m9l|1e m9l|1f m9l|1g m9l|1h m9l|1i m9l",
   "a5b=1j m9l|1k m9l|1l m9l|1d 1c m9l|1d 1d m9l|1d 1e m9l|1d 1f m9l|1d 1g m9l|1d 1h m9l|1d 1i m9l",
   "a5l=1d 1j m9l|1d 1k m9l|1d 1l m9l|1e 1c m9l|1e 1d m9l|1e 1e m9l|1e 1f m9l|1e 1g m9l|2w 28 2p",
   "a5u=2s 2p|1t 2d|2q 2p 36|33 2e|34 2r|2s 31|2s 31 1e|2s 31 1f|21 2d|inn jdc|k6l gp8|hlz l7n",
   "a66=k5q lh7|kkq irz fmi ny6|34 1t|32 1t|qk 1t|31 1t|2z 1t|23 1u|25 1u|1z 1u|2r 2p 30",
   "a6h=2z 2r 2p 30|34 1y|32 1y|qk 1y|qk 2v|31 2v|2z 2v|20 3e|2z 20 3e|25 20 3e|1z 20 3e|2c 20 3e",
   "a6t=qk 30|31 30|2s 30|2z 30|2u 31|32 31|qk 31|31 31|2r 31|2z 31|31 31 1e|2r 31 1e|31 1e",
   "a76=2z 31 1e|31 31 1f|2r 31 1f|31 1f|2z 31 1f|31 6qd 37|31 6qd 37 1e|28 2p|2z 28 2p|25 28 2p",
   "a7g=1z 28 2p|36 2p 2s|36 2p 2s 6qd 37|36 2p 2s 6qd 37 1e|34 37|32 37|qk 37|31 37|34 2e|32 2e",
   "a7q=qk 2e|31 2e|2z 2e|25 2e|34 2f|32 2f|qk 2f|31 2f|2z 2f|25 2f|2z q1|25 q1|2p 1a 31 1a|1u 35",
   "a84=2r 2r|2r 2s|1v 6qd 2z 2v|1v 33 1a|2s 1u|1z 3d|2w 2p|20 28|2x 32|23 23|23 25|2z 38|30 31",
   "a8h=30 32|30 33 2v|30 3c|31 2q|31 2x 30|31 33 30|28 20|34 1a 31 1a|28 28 25|28 2a|37 36|2b 3a",
   "a8t=2f 2q|2e 6qd 31|1t 6qd 31|1d k4l|1e k4l|1f k4l|1g k4l|1h k4l|1i k4l|1j k4l|1k k4l|1l k4l",
   "a95=1d 1c k4l|1d 1d k4l|1d 1e k4l|1d 1f k4l|1d 1g k4l|1d 1h k4l|1d 1i k4l|1d 1j k4l|1d 1k k4l",
   "a9e=1d 1l k4l|1e 1c k4l|1e 1d k4l|1e 1e k4l|1e 1f k4l|1e 1g k4l|1e 1h k4l|1e 1i k4l|1e 1j k4l",
   "a9n=1e 1k k4l|1e 1l k4l|1f 1c k4l|1f 1d k4l|2v 2p 30|wws=ui|uk|x2o=x2n|x6a=1v|1y|29|x6g=86|9f",
   "xuk=x0n|xtj|h7|xua|xux=i5|1dkw=2u 2u|2u 2x|2u 30|2u 2u 2x|2u 2u 30|37 38|37 38|1dlf=12s 12u",
   "1dlg=12s 12d|12s 12j|132 12u|12s 12l|1dls=15u|15c|15f|15g|1dlz=160|162|17|1dn3=15c 15o|19t|19t",
   "1dn6=1a3|1a3|1a3|1a3|1a6|1a6|1a6|1a6|1a8|1a8|1a8|1a8|1a2|1a2|1a2|1a2|1a7|1a7|1a7|1a7|1a1|1a1",
   "1dns=1a1|1a1|1b8|1b8|1b8|1b8|1ba|1ba|1ba|1ba|1ac|1ac|1ac|1ac|1ab|1ab|1ab|1ab|1ae|1ae|1ae|1ae",
   "1doe=1af|1af|1af|1af|1al|1al|1ak|1ak|1am|1am|1ag|1ag|1aw|1aw|1ap|1ap|1bd|1bd|1bd|1bd|1bj|1bj",
   "1dp0=1bj|1bj|1bn|1bn|1bn|1bn|1bl|1bl|1bl|1bl|1bu|1bu|1bv|1bv|1bv|1bv|1cl 190|1cl 190|1c1|1c1",
   "1dpk=1c1|1c1|1by|1by|1by|1by|1ci|1ci|1ci 190|1ci 190|1dqr=1bh|1bh|1bh|1bh|1c7|1c7|1c6|1c6|1c8",
   "1dr0=1c8|1c7 19w|1cb|1cb|1c5|1c5|1c9|1c9|1cg|1cg|1cg|1cg|18p|18p|18q 190 17r|18q 190 17r",
   "1drg=18q 190 1cl|18q 190 1cl|18q 190 18o|18q 190 18o|18q 190 1c7|18q 190 1c7|18q 190 1c6",
   "1drn=18q 190 1c6|18q 190 1c8|18q 190 1c8|18q 190 1cg|18q 190 1cg|18q 190 1cg|18q 190 18p",
   "1dru=18q 190 18p|18q 190 18p|1cc|1cc|1cc|1cc|18q 190 17w|18q 190 17x|18q 190 18l|18q 190 18p",
   "1ds4=18q 190 18q|17s 17w|17s 17x|17s 17y|17s 18l|17s 18p|17s 18q|17u 17w|17u 17x|17u 17y",
   "1dse=17u 18l|17u 18p|17u 18q|17v 17w|17v 18l|17v 18p|17v 18q|17w 17x|17w 18l|17x 17w|17x 18l",
   "1dsp=17y 17w|17y 17x|17y 18l|183 17w|183 17x|183 17y|183 18l|185 17x|185 18l|186 17w|186 17x",
   "1dt0=186 17y|186 18l|187 17x|187 18l|188 18l|189 17w|189 18l|18a 17w|18a 18l|18h 17w|18h 17x",
   "1dtb=18h 17y|18h 18l|18h 18p|18h 18q|18i 17x|18i 18l|18i 18p|18i 18q|18j 17r|18j 17w|18j 17x",
   "1dtm=18j 17y|18j 18k|18j 18l|18j 18p|18j 18q|18k 17w|18k 17x|18k 17y|18k 18l|18k 18p|18k 18q",
   "1dtx=18l 17w|18l 17x|18l 17y|18l 18l|18l 18p|18l 18q|18m 17w|18m 17x|18m 17y|18m 18l|18m 18p",
   "1du8=18m 18q|18n 17w|18n 18l|18n 18p|18n 18q|18q 17w|18q 17x|18q 17y|18q 18l|18q 18p|18q 18q",
   "1duj=180 19s|181 19s|18p 19s|w 18s 18x|w 18t 18x|w 18u 18x|w 18v 18x|w 18w 18x|w 18x 19s",
   "1dus=18q 190 181|18q 190 182|18q 190 18l|18q 190 18m|18q 190 18p|18q 190 18q|17s 181|17s 182",
   "1dv0=17s 18l|17s 18m|17s 18p|17s 18q|17u 181|17u 182|17u 18l|17u 18m|17u 18p|17u 18q|17v 181",
   "1dvb=17v 182|17v 18l|17v 18m|17v 18p|17v 18q|18h 18p|18h 18q|18i 18p|18i 18q|18j 17r|18j 18k",
   "1dvm=18j 18l|18j 18p|18j 18q|18k 18l|18k 18p|18k 18q|18l 17r|18l 18l|18m 181|18m 182|18m 18l",
   "1dvx=18m 18m|18m 18p|18m 18q|18p 19s|18q 181|18q 182|18q 18l|18q 18m|18q 18p|18q 18q",
   "1dw7=18q 190 17w|18q 190 17x|18q 190 17y|18q 190 18l|18q 190 18n|17s 17w|17s 17x|17s 17y",
   "1dwf=17s 18l|17s 18n|17u 17w|17u 17x|17u 17y|17u 18l|17u 18n|17v 18l|17w 17x|17w 18l|17x 17w",
   "1dwq=17x 18l|17y 17w|17y 18l|183 17w|183 17x|183 17y|183 18l|185 17x|185 17y|185 18l|186 17w",
   "1dx1=186 17x|186 17y|186 18l|187 17x|188 18l|189 17w|189 18l|18a 17w|18a 18l|18h 17w|18h 17x",
   "1dxc=18h 17y|18h 18l|18i 17x|18i 18l|18j 17w|18j 17x|18j 17y|18j 18k|18j 18l|18k 17w|18k 17x",
   "1dxn=18k 17y|18k 18l|18k 18n|18l 17w|18l 17x|18l 17y|18l 18l|18m 17w|18m 17x|18m 17y|18m 18l",
   "1dxy=18m 18n|18n 17w|18n 18l|18n 19s|18q 17w|18q 17x|18q 17y|18q 18l|18q 18n|18q 190 18l",
   "1dy8=18q 190 18n|17s 18l|17s 18n|17u 18l|17u 18n|17v 18l|17v 18n|183 18l|183 18n|184 18l",
   "1dyi=184 18n|18j 18k|18j 18l|18k 18l|18m 18l|18m 18n|18q 18l|18q 18n|18g 18u 18x|18g 18v 18x",
   "1dys=18g 18w 18x|187 18p|187 18q|189 18p|189 18q|18a 18p|18a 18q|183 18p|183 18q|184 18p",
   "1dz2=184 18q|17x 18p|17x 18q|17w 18p|17w 18q|17y 18p|17y 18q|185 18p|185 18q|186 18p|186 18q",
   "1dzd=184 17w|184 17x|184 17y|184 18l|184 181|183 181|185 181|186 181|187 18p|187 18q|189 18p",
   "1dzo=189 18q|18a 18p|18a 18q|183 18p|183 18q|184 18p|184 18q|17x 18p|17x 18q|17w 18p|17w 18q",
   "1dzz=17y 18p|17y 18q|185 18p|185 18q|186 18p|186 18q|184 17w|184 17x|184 17y|184 18l|184 181",
   "1e0a=183 181|185 181|186 181|184 17w|184 17x|184 17y|184 18l|183 18n|184 18n|187 18l|183 17w",
   "1e0l=183 17x|183 17y|184 17w|184 17x|184 17y|187 18l|188 18l|17r 18r|17r 18r|1e1c=17u 17w 18l",
   "1e1d=17u 17x 17w|17u 17x 17w|17u 17x 18l|17u 17y 18l|17u 18l 17w|17u 18l 17x|17u 18l 17y",
   "1e1k=17w 18l 17x|17w 18l 17x|17x 18l 18q|17x 18l 18p|183 17x 17w|183 17w 17x|183 17w 18p",
   "1e1r=183 18l 17x|183 18l 17x|183 18l 17w|183 18l 18l|183 18l 18l|185 17x 17x|185 17x 17x",
   "1e1y=185 18l 18l|184 17x 18l|184 17x 18l|184 17w 18q|184 18l 17y|184 18l 17y|184 18l 18l",
   "1e25=184 18l 18l|186 17x 18p|186 17y 18l|186 17y 18l|187 18l 17x|187 18l 17x|187 18l 18l",
   "1e2c=187 18l 18q|189 17w 18l|189 18l 18l|189 18l 18l|189 18l 18p|18a 18l 18l|18a 18l 18q",
   "1e2j=18a 18l 18p|18h 17y 18l|18h 17y 18l|18i 18l 17x|18i 18l 18l|18k 17x 18l|18k 17x 18q",
   "1e2q=18k 17x 18p|18k 17w 17w|18k 17w 17w|18k 17y 18l|18k 17y 18l|18k 18l 17x|18k 18l 17x",
   "1e2x=18l 17x 17w|18l 17x 18l|18l 17x 18q|18l 17w 17x|18l 17w 18l|18l 17y 17w|18l 17y 18l",
   "1e36=18l 17w 17y|18n 18l 17w|18n 18l 18l|18m 17x 18l|18m 17x 18p|18m 17w 18l|18m 17w 18l",
   "1e3d=18m 17w 18p|18m 18l 18q|18m 18l 18p|18q 18l 18l|18q 18l 18l|17s 17y 18q|17u 17w 18q",
   "1e3k=17u 17w 18p|17u 17y 18q|17u 17y 18p|17u 18l 18q|17u 18l 18p|17w 18l 18q|17w 17x 18p",
   "1e3r=17w 18l 18p|183 17y 18p|185 17x 18q|184 17x 18q|186 17x 18q|18k 17w 18q|18k 18l 18q",
   "1e3y=18q 17x 18q|18q 17w 18q|18q 18l 18q|18l 18l 18q|18i 18l 18q|18m 17x 18q|18i 18l 17x",
   "1e45=18k 17x 18l|189 18l 18q|18j 18l 18q|18m 17w 17x|18l 17y 18q|18k 17w 18l|18j 18l 18l",
   "1e4c=18k 17w 18l|18m 17w 17x|17w 17x 18q|17x 17w 18q|18l 17w 18q|18h 18l 18q|17s 17x 18q",
   "1e4j=18j 18l 18l|189 17w 18l|185 18l 18l|183 17y 18q|18m 17w 18q|1e5s=185 18k 1ci|18i 18k 1ci",
   "1e5u=17r 18k 18k 18n|17r 18j 17s 181|18l 17x 18l 17z|185 18k 189 18l|181 183 18o 18k",
   "1e5z=189 18k 18q 18n|18o 183 18k 18l|185 18k 18p",
   "1e62=185 18k 18p w 17r 18k 18k 18n w 189 18k 18q 18n w 18o 183 18k 18l",
   "1e63=17w 18k w 17w 18k 17r 18k 18n|181 1cc 17r 18k|1e6o=18|9hd|9he|1m|1n|x|1r|9hy|9hz|1a 1a 1a",
   "1e7k=1a 1a|6c4|6c3|2n|2n|14|15|3f|3h|9hw|9hx|9hs|9ht|9hm|9hn|9hk|9hl|1e87=2j|2l|w lh|w lh|w lh",
   "1e8c=w lh|2n|2n|2n|18|9hd|1a|1e8k=1n|1m|1r|x|6c4|14|15|3f|3h|9hw|9hx|z|12|16|17|19|1o|1q|1p",
   "1e94=2k|10|11|1s|1e9c=w 18r|18g 18r|w 18s|1e9g=w 18t|1e9i=w 18u|18g 18u|w 18v|18g 18v|w 18w",
   "1e9n=18g 18w|w 18x|18g 18x|w 18y|18g 18y|17l|17r 18z|17r 18z|17r 190|17r 190|18o 190|18o 190",
   "1e9z=17r 191|17r 191|18q 190|18q 190|18q 190|18q 190|17r|17r|17s|17s|17s|17s|17t|17t|17u|17u",
   "1eaf=17u|17u|17v|17v|17v|17v|17w|17w|17w|17w|17x|17x|17x|17x|17y|17y|17y|17y|17z|17z|180|180",
   "1eb1=181|181|182|182|183|183|183|183|184|184|184|184|185|185|185|185|186|186|186|186|187|187",
   "1ebn=187|187|188|188|188|188|189|189|189|189|18a|18a|18a|18a|18h|18h|18h|18h|18i|18i|18i|18i",
   "1ec9=18j|18j|18j|18j|18k|18k|18k|18k|18l|18l|18l|18l|18m|18m|18m|18m|18n|18n|18n|18n|18o|18o",
   "1ecv=18p|18p|18q|18q|18q|18q|18k 17r 18z|18k 17r 18z|18k 17r 190|18k 17r 190|18k 17r 191",
   "1ed6=18k 17r 191|18k 17r|18k 17r|1efz=879|87a|9he|9ho|9hp|9hd|9ob|9o2|9lt|9lv|9lx|9lz|9m1|9nn",
   "1egd=9np|9nr|9mr|9oc|9lu|9lw|9ly|9m0|9m2|9m3|9m5|9m7|9m9|9mb|9md|9mf|9mh|9mj|9ml|9mn|9mp|9ms",
   "1egz=9mu|9mw|1eh7=9n6|9n9|9nc|9nf|1ehg=9no|9nq|1eho=9nz|9o3|9ll|9lm|3fk|3cw|3cx|3hm|3cy|3ho",
   "1ehy=3hp|1ei8=3dm|1eic=3dt|1ejk=4i|4j|4s|w lg|4m|4l|6g9|1ejs=7b6|1ejx=7fk|7gr|1g1t=k0|k1|6e|ih",
   "1g1x=gj|1g1z=ir|xuu|it|is|gm|gn|5u9|go|gu|ix|h0|gy|gw|ij|87|ik|h3|hw|iy|iz|h8|2mmc|x3i|ha|2mmd",
   "1g2o=i6|2mme|6w|hi|hj|35|hm|2mmg|hp|hq|hs|iw|iu|xuv|iv|i0|8s1|1g36=i7|ip|iq|ig|1g3d=2mmi|2mn2",
   "2kkc=1t|2kke=1v|1w|2kki=1z|2kkl=22|23|2kl7=2u|2kn8=1t|1u|2koo=1t|1u|2kp2=27|2kys=8h|fr|2kzd=pk",
   "2kzl=6pz|2l0b=6pu|qd|qg|qi|qu|qp|qo|2l0z=pk|2l17=6pz|2l1x=6pu|qd|qg|qi|qu|qp|qo|2l2l=pk",
   "2l2t=6pz|2l3j=6pu|qd|qg|qi|qu|qp|qo|2l47=pk|2l4f=6pz|2l55=6pu|qd|qg|qi|qu|qp|qo|2l5t=pk",
   "2l61=6pz|2l6r=6pu|qd|qg|qi|qu|qp|qo|rg|rh|2mvb=uj|ul|um|ww9|yh|uu|uw|yx|xb|y7|2mvu=u2|u3|u6|u7",
   "2mvy=u9|2mw5=ui|uj|wh|uu|ut|v3|x7|wup|xd|2pkw=17r|17s|17w|17z|2pl1=18o|182|17x|187|18q",
   "2pla=183|189|18h|185|18i|181|184|17u|17v|17y|180|186|188|18a|19q|1bu|1b5|19r|2plt=17s|17w",
   "2plw=18n|2plz=17x|2pm1=18q|2pm6=183|189|18h|185|18i|2pmc=184|17u|17v|17y|2pmh=186|2pmj=18a",
   "2pmq=17w|2pmv=17x|2pmx=18q|2pmz=18k|2pn1=18m|183|189|2pn5=185|18i|2pn8=184|2pnb=17y|2pnd=186",
   "2pnf=18a|2pnh=1bu|2pnj=19r|2pnl=17s|17w|2pno=18n|2pnr=17x|187|18q|18j|2pnw=18l|18m|183|189|18h",
   "2po1=185|18i|2po4=184|17u|17v|17y|2po9=186|188|18a|19q|2poe=1b5|2pog=17r|17s|17w|17z|18n|18o",
   "2pom=182|17x|187|18q|2pou=183|189|18h|185|18i|181|184|17u|17v|17y|180|186|188|18a|2ppd=17s|17w",
   "2ppf=17z|2pph=18o|182|17x|187|18q|2ppq=183|189|18h|185|18i|181|184|17u|17v|17y|180|186|188|18a",
   "2q68=1c 1a|1c 18|1d 18|1e 18|1f 18|1g 18|1h 18|1i 18|1j 18|1k 18|1l 18|2q6o=14 1t 15|14 1u 15",
   "2q6q=14 1v 15|14 1w 15|14 1x 15|14 1y 15|14 1z 15|14 20 15|14 21 15|14 22 15|14 23 15|14 24 15",
   "2q70=14 25 15|14 26 15|14 27 15|14 28 15|14 29 15|14 2a 15|14 2b 15|14 2c 15|14 2d 15|14 2e 15",
   "2q7a=14 2f 15|14 2g 15|14 2h 15|14 2i 15|9hw 2b 9hx|1v|2a|1v 1w|2f 2i|2q8a=20 2e|25 2e|2b 1w",
   "2q8d=2b 2b|28 28 2e|2f 1v|2q96=25 1v|25 1w|25 2a|2qa8=1w 22|2qdc=9kr 9jf|9mb 9mb|9md|2qds=jez",
   "2qdt=i1j|gjw|9mu 9ll|fik|hlm|r8j|hm1|fj8|k68|mch|k2h|g99|ivg|g3x|k34|g7x|oqq|n4v|rs9|hkg|gmx",
   "2qee=lxw|jh1|jmd|feo|fex|si2|ijq|ffx|gkz|jk7|rxs|jf7|o01|o6y|glk|lts|kcp|kco|n5f|gaa|gxi|sp9",
   "2qf4=9hw kdo 9hx|9hw fex 9hx|9hw fik 9hx|9hw i2x 9hx|9hw m9l 9hx|9hw jf7 9hx|9hw nh3 9hx",
   "2qfb=9hw gd9 9hx|9hw k0n 9hx|2qfk=ivr|gkv"]

/-- Runs of characters that are compatible with the characters of another run: the first and the last
of the run, and the first of the other. -/
def compatibilityRuns : List String :=
  ["5rn=5ru 1z|5st=5sv qa|5us=5uu h4|5v2=5v5 he|5vg=5vi i8|6es=6ex 1g|6f4=6fd 1c|6fq=6ft 2z",
   "6jd=6jf 28|6k5=6k8 15c|76o=76w 1d|792=79r 1t|79s=7ah 2p|9pz=9q1 3cz|9q2=9q7 3hs|9q9=9qb 3d2",
   "9qd=9qm 3d5|9qn=9r7 3fl|9rs=9rw 3e3|9s4=9s6 3fb|9yb=9yd 3d1|9yh=9yl 3da|a1w=a21 9my",
   "a26=a2a 9ni|a2d=a2i 9ns|a2j=a2m 9nz|1dlw=1dly 15n|1e81=1e84 9ho|1edd=1efy x|1eh1=1eh6 9my",
   "1ehb=1ehf 9ni|1ehi=1ehn 9ns|1ehz=1ei1 3cz|1ei2=1ei7 3hs|1ei9=1eib 3d2|1eid=1eim 3d5",
   "1eiq=1eiv 3fl|1eiy=1ej3 3fr|1ej6=1ejb 3fx|1eje=1ejg 3g3|1ejt=1ejw 6mo|1g3a=1g3c cg",
   "2j12=2j1r 1t|2j1s=2j21 1c|2kg0=2kgp 1t|2kgq=2khf 2p|2khg=2ki5 1t|2ki6=2kic 2p|2kie=2kiv 2x",
   "2kiw=2kjl 1t|2kjm=2kkb 2p|2kkp=2kks 26|2kku=2kl1 2b|2kl2=2kl5 2p|2kl9=2klf 2w|2klh=2klr 34",
   "2kls=2kmh 1t|2kmi=2kn7 2p|2knb=2kne 1w|2knh=2kno 22|2knq=2knw 2b|2kny=2kon 2p|2kor=2kou 1w",
   "2kow=2kp0 21|2kp6=2kpc 2b|2kpe=2kq3 2p|2kq4=2kqt 1t|2kqu=2krj 2p|2krk=2ks9 1t|2ksa=2ksz 2p",
   "2kt0=2ktp 1t|2ktq=2kuf 2p|2kug=2kv5 1t|2kv6=2kvv 2p|2kvw=2kwl 1t|2kwm=2kxb 2p|2kxc=2ky1 1t",
   "2ky2=2kyr 2p|2kyw=2kzc pd|2kze=2kzk pv|2kzm=2l0a q9|2l0i=2l0y pd|2l10=2l16 pv|2l18=2l1w q9",
   "2l24=2l2k pd|2l2m=2l2s pv|2l2u=2l3i q9|2l3q=2l46 pd|2l48=2l4e pv|2l4g=2l54 q9|2l5c=2l5s pd",
   "2l5u=2l60 pv|2l62=2l6q q9|2l72=2l7b 1c|2l7c=2l7l 1c|2l7m=2l7v 1c|2l7w=2l85 1c|2l86=2l8f 1c",
   "2muo=2muw ts|2mux=2muz u2|2mv0=2mva u6|2mvl=2mvt ts|2mvz=2mw4 ub|2pl6=2pl9 18j|2pm2=2pm5 18j",
   "2por=2pot 18k|2ppn=2ppp 18k|2q7k=2q89 1t|2sc0=2sc9 1c"]

/-- Runs of characters that combine with the one before them, with their class: only marks of one
class keep their order. -/
def combiningRuns : List String :=
  ["lc=lw 6e|lx=lx 6g|m1 64|m2=m2 6g|m3 60|m8 64|m9=ma 5m|mb=me 64|mf=mg 5m|mh=mr 64|ms=mw 1",
   "mx=n0 64|n1=n8 6e|n9=n9 6o|na 6e|nd 64|ne=ng 6e|nh=ni 64|nk=nm 6e|nn=nq 64|nr=nr 6e|ns 6g",
   "nt=nu 64|nv=nv 6e|nw 6h|ny 6i|nz=nz 6h|o1 6i|o2=o2 6h|of 6e|w3=w7 6e|13l=13l 64|13p 6e",
   "13q=13q 64|13t 6e|13u=13u 66|13v 64|141 6e|142=147 64|148=149 6e|14a=14a 64|14c 6e|14d=14d 66",
   "14e=14e 6c|14f 6e|14g a|14h b|14i c|14j d|14k e|14l f|14m g|14n h|14o i|14q j|14r=14r k|14s l",
   "14t=14t m|14v=14v n|14x=14x o|14y p|150=150 6e|151 64|153=153 i|174=17b 6e|17c=17c u|17d v",
   "17e=17e w|18r=18r r|18s s|18t t|18u u|18v v|18w w|18x x|18y y|190 6e|191=192 64|193=197 6e",
   "198=198 64|19a 6e|19b=19b 64|19s=19s z|1cm=1cs 6e|1cv=1cy 6e|1cz=1cz 64|1d0 6e|1d3=1d4 6e",
   "1d6=1d6 64|1d8 6e|1d9=1d9 64|1e9=1e9 10|1f4=1f4 6e|1f5 64|1f7 6e|1f8=1f8 64|1fa 6e|1fb=1fd 64",
   "1fe=1fe 6e|1fg 64|1fh=1fh 6e|1fi 64|1fl 6e|1fm=1fm 64|1fn 6e|1fo 64|1fp 6e|1fq 64|1fr 6e",
   "1fs=1fs 64|1fu 6e|1kb=1kh 6e|1ki=1ki 64|1kj 6e|1kt=1kt 64|1li=1ll 6e|1ln=1lv 6e|1lx=1lz 6e",
   "1m1=1m5 6e|1nd=1nf 64|1p3=1p4 6e|1p5=1p7 64|1p8=1pb 6e|1qi=1qm 6e|1qn=1qr 64|1qs=1r5 6e",
   "1r7=1r7 64|1r9 6e|1ra=1ra 64|1rc 6e|1rd=1rd 64|1rg 6e|1rh=1rj 64|1rk=1rk r|1rl s|1rm t|1rp 6e",
   "1rq=1rq 64|1rs 6e|1rt=1ru 64|1rv=1rz 6e|1to=1to 7|1u5=1u5 9|1u9=1u9 6e|1ua 64|1uc 6e|1x8=1x8 7",
   "1xp=1xp 9|1z2=1z2 6e|20s=20s 7|219=219 9|24c=24c 7|24t=24t 9|27w=27w 7|28d=28d 9|2bx=2bx 9",
   "2f0=2f0 7|2fh=2fh 9|2fp=2fp 2c|2fq 2j|2ik=2ik 7|2j1=2j1 9|2m3=2m4 9|2ml=2ml 9|2q2=2q2 9",
   "2t4=2t5 2v|2t6=2t6 9|2tk=2tn 2z|2wo=2wp 3a|2wq=2wq 9|2x4=2x7 3e|2zc=2zd 64|305=305 64",
   "307=307 64|309=309 60|31t=31t 3l|31u 3m|31w=31w 3o|322=325 3m|328=328 3m|32a=32b 6e|32c=32c 9",
   "32e=32f 6e|346=346 64|37b=37b 7|37d=37e 9|39p=39p 64|3tp=3tr 6e|4k4=4k5 9|4l0=4l0 9|4pe=4pe 9",
   "4pp=4pp 6e|4vd=4vd 6c|4zd=4zd 66|4ze 6e|4zf 64|55j=55j 6e|55k 64|57k=57k 9|585=58c 6e",
   "58f=58f 64|59s=59w 6e|59x=5a2 64|5a3=5a4 6e|5a5=5a5 64|5a7=5a8 64|5a9=5aa 6e|5ab=5ac 64",
   "5ad=5ah 6e|5ai=5ai 64|5am 6e|5dg=5dg 7|5dw=5dw 9|5ez=5ez 6e|5f0 64|5f7 6e|5gq=5gr 9|5ie=5ie 7",
   "5iq=5ir 9|5kn=5kn 7|5ow=5oy 6e|5p0=5p0 1|5p5 64|5p6=5p7 6e|5p8=5pb 64|5pc=5pc 6e|5pe=5pk 1",
   "5pp=5pp 64|5pw=5pw 6e|5q0=5q1 6e|5vk=5vl 6e|5vm=5vm 64|5vt 6e|5vu=5vu 64|5vw 6e|5vx=5vx 6i",
   "5vy=5vy 5y|5vz 64|5w0 5m|5x1 6e|5x2=5x2 6g|5x4 6c|5x5=5x5 64|5x6 62|5x7 6e|5x8 6h|5x9 64",
   "5xa=5xa 6e|5xb 64|6hc=6hd 6e|6he=6hf 1|6hg=6hj 6e|6hk=6hm 1|6hn=6ho 6e|6ht=6ht 6e|6hx=6hy 1",
   "6hz=6hz 6e|6i0 64|6i1 6e|6i3 1|6i4=6i7 64|6i8=6i8 6e|8vj=8vl 6e|8zj=8zj 9|928=933 6e",
   "9ii=9ii 62|9ij 6c|9ik 6g|9il 66|9in 68|9ll=9lm 8|wvj=wvj 6e|wvo=wvx 6e|wwu=wwv 6e|wz4=wz5 6e",
   "x6u=x6u 9|x7w=x7w 9|xc4=xc4 9|xcw=xdd 6e|xez=xf1 64|xg3=xg3 9|xir=xir 7|xj4=xj4 9|xps=xps 6e",
   "xpu=xpv 6e|xpw=xpw 64|xpz=xq0 6e|xq6=xq7 6e|xq9=xq9 6e|xrq=xrq 9|xyl=xyl 9|1dlq=1dlq q",
   "1e74=1e7a 6e|1e7b=1e7h 64|1e7i=1e7j 6e|1eyl=1eyl 64|1f4w=1f4w 64|1f92=1f96 6e|1gjx=1gjx 64",
   "1gjz=1gjz 6e|1gl4=1gl4 6e|1gl5 1|1gl6 64|1glb=1glb 9|1gpx=1gpx 6e|1gpy 64|1h5w=1h5z 6e",
   "1h7t=1h7x 6e|1hgr=1hgs 6e|1hj1=1hj3 64|1hl2=1hl3 64|1hl4=1hl6 6e|1hl7=1hl7 64|1hl8 6e|1hlc 64",
   "1hmq=1hmq 6e|1hmr 64|1hms 6e|1hmt 64|1hs6=1hs6 9|1htc=1htc 9|1htr=1htr 9|1hvd=1hvd 9|1hve 7",
   "1hxc=1hxe 6e|1hyr=1hys 9|1i0j=1i0j 7|1i2o=1i2o 9|1i2y=1i2y 7|1i5x=1i5x 9|1i5y 7|1iax=1iax 7",
   "1iay=1iay 9|1id7=1id8 7|1idp=1idp 9|1iee=1iek 6e|1ieo=1ies 6e|1iha=1ihc 9|1iht=1ihu 6e",
   "1iki=1iki 9|1ikm=1ikm 7|1ila=1ila 6e|1io2=1io2 9|1io3 7|1iv3=1iv3 9|1iv4 7|1iyn=1iyn 9",
   "1j1y=1j1y 9|1j1z 7|1j57=1j57 9|1jcp=1jcp 9|1jcq 7|1jjx=1jjy 9|1jk3=1jk3 7|1jog=1jog 9",
   "1jqs=1jqs 9|1jrb=1jrb 9|1jtl=1jtl 9|1k5b=1k5b 9|1kci=1kci 7|1kck=1kcl 9|1kev=1kev 9",
   "1kqp=1kqq 9|1xrj=1xrj 9|1zow=1zp0 1|1zqo=1zqu 6e|20og=20oh 6|2ftq=2ftq 1|2jxh=2jxi 60",
   "2jxj=2jxl 1|2jxp=2jxp 6a|2jxu 60|2jy3=2jya 64|2jyd=2jyh 6e|2jyi=2jyj 64|2jze=2jzh 6e",
   "2k3m=2k3o 6e|2mtc=2mti 6e|2mtk=2mu0 6e|2mu3=2mu9 6e|2mub=2muc 6e|2mue=2mui 6e|2mxb=2mxb 6e",
   "2n1s=2n1y 6e|2nce=2nce 6e|2ne4=2ne7 6e|2nsc=2nsd 6g|2nse=2nse 64|2nsf 6e|2nzi=2nzi 6e|2nzj 64",
   "2ok0=2ok6 64|2on8=2ond 6e|2one=2one 7"]

end ScriptAtlas.Text
