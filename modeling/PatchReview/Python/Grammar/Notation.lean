import PatchReview.Python.Token
import PatchReview.Text.Packed
import Std.Data.HashMap

/-!
# The grammar of Python

One rule after the other, each alternative on a line. `'x'` is a keyword or an operator, `<x>` a name that is a keyword
here, a word in capitals a kind of token, and any other word a rule. `i?` is optional, `i*` comes any number of times,
`i+` at least once, `s.i+` at least once with `s` in between, `[i]` is optional too. `&i` looks ahead for `i`, `!i` for
its absence, `&&'x'` demands `x`, and after `~` no other alternative is tried. A rule with `kept` keeps its outcomes,
one with `recursive` may start with itself. Behind `=>` stands what is said when the alternative fits, and of what.
The rules of statements come first, then those of expressions, of parameters and of what is said of wrong programs.
-/

namespace PatchReview.Python

open String

/-!
## Grammars

A grammar is a list of rules. A rule is tried alternative by alternative, and an alternative item by item; the first
alternative that fits is taken. An alternative with a complaint stands for text that is wrong in a known way.
-/

inductive Terminal where
  | word (text : String)
  /-- A name that is a keyword here. -/
  | soft (text : String)
  /-- The start of any name that is a keyword somewhere. -/
  | softWord
  | kind (k : TokenKind)

inductive Item where
  | token (t : Terminal)
  /-- A token without which the text is wrong. -/
  | due (text : String)
  | rule (index : Nat)
  | maybe (i : Item)
  | many (least : Bool) (i : Item)
  | gather (sep i : Item)
  | group (alternatives : List (List Item))
  /-- Whether something follows, without taking it. -/
  | ahead (wanted : Bool) (i : Item)
  /-- From here on no other alternative is tried. -/
  | cut

inductive TargetUse where
  | assigned
  | looped
  | deleted
  deriving DecidableEq

inductive Test where
  | always
  /-- If something cannot be a target. -/
  | target (use : TargetUse)
  /-- If the name is that of a statement of old. -/
  | legacy
  /-- If the name is not that of a statement of old, inside brackets. -/
  | comma
  /-- About arguments after others that have to be last. -/
  | arguments
  /-- If there are arguments before a generator. -/
  | generator

structure Complaint where
  test : Test := .always
  kind : ErrorKind := .form
  /-- The item whose line is named; otherwise it is the line of the last token. -/
  place : Option Nat := none
  subject : Nat := 0
  /-- The message, in which `%n` is the name of the subject's form, `%l` its line and `%t` its text. -/
  message : String := ""

structure Alternative where
  items : List Item
  /-- Whether it is only tried to find out what is wrong. -/
  diagnostic : Bool := false
  complaint : Option Complaint := none

inductive Check where
  | nothing
  /-- Texts in a row are one literal. -/
  | texts
  | real
  | imaginary
  /-- Nothing wrong is looked for inside. -/
  | unwary
  deriving DecidableEq

structure Rule where
  name : String
  alternatives : List Alternative := []
  kept : Bool := false
  /-- Whether it starts with itself. -/
  recursive : Bool := false
  check : Check := .nothing

abbrev Grammar := Array Rule

namespace Notation

inductive Sign where
  | quoted (text : String)
  | soft (text : String)
  | word (text : String)
  | mark (c : Char)

def isWordPart (c : Char) : Bool := c.isAlphanum || c == '_'

/-- The signs of an alternative. `word` holds the letters of a word that is being read, last first. -/
def signs : Option (Char × Chars) → Chars → List Sign
  | none, [] => []
  | some (_, w), [] => [.word (ofList w.reverse)]
  | some ('q', w), c :: cs =>
    if c == '\x27' then .quoted (ofList w.reverse) :: signs none cs else signs (some ('q', c :: w)) cs
  | some ('s', w), c :: cs =>
    if c == '>' then .soft (ofList w.reverse) :: signs none cs else signs (some ('s', c :: w)) cs
  | some (k, w), c :: cs =>
    if isWordPart c then signs (some (k, c :: w)) cs
    else
      .word (ofList w.reverse) ::
        (if c == '\x27' then signs (some ('q', [])) cs
        else if c == '<' then signs (some ('s', [])) cs
        else if c == ' ' then signs none cs
        else .mark c :: signs none cs)
  | none, c :: cs =>
    if c == '\x27' then signs (some ('q', [])) cs
    else if c == '<' then signs (some ('s', [])) cs
    else if isWordPart c then signs (some ('w', [c])) cs
    else if c == ' ' then signs none cs
    else .mark c :: signs none cs

def kinds : List (String × Terminal) := [
  ("NAME", .kind .name), ("NUMBER", .kind .number), ("STRING", .kind .text), ("NEWLINE", .kind .newline),
  ("INDENT", .kind .indent), ("DEDENT", .kind .dedent), ("ENDMARKER", .kind .finish), ("SOFT_KEYWORD", .softWord)]

def suffixed (i : Item) : List Sign → Item × List Sign
  | .mark '?' :: ss => (.maybe i, ss)
  | .mark '*' :: ss => (.many false i, ss)
  | .mark '+' :: ss => (.many true i, ss)
  | ss => (i, ss)

variable (places : Std.HashMap String Nat)

mutual

def readAtom : Nat → List Sign → Item × List Sign
  | 0, ss => (.cut, ss)
  | fuel + 1, ss =>
    match ss with
    | .quoted t :: ss => (.token (.word t), ss)
    | .soft t :: ss => (.token (.soft t), ss)
    | .word w :: ss =>
      match kinds.lookup w with
      | some t => (.token t, ss)
      | none => (.rule (places.getD w 0), ss)
    | .mark '(' :: ss =>
      let (alts, ss) := readGroup fuel ss
      (.group alts, ss.drop 1)
    | .mark '[' :: ss =>
      let (alts, ss) := readGroup fuel ss
      (.maybe (match alts with
        | [[i]] => i
        | alts => .group alts), ss.drop 1)
    | ss => (.cut, ss.drop 1)

def readItem : Nat → List Sign → Item × List Sign
  | 0, ss => (.cut, ss)
  | fuel + 1, ss =>
    match ss with
    | .mark '&' :: .mark '&' :: .quoted t :: ss => (.due t, ss)
    | .mark '&' :: ss =>
      let (i, ss) := readAtom fuel ss
      (.ahead true i, ss)
    | .mark '!' :: ss =>
      let (i, ss) := readAtom fuel ss
      (.ahead false i, ss)
    | .mark '~' :: ss => (.cut, ss)
    | .quoted t :: .mark '.' :: ss =>
      let (i, ss) := readAtom fuel ss
      (.gather (.token (.word t)) i, ss.drop 1)
    | ss =>
      let (i, ss) := readAtom fuel ss
      suffixed i ss

/-- Reads the items up to a bar, a closing bracket or the end; the places of labels go with them. -/
def readItems : Nat → Nat → List Item → List (String × Nat) → List Sign → (List Item × List (String × Nat)) × List Sign
  | 0, _, items, labels, ss => ((items.reverse, labels), ss)
  | fuel + 1, n, items, labels, ss =>
    match ss with
    | [] => ((items.reverse, labels), ss)
    | .mark '|' :: _ => ((items.reverse, labels), ss)
    | .mark ')' :: _ => ((items.reverse, labels), ss)
    | .mark ']' :: _ => ((items.reverse, labels), ss)
    | .word w :: .mark '=' :: ss =>
      let (i, ss) := readItem fuel ss
      readItems fuel (n + 1) (i :: items) ((w, n) :: labels) ss
    | ss =>
      let (i, ss) := readItem fuel ss
      readItems fuel (n + 1) (i :: items) labels ss

def readGroup : Nat → List Sign → List (List Item) × List Sign
  | 0, ss => ([], ss)
  | fuel + 1, ss =>
    let ((items, _), ss) := readItems fuel 0 [] [] ss
    match ss with
    | .mark '|' :: ss =>
      let (rest, ss) := readGroup fuel ss
      (items :: rest, ss)
    | ss => ([items], ss)

end

/-- Reads what is said about wrong text; what is said without a message is about a block. -/
def readComplaint (labels : List (String × Nat)) (text : String) : Complaint :=
  let (head, message) := (cutOnce? ":" text).getD (text, "expected an indented block after '%t' statement on line %l")
  let message := strip message
  let (how, what) := match wordsOf head with
    | [how, what] => (how, labels.lookup what)
    | [what] => (what, labels.lookup what)
    | _ => ("", none)
  let subject := what.getD 0
  match how with
  | "indent" => { kind := .indentation, subject, message }
  | "assigned" => { test := .target .assigned, subject, message }
  | "looped" => { test := .target .looped, subject, message }
  | "deleted" => { test := .target .deleted, subject, message }
  | "legacy" => { test := .legacy, place := what, subject, message }
  | "comma" => { test := .comma, place := what, subject, message }
  | "arguments" => { test := .arguments, subject, message }
  | "generator" => { test := .generator, subject, message }
  | _ => { place := what, subject, message }

def isDiagnostic : List Sign → Bool
  | [.word w] => beginsWith "bad_" w
  | _ => false

def readAlternative (places : Std.HashMap String Nat) (line : String) : Alternative :=
  let (body, said) := match cutOnce? " => " line with
    | some (a, b) => (a, some b)
    | none => (line, none)
  let ss := signs none body.toList
  let ((items, labels), _) := readItems places (2 * ss.length + 2) 0 [] [] ss
  { items, diagnostic := isDiagnostic ss, complaint := said.map (readComplaint labels) }

def checkOf : String → Check
  | "strings" => .texts
  | "real" => .real
  | "imaginary" => .imaginary
  | "unwary_expr" => .unwary
  | _ => .nothing

def readLine (places : Std.HashMap String Nat) (rules : List Rule) (line : String) : List Rule :=
  match line.toList with
  | '|' :: ' ' :: cs =>
    match rules with
    | r :: rs => { r with alternatives := readAlternative places (ofList cs) :: r.alternatives } :: rs
    | [] => []
  | [] => rules
  | _ =>
    match wordsOf ((cutOnce? ":" line).map (·.1) |>.getD "") with
    | [name] => { name, check := checkOf name } :: rules
    | [name, how] => { name, kept := how == "kept", recursive := how == "recursive", check := checkOf name } :: rules
    | _ => rules

variable (lines : Strings)

def ruleNames : Strings :=
  (lines.filter fun l => !beginsWith "|" l).filterMap fun l => (wordsOf (stripRightOf ':' l)).head?

def readGrammar : Grammar :=
  let places := (ruleNames lines).zipIdx.foldl (fun m (n, i) => m.insert n i) (∅ : Std.HashMap String Nat)
  ((lines.foldl (readLine places) []).reverse.map fun r => { r with alternatives := r.alternatives.reverse }).toArray

end Notation

def rules : Thunk String := Thunk.mk fun _ => Text.Packed.unpack 19186 "
Q32V=dJdiR)a[3%~Z16uVCl^N74=y&5Mv-YCMkU;CyhStD)vB=HU9y+wYlc>i#-PS+-m6xEV2+4T3uNkyM4A*h%j#u1t@D:-Z3W+vJ_Dg^/XiED~ay5Y0k[.
*QA$fKOMIDy0~v|zSK?GXjFB@mfXs~Z>L2$d~X)-!#<2dz~c+w,>DQC_Eg20t)>LY[+0>+1.p(y9$D?=0@v_r[i*]~~nI:n[_!^H|sqxsg7PQ6_SO@24VxY.
[(#IV:lg|Xt)WoB-fkwuc;d3iAnkO,XFc]hIpl98o|rU6ZonPcEsJD1I_VvE[zlxVH?M@r-c%@iTh2%pxy6)TVC#24A]b:+f>9UO7[Xa)+tB)bFzT5uwJkK/
(l=UEI93&GQ8wX&wEjyPNX5hw;uvb*SFJH(Z#3BCBxqqJ(idh!#<YtGFUU#Qgu?ou-tNpBeuJF@u%6OPXp5F5r3A*jsN$*d$d?Dt)MfwRj9,jsXAAbxqe&K$
6a6~6HmAJjrMiB]pGG$$&0Bas[,fjFW:9%wZ386|OH<KiNsb[h!2]gYo;aA&bm*!%pRa9JY/#id?fyC#x=(<SAam6NWaa92+E(EP,n-3z!J?g<D?/Oti*OQZ
z,J|uS,xdsGHdWaS[|Co|.Tfs$_8aD[l^R(=c@W+aoI,YTVHCUi:T]Q_FSMuRg9K1DbBv,BU9n*m1[mS1$N0r3WBzAZ4e&F9~9G$YEsV3WChvluwB*D~35,a
Mi]1Vs6DkQ$QTg%9U[f~x3Q5PEee574cOxPT#iZlB:33+FkP&9s%;*gDI=/ID6X@-:Z?T=~@U~L)O_FRzT>1R=7F,h~tK,S^<J0GhTY2y!4r@5?:/YnqyC(5
.IyinRXnS$M#b$t_=J)L)#a!q:xlF~#r1>2[F&;~f|iWj__tCjP1=^<-2Q6656&j3icpV:be#=1>Prj4):@]yzd.1wV-El%,CJy#dzq(^Pj(^O.XZ!JQ>nHG
ay|,%n[hds2x^kD[&V.1Tv.0j9aCn/GnW)[FN<0M<_HN;S.)SE~]r[d.?z!>8fB7uT<]sj.HX~Z/GKFIMc9[U@m*ptAjW%-dXAj+@r.j$N6K-:F]u~v|BWf(
9fsI]_*W;WOD6(,Mh:5CzEG;>KtizYYks?TR+*@7sJVQ*qj7E|7HgPFW2^RsKP(!+_cr=y*K;~gsmuy7QHB^^~oXXG_~^QiR?Bwk@Bs~~QFgHWn,]qSs_5-i
wsmrcv3hE:/O@oae$3M]W;!xj~5wiN[zDd_Dk81qANJ[5Lv?:jJSV#fnG68&RM#5y!g~LK4I1WkXRgdEdfd1B%H>&!n]1a0S6hQ.@*KNEXLi=_Ei!?w+8~Ac
%-<,tQ0-RL<bkLtSvS|<wRZ6mJ9PPS(5U4C<h,%F.4C>i2Z8xMg!&&x&Lb%!6]uPmR)oKs*UY0tq]Yl5cphehJv./|NebgK>[*&rAIzfW?K1Zp(;Mh4h2>R0
8b![[$XBmBVxPsh?!<:7#(JRi!G-%N7Pu_f_-=@H(i^PFoU1l2:Uj/APg.UG0B0$=DMsZSkZb5G-;t,?e_MT-HxB>pzlKDqiQxXmZ1%v=^gz7T:mR)sV#]$E
-hU7+yCq:vB!Axh!W3=pS+eSG@D<[t+aflo1ZP1_;)wEtaaQ)o6g)-/e^0Rb^F?=6i?/nm>VL+,?]wJZYSCds*pdkQ#w8NyxwAX+AG%0x7qj#%D_(J51[vk|
EXTeyMfTWD|r(aG65f:ED|#bJjly8qz/!pV+G7+h~I[tjvfW;e#m~sb|p<q5sS(A=S,!Q[5a]]]!e>g-F>T<r$s!!50Qn]MZ47uOoE76#!3vk!e9Vrn+,|r0
rSFfgHhQW5$VI%l3UJX&VAD4Mez$w$1rN3liu2i7Vx2?:1hL4zcm]@oI&k+tfs?FiXs6kb5a(.s_3,y/MoiY2[G^%Aa>N&.NaBeHwl&qZds5u:s~bYoX>z8c
wN0&fL8E0x/Pa%X.)>hNZ1MNj+$KY!)e0PqxsCdT&~3CQaMqs:vwR.wB1wd/rhUE3rP-|!cQyETcx2%FvXGc2iKssUBd^Ns/xm-KXdkDj[L)c]CMTUO)2m*2
6M:zi>IXs.9V$A4uP)m9o^_KZQIFO&)KB+z]l,(EXDapF-Y.ux5MLj8WW$HDNd,Hr#/]pL>7TC;b~8^_rs#4bA0:vN8El>#^M6oO~_&a3.WoM5~!fd@._T<U
~u~|Q)Ig|zR7K#lflqIl+;w6<H3hs#XjP4dlx8u]y<jD)O4KQUibV/Xoj;mV#SrrRg%y|5.,KR8&$i^[_iwrYC)_[b2DXdh$H9s]pE[k<Cjm0g:gU3Wcj.Yi
2e$7wfb)y:vOf7y0SnfL6M4.)#sr[+I9&p8*F2UqST2l9m@GD#p1%Pzkh90FtK>Vncn,)|B~6,|HJGv+rb#kpc]xm68p1ayd:C-sJx|thKtR<?2gAbnB*i=^
>A(vAY*%]xMVvl>-S*fdlbUSaoK-uPKZI,&To@Gpi1f1?|ty?BT4BU2^=+[6A66ah|o6w:YM@s_T;MiimUmecqh1k]lw]hFw4w;%W8wkitcxs&-X/A;ei!f-
w$uutoEQuPC)7h)Mc+V1V:Q5UV==XEZ#y(X6~@wHk+(2lq4/yqvCK@;P+4sLH&)XO?p)eZd(#;!ef<jREr$xS?c34&^@xGjd|?.-uzr%g99s/72?frJLd<TD
MJQ68G1_~HsU6=USj//ATkDUl9Fo<42F8xr5$Hg8aHQJRvIN>Pox+(Fx>GWweu|&on,y3n?s2Z3z^D?pK0LRmd$=]gxctY/i]iw1rN;Fix~zY-#:%E)=jBas
jA7e//FKYV!%(x37E*b4=(1_Phrok]wP^pLMl],<Fs]YHE5e0c2OlR=/Az|w_uMQ]]W0YpCsf5lW.U,wos,L1825_:5E_6kA(-TG@t28v:T*mX>)~_ky.UyV
_SOE&pB6o%%mbt6v$Sh<B.-CAOjZf3WS$P^,wOZ1WWKJ%HI%m+c:%?5]+:lvbKo85Qe:=Q/:Z2a0@^UHY?71>)GlvN=@95L=r/8*mY2@1RFkW#[))?dcD7F[
&+VaL3BS!k+tBy|-PXNq?e95[?iJShQ(P.oT<3N~_)>aY4ZNHvo5xlum]k2r>o,-(Agp0HENa#Qk5pB_)FwRsYHW1=_So~CuL@XtQfGfW&CV%9r+ROMCPatQ
%YNY.m_0]<+P8a9Wpt7K~Y>vCbTMfg.c+z%0o(h_/uT#0GAiJ*/M(Y$X>_)*lgxN3qKF]A*8,Kl5W]zy?Ld#NKuVuW4CWf,!niyQc_(9Di-~gO0D>c#dv4;n
Cc:tCM(#IA$(6XwwgaSjJ7bjeSX8ZCOP>lQ:QVR6lGCFBOYvNz;4sFzl$;&ucCb7.o3jj=Qws,?%U7=J%N.9L@,?BZU0X+_$8#gu1gz0YIGL8M[Jp8Vs#_Np
)wpZ]NcVK:@PS2tQ?JKQMo]G-*P<Z:IS_5YT-Unh3KsmUEb|&Rn?NMTB5Y8nhNMejvb%^<3KVP@PHTM/+|=vuKL,G$~Bp;V~v^jx8c;d#tC5r<qScRT<0*rg
=kRe%-.#5P=Tw.MYDG9nRm+qK+!y7HQ&!sfT%HK]#|KWB856:*e:z|)qwYy+yRs%wzl50V)%:NEY6GzbRjbThL(G;I,Vc1r~G~?1Tj7^Uog?[l*mY6cio4,N
q:hs_k4W=Wx/MGwuQf<=DfYu&>?+AL(y+YNbpL!tbOv/Itq@#pJT^e0JyIZ|i;f[9j%)I(*Y(mEJ]mnE?X6ea!&!zqLxaP)c5@%$fz0I8G9|fq$Da_LfM]sY
M,v,-0&;h0&%ElN3akJ3W|EG6R[cre!]_hU8j7e!ypr5$ke$0mETqBeu!6K=bF@~@WthjhwSH.-Qm)MDyEcqdG(G#rgG?27>tpMtGKl2KibwPlhI)@)xeo7|
qUu|8Ih,#,XTy:#?Sw=kYmH1:3rBeXOR1w]Kn..M!J6K_cS8T~nfYrj0#arpH;$wX/5/&d:=Z1gR]Mh_HVq<$,mF%P1kKRRT7n###+.=COw$JFMjPkwC3!S*
y9#c>LZOJoj(3/HQ4q><3&L3Po.jg^)YhtNrv,;Q(/s~mlfx=61:5/lkXf=~m@KD(z^:5pb,EmC9*p_0oY>e]SrNd#tj0P^[/fv@]732>iOfWh<?k)1HrO.m
+F!$~e3]U~,5T@PD8w_t8Axet0j]GYCj<0FeiNY|g4):QXjqYlH++HGks_MEh_g4tlsTcag,1IrE,O4ojmhg&B$3BlN)qwP7B[(Km%7>vi.CY13J5)ylzU1U
#se:~/XXCexCGFr@AjpWR2$6DR9*JD<vR=Bo[vXmY-Nxt,ddRvvC>UkAFu])pR-PTSXvvfv:$?nVqaT]7marqP@uja^HRC6:O37FT<m|TZJz&(*KyRaakOqr
8;GuSgbitMx1gy*~Y]z|NQPHQs$Ny=uFyvPrTWt_|4-?Ba17$Jva+SmlBu-$H-ml+c?%33bvzPGtqAT1c_"

def grammar : Thunk Grammar := Thunk.mk fun _ => Notation.readGrammar (cutAt "\n" rules.get)

def placeOf (name : String) : Nat := (grammar.get.findIdx? (·.name == name)).getD 0

end PatchReview.Python
