import PatchReview.Risk.Basic
import PatchReview.Text.Packed
import PatchReview.Workspace

/-!
# Prompts

A template is text with named slots; it is filled with a value for each slot. The texts of all prompts between their
slots stand one after the other: of the experts for each kind of risk and for any other, of the questions what a file
or a chunk of files was changed for, of the manager and of the report.
-/

namespace PatchReview.Prompt

inductive Part where
  | text (s : String)
  | slot (name : String)

abbrev Template := List Part

/-- Fills the slots of a template; each must have a value. -/
def Template.fill (values : Pairs) : Template → Result String
  | [] => .ok ""
  | .text s :: rest => return s ++ (← Template.fill values rest)
  | .slot name :: rest =>
    match Fields.get? values name with
    | some v => return v ++ (← Template.fill values rest)
    | none => .error (.missingKey name)

def texts : Thunk Strings := Thunk.mk fun _ => cutAt "\x01" (Text.Packed.unpack 53196 "
GDhfs!)@Y*2^dsBbGGRiKTAo:ilB#GhaeGGy0*j)uCzBHx@+t>3sGR:PIAgM+&G)$=bbue=nEk6l*2#&X3u^73wrsZM9@m*;x5kB<bN<Cn-D.2T75U^dD>>V
I[>B-=]hsaWoRiHeQ7/DiS^!=Wp.#j^cpxpPaW%56.PJZJz*8C)KT,uUG[,.:q6Y?Q@H9+XnT5D0+|@aiMd<#V58qBnhr|3*r|Y]+%N)Y.M3/McE)0PHmZDx
4Pnj^9V>]9%ssJo8_X&@cK0IhZ,Mus)rQ&OylA!)L-I(i9RoHICrNAeZB::c_t)~ZZT.AeZrHrYy|t(vJ;tP9t*(E,~T:;xa,ptFfP%m?^B5o0eU?Wd~5d>w
6D-C<Xi]SW#/MTorKDH*BqZq8p_>=(.ZS;BRA/4[=8bJC5w(u@<QmPhYSsyDSH90K.Dt-<@W7.Mi|h*qVktFa(lzmi7K:;Wmz+ptQyao,ehu)..>s_9i#~#>
y0[.H~cRP2)BzLaG_JRdKwPrv4cGYLhh!%k#d^Gkojm?7nhh3pe;B:ELiRUKb:Wb]x!]40Y5>:5eSWj.s=t|#FLPWBp3S|ZfG1/T.(WmQj/zoroKBognwCRN
5r(7>J[Lil_39.=GSxo*7?$P9B,(-19L>BjQMh@T3R+rhb7?PR^dQf>(A=_?pk#A^-3UaN~H~f-8vK!oN6l+PrapMmJ]1y6PUb%9.c0O;y]Kjpb=09Ve]|24
Z);[/M7pi(r:CI+9gemX$d>Biyut$X@mKWkhQP=<gnR:)J%u=BP)U)5$d?KiEX=a|~8f>b@>Lo5)YEV/pU7;X6ho|hO<hIoqfigSCWpUa6F/;wU[#[p/>bt0
kR^UNDS#6V#Ug7U;)jRK0xPf[s*Lj#u;VL]@;UVy7zgp!&IvHP^4g/jfXSNB~3&.t|R_80m@6.@;Fl$<~787L.rcdi+tFYhLH^H+()wTH7cO@8]B6ZwzUo/j
o6!mo$lmj!gY>^k+ISZY8VJPz_Kp^WXP>?-p7kV>(Q]tz|bi6KnzVt3$-pLy9jD!lIDn_(6J=zmVJq@M:0X^/V2#w01@QE~u|NE-gCJ$VyTX$-nW#zK:4_Ex
^TjvFE.+TZx@.60Qq;R9U|VCd:PIQDy#Q|DR))B1GLs9.E)-4;0Z@Aa[=h.lzp[RkFN#b4(cs2FFjm%Ch=!feba~SMB(n^B)+X]fR2zj>W?d2w;@$O3OKGHH
w~]YxAkpM2!TG|Pf0=f#ho?u/>u_P8I|@=IV_u5<NS[[kR.@j+Ra4w#Nrn&0-0fNQn6S2nJl>-]aDt7L9T/,cg!4gv3W[E6Sf*V-GTA^D.sFB@<~XcpM0#tg
z|0:0qj2&GEsHRhS&H>>LcL?=/H7lI[nO+1)N7%eHq%WyL?JEwQj|o?3vlKj2)CER~PUc_k2g_l:G2=!cLlOFqkW4TF%wAzU=5zLFw%I8y7np#hB~X7wOL$>
d*Fk)~LZ[oQ/;mg91bJ7F>a[4iX+&~2zQ^gm$-$rU-@Q<0.3U>g6TW;?$Ok^@KiZ/NiWhOf~22q$Pmr.g#gx2A72?H#Dj<SNw)Ny^I?WcpYC-(8fblJy!ZGu
W>S-BUPPp|U0>NTN67[rGlnrgIKC*hqh#NjgqKzdB]_:o_au_](t?C$tN(7=zMBODn?Lx>L9_V94MoUk]WLHsbg((V^=~VPXkWBzrIAt!9V*k$uEX$Ea%FS:
>1u5Z<st%=%&zo<#P6rt8fCzuJ4L!b-F|0@c~H2Y3qTz3@m0Hdoo+EH+1OMx)@;Y7.UO%zc([n8z#y-[g=o3+1Q!.X3p5R>7iFz*!FoQnb%QWbxVZX0tx6f>
%(o#:6N?Y[ym#+|3y67%dI]ZuiHg7I(zlaC~|PQPHm>Z#)x4u%2H=QfQlxJ7:WbJc>Ht2pd=_drFUgR_M;Q?Pm2*MUgM<1B8Q&XS.r_#tcSm/*6dLw98o3CS
~XaKXgmDS7+PNfG.tqB-bGXm-a<zGX*Pc+Lh7XDKgW?W;K7g0U-/n0bP~OqJ^2k<GPaU^3m2I]p]O8s~MowMD5fi6L.)6Q~$UQ*Pmi*Z~?u|yDe|%5(z;8r=
OS$SXK$se_^+4Jy->|Q@WeBZNT+7LymUJch!w9EqGWbore@G*93O/:4dhOkV>GBrAN5R[QW=l~~5|J0v2clxz,GTm.Qmo.BViF]#1|G)0:>/^Z1q(b]ADGS!
SP<t1^WH7>A<_zOmUvlac;@$R)::[O^F>!mCq~tHAW%G4@1k?]*;3n#Y#f/3V/[f^,R|Fs&UDp]PGQnPjMGf-ezdN#Xlc2N8_3RC^,g6kxSxp)*DS<$xV618
hjM.~+g)qx|RS=JMk>0Rv.Yy%2NoA>WLSwX-_<Ia8yc_!)YkD2mjj_Q97fpIAhhv_T#u8KvgYp2~R^.gMmuML8MxYE>QTCX4gHWA3S?:E~&dPi?A$Gs$=f^h
vAA2nB_j?sWgCZ^H](YDGyI:oZN9db8;XdZ(+jXw))nNdE6X@g,a1xlY%lE)>q2?XKl7dMu^X/&A!q9]ZW%loZsjs-9>[!26*J_5>3Fh3&^8q<Q8E/tD+qZp
6BX[[^K;SG^%gNjnXf2#O#xtLpPkSE[S5M@~:(@Apm/9f02=NFn_Fc(Txa+#7%V<!M_|FXF,G;+bG<.|f]gr#kAuN88yyEQw4tr_aT00eL2[-MJM-UDkJd~K
hhvvc6u>$^!Wq1MN#bsrX*98MfuhbIpfx_o%<K0El7T1qQoU4HkU,C8,w2l$?RNkfnD~e(v/t~fcpA/W=o.Hehzwm&&jQq&~1jRXP~LRYiZBD547C_.mY0ih
eh|V,<pvkAWk|IWB?uDM5@Z%E8PS=EI.8|zV3xYqJL7gkwIg)3D0?XkCZkJQ2!+3*9SKT?/3IEYt;^S)jF@VfSAL7;e_b.>F=6M)wyW/oo[2)q1G_R-6#*Dz
/OOQ.M6WReH=]Vbr~0e]b;fK5N-g<HKW:ed~5UV$O;+=[/X:4hd?7oKDF.9jGW1*~BE=SmUp2ML<uVgOrNl[t?edWbR?rz.QqR47hRRiPV|!v*n*qQS*Z_a]
Nzzud9t,,*c)!3,dp&lU@@yc%@un!V!Wa~F$F@lPOWYOl?XyG009SIRs]]BYJE3o@M<sN_+=6opfp&6_~!@PW~g,3apF|b/|oGbT^L4N(%,?K9fy[)3LM%GM
%/[mr1X@0B$ASXMIVXm%Jy[DnDxI,v>hJX@t:1(G|]<X(ymZNs*1Nw>u[*p;Deh_BbO]9.BXByuT8vE4(:cc~al#4$0g0lPc^(bQ2.b0@&qpemXN]JGCN6JH
1(Z0vX=xiDzvdY~Up!_Mj9n=GU3xTOUKoXvo?fSBxP+M]MAyKcerDTLgY!iAeioG_c-AdU%kyu2B?mFR#Yh0=pdvcjF)!hyVT)inEF0O!3!eB&SXAUAmn;=2
ISKw|>q&KWO1S?2SzG2c6z%P587z4D]]IdTi^Q^x0xR9FP|12]h0]!tG|8zrnxcO^QiG~|&6Pg&S>pX4Ejo_zUKZ#Rk[B8/Na$_ha:qWRq>,ddZM:/23()_?
KkZ=P,!l39*LUr^1kj.VD,%X~WF@O~S!PS<qd0$6yy+>dcYJm(R=#mt<pH?8vPklADX5*Z(Q<&s$c6S8p#3cl4nvV7KFV*J1nWLH&0QR.!6baTKPWf25b)<v
0Ll/Wa*S*dWMsGf[74J:2~tq-@gE=Oj5Y-n,#[;<,DJ3T~Wg75r|]hXN^R@|jV2_7>UU|<tyX0c.Rns?U4xo*wSJG]4cC&mZ;8sth-[D,SY?PO<DoX%UZ_H#
+#-FIP>0xP[08ZDxOqXt)H4>T?wkNm#y(]^qIWLcRO%<VC!9Gu&o>/j84NIU*zqw~J:16;F^:9TaaOxh*#!&y_V*X(teDfSf>b*-9-]PbVC[|bdhX2y=Ggt]
&C@K4b<!A7Pj$WqoQ(11SprX-AKl1zbew4SS3_e*zuV?Tn!IsA7x#I2S$H2|9j*=Wp4RdAoo+[^?1e&B/+Hry@=cMUI[=y@5eMNn?_6M<8p|wqIu!S@7cM^8
zUd#hw-fV>$~X|LU+6PFlS!Vr7tm>w=6f+a,&14;SYf3V]=,s5WHu[Q7X6+.4vA#ofszu>N?Q0yhS6|RoJ2&9Yx3g^:cROmi+-3,=DY2.jDg;U#&4ApBP.gF
Q-1GMG/$gfA<X>q15E-]^hGy^lmK]Uvj0:IQf8WOh=#8?J:/Zz<#Q-ODkzvAbWOYiC(7Eo_tH,hZ.Uo*6gbRfU~mAz[NUx_:gXxMoxC,xmB+mxoTnw_Cn!^s
1LUR:R-ldGOe2[XK^=a&K|z^Kl6=;buQMSJKTfUyoDWIu98*LxLMn)YRk[/:yYCqhjI2JRrEJ%I8sj14tCX3O]P8c^82qCYHPY@N%w&tpYx&w(16_6CV#GHh
jx)o1WhE+tkQd;?x:TF!&Zzdm$d>#YA#_7?=s9P_LktvQNrATaZ&y$yGF.k61LPK[BcICV<HFoi@NN<js[|+kt!iaPmEgcIgt?b3.OXgpqHRxj6yWLrbudr1
2Hdi~%!GZ[)z,--P/PY5W82,.uuw/8nv5D#>7[rPqrQ|_+k5$vR.kw3KUKS%0p()c7xpzpL^7<|3m!2Vo40hzS.*x,B/+xNrN@6xt6]>I]o;3r2sgDbNqXfD
7e??IU3y6ppOkSI$XfS0)oxu~8ltLc1)v0l;4Z_.X^,CE$PKDd%pT%mCpRqn4fsYjP@d~]c$>t[$(#JCE@_U*9e!wAL:O6!hgmF,NT9_F]D@RAk0Z|B3_Q@s
PY3[W|8I(EWx)HG<h%:vve?sHCN8(jb:3~b9Hr>E>6v,5eD9W-YmBeghSMOp~AKcsJ6XpFE21ROEoh%77e$ut/zZM2|@U^^qb1RCd99oPK<oc]?53Z:[fs1U
@Z<(GB1WYKv0Er8Y6;)[X_K+Q]#_!8v6&Y7^__r>SnpnYvgm-SeFmb?cQ*1NW8^ygU9Rp3[C#T$D,9cZYRRJ67~v<[QqXn(l;dFS.fJB6d$Z6Bc!fMv[2Ung
z=@Iu6vgju0&EM!.tum0<a:G3txLmXn):jhBy,IUb0p(@msQB-^%>vY4%3h#)qXO|$6fu&11V7y,BoozNZo~LG3yAO6F<NX,+iIAK0C>6.?^_pza_Q<BA$=l
t<.JOS?!f]yunv2*KS1pEYp3+do~T4W0r5$[n*o[p_HRz3tG7hpptwUe(6h7&l2drT%U+!K$!|q)K7(rbOu$B;GDcwhl5B]mz@3qU6p3qBUTLDx~hL(8v_Yp
J^|1,CTW0S$qhFAflioUW%e4WwK)&%3DY)#d6KMNqwqn-7_[*R3JgB1~.=gi|b9$wuI]tkSi&a=0cx,5I]LerE5uJgHi~w4uPCrw>R^?2UmzYC(z=cp#Vp8r
^lfmtdc-:ZUuGm0CvK8Aa1c3s=7fv$?%n[^MQJ>v|[4V%(l:fQ!w9%Q02LMmzR$Z*BL+#r:qpN;moHhhivys4j%|jAhp:R#4vi1q=KdCmj^~Ro6H%&4,?5;Q
SYzrL@%?V!;<De)(CFFN6yc3>&3qBVA.@$@NRfhtcQYa-WYy]Ui.rOZU8dQgZ,&/?#+Wp/M<7vR7^9ZU#[Ztu%Nmu.7%aIO+U2z^y5J@y;YIYq%AYd0]*!DV
(NNBgB1<y@OA+Ta2DLyrU/Y-4tA/+x@J/;463=XY5z=58LbE</Lk&Vz8UScpU)G~+-PVQz5fiMT&:2/)8V)mB.neDy=MXGh_Bp<^#&.omVt6GFvtWmkz-GW?
Ue--qx%[KYD-B#fBwv9BI.IbO@BvlbnAOlVzZ~CwUcf=$HV1KgLm$,<7,EU4K)s4TWu6yvBZha6V&|fcF-jGO^!xyr;sEw6rai1]&>N)3<F!O2;R,6w*Ief3
te@NBkT[?B]V(RBfvd9p_8.VxR9gUuB9s*&jc,Gesy5G1+G4Q9g!w1f1lH5ve>+.d-&XuG[Q^H>F%;AV[7@U/)|c[DaBbrRbt^X;6T:,JMgz<L=&=EAJxB=q
jbQ$3Gz#iEkV(Rq5C(btwsXtXSflm([66n5Vv^2W&-xK:rn1u]-/|h?9?x-!aAsf*wtF7ySf-Ny>/0Hun7P>T<[K2/_L|R;Kn>Tep#^tpSd&zu[]/P60QWiY
7Hx+Es.5+:FPuJrN>q1ImC|@V;yV)K@nDa$L*tw3[&$uQRqQmwt_wcJGevGbH+C?aV80#!Tga4+jZxOTLGfA)]ntkc/iAA::5lwMz*+rTXF@75tf_#V=clr-
2r((xf!?;C)Zz5|k5q.dn4r@<&enpJJ?9)%o[f,;e[nb_9JAu8<DR:[s2,w2^+57X44.^Vl02GyNKYq@&F5PYAjqy#p?oPa@4F?jFF2pNal?49U-uj>:t)zR
TK,jz/Y=lbWVaq8n4~7O3_,u3/M=?6(q[2iuHigr4MMooHo(>=Uh>F_gjwQn?6Ytn?8Ur2v0.@tPoQndDQ10:xxTkRgoa^Xgtm%sQnX*1PE5KUX$:Y%gsfxG
e@*^3$PoD<LE<~^Dd6g<(;j64bV>aRi2$(+P78_P&@,zk3u$,0wU)7&LDie:^drj1J/Pr!K<.[0pIP|U!WvaKxKpnbouy#*UTyEc8%mB[F#ulrY_N7@fJfmm
N|]A=4vZ[tr]7;s]Kho*bUDVk%PJY@_47*@@!hBNb<U:Mb&l=H-G;9TaM2;jB?^dq2WP[Y@xd<0R_c!C-3[7Ie>h0E@p)j$fLV/E;5H0@N6l/vV|73+<Y[Qp
p)bCUgQHz#|uh/D)h9xc5GK@^fq*(!4eeLS_Oj9;RzI1j$q9T^NS_<Q9>o1TUuM+yM&P-S&~Ulm4,sJxt?yx,c<H?CFWBZdsV(n@I/2/m;G3wg3._b6al2?6
lw67g^9EnT+(eLahh^FjoDiUF?L@/TnSecV/uqLEkP-N%kSZMn1VR46:i7U7QXSFODR:(g!(e(b;b5RaNr#N0:B|!hM!;vb!T4pgXZbgvO.CX!N@p(hJx|W:
QO,E))D,MN--#~;Y3K0o>N3f9N*>|1kN]]Rf9qx7a:g3QsX2Z??Eo[[-R?]D6p/ZZ>,t~-;6jOc[EQsXqsVL_e#,qT3;uB%S4EdmAyf|iWAx6JicNb[x[MS6
+3qsmfs3uc$efJmSf;N&Dl7iZ-NdkXvgSRV!1rJzjz!K?V@flQ]^whB=@%p*VJ+HI_YN=<K_@%?-I=[?:Q<L)%@4WHME5@YpvD(q(N1RD[X!qh-CVD>-l+AR
d+A0q##>~P6P<JJ./w3W#/8&^EK/?^</Ix(;#DqHhlU5:aoxgoL6rIhNx3=B^1NePvjJ1o,>~^uXMJu8;xxa)%e9D)(xpZta,V-_.a$s4q^eE,0q7xd>L&?H
)<JhT(_3[TD$|IpPn^o_aSMCM<_+#fNk!nN5pnb6rTvC9>:=l!zik?mAxxV<#V1N7i<i4*EQkEgf%y3%@-Q.asU(jb#<&QNPvZ,h!%jV$RhYP9KGJ6k3t2Fy
OK]C|5,j,AmFU&Khce=Xs)+=f,3Shk/u&Y,Yj=DA5K[axa>KoGQcD+cd/S%t9u?9LRR*6Z_&/jE&lih+B7aU(_gf?TC0Xe-!J2dhv>Rt7dWg5m8u?&%6P~cD
5)76<[VJEykL9K/xaBQ>tly0:xW@@SUF*DmYV7<h<vR.Wlkdm4wP3K6qW]a|ks7xu~)wE-;EQfanLuG|Mbccq4#3[giK+5d^:IUJjB<Q*Qh?LPHwpCtzE=R<
)I#|!H~I9d4feJ<f-)B%A5VxI)?l4X9V?]x)mVI-63QLZ;Jn|,!GF5s5x!IdFA5PmF*rQ.0a9zOkI_T+[AOe^%;35;8ab:)Z90N&.EtPvvvJO2rEGJ,FK8?-
<UeJ8ni@9,P?E#wU0CJR_?!aR*nxQ/gq(J20&zMetzwz/$^VNw?[A4GlaCyh[/uhp!GgKQO8ek7^&K_;F.Px,s:fOkg@RX$.|9eaP)mv;joQ?B=UBamH+ZIR
_Vth4E*c:,x5Sfp#oDnmb]yVKc-xrhi%jBFDZX_<|<xO5:;@:hKQNIXeo)[kcrem,6Im*sb~o?LuWqZ7,&vFb<h*y_psp,V:6*IQk@)U&DNaEl5dKd80hNmI
qFM<3dq:^d&BD!h[aN65[~QJbf4knWd[)HZqx64Y!gvICQ66QCT^[V^siq,%W4riYB/byuZTF(n2$rW>xsg#CRLNr~%L/8k*&Q~*7ra(fXcIznWmq]=tXwC<
cM/wVW?$GHvc%?L|s)47xX$(?ZAZog<jDAy&1pX<QrewWK+,XaoHYO#V6Ep7av;Ja37%WC7xB+6Iec4!NI$7D>=aG&.qP)D3h]5gL,v9c*-pcR(TR(8Yq40e
^Mzuq7oz/Sz8z89bF0GoBN2M|?RzhUGc+K-Vj?zqS;kZtnK7ViJ;4]YfD#CR-C)Y%r%M[y6RqBTM$2@*DviHBp/p4)t:D~=8w8UM#fvDN)y8o#IX3N6,.-,R
sy&eaf~O7?sh/W-x+AU99PHg4u=NyZ3(IA41[KVO+UFxn4m-yQ7b-/j=dLt#C:o8[o]d/E/)c8x<7bh*c02HK/u(oh/OR?+v0|SR|V5=dezhhJqKU;~UMTJ)
|n+j,~*<>L+a_i~9i4WFqPWoKJNYz$naLA):qzzxg|ccsi>Sb&?VZ^Jy8.[&#Lyt-2$!nDYRIsb?TXG0:@AvmAST_t]>to=OY#>V?g]Omeo_SU%mKkO0O);Z
8_n:bd~(aT+,LEX&!Rx-iL*wZxoSRmXR3smR_Fc,Fymwya0)4IPYb/Prk*5q1Y:<lG@$$ypV6]/BZiAz.dack,d,NaT3*Jz+In:|buaIoq7SL$A.0NE1|c5~
]@2;P05h)jf_#O>>7(dv?DgJm^4D7gSFuNv$OYm;KS*B&n%SY8]A|90]TApd:^rHkf<L-5U@C#*;S&VLmBh/g0)(@3MurNJj!=z1VS]1:C@Uc4b1|wzhRP7c
!QJ0!$)uS8s]lb#py&BP,gU!nWCMB,1B;]SOJ+%K&O-j^R#12div3yxBG;PtczanGets0F~p]:igqu_O22]>5;3sa[n#D8yhah)zra8ZT|8zXxWNc,^^>H.g
FQkJB4fY7Ly)6j.C$y0$LolvMBenEy|W)?!ozy^xRdP/rr#jI6sQGd.UD8X/UI#[Ozo&O2W>|_C9O=nABK58HyBM1!@VQ1QY15d>)eHEtvSwQ?na2[*iS2FN
A=^USJ1iMf/R4e:B8v@0z:@7QGy]d_4MJ-fIMp%n,c.dKFGXTmg];M9X20ow0HML4jD^88t^df166~>.$.8=x7QtR;xS@|~$N9/|XZeqDtUp#P$d=:iRVru^
>(aiDy>ssjScgpIPIwQ-+Rq~7I%!^[H7<xF<2|4_<2k+GS3f>%grZXT;bYBM7kj_.hb~R-:y45.J9pZ.cQ>qm#gRPQ$6r-grHAeRLS2G/c2J/4>yYy,L8^ko
ir0)8qbTYN)nRg3=B,yavVj^i9%@p~;(*b!C~L^KfbuV!A/+gQAVR)~&%H>A<vein.c*!hy:UL=Ll9ypXVfGQ/N@MIJa.B=xdL8waYo^e56F@@i0=/dQ6Uf$
FF8y[[H7cR09iE>t&>EG.pap#gsQe<[8[xe-EJS-2XdDptcTH,r![EW9hq(<u<ssguo]46-,#FI8W3eD>#b[g:5PQa0b&=(um$Uql|:R9s7*38Q(yDCZYh(G
9<4+s%TNi^mStumEXs^njd|y83d7KT_E5RBAYn?_n>Gj</xP:nmakL_W-Qa]<-g(r32uPzlsJbzDU@gw-+(y.Ou:,B;@wwDv8-)xxR2c~^J*(Wxv)sY:Mf/y
xoy6!xV@Su#AgJ%;)-_gSqs2zQ+x(9Ukp4_msMr$WX(G,~iBAqIAHqALN@ImLC^+,$2x3-I/cpyWz(5suv7u|AP=/IBt+q.#5(F9+4Gy#MdlI]P4%;5=S:ce
fbdsf_r|l(JX$T6e+X8rjh@X2g],[+Ci9D78a^akctd-rkhEB7QN<VDFf;3mx6KymE+9;56Q)!raDHW~N>8Oo;vz~o@zIi;mkC4ERcwzU8Kv|7w0?J+rh-u7
0JOKV9jlFH_]8#Um]+u:gXU=[Y7TcTO3][8EjQk(8/2h8Q=0hhp_>Hg](s#C#gZs)>fT[_i_0^8X%(hT#1~~gWw>xGLtaCmY8jO4NDSvZ5^kC$N^)5lCD)~|
o]H_(::d0r^J+<uJ;>uOam9$3Fwqf7C]%C&K[Jb$w1aksqC9_T@9P@-j-rcN1Tt<kisq&*lB|=%tE$;6qNO!O1^vsfbROr!ZT4t50G6ZFkvezq6opw1QTwQ,
T513>kXV:A9fBPr%[z94F0l?(5@cl4Pbsf5z6bGQ#D^fhWRjS<71,Q0<8t7EhOx;;*yzFBA0!Y]vd&]fKC>q|CPV1HhH?6P]%qxAsJ%,gQGdqc7kHvG;%>+k
k3Z%ndxe^=)BrFd.~oCSdf?$9a9Yi?lh*r9QZc3RPZB8;I7BVr?jx0&5LVK?tHc24|;klCM48J#%~bE$Erph~Ve$1Vc&~0kT$@#%*3Ey1m^3dXdeiHj?i#OR
S@h4mEjhW([MOY_eRZGmMrq@#4E!,8utha|5NB=N5VwMthUD%]|m0ABS3Ly^*y#4xkqx/:qF8CQDrf$ggLtIyK-@:@iA=_P:j42cXqz&2A#Q7ofetM7V_NG,
79$9V:ZNJRGu$,r1eC=E8[1|8@N@EaEIm7/fho#wYi*VKZVSYQT9D1Z<~),qRaOG>WBV9~%>Ym)b(SNax!~Yk#Y+S/dXNT-O,a2avJ]i1V1%M4pgeb>A+U8W
S1ko,4+5_+/B[)EkfS/,zvjX%KgBzVXbs?q2V)e_S1H=Jb(1a5(RV%tY|S5u-de*SZeZW:#D3$JFt9kkm@+jdPbaptCPEik;W,pG39g5<[l7<58Le4!Cvcdb
C+>l-=M~]Fpp$y75R:xq)h>jhfDu1?-3>@Qjz-~,N],.zUZ~/+u$i_Ggv=k1>&Ak!5r]g.us-&6DCS:Pa:4e|Lu2u&o0Hej.XK7~38=9,n.:io/XD:j$_L)n
aNz=+Ad~.:A[;uJs/CIg8Ke:/,$8RPAgpr0AB==z/g/UQhV6Z_r:mSoti]qm_(2;3X6=#-<nu)_^[+I0$[U|0dN5!IFJz##fdD<4X9C_MFeR316E7fU^OSBi
RfPwb^IGfB$v9r0mEz^[HZ=rU(97M|JrKx-9Ml[c^A$RxMU?=KPU^I%C@KF;YUdyEIX]?aTb:KUCU|zO<4D.3K[;ijg_IKb!4GEB7EyOZ[vklfE,l[8+l^hc
!Wrv;wAUkUzX/S8u!7EzZE:/<q;j19_L!#d7S9[Bkr3AjvL|0+P>.kK=.vxfll0ab:29M=+Pk+wa!ECMM$94(,(4aku_^qPmB*oSpk-zCm^1lGQ6=G_m>s9j
?Q8ii?]7l+SxaBN#(^aq3aM^ZaO.@vZhp?!^2J<Py>KyRbH1G[%*|iY4Tz%(2hRCY!!JcF/)8|/.rZY^|^Q6q1vWfYK828hd.:^(ee]vczZV*qgn1#gy.BJL
-Hr&<#q_a%[%ep3Mk^7O~y=GCk^A1h93^Eq$g#&G*!D-Edpi4M7U-<7hnBf#2#~.g|kz?zBlxrFAv66@Wlvnn7#:<kiJqZ%8;nXAYYxX*o)]r>:ls$XPW,,G
X&E7jlK:n3#jV~m$/h6_FOQ3^aIr~-q1^PyE%rm4fM9iz=&bI^eT~T|Qk@FMoRXxJ[HWP]y|?a_NAxWCyNyq>ytjM^oS&r)YT:o4/oFEj]oM3u8!:EzGOu-k
DV.)wRyYw3xXH5)Mh9x*pBEJo8,&3td)jeMO=Q5|eE[T9aBooAR!fvD5B!jrnDxJ3;zxS6a18aaa&o7jCb6!S7!V>$shAyqp2CTo3Sea<HD_6Z:V9].P9y_P
jNS|f^.F*U+3temeCgyn;V>!i6.<6G;ktWW]]L$9eAhBAc-W-tFu?VNF)M&>ruCHtYt!bG7v0WwqdXy[s:4t:HAn8reIV0TO5Nr^GB2Xw.(s.F?WEGj!M6Uu
5#pRk6PA5dH*q)x5)&S*j.!NG<CY3AJ0u#QUi01CtzK/v~SY+Za5aOILw8w7:?*<+Jm<dF#Dpa18CyWhArNsih@*fArfb>:5/ONkxRs7VR||OS-i@cXei:v&
rq?W9T|KT348=gDP(|Y^4OaS[?Q11Tz<[DHg*8MvNrA/v-Hm7I@zn&xcHPm,W]y~9MU.%+;m-J>)[25RVu^R(GN^91P@ulRu;[AhVUH8TufM-PTO36)whf+e
9Qd[7Dk/dB=r|ZXB2U=6%pY.4LL@MCN5!w&-Hr;edosh>d4f1A?H@;^Bn[!BU<wf@+4(LT#ylw9YQSeXF^##~m~+.MdVd?Va8Q_baR9Ui_[%qqcq=!l~<B/[
xR9?BpUdZc6w7|K2z=UE1~NIxgY~Ulz5qR2s^ZA(H^V-+2Rf:h,4~Y!Dz&4b2P6aWeQIZia+J~|t82]X|,M+RmR/%T^P_tcOc<=!PRF[GXZ6L5!sCnTX-c3v
t$5rY[mztN7T82=YzCcB=sewPzi#-bK.tLM.R,n!Q&[PjL@:jVp6bWg,+sjEL%lOgWbeKGa+?_)TrAlps/74C?3DE^g6)okQcaW)?DNKV^io1i(1O|I0g9:1
5Nb/OFbW6,yTc%3yxeU!8D<4*a$v+C^3vGk;pHe:gu[.MQCz^bah|@Nw|kw~JG!P@6HNM0Fc:|PLT|zk#RW8zWm<jhB1wp7b_*iAX/.na$f1[wbZVUV3[HUW
7<FQ0E>bwHz9X>JBNfJmz_XF?)148(4>5W@b@*:_1+&pofn<$YrItDj^@uFEBYxFVyCl+54>?k6x#5zItXzhMYeQ|2<ntR8/OM&>S(l)Q1EP/bGiT.=Cu1#z
K*3&7ov/BR([M)E5V&jOQ?ytkJA/@m(/<d-1)<HcUrCaeuDT#m_sDM%-u*4%mswdLoT;B!ZRF^]5e|7[>)9Z24PJdD/s,7tT8bcO[?Hx+;A9BDY|E1n.6wBr
pNEdDVyV2#*s9qRF6w9K#-p)H#pW4Hn%$A7@H(0tg2/u9f_MrX>$4oX?(!HKVQ$n8UaE3K&vJ.5|23INF5QkvN-d>^RO]zVewP8&C4GlNt]%+gzLF6o4D!CX
AsRQp:JX2/d~_EaoD[~CuR&d0q9,(YwYO;>00XsUf:qa~|F2YRMuNc)]B9O_O5ahi@:?EJy,%q)!#2!Dh3YIJL1W+X9$695Vxz4|5j>DM7Xwqz6Q:FsOelD9
os.QY3m-vN,-8+qQ+tDcYeP?<O~4:L.O/hYbW&YJGsj6*h&cTV_,F;kCR18,CW=[OqkG|u[mA:_=J7Y?=t%<ypS,3lmk&;IPBSnP9Fs<,-A=7qCCrt?q1t,@
onml~*!#h?mG~a%A1G.vi/Oc84G76L!C$Z@k7F)CFQuQ7y6?>D29kzf6rr1]y=tu#(p%NWR:9G-dDyysj5:v2b6:)T0WHI=7Wr51xiQV!jO7jMEN9jhAAq3x
zgjBb-lv6-Ofm<^1ok<XzlGg]#g#s+hZ0&_jczZ!V)SPaz9^66Sg(L:Od$kP(^Z/<^LK4vH8PsBj3ED)ntd4R[*g4_7&^N%Y0ZrOBX#y(KG/HFZ$p|qir]v7
sQuci!7KJ6pE2vZ?evmw;cN7_4=@>4.J.R2WQFr*qTROcq(Yv(j8*K2U/TZLoiC:TS7$W+qiMvTUY<mOYss/#TNrs9jiymv~]agGS3k%s=7e=3h@?JXvaG+c
zbiTLG*tX127tWDYf+ZydHWMlxsni75O^b/O=j$utWWf,=jZ7Qv+tA;H^A|y+/Kv4pZHR$s2A;~Rg*MnB8W01:BE7jJ96?a@ld.Nv;J3I?W4aqmsM?ne2b9x
O7lnaSVUAErgKxXUE!9$hBGLuYZ9)KYl7_bG,Njp%D)&85I!c@pOr7U98Yus+btms.d?oNGxTczRCE@_<R#mo_&iFNqY7360C;U>X@#Y&TXvBV-2GF]IH+1%
TXwt#Fy7!gQfkOtEBBO??z$%y)%*CZ>SbiD[|u~;|e&vg?Cbk:+kRD(eu93#PMK0p6lsyzC$D?DJ!-=hVQ8y@PK==>GHmS+@%<JDAbGwGSM2r(DEf,f1!M:x
y8]revh7Nw6oB_]HTN^EmciPtQX.Xk(-c%WgnJTcS_rmHw2?t0?bZ2[*X!?vR~UA/An/4+P!/^Q=uq0Hn?1RA4[lYhWlQ2@S5],vQj.X.2AdN|Uo?F8f%ra)
UaSH3fc,n0_k/twFp|.)jqIMB&8sPH@#~vmOZj/+XK6TXR%PgxlAn,Uqrc,A#JnBFo^nRbYS=o%FB8-I,Dp1b#oPOH/+2!a%3c_v(H(~Ng6J(s1X/q=u&mdr
^ro;wrN+Pp5MY5;vmB%)8gXBd_m1wf|m,^6sGBL:QzfkYf@]^r;82@kUq(_Uz<Mk:x2w@&ekztGi>^5<pE)C-t6r;mvl&c)Du6zanM%3Y%ue]rKF]fSl$FcU
s,:>y0#r^drK|D4zp:u^5AE8K4lyE#m|]O*AjVH:[4&hb1[D/Y*XKvt[qZiuE*|-=30xmG3<,6miGPfs)/9E8L~<M.>%xts-WO7Nb]&Al[^t:<u;puW?[bMy
jTb#!0|6hI^xuV8Q=^/X-9W9kJ1i0P]|D=EeUx(x2MxEPCr+q+EZ$st7G,?:sfiUYBnW[dl4?N&lbX4J2UF_p!&J8XrfiYS9g?c*twx#]*O:H2UPJOzkR$,O
JVv%P_1v0oyne@SQ,T|4Fykjaf[EoYO_)M;wK;6*!I*.NUE]0[egILVh)]j_)QPnE)o1[;=#VEJlKI3A_q;]?Cd0l2<$B+A36el9~W~#%DCtp.X+|~/T.OM&
VkACi4AV7Q0rLa#143E=xSXMh~|bbGovH#:1U!%(|+!YB7#d]7<._J,Fy8!5^vd|qH/IH18?i:)l/C5xj!,vf<S$KXsqEE+$>!)5o#t2U#PV]YIix@m5#06p
Lc*91c^p|~[ocj6NoqZ=a)jx7|EqJ?raE<N4wdW!:cgVjE[@0bMlt0^[[uYi6eMjq?5f(Nb[YyMAgENn,kW.Z^$^LfV6i5P,a@k#E@:x)3BD|spjvL|Een4q
>S!+Q/ovTOlBkZ#R;BUZg#O]hA~bAC4Ge(w=P8aB75K~pGD[65z$fC:)[KeL-tz58x@1%|aU]oK)sELW+k/Yc<~^Q&Cu,ZjiU>lG;;coH|dvA)y4Ft88NEky
1:em4at4:~x+AL+d&/nhxqF!5m65CKvS12_8:R5y!Uyf7~&Meb/3tJ5H3Z|=u8]?]ST>$j<hE3^z<k9J!$(7KaCS=YZR#7*Llpi/#u#w#7;M2kiJzJrfzH&&
g~:k(NL,F<!tw=*qlubY*Xe8Qt_W4@7Pbl!2MJW[fcfuj<O#NPrAAD~i2yYZ0zG!W?Ol3-[xGNSwHDqaSX?h&]j]ZI%AGLJy6f8r$JFTE(jW215)*jXRc/LE
)/HCuU(KYe%2mPB,<s/wF;*3_M/VYfo=voHWp<)wLGXmpF[~5s7P[D67GBJ@/D+vbmHP=&1Z2^Kr=Sp;5e1$XYd</Ck=.q#eO6&c>d!E|o!nnk.Jx|?)=#!l
wqAX$7SnQG]pMEonWuvFwj_NU3+ff#.DEu#a5Sbh6c%B_*.@Szcb?S=#.bjF0Srlm!c).eNDP|?;xmUHu%D@d|6^ts;<W|dP6/S1v7UHd=%AtGBMlzfrybOW
h0Dsx~G627F^%q-g9LW7J2J1P7xU!m3<KhruInC&0V0~7:t_6K]HD+0,G(uqpDR#<3pZ=IJgNUl6A]e]]:w;+Qlxr?Uti=)/ZQV:7~KuN_2U;8sVm*7E7)F.
;oFG:XVOQUIrHwFU95NkU]>EKM%aJxfTbX9S1g<x@yI!ldAf0>cne$Jo!EsD0e!jYZ+.mi~o6qL<Y5-[dmstqSC$blQLPh]r4[k-WhU=R4Rg^P3B:D@g;Aka
RbmY/Y~Av9+)rFpDO2,F_RP:P%z)=lDWGaR;o:#>|0:bsPc,[/X5Q;-vveBsyIT@j~Oa.OyF7GRwi5EYalla/$J9cGSe1/:/Ool5&k7-lnu9[7h=T~|91r,Q")

/-- The template of the texts from a number on, with slots between them. -/
def Template.ofTexts (n : Nat) : Strings → Template
  | [] => [.text (texts.get.getD n "")]
  | slot :: slots => .text (texts.get.getD n "") :: .slot slot :: Template.ofTexts (n + 1) slots

def ofKind (k : Risk.Kind) : Template := .ofTexts (2 * Risk.Kind.all.idxOf k) ["available_tools"]

def generic : Template :=
  .ofTexts 12 ["risk_type", "available_tools", "risk_type", "risk_type", "risk_type", "risk_type", "risk_type",
    "risk_type"]

def intent : Template := .ofTexts 21 ["file_path", "file_diff", "file_content"]

def chunk : Template := .ofTexts 25 ["chunk_id", "group_key", "files_list", "chunk_diff"]

def manager : Template := .ofTexts 30 ["file_analyses_summary"]

def report : Template := .ofTexts 32 ["diff_context", "confirmed_issues", "num_issues", "num_files"]

def catalog : List (String × Template) :=
  Risk.Kind.all.map (fun k => ("expert_" ++ k.name, ofKind k))
    ++ [("expert_generic", generic), ("intent_analysis", intent), ("intent_analysis_chunked", chunk),
      ("manager", manager), ("reporter", report)]

def render (name : String) (values : Pairs) : Action String := do
  match Fields.get? catalog name with
  | some t => Action.ofExcept (t.fill values)
  | none => throw (.notFound s!"Prompt template not found: {(← get).promptHome}/{name}.txt")

end PatchReview.Prompt
