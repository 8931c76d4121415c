import PatchReview.Text.Case

/-!
# Characters by name

The letters of the Latin, Greek and Cyrillic scripts with their accents: how a letter and its accents are put together
to one character, which characters stand for others in identifiers, and which character a name stands for.
-/

namespace PatchReview.Text

/-!
## Accents

An accent is a mark that follows its letter. Most letters with accents are characters of their own.
-/

/-- An accent: its name, its code point, and above one another the letters without it and with it. -/
structure Accent where
  name : String
  mark : Nat
  letters : String
  accented : String

def accents : List Accent := [
  ⟨"GRAVE", 0x300,
    "AEIOUaeiouÜüNnЕИеиÂâĂăÊêÔôƠơƯưYy",
    "ÀÈÌÒÙàèìòùǛǜǸǹЀЍѐѝẦầẰằỀềỒồỜờỪừỲỳ"⟩,
  ⟨"ACUTE", 0x301,
    "AEIOUYaeiouyCcLlNnRrSsZzÜüGgÅåÆæØø¨ΑΕΗΙΟΥΩϊαεηιϋουωϒГКгкÂâĂăÊêÔôƠơƯư",
    "ÁÉÍÓÚÝáéíóúýĆćĹĺŃńŔŕŚśŹźǗǘǴǵǺǻǼǽǾǿ΅ΆΈΉΊΌΎΏΐάέήίΰόύώϓЃЌѓќẤấẮắẾếỐốỚớỨứ"⟩,
  ⟨"CIRCUMFLEX", 0x302,
    "AEIOUaeiouCcGgHhJjSsWwYyẠạẸẹỌọ",
    "ÂÊÎÔÛâêîôûĈĉĜĝĤĥĴĵŜŝŴŵŶŷẬậỆệỘộ"⟩,
  ⟨"TILDE", 0x303,
    "ANOanoIiUuÂâĂăEeÊêÔôƠơƯưYy",
    "ÃÑÕãñõĨĩŨũẪẫẴẵẼẽỄễỖỗỠỡỮữỸỹ"⟩,
  ⟨"MACRON", 0x304,
    "AaEeIiOoUuÜüÄäȦȧÆæǪǫÖöÕõȮȯYyИиУу",
    "ĀāĒēĪīŌōŪūǕǖǞǟǠǡǢǣǬǭȪȫȬȭȰȱȲȳӢӣӮӯ"⟩,
  ⟨"BREVE", 0x306,
    "AaEeGgIiOoUuУИиуЖжАаЕеẠạ",
    "ĂăĔĕĞğĬĭŎŏŬŭЎЙйўӁӂӐӑӖӗẶặ"⟩,
  ⟨"DOT ABOVE", 0x307,
    "CcEeGgIZzAaOoBbDdFfHhMmNnPpRrSsŚśŠšṢṣTtWwXxYy",
    "ĊċĖėĠġİŻżȦȧȮȯḂḃḊḋḞḟḢḣṀṁṄṅṖṗṘṙṠṡṤṥṦṧṨṩṪṫẆẇẊẋẎẏ"⟩,
  ⟨"DIAERESIS", 0x308,
    "AEIOUaeiouyYΙΥιυϒЕІеіАаӘәЖжЗзИиОоӨөЭэУуЧчЫы",
    "ÄËÏÖÜäëïöüÿŸΪΫϊϋϔЁЇёїӒӓӚӛӜӝӞӟӤӥӦӧӪӫӬӭӰӱӴӵӸӹ"⟩,
  ⟨"HOOK ABOVE", 0x309,
    "AaÂâĂăEeÊêIiOoÔôƠơUuƯưYy",
    "ẢảẨẩẲẳẺẻỂểỈỉỎỏỔổỞởỦủỬửỶỷ"⟩,
  ⟨"RING ABOVE", 0x30a,
    "AaUu",
    "ÅåŮů"⟩,
  ⟨"DOUBLE ACUTE", 0x30b,
    "OoUuУу",
    "ŐőŰűӲӳ"⟩,
  ⟨"CARON", 0x30c,
    "CcDdEeLlNnRrSsTtZzAaIiOoUuÜüGgKkƷʒjHh",
    "ČčĎďĚěĽľŇňŘřŠšŤťŽžǍǎǏǐǑǒǓǔǙǚǦǧǨǩǮǯǰȞȟ"⟩,
  ⟨"DOUBLE GRAVE", 0x30f,
    "AaEeIiOoRrUuѴѵ",
    "ȀȁȄȅȈȉȌȍȐȑȔȕѶѷ"⟩,
  ⟨"INVERTED BREVE", 0x311,
    "AaEeIiOoRrUu",
    "ȂȃȆȇȊȋȎȏȒȓȖȗ"⟩,
  ⟨"HORN", 0x31b,
    "OoUu",
    "ƠơƯư"⟩,
  ⟨"DOT BELOW", 0x323,
    "AaEeIiOoƠơUuƯưYyBbDdHhKkLlMmNnRrSsTtVvWwZz",
    "ẠạẸẹỊịỌọỢợỤụỰựỴỵḄḅḌḍḤḥḲḳḶḷṂṃṆṇṚṛṢṣṬṭṾṿẈẉẒẓ"⟩,
  ⟨"COMMA BELOW", 0x326,
    "SsTt",
    "ȘșȚț"⟩,
  ⟨"CEDILLA", 0x327,
    "CcGgKkLlNnRrSsTtEe",
    "ÇçĢģĶķĻļŅņŖŗŞşŢţȨȩ"⟩,
  ⟨"OGONEK", 0x328,
    "AaEeIiUuOo",
    "ĄąĘęĮįŲųǪǫ"⟩]

def Accent.put? (a : Accent) (c : Char) : Option Char := pairedWith? c (a.letters, a.accented)

def Accent.taken? (a : Accent) (c : Char) : Option Char := pairedWith? c (a.accented, a.letters)

/-- Where marks stand on their letter: first and last code point and a place. Lower places are written first. -/
def markPlaces : List (Nat × Nat × Nat) :=
  [(0x300, 0x314, 230), (0x315, 0x315, 232), (0x316, 0x319, 220), (0x31a, 0x31a, 232), (0x31b, 0x31b, 216),
    (0x31c, 0x320, 220), (0x321, 0x322, 202), (0x323, 0x326, 220), (0x327, 0x328, 202), (0x329, 0x333, 220),
    (0x334, 0x338, 1), (0x339, 0x33c, 220), (0x33d, 0x344, 230), (0x345, 0x345, 240), (0x346, 0x346, 230),
    (0x347, 0x349, 220), (0x34a, 0x34c, 230), (0x34d, 0x34e, 220), (0x350, 0x352, 230), (0x353, 0x356, 220),
    (0x357, 0x357, 230), (0x358, 0x358, 232), (0x359, 0x35a, 220), (0x35b, 0x35b, 230), (0x35c, 0x35c, 233),
    (0x35d, 0x35e, 234), (0x35f, 0x35f, 233), (0x360, 0x361, 234), (0x362, 0x362, 233), (0x363, 0x36f, 230)]

/-- Where a mark stands among the marks of one letter; 0 for a letter. -/
def markClass (n : Nat) : Nat :=
  match markPlaces.find? fun (first, last, _) => first ≤ n && n ≤ last with
  | some (_, _, place) => place
  | none => 0

/-!
## The compatible normal form

Identifiers are compared in this form. Every character is taken apart into letters and marks, the marks on a letter are
put in order, and letters and marks are put together again. Ideographs and letters of other scripts stand for
themselves.
-/

/-- Characters that stand for other ones, each before these. -/
def compatible : Thunk (List Chars) := Thunk.mk fun _ => (cutAt " " (
    "ªa µμ ºo ĲIJ ĳij ĿL· ŀl· ŉʼn ſs ǄDŽ ǅDž ǆdž ǇLJ ǈLj ǉlj ǊNJ ǋNj ǌnj ǱDZ ǲDz ǳdz ʰh ʱɦ ʲj ʳr ʴɹ ʵɻ ʶʁ ʷw ʸy ˠɣ ˡl " ++
    "ˢs ˣx ˤʕ ϐβ ϑθ ϕφ ϖπ ϰκ ϱρ ϲς ϴΘ ϵε ϹΣ ⁱi ⁿn ₐa ₑe ₒo ₓx ₔə ₕh ₖk ₗl ₘm ₙn ₚp ₛs ₜt ℂC ℇƐ ℊg ℋH ℌH ℍH ℎh ℏħ ℐI " ++
    "ℑI ℒL ℓl ℕN ℙP ℚQ ℛR ℜR ℝR ℤZ ℨZ ℬB ℭC ℯe ℰE ℱF ℳM ℴo ℵא ℶב ℷג ℸד ℹi ℼπ ℽγ ℾΓ ℿΠ ⅅD ⅆd ⅇe ⅈi ⅉj ⅠI ⅡII ⅢIII ⅣIV " ++
    "ⅤV ⅥVI ⅦVII ⅧVIII ⅨIX ⅩX ⅪXI ⅫXII ⅬL ⅭC ⅮD ⅯM ⅰi ⅱii ⅲiii ⅳiv ⅴv ⅵvi ⅶvii ⅷviii ⅸix ⅹx ⅺxi ⅻxii ⅼl ⅽc ⅾd ⅿm ﬀff " ++
    "ﬁfi ﬂfl ﬃffi ﬄffl ﬅst ﬆst ϒΥ ΩΩ KK ÅÅ")).map String.toList

/-- The letters and digits that are written wide or in a face of their own stand in rows. -/
def plainFace? (n : Nat) : Option Nat :=
  if 0xff01 ≤ n ∧ n ≤ 0xff5e then some (n - 0xfee0)
  else if 0x1d400 ≤ n ∧ n ≤ 0x1d6a3 then
    let i := (n - 0x1d400) % 52
    some (if i < 26 then 65 + i else 71 + i)
  else if 0x1d7ce ≤ n ∧ n ≤ 0x1d7ff then some (48 + (n - 0x1d7ce) % 10)
  else none

/-- Takes a letter apart. No letter has more than `depth` accents. -/
def takenApart : Nat → Char → List Nat
  | 0, c => [c.toNat]
  | depth + 1, c =>
    match accents.findSome? fun a => (a.taken? c).map (a.mark, ·) with
    | some (mark, letter) => takenApart depth letter ++ [mark]
    | none =>
      match compatible.get.find? fun s => s.head? == some c with
      | some s => s.tail.flatMap (takenApart depth)
      | none => [c.toNat]

/-- What a code point is taken apart into. A Hangul syllable has two or three parts. -/
def partsOf (n : Nat) : List Nat :=
  if n < 128 then [n]
  else if 0xac00 ≤ n ∧ n ≤ 0xd7a3 then
    let i := n - 0xac00
    [0x1100 + i / 588, 0x1161 + i % 588 / 28] ++ (if i % 28 = 0 then [] else [0x11a7 + i % 28])
  else match plainFace? n with
    | some m => [m]
    | none => takenApart 3 (Char.ofNat n)

/-- Puts a mark behind the marks that come before it. -/
def placeMark (n : Nat) : List Nat → List Nat
  | [] => [n]
  | m :: ms => if markClass n < markClass m then n :: m :: ms else m :: placeMark n ms

/-- Puts the marks of every letter in order; `marks` are those of the last letter. -/
def orderMarks : List Nat → List Nat → List Nat
  | marks, [] => marks
  | marks, n :: ns => if markClass n = 0 then marks ++ n :: orderMarks [] ns else orderMarks (placeMark n marks) ns

def joined? (a b : Nat) : Option Nat :=
  if 0x1100 ≤ a ∧ a ≤ 0x1112 ∧ 0x1161 ≤ b ∧ b ≤ 0x1175 then some (0xac00 + ((a - 0x1100) * 21 + (b - 0x1161)) * 28)
  else if 0xac00 ≤ a ∧ a ≤ 0xd7a3 ∧ (a - 0xac00) % 28 = 0 ∧ 0x11a8 ≤ b ∧ b ≤ 0x11c2 then some (a + (b - 0x11a7))
  else (accents.find? (·.mark = b)).bind fun accent => (accent.put? (Char.ofNat a)).map Char.toNat

/-- Puts letters and marks together. `letter` is the last letter, `kept` the marks after it that stay, last first, and
`last` the place of the last of them. -/
def joinMarks : Option Nat → List Nat → Nat → List Nat → List Nat
  | letter, kept, _, [] => letter.toList ++ kept.reverse
  | none, _, _, n :: ns => if markClass n = 0 then joinMarks (some n) [] 0 ns else n :: joinMarks none [] 0 ns
  | some a, kept, last, n :: ns =>
    let place := markClass n
    let free := kept.isEmpty || (last != 0 && last < place)
    match (if free then joined? a n else none) with
    | some b => joinMarks (some b) kept last ns
    | none =>
      if place = 0 then a :: kept.reverse ++ joinMarks (some n) [] 0 ns
      else joinMarks (some a) (n :: kept) place ns

def normalForm (s : Chars) : Chars :=
  if s.all (·.toNat < 128) then s
  else (joinMarks none [] 0 (orderMarks [] (s.flatMap fun c => partsOf c.toNat))).map Char.ofNat

/-!
## Names

The name of a letter of the Latin alphabet tells its size and its accents. The case of the letters in a name does not
count.
-/

def letterNamed? (name : String) : Option Char := do
  let [kind, rest] := cutAt " LETTER " name | none
  let small ← ["LATIN CAPITAL", "LATIN SMALL"].idxOf? kind
  let letter :: marks := cutAt " WITH " rest | none
  let [c] := letter.toList | none
  guard c.isUpper
  (marks.flatMap (cutAt " AND ")).foldlM (fun c mark => do (← accents.find? (·.name == mark)).put? c)
    (if small == 1 then c.toLower else c)

def named? (name : Chars) : Option Char := letterNamed? (String.ofList (name.map Char.toUpper))

end PatchReview.Text
