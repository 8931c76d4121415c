import PatchReview.Text.Basic

/-!
# Classes of characters and letter case

Digits, letters, the characters of identifiers and those that are shown as they are, and lower and upper case. The
tables go by the Latin, Greek, Cyrillic, Hebrew, Arabic, Devanagari, Thai and East Asian scripts and by signs.
-/

namespace PatchReview.Text

/-!
## Tables

A property of characters is an ascending table of code point ranges that do not touch, written in hexadecimal.
-/

variable (c : Char) (s : Chars)

/-- A range such as `41-5a`, or a code point alone. -/
def codeRange (r : String) : Nat × Nat :=
  match cutAt "-" r with
  | [a, b] => (hexValue a.toList, hexValue b.toList)
  | _ => (hexValue r.toList, hexValue r.toList)

def codeRanges (table : String) : Thunk (Array (Nat × Nat)) :=
  Thunk.mk fun _ => ((wordsOf table).map codeRange).toArray

/-- Whether `n` lies in one of the ranges, which are ascending and apart. `fuel` halves the interval
of candidates `lo ≤ i < hi` at every step. -/
def inRanges (table : Array (Nat × Nat)) (n : Nat) : Nat → Nat → Nat → Bool
  | 0, _, _ => false
  | fuel + 1, lo, hi =>
    if lo < hi then
      let mid := (lo + hi) / 2
      match table[mid]? with
      | none => false
      | some (a, b) =>
        if n < a then inRanges table n fuel lo mid
        else if b < n then inRanges table n fuel (mid + 1) hi
        else true
    else false

/-- Whether `c` lies in one of the ranges of an ascending table. -/
def listed (table : Thunk (Array (Nat × Nat))) (c : Char) : Bool := inRanges table.get c.toNat 24 0 table.get.size

/-!
## Digits

Decimal digits of any script: each script has its ten digits in a row, so a digit is a distance from a zero.
-/

/-- The zeros of the scripts. -/
def zeros := codeRanges
  "660 6f0 7c0 966 9e6 a66 ae6 b66 be6 c66 ce6 d66 de6 e50 ed0 f20 1040 1090 17e0 1810 1946 19d0 1a80 1a90 1b50
  1bb0 1c40 1c50 a620 a8d0 a900 a9d0 a9f0 aa50 abf0 ff10 104a0 10d30 11066 110f0 11136 111d0 112f0 11450 114d0
  11650 116c0 11730 118e0 11950 11c50 11d50 11da0 16a60 16ac0 16b50 1d7ce 1d7d8 1d7e2 1d7ec 1d7f6 1e140 1e2f0 1e950
  1fbf0"

def digitValue? : Option Nat :=
  let n := c.toNat
  if n < 128 then if c.isDigit then some (n - 48) else none
  else (zeros.get.find? fun z => z.1 ≤ n && n < z.1 + 10).map (n - ·.1)

def isDecimal : Bool := (digitValue? c).isSome

/-- Digits that are written raised, circled or otherwise outside a decimal system. -/
def loneDigits := codeRanges
  "b2-b3 b9 2070 2074-2079 2080-2089 2460-2468 2474-247c 2488-2490 24ea 24f5-24fd 24ff 2776-277e 2780-2788
  278a-2792"

/-- A digit: decimal or of another kind, such as a superscript. -/
def isDigitLike : Bool := isDecimal c || listed loneDigits c

/-!
## Letters and digits

The characters of any script that are letters or numbers, and with the underscore the characters of a word.
-/

/-- Letters, and numbers other than decimal digits. -/
def lettersAndNumbers := codeRanges
  "aa b2-b3 b5 b9-ba bc-be c0-d6 d8-f6 f8-2c1 2c6-2d1 2e0-2e4 2ec 2ee 370-374 376-377 37a-37d 37f 386 388-38a 38c
  38e-3a1 3a3-3f5 3f7-481 48a-52f 531-556 560-588 5d0-5ea 5ef-5f2 620-64a 66e-66f 671-6d3 6d5 6e5-6e6 6ee-6ef
  6fa-6fc 6ff 904-939 93d 950 958-961 971-97f e01-e30 e32-e33 e40-e46 10a0-10c5 10d0-10fa 10fc-1248 1e00-1eff
  1f00-1f15 2070-2071 2074-2079 207f-2089 2090-209c 2102 2107 210a-2113 2115 2119-211d 2124 2126 2128 212a-212d
  212f-2139 213c-213f 2145-2149 214e 2150-2189 2460-249b 24ea-24ff 2776-2793 3005-3007 3021-3029 3031-3035
  3038-303c 3041-3096 309d-309f 30a1-30fa 30fc-30ff 3400-4dbf 4e00-9fff a000-a48c ac00-d7a3 f900-fa6d fb00-fb06
  ff21-ff3a ff41-ff5a ff66-ffbe ffc2-ffc7 ffca-ffcf ffd2-ffd7 ffda-ffdc 1d400-1d454 20000-2a6df"

def isAlphanumeric : Bool := if c.toNat < 128 then c.isAlphanum else listed lettersAndNumbers c || isDecimal c

def isWord : Bool := c == '_' || isAlphanumeric c

/-!
## Characters of identifiers

The characters that a name of a program may start with, and those that may follow.
-/

/-- Numbers, and letters that start no identifier. -/
def notFirst := codeRanges
  "b2-b3 b9 bc-be 37a e33 2070 2074-2079 2080-2089 2150-215f 2189 2460-249b 24ea-24ff 2776-2793 ff9e-ff9f"

/-- Marks and signs that an identifier may hold after its start. -/
def marks := codeRanges
  "b7 300-36f 387 483-487 591-5bd 5bf 5c1-5c2 5c4-5c5 5c7 610-61a 64b-65f 670 6d6-6dc 6df-6e4 6e7-6e8 6ea-6ed
  900-903 93a-93c 93e-94f 951-957 962-963 e31 e34-e3a e47-e4e 203f-2040 2054 20d0-20dc 20e1 20e5-20f0 302a-302f
  3099-309a fe00-fe0f fe20-fe2f ff3f"

/-- A character that an identifier starts with: a letter of any script, or the underscore. -/
def isIdentifierStart : Bool :=
  if c.toNat < 128 then c.isAlpha || c == '_'
  else c == '℘' || c == '℮' || (listed lettersAndNumbers c && !listed notFirst c)

/-- A character that an identifier may hold after its start: also digits and marks. -/
def isIdentifierPart : Bool :=
  if c.toNat < 128 then c.isAlphanum || c == '_'
  else isIdentifierStart c || isDecimal c || listed marks c || ['ำ', '\uff9e', '\uff9f'].contains c

def isIdentifier : Chars → Bool
  | [] => false
  | c :: cs => isIdentifierStart c && cs.all isIdentifierPart

/-!
## Printable characters

The characters that a quoted text shows as they are.
-/

/-- Blanks and controls, and code points without a character. -/
def unprintable := codeRanges
  "80-a0 ad 378-379 380-383 38b 38d 3a2 590 5c8-5cf 5eb-5ee 5f5-605 61c 6dd e00 e3b-e3e e5c-e7f 2000-200f 2028-202f
  205f-206f 2072-2073 208f 209d-209f 20c1-20cf 20f1-20ff 218c-218f 2427-243f 244b-245f 2b74-2b75 2b96 3000
  e000-f8ff feff-ff00"

def isPrintable : Bool :=
  if c.toNat < 128 then 32 ≤ c.toNat && c.toNat < 127
  else c.toNat < 0x32000 && !listed unprintable c

/-!
## Quoted text

A text between quotes on one line: the single quote, unless the text holds a single quote and no double
one. The quote and the backslash are escaped, and so is every character that is not printable.
-/

def hexDigit (n : Nat) : Char := Char.ofNat (if n < 10 then 48 + n else 87 + n)

/-- The last `width` hexadecimal digits of `n`. -/
def hexDigits : Nat → Nat → Chars
  | 0, _ => []
  | width + 1, n => hexDigits width (n / 16) ++ [hexDigit (n % 16)]

/-- The short escape of a character between the quotes `q`. -/
def shortEscape? (q : Char) (c : Char) : Option Chars :=
  if c == q || c == '\\' then some ['\\', c]
  else ([('\n', 'n'), ('\r', 'r'), ('\t', 't')].lookup c).map (['\\', ·])

/-- One character between the quotes `q`. -/
def escapeChar (q : Char) (c : Char) : Chars :=
  (shortEscape? q c).getD <| if isPrintable c then [c]
  else if c.toNat < 0x100 then '\\' :: 'x' :: hexDigits 2 c.toNat
  else if c.toNat < 0x10000 then '\\' :: 'u' :: hexDigits 4 c.toNat
  else match unpairedUnit? c with
    | some unit => '\\' :: 'u' :: hexDigits 4 unit
    | none => '\\' :: 'U' :: hexDigits 8 c.toNat

def quoteFor : Char :=
  let single := Char.ofNat 39
  if s.contains single && !s.contains '"' then '"' else single

def quoted : Chars :=
  let q := quoteFor s
  q :: s.flatMap (escapeChar q) ++ [q]

end PatchReview.Text

namespace PatchReview

def quoted (s : String) : String := String.ofList (Text.quoted s.toList)

def quotedList (ws : Strings) : String := "[" ++ joinWith ", " (ws.map quoted) ++ "]"

end PatchReview

namespace PatchReview.Text

/-!
## Letter case

Capitals stand before their small letters in turn, or at a distance from them in a row, or anywhere. A few letters have
an upper case of several letters.
-/

/-- Ranges in which every capital stands before its small letter. -/
def turns := codeRanges
  "100-12f 132-137 139-148 14a-177 179-17e 182-185 187-188 18b-18c 191-192 198-199 1a0-1a5 1a7-1a8 1ac-1ad 1af-1b0
  1b3-1b6 1b8-1b9 1bc-1bd 1c5-1c6 1c8-1c9 1cb-1dc 1de-1ef 1f2-1f5 1f8-21f 222-233 23b-23c 241-242 246-24f 370-373
  376-377 3d8-3ef 3f7-3f8 3fa-3fb 460-481 48a-4bf 4c1-4ce 4d0-52f 1e00-1e95 1ea0-1eff 2183-2184"

/-- Rows of capitals, each with the first of their small letters. -/
def capitalRows : List (Nat × Nat × Nat) := [(0xc0, 0xd6, 0xe0), (0xd8, 0xde, 0xf8), (0x391, 0x3a1, 0x3b1),
  (0x3a3, 0x3ab, 0x3c3), (0x400, 0x40f, 0x450),
  (0x410, 0x42f, 0x430), (0x2160, 0x216f, 0x2170), (0x24b6, 0x24cf, 0x24d0), (0xff21, 0xff3a, 0xff41)]

/-- The other capitals, above their small letters. -/
def capitals : String × String := (
  "ŸƁƆƉƊƎƏƐƓƔƖƗƜƝƟƦƩƮƱƲƷǄǇǊǱǶǷȠȺȽȾɃɄɅͿΆΈΉΊΌΎΏϏϴϹϽϾϿӀẞΩKÅℲ",
  "ÿɓɔɖɗǝəɛɠɣɩɨɯɲɵʀʃʈʊʋʒǆǉǌǳƕƿƞⱥƚⱦƀʉʌϳάέήίόύώϗθϲͻͼͽӏßωkåⅎ")

/-- Small letters that share a capital with another one, above these capitals. -/
def variants : String × String := (
  "µıſǅǈǋǲ\u0345ςϐϑϕϖϰϱϵẛ",
  "ΜISǄǇǊǱΙΣΒΘΦΠΚΡΕṠ")

/-- Letters whose upper case is several letters, each before these. -/
def upperLists : List Chars := (wordsOf
  "ßSS ŉʼN ǰJ\u030c ΐΙ\u0308\u0301 ΰΥ\u0308\u0301 ẖH\u0331 ẗT\u0308 ẘW\u030a ẙY\u030a
    ẚAʾ ﬀFF ﬁFI ﬂFL ﬃFFI ﬄFFL ﬅST ﬆST").map String.toList

variable (c : Char)

/-- The character at the place in the second text that `c` has in the first one. -/
def pairedWith? (c : Char) (texts : String × String) : Option Char := (texts.1.toList.zip texts.2.toList).lookup c

/-- The lower case of one character, when that is one character. -/
def lowerChar : Char :=
  let n := c.toNat
  if n < 128 then c.toLower
  else match capitalRows.find? fun (a, b, _) => a ≤ n && n ≤ b with
    | some (a, _, small) => Char.ofNat (small + (n - a))
    | none => (pairedWith? c capitals).getD <| match turns.get.find? fun (a, b) => a ≤ n && n ≤ b with
      | some (a, _) => if (n - a) % 2 = 0 then Char.ofNat (n + 1) else c
      | none => c

def upperChar : Char :=
  let n := c.toNat
  if n < 128 then c.toUpper
  else match capitalRows.find? fun (a, b, small) => small ≤ n && n ≤ small + (b - a) with
    | some (a, _, small) => Char.ofNat (a + (n - small))
    | none => (pairedWith? c variants <|> pairedWith? c capitals.swap).getD <|
      match turns.get.find? fun (a, b) => a ≤ n && n ≤ b with
      | some (a, _) => if (n - a) % 2 = 1 then Char.ofNat (n - 1) else c
      | none => c

def upperList : Chars :=
  if c.toNat < 128 then [c.toUpper]
  else match upperLists.find? (·.head? == some c) with
    | some (_ :: cs) => cs
    | _ => [upperChar c]

/-- Letters: characters that have another case. -/
def isCased : Bool := c == 'İ' || lowerChar c != c || upperList c != [c]

/-- Marks that stand inside words without being letters. -/
def innerMarks := codeRanges
  "a8 ad af b4 b7-b8 2b0-36f 200b-200f 2018-2019 2024 2027 202a-202e 2060-2064 2066-206f fe00-fe0f fe20-fe2f feff
  1f3fb-1f3ff"

/-- A capital sigma at the end of a word becomes the final form. -/
def lowerSigma (before after : Chars) : Char :=
  let lettered : Chars → Bool := fun s => match s.dropWhile (listed innerMarks) with
    | c :: _ => isCased c
    | [] => false
  if lettered before && !lettered after then 'ς' else 'σ'

/-- Lower case of a text; `before` is what stands in front, read backwards. -/
def lowerFrom (before : Chars) : Chars → Chars
  | [] => []
  | c :: s =>
    let here := if c == 'Σ' then [lowerSigma before s]
      else if c == 'İ' then ['i', Char.ofNat 0x307]
      else [lowerChar c]
    here ++ lowerFrom (c :: before) s

end PatchReview.Text

namespace PatchReview

def lowered (s : String) : String := String.ofList (Text.lowerFrom [] s.toList)

def uppered (s : String) : String := String.ofList (s.toList.flatMap Text.upperList)

def isYes (s : String) : Bool := ["1", "true", "yes", "y", "on"].contains (lowered (strip s))

end PatchReview

namespace PatchReview.Text

/-!
## Letters that differ in case only

Two characters are the same letter when their lower cases agree, or are variants of one another that share an
upper case, such as the two small sigmas.
-/

/-- The lower case of a letter, as one character. -/
def smallLetter (c : Char) : Char := (lowered (String.singleton c)).toList.head?.getD c

/-- Small letters that are variants of one another. -/
def smallVariants : Strings := wordsOf "iı sſ µμ ι\u0345 κϰ βϐ εϵ θϑ πϖ ρϱ ςσ φϕ ṡẛ ﬅﬆ"

/-- The small letters that a small letter is a variant of, itself first. -/
def variantsOf (n : Nat) : List Nat :=
  match smallVariants.find? (·.toList.contains (Char.ofNat n)) with
  | some row => n :: (row.toList.map Char.toNat).filter (· != n)
  | none => [n]

end PatchReview.Text
