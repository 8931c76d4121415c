import PatchReview.Text.Case

/-!
# Numbers in text

A whole number may have white space around it, a sign in front, digits of any script, and single
underscores between digits.
-/

namespace PatchReview.Number

open Text

def twoTo (k : Nat) : Nat := Nat.pow 2 k

def tenTo (k : Nat) : Nat := Nat.pow 10 k

def total : List Nat → Nat
  | [] => 0
  | n :: ns => n + total ns

def totalWhole : List Int → Int
  | [] => 0
  | n :: ns => n + totalWhole ns

/-- The digit values of a run of digits with single underscores between them. -/
def digitRun? : Chars → Option (List Nat)
  | [] => none
  | [c] => (digitValue? c).map ([·])
  | c :: '_' :: s => do
    let d ← digitValue? c
    let ds ← digitRun? s
    return d :: ds
  | c :: d :: s => do
    let v ← digitValue? c
    let ds ← digitRun? (d :: s)
    return v :: ds

def ofDigits (ds : List Nat) : Nat := ds.foldl (fun n d => 10 * n + d) 0

def takeSign : Chars → Bool × Chars
  | '-' :: s => (true, s)
  | '+' :: s => (false, s)
  | s => (false, s)

/-- White space that may stand around a number: all but the information separators. -/
def isSpace (c : Char) : Bool := isBlank c && !(28 ≤ c.toNat && c.toNat ≤ 31)

def trim (s : Chars) : Chars := dropRightWhile isSpace (s.dropWhile isSpace)

def digitLimit : Nat := 4300

def digitLimitText (n : Nat) : String :=
  s!"Exceeds the limit ({digitLimit} digits) for integer string conversion: value has {n} digits; " ++
    "use sys.set_int_max_str_digits() to increase the limit"

variable (base : Nat) (s : String)

def notRadix := s!"invalid literal for int() with base {base}: {quoted s}"

def notWhole : String := notRadix 10 s

def readInt : Except String Int :=
  let (minus, rest) := takeSign (trim s.toList)
  match digitRun? rest with
  | none => .error (notWhole s)
  | some ds =>
    if digitLimit < ds.length then .error (digitLimitText ds.length)
    else
      let n : Int := ofDigits ds
      .ok (if minus then -n else n)

def readInt? : Option Int := (readInt s).toOption

def radixDigit? (c : Char) : Option Nat :=
  let value? := match digitValue? c with
    | some d => some d
    | none =>
      if 'a' ≤ c && c ≤ 'z' then some (c.toNat - 87)
      else if 'A' ≤ c && c ≤ 'Z' then some (c.toNat - 55)
      else none
  value?.filter (· < base)

/-- The letters that say a base after a zero. -/
def radixLetters : List (Nat × Chars) := [(2, ['b', 'B']), (8, ['o', 'O']), (16, ['x', 'X'])]

/-- Reads a whole number without underscores in base two, eight or sixteen, which a letter after a zero may say. -/
def readRadix? : Option Int := do
  let (minus, rest) := takeSign (trim s.toList)
  let rest := match rest with
    | '0' :: c :: t => if ((radixLetters.lookup base).getD []).contains c then t else rest
    | _ => rest
  if rest.isEmpty then none
  let ds ← rest.mapM (radixDigit? base)
  let n : Nat := ds.foldl (fun n d => base * n + d) 0
  return if minus then -(n : Int) else n

/-!
## Real numbers

A finite double is `mantissa · 2 ^ exponent`. Its shortest decimal is the one with the fewest digits that
still reads back as the same double; of two the nearer is taken. A number with fixed places is rounded on its
exact binary value, a half to the even neighbour.
-/

/-- A finite double taken apart: its sign, and `mantissa · 2 ^ exponent`. -/
structure Binary where
  minus : Bool
  mantissa : Nat
  exponent : Int

variable (num den : Nat) (x : Float) (s : String)

/-- The parts of a double; infinities and NaN have none. -/
def Binary.ofFloat? : Option Binary :=
  let bits := x.toBits.toNat
  let minus := decide (bits / twoTo 63 = 1)
  let field : Nat := bits / twoTo 52 % 2048
  let fraction := bits % twoTo 52
  if field = 2047 then none
  else if field = 0 then some ⟨minus, fraction, -1074⟩
  else some ⟨minus, twoTo 52 + fraction, (field : Int) - 1075⟩

/-- Decimal digits `digits`, read as `0.digits · 10 ^ point`. -/
structure Decimal where
  digits : Nat
  count : Nat
  point : Int

/-- The least `k` with `num / den < 10 ^ k`, searching upwards from `k`. -/
def pointUp : Nat → Nat → Nat
  | 0, k => k
  | fuel + 1, k => if num < den * tenTo k then k else pointUp fuel (k + 1)

/-- The greatest `j` with `num · 10 ^ j < den`, searching upwards from `j`. -/
def pointDown : Nat → Nat → Nat
  | 0, j => j
  | fuel + 1, j => if num * tenTo (j + 1) < den then pointDown fuel (j + 1) else j

/-- The decimal point of `num / den > 0`: the `k` with `10 ^ (k - 1) ≤ num / den < 10 ^ k`. -/
def decimalPoint : Int := if den ≤ num then pointUp num den 400 1 else -(pointDown num den 400 0 : Int)

/-- Scales `num / den` by `10 ^ e`. -/
def scaled (e : Int) : Nat × Nat := if 0 ≤ e then (num * tenTo e.toNat, den) else (num, den * tenTo (-e).toNat)

/-- The shortest decimal of `num / den` that stays between `lo / den` and `hi / den`, the ends included
when `closed`. The search tries `n`, `n + 1`, … digits. -/
def shortestFrom (num den lo hi : Nat) (closed : Bool) (point : Int) : Nat → Nat → Decimal
  -- seventeen digits always suffice
  | 0, n => ⟨1, n, point⟩
  | fuel + 1, n =>
    let e : Int := n - point
    let (a, b) := scaled num den e
    let (l, _) := scaled lo den e
    let (h, _) := scaled hi den e
    let down := a / b
    let up := down + 1
    let within (d : Nat) : Bool := if closed then decide (l ≤ d * b ∧ d * b ≤ h) else decide (l < d * b ∧ d * b < h)
    match within down, within up with
    | true, true =>
      let below := a - down * b
      let above := up * b - a
      if below < above ∨ (below = above ∧ down % 2 = 0) then ⟨down, n, point⟩ else ⟨up, n, point⟩
    | true, false => ⟨down, n, point⟩
    | false, true => ⟨up, n, point⟩
    | false, false => shortestFrom num den lo hi closed point fuel (n + 1)

def Binary.shortest (x : Binary) : Decimal :=
  let m := x.mantissa
  let edge := decide (m = twoTo 52 ∧ x.exponent > -1074)
  let below := if edge then 4 * m - 1 else 4 * m - 2
  let e := x.exponent - 2
  let up := if 0 ≤ e then twoTo e.toNat else 1
  let den := if 0 ≤ e then 1 else twoTo (-e).toNat
  let num := 4 * m * up
  shortestFrom num den (below * up) ((4 * m + 2) * up) (m % 2 == 0) (decimalPoint num den) 17 1

def Binary.rounded (x : Binary) (count : Nat) : Decimal :=
  let num := if 0 ≤ x.exponent then x.mantissa * twoTo x.exponent.toNat else x.mantissa
  let den := if 0 ≤ x.exponent then 1 else twoTo (-x.exponent).toNat
  let point := decimalPoint num den
  let (a, b) := scaled num den (count - point)
  let down := a / b
  let rest := 2 * (a - down * b)
  ⟨if b < rest ∨ (b = rest ∧ down % 2 = 1) then down + 1 else down, count, point⟩

structure RealStyle where
  /-- Numbers with a decimal exponent from here are written with an exponent. -/
  upper : Int
  /-- Numbers with a decimal exponent below this are written with an exponent. -/
  lower : Int
  infinity : String
  nan : String

/-- Reals in plain text: positional between `1e-4` and `1e16`. -/
def plainReal : RealStyle := ⟨16, -4, "inf", "nan"⟩

/-- Drops trailing zeros from a nonempty digit list, keeping one digit. -/
def trimZeros (ds : Chars) : Chars :=
  match Text.dropRightWhile (· == '0') ds with
  | [] => ['0']
  | w => w

def renderDecimal (style : RealStyle) (d : Decimal) : Chars :=
  let raw := (toString d.digits).toList
  -- rounding up may have produced one digit more
  let point := d.point + (raw.length - d.count : Int)
  let ds := trimZeros raw
  let e := point - 1
  if style.lower ≤ e ∧ e < style.upper then
    if 0 < point then
      let p := point.toNat
      let whole := ds.take p ++ List.replicate (p - ds.length) '0'
      let part := ds.drop p
      whole ++ '.' :: (if part.isEmpty then ['0'] else part)
    else '0' :: '.' :: List.replicate (-point).toNat '0' ++ ds
  else
    let head := ds.take 1
    let tail := ds.drop 1
    let mag := (toString e.natAbs).toList
    let mag := if mag.length < 2 then '0' :: mag else mag
    head ++ (if tail.isEmpty then [] else '.' :: tail) ++ 'e' :: (if e < 0 then '-' else '+') :: mag

/-- A real number in the fewest digits that read back. -/
def renderReal (style : RealStyle) (x : Float) : String :=
  match Binary.ofFloat? x with
  | none => if x.isNaN then style.nan else if x < 0.0 then "-" ++ style.infinity else style.infinity
  | some b =>
    let sign := if b.minus then "-" else ""
    if b.mantissa = 0 then sign ++ "0.0"
    else sign ++ String.ofList (renderDecimal style b.shortest)

/-- `num / den` rounded to the nearest whole number, a half to the even one. -/
def roundHalfEven : Nat :=
  let q := num / den
  let r := num % den
  if 2 * r < den then q
  else if den < 2 * r then q + 1
  else if q % 2 = 0 then q else q + 1

def fixedPlaces (places : Nat) (x : Float) : String :=
  match Binary.ofFloat? x with
  | none => if x.isNaN then "nan" else if x < 0.0 then "-inf" else "inf"
  | some b =>
    let (num, den) :=
      if 0 ≤ b.exponent then (b.mantissa * twoTo b.exponent.toNat, 1)
      else (b.mantissa, twoTo (-b.exponent).toNat)
    let n := roundHalfEven (num * tenTo places) den
    let ds := (toString n).toList
    let ds := List.replicate (places + 1 - ds.length) '0' ++ ds
    let whole := ds.take (ds.length - places)
    let part := ds.drop (ds.length - places)
    (if b.minus then "-" else "") ++ String.ofList (whole ++ (if places = 0 then [] else '.' :: part))

/-- The whole part of a finite real, toward zero. -/
def truncate? : Option Int :=
  (Binary.ofFloat? x).map fun b =>
    let n : Nat :=
      if 0 ≤ b.exponent then b.mantissa * twoTo b.exponent.toNat
      else b.mantissa / twoTo (-b.exponent).toNat
    if b.minus then -(n : Int) else n

/-- The least whole number that a finite real does not exceed. -/
def ceiling? : Option Int :=
  (Binary.ofFloat? x).map fun b =>
    let n : Int := if b.minus then -b.mantissa else b.mantissa
    if 0 ≤ b.exponent then n * twoTo b.exponent.toNat else -(-n / twoTo (-b.exponent).toNat)

/-- Scales `num / den` by `2 ^ e`. -/
def doubled (e : Int) : Nat × Nat := if 0 ≤ e then (num * twoTo e.toNat, den) else (num, den * twoTo (-e).toNat)

/-- The least number of bits of a double that is not finite. -/
def infiniteBits : Nat := 2047 * twoTo 52

/-- The double nearest to `num / den`; of two that are equally near, the even one. -/
def nearest : Float :=
  if num = 0 then 0.0
  else
    let guess : Int := 53 - ((Nat.log2 num : Int) - (Nat.log2 den : Int))
    let (n, d) := doubled num den guess
    let shift := min 1074 (if n / d < twoTo 53 then guess else guess - 1)
    let (n, d) := doubled num den shift
    let bits := (1074 - shift).toNat * twoTo 52 + roundHalfEven n d
    if infiniteBits ≤ bits then 1.0 / 0.0 else Float.ofBits bits.toUInt64

def ofWhole (n : Int) : Float :=
  let x := nearest n.natAbs 1
  if n < 0 then -x else x

/-- The double nearest to `digits · 10 ^ exponent`. -/
def ofDecimal (digits : Nat) (exponent : Int) : Float :=
  if digits = 0 then 0.0
  else if exponent > 400 then 1.0 / 0.0
  else if exponent < -(400 + (toString digits).length : Int) then 0.0
  else
    let (n, d) := scaled digits 1 exponent
    nearest n d

/-- A run of digits at the front of a text, and the rest. The run may be empty. -/
def spanDigits : Chars → List Nat × Chars
  | [] => ([], [])
  | c :: s =>
    match Text.digitValue? c with
    | some d => let (ds, rest) := spanDigits s; (d :: ds, rest)
    | none => ([], c :: s)

/-- Removes single underscores between digits; `none` when one stands elsewhere. -/
def dropUnderscores? : Chars → Option Chars
  | [] => some []
  | '_' :: _ => none
  | [c] => some [c]
  | c :: '_' :: d :: s =>
    if Text.isDecimal c && Text.isDecimal d then (dropUnderscores? (d :: s)).map (c :: ·) else none
  | [_, '_'] => none
  | c :: d :: s => (dropUnderscores? (d :: s)).map (c :: ·)

/-- An exponent part `e±digits` that is the whole rest of a text; no part is exponent zero. -/
def exponentPart? : Chars → Option Int
  | [] => some 0
  | c :: s =>
    if c == 'e' || c == 'E' then
      let (minus, rest) := takeSign s
      match spanDigits rest with
      | ([], _) => none
      | (ds, []) => some (if minus then -(ofDigits ds : Int) else ofDigits ds)
      | _ => none
    else none

/-- Reads an unsigned decimal with an optional point and exponent. -/
def readUnsigned? (s : Chars) : Option Float :=
  let (whole, rest) := spanDigits s
  let (part, rest) := match rest with
    | '.' :: r => spanDigits r
    | r => ([], r)
  if whole.isEmpty && part.isEmpty then none
  else (exponentPart? rest).map fun e => ofDecimal (ofDigits (whole ++ part)) (e - part.length)

def readReal? : Option Float := do
  let body ← dropUnderscores? (trim s.toList)
  let (minus, rest) := takeSign body
  let word := lowered (String.ofList rest)
  let x ← if word == "inf" || word == "infinity" then some (1.0 / 0.0)
    else if word == "nan" then some (0.0 / 0.0)
    else readUnsigned? rest
  return if minus then -x else x

def notReal := s!"could not convert string to float: {quoted s}"

/-- The position of a real number in the order of reals, as a whole number: both zeros are at 0. -/
def order : Int :=
  let bits := x.toBits.toNat
  let magnitude : Int := (bits % twoTo 63 : Nat)
  if bits / twoTo 63 = 1 then -magnitude else magnitude

end PatchReview.Number
