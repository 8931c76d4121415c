import PatchReview.Json.Printer

/-!
# Encodings by name

Texts in UTF-8, with or without a mark at the start, in the plain part of UTF-7, in ASCII, or by a table of one byte a
character. A text is read at once or in parts; what is wrong with a part is told by its place in that part.
-/

namespace PatchReview.Encoding

/-!
## UTF-7

Bytes that are a part of a text are read: what is cut off at their end waits for the next part, unless they are the last
one. A piece that cannot be read is a misfit.
-/

open Char Text

structure Misfit where
  encoding : String
  position : Nat
  length : Nat
  reason : String

def Misfit.message (m : Misfit) (bytes : Bytes) : String :=
  let place := if m.length == 1 then
      let byte := String.ofList (hexDigits 2 (bytes.getD m.position 0).toNat)
      s!"byte 0x{byte} in position {m.position}"
    else
      let last := m.position + m.length - 1
      s!"bytes in position {m.position}-{last}"
  s!"'{m.encoding}' codec can't decode {place}: {m.reason}"

/-- The characters of a part of a text, and the bytes that wait. -/
abbrev Part := Except Misfit (Chars × Bytes)

def Part.cons (c : Char) (p : Part) : Part := p.map fun (cs, left) => (c :: cs, left)

/-- Reads UTF-7 outside of shifted runs: a character that is not ASCII is refused. -/
def utf7Part (p : Nat) : Bytes → Part
  | [] => .ok ([], [])
  | 43 :: 45 :: rest => Part.cons '+' (utf7Part (p + 2) rest)
  | b :: rest =>
    if b < 128 then Part.cons (ofNat b.toNat) (utf7Part (p + 1) rest)
    else .error ⟨"utf7", p, 1, "unexpected special character"⟩

/-!
## Encodings of one byte a character

The bytes of such an encoding stand for the characters of ASCII first, and the others for characters of its own. A byte
may have no character.
-/

open Char String

/-- Stands in a table for a byte without a character. -/
def noChar : Char := ofNat 0xFFFE

/-- The characters of the Windows encoding for the west that are not those of Latin-1: bytes 128 to 159. -/
def western : Chars := "€\ufffe‚ƒ„…†‡ˆ‰Š‹Œ\ufffeŽ\ufffe\ufffe‘’“”•–—˜™š›œ\ufffežŸ".toList

def westernChar? (b : UInt8) : Option Char :=
  if 128 ≤ b ∧ b < 160 then western[b.toNat - 128]?.filter (· != noChar) else some (ofNat b.toNat)

/-!
## Encodings by name

An encoding has many names.
-/

inductive Kind where
  | utf8
  /-- UTF-8 that may begin with a mark, unless it began already. -/
  | utf8Marked
  | utf7
  | latin1
  | ascii
  | windows

variable (name : String) (last : Bool) (b : Bytes)

/-- The plain form of a name: letters and digits in lower case, points, and one mark for what stands between them. -/
def plainName : String :=
  let step (acc : Chars × Bool) (c : Char) : Chars × Bool :=
    if c.isAlphanum || c == '.' then
      (c.toLower :: (if acc.2 && !acc.1.isEmpty then '_' :: acc.1 else acc.1), false)
    else (acc.1, true)
  ofList (name.toList.foldl step ([], false)).1.reverse

def kindNames : List (Kind × Strings) := [
  (.utf8, ["utf_8", "cp65001", "u8", "utf", "utf8", "utf8_ucs2", "utf8_ucs4"]),
  (.utf8Marked, ["utf_8_sig"]),
  (.utf7, ["utf_7", "u7", "unicode_1_1_utf_7", "utf7"]),
  (.latin1, ["latin_1", "8859", "iso8859", "iso8859_1", "iso_8859_1", "l1", "latin", "latin1"]),
  (.ascii, ["ascii", "646", "us", "us_ascii"]),
  (.windows, ["cp1252", "1252", "windows_1252"])]

/-- The encoding of a name; case and the marks between words do not count. -/
def Kind.ofName? : Option Kind :=
  let s := plainName name
  (kindNames.find? fun (_, names) => names.contains s).map (·.1)

structure Decoded where
  chars : Chars
  left : Bytes
  next : Kind

def unreadable (p : Part) (next : Kind) : Result Decoded :=
  match p with
  | .ok (chars, left) => .ok ⟨chars, left, next⟩
  | .error m => .error (.invalid (m.message b))

def utf8Part : Result Decoded := do
  let items := Utf8.scan b
  let (items, waiting) := match last, items.getLast? with
    | false, some (.flaw n .ending) => (items.dropLast, n)
    | _, _ => (items, 0)
  match Utf8.decodeItems b items 0 [] with
  | .ok chars => return ⟨chars, b.drop (b.length - waiting), .utf8⟩
  | .error e => throw (.undecodable e)

/-- Reads a part of one byte a character; a byte without one is refused. -/
def bytePart (encoding reason : String) (char? : UInt8 → Option Char) (p : Nat) : Bytes → Part
  | [] => .ok ([], [])
  | b :: rest =>
    match char? b with
    | some c => Part.cons c (bytePart encoding reason char? (p + 1) rest)
    | none => .error ⟨encoding, p, 1, reason⟩

def Kind.decodePart (k : Kind) (last : Bool) (b : Bytes) : Result Decoded :=
  match k with
  | utf8 => utf8Part last b
  | utf8Marked =>
    let mark : Bytes := [0xEF, 0xBB, 0xBF]
    if b.take 3 == mark then utf8Part last (b.drop 3)
    else if b.length < 3 && b == mark.take b.length then .ok ⟨[], b, utf8Marked⟩
    else utf8Part last b
  | utf7 => unreadable b (utf7Part 0 b) utf7
  | latin1 => .ok ⟨b.map fun x => ofNat x.toNat, [], latin1⟩
  | ascii =>
    unreadable b (bytePart "ascii" "ordinal not in range(128)"
      (fun x => if x < 128 then some (ofNat x.toNat) else none) 0 b) ascii
  | windows => unreadable b (bytePart "charmap" "character maps to <undefined>" westernChar? 0 b) windows

def Kind.decode (k : Kind) (b : Bytes) : Result String := (k.decodePart true b).map fun d => ofList d.chars

def Kind.decodeParts (size : Nat) : Nat → Kind → Bytes → Bytes → Result Chars
  | 0, _, _, _ => .ok []
  | fuel + 1, k, waiting, b => do
    if b.isEmpty then return (← k.decodePart true waiting).chars
    let d ← k.decodePart false (waiting ++ b.take size)
    return d.chars ++ (← decodeParts size fuel d.next d.left (b.drop size))

def partSize : Nat := 8192

def named (name : Json) : Result Kind :=
  match name with
  | .null => .ok .utf8
  | .text s =>
    if s.toList.any (·.toNat == 0) then .error (.invalid "embedded null character")
    else if s == "locale" then .ok .utf8
    else match Kind.ofName? s with
      | some k => .ok k
      | none => .error (.unknownEncoding s)
  | v => .error (.shape s!"open() argument 'encoding' must be str or None, not {v.kindName}")

def decode (name : Json) (b : Bytes) : Result String := do (← named name).decode b

/-- The text of bytes in an encoding given by name, read line by line. -/
def decodeByLines (name : Json) (b : Bytes) : Result String := do
  return ofList (← (← named name).decodeParts partSize (b.length / partSize + 2) [] b)

end PatchReview.Encoding
