import PatchReview.Text.Case

/-!
# UTF-8

Bytes are cut into items: a character, or a faulty piece, which is the longest start of a character that
the bytes allow. Reading is strict, or drops faulty pieces, or puts U+FFFD for each.
-/

namespace PatchReview

open String

abbrev Bytes := List UInt8

def utf8 (s : String) : Bytes := s.toUTF8.toList

namespace Utf8

inductive Flaw where
  | start
  | continuation
  | ending

inductive Item where
  | char (c : Char)
  | flaw (length : Nat) (cause : Flaw)

def between (lo hi b : UInt8) : Bool := decide (lo ≤ b ∧ b ≤ hi)

variable (bytes : Bytes) (b : UInt8)

def low : Nat := b.toNat % 64

/-- How many bytes follow a first byte, the bounds of the second one, and the bits the first one gives;
`none` for a byte that starts no character. -/
def lead? : Option (Nat × UInt8 × UInt8 × Nat) :=
  if b < 0xC2 then none
  else if b < 0xE0 then some (1, 0x80, 0xBF, b.toNat - 0xC0)
  else if b = 0xE0 then some (2, 0xA0, 0xBF, 0)
  else if b = 0xED then some (2, 0x80, 0x9F, 13)
  else if b < 0xF0 then some (2, 0x80, 0xBF, b.toNat - 0xE0)
  else if b = 0xF0 then some (3, 0x90, 0xBF, 0)
  else if b < 0xF4 then some (3, 0x80, 0xBF, b.toNat - 0xF0)
  else if b = 0xF4 then some (3, 0x80, 0x8F, 4)
  else none

/-- Takes `n` more continuation bytes, of which the first lies between the bounds. `used` counts the
bytes taken before. -/
def follow : Nat → UInt8 → UInt8 → Nat → Nat → Bytes → Item
  | 0, _, _, value, _, _ => .char (Char.ofNat value)
  | _ + 1, _, _, _, used, [] => .flaw used .ending
  | n + 1, lo, hi, value, used, b :: rest =>
    if between lo hi b then follow n 0x80 0xBF (value * 64 + low b) (used + 1) rest
    else .flaw used .continuation

/-- The item at the front, and how many bytes beyond the first it takes. -/
def front (rest : Bytes) : Item × Nat :=
  if b < 0x80 then (.char (Char.ofNat b.toNat), 0)
  else match lead? b with
    | none => (.flaw 1 .start, 0)
    | some (n, lo, hi, value) =>
      match follow n lo hi value 1 rest with
      | .char c => (.char c, n)
      | .flaw used cause => (.flaw used cause, used - 1)

def scan : Bytes → List Item
  | [] => []
  | b :: rest =>
    let (item, n) := front b rest
    item :: scan (rest.drop n)
termination_by bs => bs.length
decreasing_by
  simp only [List.length_cons, List.length_drop]
  omega

structure DecodeError where
  position : Nat
  length : Nat
  first : UInt8
  cause : Flaw

def Flaw.message : Flaw → String
  | .start => "invalid start byte"
  | .continuation => "invalid continuation byte"
  | .ending => "unexpected end of data"

def DecodeError.message (e : DecodeError) : String :=
  if e.length = 1 then
    let byte := ofList (Text.hexDigits 2 e.first.toNat)
    s!"'utf-8' codec can't decode byte 0x{byte} in position {e.position}: {e.cause.message}"
  else
    let last := e.position + e.length - 1
    s!"'utf-8' codec can't decode bytes in position {e.position}-{last}: {e.cause.message}"

def decodeItems : List Item → Nat → Chars → Except DecodeError Chars
  | [], _, acc => .ok acc.reverse
  | .char c :: rest, p, acc => decodeItems rest (p + c.utf8Size) (c :: acc)
  | .flaw n cause :: _, p, _ => .error ⟨p, n, bytes.getD p 0, cause⟩

def decode : Except DecodeError String := (decodeItems bytes (scan bytes) 0 []).map ofList

def decodeReplacing : String :=
  ofList <| (scan bytes).map fun
    | .char c => c
    | .flaw _ _ => Char.ofNat 0xFFFD

def decodeDropping : String :=
  ofList <| (scan bytes).filterMap fun
    | .char c => some c
    | .flaw _ _ => none

end Utf8

end PatchReview
