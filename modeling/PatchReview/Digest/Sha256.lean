import PatchReview.Encoding.Utf8

/-!
# SHA-256

The digest of bytes by the Secure Hash Standard: padding to blocks of 64 bytes, and a compression of 64
rounds a block over a window of the last sixteen schedule words.
-/

namespace PatchReview

namespace Digest

def bigEndian : Nat → Nat → Bytes
  | 0, _ => []
  | width + 1, n => bigEndian width (n / 256) ++ [UInt8.ofNat n]

def blocks : Bytes → List Bytes
  | [] => []
  | b :: rest => (b :: rest.take 63) :: blocks (rest.drop 63)
termination_by bs => bs.length
decreasing_by
  simp only [List.length_cons, List.length_drop]
  omega

/-- The bytes that fill a message up to eight bytes before a block's end: one bit, then zeros. -/
def filler (size : Nat) : Bytes := 0x80 :: List.replicate ((119 - size % 64) % 64) 0

def hex (bytes : Bytes) : String := String.ofList (bytes.flatMap fun b => Text.hexDigits 2 b.toNat)

end Digest

namespace Sha256

structure Words where
  a : UInt32
  b : UInt32
  c : UInt32
  d : UInt32
  e : UInt32
  f : UInt32
  g : UInt32
  h : UInt32

def initial : Words := ⟨0x6a09e667, 0xbb67ae85, 0x3c6ef372, 0xa54ff53a, 0x510e527f, 0x9b05688c, 0x1f83d9ab, 0x5be0cd19⟩

def constants : List UInt32 :=
  [0x428a2f98, 0x71374491, 0xb5c0fbcf, 0xe9b5dba5, 0x3956c25b, 0x59f111f1, 0x923f82a4, 0xab1c5ed5,
    0xd807aa98, 0x12835b01, 0x243185be, 0x550c7dc3, 0x72be5d74, 0x80deb1fe, 0x9bdc06a7, 0xc19bf174,
    0xe49b69c1, 0xefbe4786, 0x0fc19dc6, 0x240ca1cc, 0x2de92c6f, 0x4a7484aa, 0x5cb0a9dc, 0x76f988da,
    0x983e5152, 0xa831c66d, 0xb00327c8, 0xbf597fc7, 0xc6e00bf3, 0xd5a79147, 0x06ca6351, 0x14292967,
    0x27b70a85, 0x2e1b2138, 0x4d2c6dfc, 0x53380d13, 0x650a7354, 0x766a0abb, 0x81c2c92e, 0x92722c85,
    0xa2bfe8a1, 0xa81a664b, 0xc24b8b70, 0xc76c51a3, 0xd192e819, 0xd6990624, 0xf40e3585, 0x106aa070,
    0x19a4c116, 0x1e376c08, 0x2748774c, 0x34b0bcb5, 0x391c0cb3, 0x4ed8aa4a, 0x5b9cca4f, 0x682e6ff3,
    0x748f82ee, 0x78a5636f, 0x84c87814, 0x8cc70208, 0x90befffa, 0xa4506ceb, 0xbef9a3f7, 0xc67178f2]

def rotate (x : UInt32) (n : UInt32) : UInt32 := (x >>> n) ||| (x <<< (32 - n))

/-- One round: the working words, and the window whose first word is used. -/
def round (s : Words × List UInt32) (k : UInt32) : Words × List UInt32 :=
  let (v, w) := s
  let x := w.getD 0 0
  let s1 := rotate v.e 6 ^^^ rotate v.e 11 ^^^ rotate v.e 25
  let choice := (v.e &&& v.f) ^^^ ((~~~ v.e) &&& v.g)
  let t1 := v.h + s1 + choice + k + x
  let s0 := rotate v.a 2 ^^^ rotate v.a 13 ^^^ rotate v.a 22
  let majority := (v.a &&& v.b) ^^^ (v.a &&& v.c) ^^^ (v.b &&& v.c)
  let w1 := w.getD 1 0
  let w14 := w.getD 14 0
  let m0 := rotate w1 7 ^^^ rotate w1 18 ^^^ (w1 >>> 3)
  let m1 := rotate w14 17 ^^^ rotate w14 19 ^^^ (w14 >>> 10)
  (⟨t1 + s0 + majority, v.a, v.b, v.c, v.d + t1, v.e, v.f, v.g⟩, w.drop 1 ++ [x + m0 + w.getD 9 0 + m1])

def blockWords : Bytes → List UInt32
  | a :: b :: c :: d :: rest =>
    UInt32.ofNat (((a.toNat * 256 + b.toNat) * 256 + c.toNat) * 256 + d.toNat) :: blockWords rest
  | _ => []

def compress (v : Words) (block : Bytes) : Words :=
  let (r, _) := constants.foldl round (v, blockWords block)
  ⟨v.a + r.a, v.b + r.b, v.c + r.c, v.d + r.d, v.e + r.e, v.f + r.f, v.g + r.g, v.h + r.h⟩

def padded (bytes : Bytes) : Bytes := bytes ++ Digest.filler bytes.length ++ Digest.bigEndian 8 (8 * bytes.length)

def Words.bytes (v : Words) : Bytes :=
  [v.a, v.b, v.c, v.d, v.e, v.f, v.g, v.h].flatMap fun x => Digest.bigEndian 4 x.toNat

def digest (bytes : Bytes) : Bytes := ((Digest.blocks (padded bytes)).foldl compress initial).bytes

def hexDigest (bytes : Bytes) : String := Digest.hex (digest bytes)

end Sha256

end PatchReview

namespace PatchReview.Hmac

/-!
## Keyed digests

A message digested under a key: an inner digest with one pad, an outer digest with another. A key longer than a
block is digested first.
-/

def blockKey (key : Bytes) : Bytes :=
  let k := if 64 < key.length then Sha256.digest key else key
  k ++ List.replicate (64 - k.length) 0

def digest (key message : Bytes) : Bytes :=
  let k := blockKey key
  let inner := Sha256.digest (k.map (· ^^^ 0x36) ++ message)
  Sha256.digest (k.map (· ^^^ 0x5c) ++ inner)

def hexDigest (key message : Bytes) : String := Digest.hex (digest key message)

end PatchReview.Hmac
