import PatchReview.Number.Real

/-!
# Numbers that look random

The generator with a period of 2^19937 − 1: 624 words that a seed fills and that are mixed a block at a time. A seed
always gives the same numbers.
-/

namespace PatchReview.Number.Twister

def size : Nat := 624

variable (state : Array UInt32) (seed : Nat)

def word (i : Nat) : UInt32 := state.getD i 0

def folded (x : UInt32) : UInt32 := x ^^^ (x >>> 30)

def ofWord (seed : UInt32) : Array UInt32 :=
  (List.range (size - 1)).foldl (fun state i =>
    state.push (1812433253 * folded (word state i) + UInt32.ofNat (i + 1))) #[seed]

/-- Sets a word and moves on; the first word follows the last one. -/
def place (i : Nat) (x : UInt32) : Array UInt32 × Nat :=
  let state := state.setIfInBounds i x
  if size ≤ i + 1 then (state.setIfInBounds 0 (word state (size - 1)), 1) else (state, i + 1)

def digits : Nat → Nat → List UInt32
  | 0, _ => []
  | fuel + 1, n => UInt32.ofNat n :: if n / twoTo 32 = 0 then [] else digits fuel (n / twoTo 32)

def ofSeed : Array UInt32 :=
  let key := (digits (seed + 1) seed).toArray
  let start := (ofWord 19650218, 1)
  let (state, i) := (List.range (max size key.size)).foldl (fun (state, i) k =>
    let j := k % key.size
    place state i ((word state i ^^^ (folded (word state (i - 1)) * 1664525)) + word key j + UInt32.ofNat j)) start
  let (state, _) := (List.range (size - 1)).foldl (fun (state, i) _ =>
    place state i ((word state i ^^^ (folded (word state (i - 1)) * 1566083941)) - UInt32.ofNat i)) (state, i)
  state.setIfInBounds 0 0x80000000

def mixed : Array UInt32 :=
  (List.range size).foldl (fun state i =>
    let y := (word state i &&& 0x80000000) ||| (word state ((i + 1) % size) &&& 0x7fffffff)
    let odd : UInt32 := if y &&& 1 == 1 then 0x9908b0df else 0
    state.setIfInBounds i (word state ((i + 397) % size) ^^^ (y >>> 1) ^^^ odd)) state

def tempered (y : UInt32) : UInt32 :=
  let y := y ^^^ (y >>> 11)
  let y := y ^^^ ((y <<< 7) &&& 0x9d2c5680)
  let y := y ^^^ ((y <<< 15) &&& 0xefc60000)
  y ^^^ (y >>> 18)

def numbers : List UInt32 := ((mixed (ofSeed seed)).map tempered).toList

def width (n : Nat) : Nat := if n = 0 then 0 else Nat.log2 n + 1

/-- A number below `n`: the first one of a seed whose leading digits are. -/
def below (seed n : Nat) : Nat :=
  let leading (x : UInt32) : Nat := x.toNat / twoTo (32 - width n)
  (((numbers seed).map leading).find? (· < n)).getD 0

end PatchReview.Number.Twister
