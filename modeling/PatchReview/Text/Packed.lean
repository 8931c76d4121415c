/-!
# Packed texts

Long tables are kept packed. A packed text is a number between 0 and 1, by its digits. Every bit of the text divides a
range of numbers in two, the parts being as large as the bits are likely, and the number lies in the part of the bit.
How likely a bit is was learned from the text before. Each order looks at so many of the last bytes, at the word before
the bit, or past the last bytes, and leans twice: to the bits that came after the same bytes, and to what came after the
same last bits wherever the order saw them. The leanings are weighed by how well they told the bits so far.
-/

namespace PatchReview.Text.Packed

def digits : List Char :=
  "!#$%&()*+,-./0123456789:;<=>?@ABCDEFGHIJKLMNOPQRSTUVWXYZ[]^_abcdefghijklmnopqrstuvwxyz|~".toList

def radix : Nat := 88

/-- The range at the start: six digits. -/
def fullRange : Nat := 464404086784

/-- The least range that is left as it is: five digits. -/
def leastRange : Nat := 5277319168

def slotCount : Nat := 4194301

/-- How many values the bytes have that the first orders look at: none, one, two, three and five bytes. -/
def histories : List Nat := [1, 256, 65536, 16777216, 1099511627776]

/-- The logarithm of a number, in parts of 128, straight between the powers of two. -/
def logarithm (n : Nat) : Int :=
  let power : Nat := 1 <<< n.log2
  128 * n.log2 + (n - power) * 128 / power

/-- The leanings of the chances, which are in parts of 4096. -/
def leanings : Array Int := ((List.range 4096).map fun p => logarithm (max 1 p) - logarithm (4096 - max 1 p)).toArray

def mostLeaning : Int := 1535

/-- The chances of the leanings, from the least one on: the least that leans so much. -/
def chances : Array Nat :=
  (List.range 4095).foldl (fun found i =>
    found ++ Array.replicate ((leanings.getD (i + 1) 0 + mostLeaning + 1).toNat - found.size) (i + 1)) #[]

/-- A counter is a chance in parts of 65536, with how often it was told, up to 24 times, as its rest by 256. -/
def freshCounter : Nat := 256 * 32768

def leaning (counter : Nat) : Int := if counter % 256 = 0 then 0 else leanings.getD (counter / 4096) 0

def told (bit : Bool) (counter : Nat) : Nat :=
  let p := counter / 256
  let n := counter % 256
  let p := if bit then p + (65535 - p) * 2 / (2 * n + 3) else p - p * 2 / (2 * n + 3)
  256 * p + min 24 (n + 1)

/-- Adds a bit to the last ones, of which six are kept below a one. -/
def passed (bit : Bool) (past : Nat) : Nat :=
  let next := 2 * past + bit.toNat
  if next < 128 then next else 64 + next % 64

def counterAfter (past : Nat) : Nat :=
  (List.range past.log2).foldr (fun i counter => told (past.testBit i) counter) freshCounter

/-- What was learned: by the bytes before, a counter and, as its rest by 128, the last bits; the counters of last bits,
by order; and the weights of the leanings, which add up by the bits of a byte so far and each of the last two bytes. -/
structure Learned where
  slots : Array Nat := Array.replicate slotCount (128 * freshCounter + 1)
  counters : Array Nat := ((List.range (9 * 128)).map fun i => counterAfter (i % 128)).toArray
  weights : Array Int := Array.replicate (768 * 18) 3000

namespace Learned

def weight (weights : Array Int) (p q r : Nat) : Int := weights.getD p 0 + weights.getD q 0 + weights.getD r 0

def addWeight (more : Int) (p q r : Nat) (weights : Array Int) : Array Int :=
  ((weights.modify p (· + more)).modify q (· + more)).modify r (· + more)

/-- The leanings of the orders, weighed. A context stands for what an order looks at, and `node` for the bits of the
byte so far; `k` is the place of the order's counters, and `p`, `q` and `r` are those of its weights. -/
def sum (l : Learned) (node : Nat) : List Nat → Nat → Nat → Nat → Nat → Int → Int
  | [], _, _, _, _, sum => sum
  | c :: cs, k, p, q, r, sum =>
    let slot := l.slots.getD ((c + node) % slotCount) 0
    l.sum node cs (k + 128) (p + 2) (q + 2) (r + 2) (sum + weight l.weights p q r * leaning (slot / 128)
      + weight l.weights (p + 1) (q + 1) (r + 1) * leaning (l.counters.getD (k + slot % 128) 0))

def learn (node : Nat) (bit : Bool) (miss : Int) :
    List Nat → Nat → Nat → Nat → Nat → Array Nat → Array Nat → Array Int → Learned
  | [], _, _, _, _, slots, counters, weights => ⟨slots, counters, weights⟩
  | c :: cs, k, p, q, r, slots, counters, weights =>
    let i := (c + node) % slotCount
    let slot := slots.getD i 0
    let past := slot % 128
    let counter := counters.getD (k + past) 0
    learn node bit miss cs (k + 128) (p + 2) (q + 2) (r + 2)
      (slots.setIfInBounds i (128 * told bit (slot / 128) + passed bit past))
      (counters.setIfInBounds (k + past) (told bit counter))
      (addWeight (leaning (slot / 128) * miss / 65536) p q r
        (addWeight (leaning counter * miss / 65536) (p + 1) (q + 1) (r + 1) weights))

def chance (l : Learned) (contexts : List Nat) (node q r : Nat) : Nat :=
  let lean := max (-mostLeaning) (min mostLeaning (l.sum node contexts 0 (18 * node) q r 0 / 65536))
  chances.getD (lean + mostLeaning).toNat 1

end Learned

/-- The number, from the start of the range on, the size of the range, and the digits to come. -/
structure Cursor where
  code : Nat
  range : Nat
  rest : List Nat

def Cursor.refill (c : Cursor) : Cursor :=
  if c.range < leastRange then ⟨c.code * radix + c.rest.headD 0, c.range * radix, c.rest.tail⟩ else c

/-- Reads the bits of a byte that are left. From a bit that was almost certain nothing is learned. -/
def byte (contexts : List Nat) (q r : Nat) : Nat → Nat → Cursor → Learned → Nat × Cursor × Learned
  | 0, node, c, l => (node - 256, c, l)
  | n + 1, node, c, ⟨slots, counters, weights⟩ =>
    let chance := Learned.chance ⟨slots, counters, weights⟩ contexts node q r
    let part := c.range / 4096 * chance
    let bit := decide (c.code < part)
    let miss : Int := 4096 * bit.toNat - chance
    let c := if bit then { c with range := part } else { c with code := c.code - part, range := c.range - part }
    byte contexts q r n (2 * node + bit.toNat) (Cursor.refill (Cursor.refill c))
      (if miss.natAbs ≤ 24 then ⟨slots, counters, weights⟩
        else Learned.learn node bit (24 * miss) contexts 0 (18 * node) q r slots counters weights)

/-- Reads so many bytes after the last ones, the word that they end with and the word before it. -/
def bytes : Nat → Nat → Nat → Nat → ByteArray → Cursor → Learned → ByteArray
  | 0, _, _, _, out, _, _ => out
  | n + 1, last, word, before, out, c, l =>
    let keys := histories.map (last % ·) ++ [word, 31 * word + before, last / 65536 % 65536, last / 256 % 256]
    let contexts := keys.zipIdx.map fun (key, k) => (key * 9 + k) % slotCount * 256
    let (b, c, l) := byte contexts (18 * (256 + last % 256)) (18 * (512 + last / 256 % 256)) 8 1 c l
    let last := (last * 256 + b) % 1099511627776
    if 64 ≤ b then bytes n last ((word * 271 + b) % 1000003) before (out.push b.toUInt8) c l
    else bytes n last 0 (if word = 0 then before else word) (out.push b.toUInt8) c l

def unpack (size : Nat) (packed : String) : String :=
  let ds := packed.toList.filterMap fun c => digits.idxOf? c
  let code := (ds.take 6).foldl (fun n d => n * radix + d) 0
  (String.fromUTF8? (bytes size 0 0 0 ByteArray.empty ⟨code, fullRange, ds.drop 6⟩ {})).getD ""

end PatchReview.Text.Packed
