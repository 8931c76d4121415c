/-!
# Searching and cutting text

Text is handled as a list of characters: a length, a position or a cut counts code points.
The functions on `String` are the ones the rest of the library uses.
-/

namespace PatchReview

abbrev Chars := List Char

abbrev Strings := List String

abbrev Pairs := List (String × String)

namespace Text

/-!
## Halves of pairs

Some formats write a character beyond the first plane as a pair of units. A unit of a pair that stands alone is no
character. A text keeps it as a character of the last plane, which is for private use, and no bytes stand for it.
-/

/-- The unit of a pair that stands alone, as a character. -/
def unpaired (unit : Nat) : Char := Char.ofNat (0x100000 + unit)

variable (c : Char) (sep s : Chars)

def unpairedUnit? : Option Nat := if 0x10D800 ≤ c.toNat ∧ c.toNat < 0x10E000 then some (c.toNat - 0x100000) else none

def isUnpaired : Bool := (unpairedUnit? c).isSome

/-- Where the first run of units stands that no bytes stand for: first and last position. -/
def unpairedRun? : Option (Nat × Nat) :=
  let before := s.takeWhile (!isUnpaired ·)
  let run := (s.drop before.length).takeWhile isUnpaired
  if run.isEmpty then none else some (before.length, before.length + run.length - 1)

/-! ## Hexadecimal digits -/

def hexDigit? : Option Nat :=
  if '0' ≤ c ∧ c ≤ '9' then some (c.toNat - 48)
  else if 'a' ≤ c ∧ c ≤ 'f' then some (c.toNat - 87)
  else if 'A' ≤ c ∧ c ≤ 'F' then some (c.toNat - 55)
  else none

def isHex : Bool := (hexDigit? c).isSome

def isOctal : Bool := '0' ≤ c && c ≤ '7'

/-- The character that a letter after a backslash stands for. -/
def escapedLetter? : Option Char :=
  [('a', '\x07'), ('b', '\x08'), ('f', '\x0c'), ('n', '\n'), ('r', '\r'), ('t', '\t'), ('v', '\x0b'),
    ('\\', '\\')].lookup c

def valueIn (base : Nat) (cs : Chars) : Nat := cs.foldl (fun n c => base * n + (hexDigit? c).getD 0) 0

def hexValue : Chars → Nat := valueIn 16

/-! ## Parts of texts -/

/-- The rest of `s` after `p`, if `s` starts with `p`. -/
def dropLead? : Chars → Chars → Option Chars
  | [], s => some s
  | _ :: _, [] => none
  | c :: p, d :: s => if c = d then dropLead? p s else none

/-- Cuts `s` before and after the first occurrence of `sep`. -/
def breakOn? : Chars → Option (Chars × Chars)
  | [] => (dropLead? sep []).map ([], ·)
  | c :: s =>
    match dropLead? sep (c :: s) with
    | some rest => some ([], rest)
    | none => (breakOn? s).map fun (a, b) => (c :: a, b)

/-- Cuts `s` before and after the last occurrence of `sep`. -/
def breakOnLast? : Option (Chars × Chars) :=
  (breakOn? sep.reverse s.reverse).map fun (a, b) => (b.reverse, a.reverse)

/-- The pieces of `s` between occurrences of a separator that consumes at least one character.
`fuel` bounds the number of cuts; the length of `s` is always enough. -/
def piecesAux : Nat → Chars → List Chars
  | 0, s => [s]
  | fuel + 1, s =>
    match breakOn? sep s with
    | some (a, b) => a :: piecesAux fuel b
    | none => [s]

/-- The pieces of `s` between the occurrences of `sep`, left to right; `sep` is not empty. -/
def pieces : List Chars := piecesAux sep s.length s

/-- The pieces of `s` between the occurrences of one character. -/
def piecesAt (p : Char → Bool) : Chars → List Chars
  | [] => [[]]
  | c :: s =>
    if p c then [] :: piecesAt p s
    else match piecesAt p s with
      | [] => [[c]]
      | w :: ws => (c :: w) :: ws

def dropRightWhile (p : Char → Bool) (s : Chars) : Chars := (s.reverse.dropWhile p).reverse

/-- The first position at which `p` occurs in `s`. -/
def position? (p : Chars) (s : Chars) : Option Nat := (breakOn? p s).map (·.1.length)

end Text

variable (p s : String) (n : Nat)

def beginsWith : Bool := (Text.dropLead? p.toList s.toList).isSome

def finishesWith : Bool := (Text.dropLead? p.toList.reverse s.toList.reverse).isSome

def holds : Bool := (Text.breakOn? p.toList s.toList).isSome

def takeChars (s : String) : String := String.ofList (s.toList.take n)

def dropChars (s : String) : String := String.ofList (s.toList.drop n)

def dropLastChars (s : String) : String := String.ofList (s.toList.take (s.length - n))

/-- The first characters of a text; a negative number says how many to leave out at the end. -/
def leadingChars (n : Int) (s : String) : String := if 0 ≤ n then takeChars n.toNat s else dropLastChars (-n).toNat s

/-- The part of `s` after a leading `p`; `s` itself when it does not start with `p`. -/
def withoutLead : String :=
  match Text.dropLead? p.toList s.toList with
  | some r => String.ofList r
  | none => s

def cutAt (sep s : String) : Strings := (Text.pieces sep.toList s.toList).map String.ofList

def cutAtChar (c : Char) (s : String) : Strings := (Text.piecesAt (· == c) s.toList).map String.ofList

def cutOnce? (sep s : String) : Option (String × String) :=
  (Text.breakOn? sep.toList s.toList).map fun (a, b) => (String.ofList a, String.ofList b)

def cutLast? (sep s : String) : Option (String × String) :=
  (Text.breakOnLast? sep.toList s.toList).map fun (a, b) => (String.ofList a, String.ofList b)

def joinWith (sep : String) (ws : Strings) : String := String.intercalate sep ws

def substitute (old new s : String) : String := joinWith new (cutAt old s)

def occurrences : Nat := (cutAt p s).length - 1

def repeated : String := String.join (List.replicate n s)

/-- The character list of `s` filled with `c` on the left up to `width`. -/
def padLeft (c : Char) (width : Nat) (s : String) : String := String.ofList (List.replicate (width - s.length) c) ++ s

/-!
## Rules

Lines that part a text.
-/

def rule : String := repeated "=" 80

def dashes : String := repeated "-" 80

/-!
## Grouping by a key
-/

variable {α κ : Type} [BEq κ]

/-- Puts a thing into the group of its key, a new one at the end if there is none. -/
def addToGroup (key : α → κ) (groups : List (κ × List α)) (x : α) : List (κ × List α) :=
  if groups.any (·.1 == key x) then groups.map fun (k, xs) => if k == key x then (k, xs ++ [x]) else (k, xs)
  else groups ++ [(key x, [x])]

/-- Things by a key, both in the order they come. -/
def grouped (key : α → κ) (xs : List α) : List (κ × List α) := xs.foldl (addToGroup key) []

/-!
## White space and lines

The white space of the Unicode standard together with the four information separators, and the line boundaries that a
text is split at: the ASCII and Latin-1 control characters that end a line, and the two Unicode separators.
-/

namespace Text

def isBlank (c : Char) : Bool :=
  let n := c.toNat
  (9 ≤ n && n ≤ 13) || (28 ≤ n && n ≤ 32) || n == 0x85 || n == 0xa0 || n == 0x1680 ||
  (0x2000 ≤ n && n ≤ 0x200a) || n == 0x2028 || n == 0x2029 || n == 0x202f || n == 0x205f ||
  n == 0x3000

def isLineEnd (c : Char) : Bool :=
  let n := c.toNat
  (10 ≤ n && n ≤ 13) || (28 ≤ n && n ≤ 30) || n == 0x85 || n == 0x2028 || n == 0x2029

/-- The lines of a text without their ends; a carriage return and a line feed together are one end,
and an end at the very end of the text opens no further line. -/
def lines : Chars → List Chars
  | [] => []
  | '\r' :: '\n' :: s => [] :: lines s
  | c :: s =>
    if isLineEnd c then [] :: lines s
    else match lines s with
      | [] => [[c]]
      | w :: ws => (c :: w) :: ws

def strip (s : Chars) : Chars := dropRightWhile isBlank (s.dropWhile isBlank)

/-- The text cut after every line feed; the last piece may lack one. -/
def feeds : Chars → List Chars
  | [] => []
  | c :: s =>
    if c = '\n' then [c] :: feeds s
    else match feeds s with
      | [] => [[c]]
      | w :: ws => (c :: w) :: ws

/-- Every kind of line end written as a line feed: a carriage return, alone or before a line feed. -/
def unifyFeeds : Chars → Chars
  | [] => []
  | '\r' :: '\n' :: s => '\n' :: unifyFeeds s
  | c :: s => (if c = '\r' then '\n' else c) :: unifyFeeds s

/-- The words of a text: maximal runs without white space. -/
def words (s : Chars) : List Chars := (piecesAt isBlank s).filter (· ≠ [])

end Text

def strip : String := String.ofList (Text.strip s.toList)

variable (s : String)

def stripRight : String := String.ofList (Text.dropRightWhile Text.isBlank s.toList)

def stripRightOf (c : Char) (s : String) : String := String.ofList (Text.dropRightWhile (· == c) s.toList)

def stripLeftOf (c : Char) (s : String) : String := String.ofList (s.toList.dropWhile (· == c))

def linesOf : Strings := (Text.lines s.toList).map String.ofList

def feedsOf : Strings := (Text.feeds s.toList).map String.ofList

def wordsOf : Strings := (Text.words s.toList).map String.ofList

end PatchReview
