import PatchReview.Path

/-!
# Globs

A star stands for any run of characters, a question mark for one character, and brackets for one character of a set,
or with an exclamation mark for one outside it. A path matches a pattern of several parts when its last parts match
them one by one.
-/

namespace PatchReview.Glob

structure CharSet where
  negated : Bool
  ranges : List (Char × Char)

def CharSet.has (s : CharSet) (c : Char) : Bool :=
  s.negated != s.ranges.any fun (lo, hi) => lo.toNat ≤ c.toNat && c.toNat ≤ hi.toNat

inductive Token where
  | star
  | one
  | set (s : CharSet)
  | char (c : Char)

/-- Cuts the inside of brackets at the hyphens that make ranges: a hyphen counts when at least one character
stands before it, and the next one at the earliest two characters after. -/
def rangeChunks : Nat → Chars → Nat → List Chars
  | 0, s, _ => [s]
  | fuel + 1, s, skip =>
    match (List.range s.length).find? fun k => skip ≤ k && s[k]? == some '-' with
    | none => [s]
    | some k => s.take k :: rangeChunks fuel (s.drop (k + 1)) 2

variable (s : Chars) (chunks : List Chars) (inside : Chars)

/-- Puts a hyphen that ends the inside back to the part before it. -/
def mendLast : List Chars :=
  match chunks.reverse with
  | [] :: prev :: rest => ((prev ++ ['-']) :: rest).reverse
  | _ => chunks

/-- Removes ranges that run backwards, from the last one on. -/
def dropBackward : List Chars :=
  chunks.foldr (fun chunk acc =>
    match acc with
    | [] => [chunk]
    | next :: rest =>
      match chunk.getLast?, next.head? with
      | some a, some b => if b.toNat < a.toNat then (chunk.dropLast ++ next.drop 1) :: rest else chunk :: acc
      | _, _ => chunk :: acc) []

def rangesOf : List Chars → List (Char × Char)
  | [] => []
  | [chunk] => chunk.map fun c => (c, c)
  | chunk :: next :: rest =>
    match chunk.getLast?, next with
    | some a, b :: more => (chunk.dropLast.map fun c => (c, c)) ++ (a, b) :: rangesOf (more :: rest)
    | _, _ => (chunk.map fun c => (c, c)) ++ rangesOf (next :: rest)
termination_by chunks => chunks.length

def chunksOf : List Chars :=
  if inside.contains '-' then
    dropBackward (mendLast (rangeChunks inside.length inside (if inside.head? == some '!' then 2 else 1)))
  else [inside]

/-- The set for the inside of brackets; that it is negated shows once ranges that run backwards are gone. -/
def setOf : Token :=
  match chunksOf inside with
  | ('!' :: first) :: rest => if first.isEmpty && rest.isEmpty then .one else .set ⟨true, rangesOf (first :: rest)⟩
  | chunks => .set ⟨false, rangesOf chunks⟩

/-- How many characters after an opening bracket cannot close it. -/
def lead : Chars → Nat
  | '!' :: ']' :: _ => 2
  | '!' :: _ => 1
  | ']' :: _ => 1
  | _ => 0

def afterBracket : Chars := ((s.drop (lead s)).dropWhile (· != ']')).drop 1

def inside? : Option Chars :=
  let more := s.drop (lead s)
  if more.contains ']' then some (s.take (lead s) ++ more.takeWhile (· != ']')) else none

theorem length_afterBracket_le : (afterBracket s).length ≤ s.length := by
  have h := (List.dropWhile_sublist (l := s.drop (lead s)) (· != ']')).length_le
  simp only [afterBracket, List.length_drop] at *
  omega

def parse : Chars → List Token
  | [] => []
  | c :: s =>
    if c == '*' then .star :: parse s
    else if c == '?' then .one :: parse s
    else if c == '[' then
      match inside? s with
      | some inner => setOf inner :: parse (afterBracket s)
      | none => .char c :: parse s
    else .char c :: parse s
termination_by s => s.length
decreasing_by
  all_goals
    have := length_afterBracket_le s
    simp only [List.length_cons]
    omega

def someTail (p : Chars → Bool) : Chars → Bool
  | [] => p []
  | c :: s => p (c :: s) || someTail p s

def matchTokens : List Token → Chars → Bool
  | [], s => s.isEmpty
  | .star :: ts, s => someTail (matchTokens ts) s
  | .one :: ts, s =>
    match s with
    | [] => false
    | _ :: s => matchTokens ts s
  | .set cs :: ts, s =>
    match s with
    | [] => false
    | c :: s => cs.has c && matchTokens ts s
  | .char d :: ts, s =>
    match s with
    | [] => false
    | c :: s => c == d && matchTokens ts s

def accepts (pattern s : String) : Bool := matchTokens (parse pattern.toList) s.toList

/-- Whether the last parts of a path match the parts of a pattern; an absolute pattern wants all parts. An empty
pattern is refused. -/
def matchPath (path : Path) (pattern : String) : Result Bool :=
  let pat := Path.ofString pattern
  let pats := pat.allParts
  let parts := path.allParts
  if pats.isEmpty then .error (.invalid "empty pattern")
  else if pat.isAbsolute && pat.root != path.root then .ok false
  else if pat.isAbsolute && pats.length != parts.length then .ok false
  else if parts.length < pats.length then .ok false
  else
    let pats := if pat.isAbsolute then pats.drop 1 else pats
    .ok ((parts.reverse.zip pats.reverse).all fun (s, p) => accepts p s)

end PatchReview.Glob
