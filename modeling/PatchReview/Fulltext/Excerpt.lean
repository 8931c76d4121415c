import PatchReview.Text.Naming

/-!
# Excerpts

The excerpt of a column is a window of ten words, chosen so that many phrases of the query stand in it, with their words
in brackets. Text that is copied ends at a null character.
-/

namespace PatchReview.Fulltext

/-!
## Queries over words

A query is made of phrases, which are words in a row. Phrases may have to stand near each other, in some columns, or at
the front of a column. `NOT` binds tighter than `AND`, and `AND` tighter than `OR`; phrases that follow each other must
all be there.

```
either   ::= part (operator part)*
part     ::= "(" either ")" | columns ":" "(" either ")" | group+
group    ::= [columns ":"] near
columns  ::= ["-"] text | ["-"] "{" text+ "}"
near     ::= phrase | "^" phrase | "NEAR" "(" phrase+ ["," number] ")"
phrase   ::= text ["*"] ("+" text ["*"])*
```
-/

open Text

/-!
## Letters of words

Every character that is no separator belongs to a word. Words are compared by a key in which a letter stands without its
case and without its accent.
-/

/-- Code points for private use, and those that have a character only since the words of the index were laid down. -/
def newcomers := codeRanges
  "20ba-20cf 23f4-23ff e000-f8ff 1f321-1f32f 1f336 1f37d-1f37f 1f394-1f39f 1f3c5 1f3cb-1f3df 1f3f1-1f3ff 1f43f 1f441
    1f4f8 1f4fd-1f4ff 1f53e-1f53f 1f544-1f54f 1f568-1f5fa 1f641-1f644 1f650-1f67f 1f6c6-1f6ff 1f774-1ffff"

/-- Marks above and below a letter that do not count in a word. -/
def looseMarks := codeRanges "300-304 306-30c 30f 311 31b 323-328 32d-32e 330-331"

variable (s : String) (c : Char) (room : Nat)

def isAccent : Bool := 128 ≤ c.toNat && listed looseMarks c

def isSeparator : Bool := !isAlphanumeric c && !isAccent c && !listed newcomers c

/-- A letter in the form that words are compared in: small, and without its accent if that is the only one. -/
def foldLetter : Char :=
  if c.toNat < 128 then c.toLower
  else
    let small := if c == 'ı' then c else lowerChar (upperChar c)
    match accents.findSome? (·.taken? small) with
    | some base => if base.toNat < 128 then base.toLower else small
    | none => small

/-!
## Words of a text

A word is a run of characters that are no separators. An accent belongs to the word it stands in, and begins none.
-/

structure Word where
  start : Nat
  stop : Nat
  key : String
  /-- What stands between the word and the one before, last character first. -/
  gap : Chars

structure Reading where
  done : List Word := []
  start : Nat := 0
  /-- The letters so far, last first; none between words. -/
  letters : Option Chars := none
  gap : Chars := []
  here : Nat := 0

def Reading.close (r : Reading) : Reading :=
  match r.letters with
  | some cs => { r with
      done := ⟨r.start, r.here, String.ofList cs.reverse, r.gap⟩ :: r.done, letters := none, gap := [] }
  | none => r

def Reading.separate (r : Reading) (c : Char) : Reading :=
  let r := r.close
  { r with gap := c :: r.gap }

def Reading.step (r : Reading) (c : Char) : Reading :=
  let r := match r.letters with
    | none =>
      if isSeparator c || isAccent c then r.separate c
      else { r with start := r.here, letters := some [foldLetter c] }
    | some cs =>
      if isAccent c then r
      else if isSeparator c then r.separate c
      else { r with letters := some (foldLetter c :: cs) }
  { r with here := r.here + 1 }

def wordsIn : List Word := (s.toList.foldl Reading.step {}).close.done.reverse

def keysIn : Strings := (wordsIn s).map (·.key)

structure Term where
  key : String
  leading : Bool := false

structure Phrase where
  terms : List Term
  first : Bool := false

structure Near where
  phrases : List Phrase
  distance : Nat := 10
  columns : Option (List Nat) := none

def Near.isEmpty (n : Near) : Bool := n.phrases.all (·.terms.isEmpty)

inductive Query where
  | near (n : Near)
  | both (a b : Query)
  | either (a b : Query)
  | without (a b : Query)

namespace Query

def isEmpty : Query → Bool
  | near n => n.isEmpty
  | _ => false

/-- How far a query is nested, where parts joined by one operator count once. -/
def height : Query → Nat
  | near _ => 0
  | both a b => max (a.height + if a matches both .. then 0 else 1) (b.height + if b matches both .. then 0 else 1)
  | either a b => max (a.height + if a matches either .. then 0 else 1) (b.height + if b matches either .. then 0 else 1)
  | without a b => max a.height b.height + 1

def within (columns : List Nat) : Query → Query
  | near n => near { n with columns := some (match n.columns with
      | some cs => cs.filter columns.contains
      | none => columns) }
  | both a b => both (a.within columns) (b.within columns)
  | either a b => either (a.within columns) (b.within columns)
  | without a b => without (a.within columns) (b.within columns)

/-- Puts phrases after a query. Phrases without a word change nothing, and give way to others. -/
def followedBy : Query → Query → Query
  | both a b, q => if q.isEmpty then both a b else if b.isEmpty then both a q else both (both a b) q
  | p, q => if q.isEmpty then p else if p.isEmpty then q else both p q

end Query

inductive Operator where
  | or
  | and
  | not

def Operator.strength : Operator → Nat
  | or => 0
  | and => 1
  | not => 2

def Operator.join : Operator → Query → Query → Query
  | or => .either
  | and => .both
  | not => .without

inductive Mark where
  | word (s : String)
  | quote (s : String)
  | operator (o : Operator)
  | left
  | right
  | leftBrace
  | rightBrace
  | plus
  | minus
  | star
  | caret
  | comma
  | colon

def Mark.ofChar? : Option Mark :=
  [('(', left), (')', right), ('\x7b', leftBrace), ('\x7d', rightBrace), ('+', plus), ('-', minus), ('*', star),
    ('^', caret), (',', comma), (':', colon)].lookup c

def Mark.ofWord : Mark :=
  match s with
  | "OR" => operator .or
  | "AND" => operator .and
  | "NOT" => operator .not
  | s => word s

def isBareWord : Bool := c.isAlphanum || c == '_' || 127 < c.toNat || c.toNat == 0x1a

/-- The inside of a quoted text, in which a doubled quote stands for one, and the rest. -/
def quoteBody : Chars → Chars → Option (Chars × Chars)
  | acc, '"' :: '"' :: rest => quoteBody ('"' :: acc) rest
  | acc, '"' :: rest => some (acc.reverse, rest)
  | acc, c :: rest => quoteBody (c :: acc) rest
  | _, [] => none

def marks : Nat → Chars → Option (List Mark)
  | 0, _ => none
  | _, [] => some []
  | n + 1, c :: rest =>
    if c == ' ' || c == '\t' || c == '\n' || c == '\r' then marks n rest
    else if c == '"' then do
      let (body, rest) ← quoteBody [] rest
      return .quote (String.ofList body) :: (← marks n rest)
    else if isBareWord c then
      let word := String.ofList (c :: rest.takeWhile isBareWord)
      (marks n (rest.dropWhile isBareWord)).map (.ofWord word :: ·)
    else do
      let m ← Mark.ofChar? c
      return m :: (← marks n rest)

def textMark : List Mark → Option (String × List Mark)
  | .word s :: rest | .quote s :: rest => some (s, rest)
  | _ => none

def starMark : List Mark → Bool × List Mark
  | .star :: rest => (true, rest)
  | rest => (false, rest)

def termsOf (leading : Bool) : List Term :=
  match (keysIn s).reverse with
  | [] => []
  | last :: before => (before.map fun k => ⟨k, false⟩).reverse ++ [⟨last, leading⟩]

/-- The most symbols that are kept in mind before they are joined. A reader is given the room that is left. -/
def roomLimit : Nat := 99

def heightLimit : Nat := 256

def phraseTail : Nat → List Term → List Mark → Option (Phrase × List Mark)
  | 0, _, _ => none
  | n + 1, terms, .plus :: rest => do
    guard (4 ≤ room)
    let (s, rest) ← textMark rest
    let (leading, rest) := starMark rest
    phraseTail n (terms ++ termsOf s leading) rest
  | _, terms, rest => some (⟨terms, false⟩, rest)

def readPhrase (ms : List Mark) : Option (Phrase × List Mark) := do
  guard (2 ≤ room)
  let (s, rest) ← textMark ms
  let (leading, rest) := starMark rest
  phraseTail room (rest.length + 1) (termsOf s leading) rest

def addPhrase (ps : List Phrase) (p : Phrase) : List Phrase :=
  match ps.getLast? with
  | none => [p]
  | some q =>
    if p.terms.isEmpty then ps
    else if q.terms.isEmpty then ps.dropLast ++ [p]
    else ps ++ [p]

def readPhrases : Nat → List Phrase → List Mark → Option (List Phrase × List Mark)
  | 0, _, _ => none
  | n + 1, ps, ms =>
    match textMark ms with
    | none => some (ps, ms)
    | some _ => do
      let (p, rest) ← readPhrase (if ps.isEmpty then room else room - 1) ms
      readPhrases n (addPhrase ps p) rest

def distanceOf? : Option Nat :=
  s.toList.foldlM (fun n c =>
    if c.isDigit then some (if n < 214748363 then n * 10 + (c.toNat - 48) else n) else none) 0

def readNear (ms : List Mark) : Option (Near × List Mark) :=
  match ms with
  | .caret :: rest => do
    let (p, rest) ← readPhrase (room - 1) rest
    return ({ phrases := [{ p with first := true }] }, rest)
  | .word "NEAR" :: .left :: rest => do
    guard (5 ≤ room)
    let (ps, rest) ← readPhrases (room - 2) (rest.length + 1) [] rest
    guard (!ps.isEmpty)
    match rest with
    | .right :: rest => return ({ phrases := ps }, rest)
    | .comma :: .word s :: .right :: rest => return ({ phrases := ps, distance := ← distanceOf? s }, rest)
    | _ => none
  | _ => do
    let (p, rest) ← readPhrase room ms
    return ({ phrases := [p] }, rest)

def columns : List String := ["path", "lang", "content", "blob_hash"]

/-- The number of a column, whatever the case of its letters. -/
def columnNumber? : Option Nat := columns.findIdx? (· == String.ofList (s.toList.map Char.toLower))

def otherColumns (cs : List Nat) : List Nat := (List.range columns.length).filter (!cs.contains ·)

/-- Reads the columns in front of a part, with the colon; none when no columns stand there. -/
def readColumns (ms : List Mark) : Option (Option (List Nat) × List Mark) :=
  let names (rest : List Mark) : Option (List Nat × List Mark) :=
    match textMark rest, rest with
    | some (s, rest), _ => do return ([← columnNumber? s], rest)
    | none, .leftBrace :: rest => do
      let texts := rest.takeWhile fun m => (textMark [m]).isSome
      let cs ← texts.mapM fun m => do columnNumber? (← textMark [m]).1
      guard (!cs.isEmpty)
      match rest.drop texts.length with
      | .rightBrace :: rest => return (cs, rest)
      | _ => none
    | _, _ => none
  let colon {α : Type} (cs : α) : List Mark → Option (α × List Mark)
    | .colon :: rest => some (cs, rest)
    | _ => none
  match ms with
  | .minus :: rest => do
    let (cs, rest) ← names rest
    colon (some (otherColumns cs)) rest
  | .leftBrace :: _ => do
    let (cs, rest) ← names ms
    colon (some cs) rest
  | .word _ :: .colon :: _ | .quote _ :: .colon :: _ => do
    let (cs, rest) ← names ms
    colon (some cs) rest
  | _ => some (none, ms)

def startsGroup : List Mark → Bool
  | .word _ :: _ | .quote _ :: _ | .minus :: _ | .leftBrace :: _ | .caret :: _ => true
  | _ => false

def readGroup (ms : List Mark) : Option (Query × List Mark) := do
  match ← readColumns ms with
  | (some cs, rest) =>
    let (n, rest) ← readNear (room - 2) rest
    return ((Query.near n).within cs, rest)
  | (none, rest) =>
    let (n, rest) ← readNear room rest
    return (.near n, rest)

/-- Reads further phrases that must be there too. -/
def readGroups : Nat → Query → List Mark → Option (Query × List Mark)
  | 0, _, _ => none
  | n + 1, q, ms =>
    if startsGroup ms then do
      let (p, rest) ← readGroup (room - 1) ms
      readGroups n (q.followedBy p) rest
    else some (q, ms)

/-- Joins the parts that wait for an operator at least as tight, and the last part. -/
def settle (strength : Nat) : List (Query × Operator) → Query → List (Query × Operator) × Query
  | (p, o) :: waiting, q =>
    if strength ≤ o.strength then settle strength waiting (o.join p q) else ((p, o) :: waiting, q)
  | [], q => ([], q)

mutual

def readPart : Nat → Nat → List Mark → Option (Query × List Mark)
  | 0, _, _ => none
  | n + 1, room, .left :: rest => do
    guard (1 ≤ room)
    let (q, rest) ← readJoined n (room - 1) [] rest
    match rest with
    | .right :: rest => return (q, rest)
    | _ => none
  | n + 1, room, ms => do
    match ← readColumns ms with
    | (some cs, .left :: rest) =>
      guard (3 ≤ room)
      let (q, rest) ← readJoined n (room - 3) [] rest
      match rest with
      | .right :: rest => return (q.within cs, rest)
      | _ => none
    | _ =>
      let (q, rest) ← readGroup room ms
      readGroups room n q rest

/-- Reads parts joined by operators; some parts wait for what comes, the last one first. -/
def readJoined : Nat → Nat → List (Query × Operator) → List Mark → Option (Query × List Mark)
  | 0, _, _, _ => none
  | n + 1, room, waiting, ms => do
    let (q, rest) ← readPart n (room - 2 * waiting.length) ms
    match rest with
    | .operator o :: rest =>
      let (waiting, q) := settle o.strength waiting q
      readJoined n room ((q, o) :: waiting) rest
    | rest => return ((settle 0 waiting q).2, rest)

end

def Query.ofText? : Option Query := do
  let cs := s.toList.takeWhile (·.toNat != 0)
  let ms ← marks (cs.length + 1) cs
  let (q, rest) ← readJoined (2 * ms.length + 2) roomLimit [] ms
  guard (rest.isEmpty && q.height ≤ heightLimit)
  return q

/-!
## Matching a query

A row is a list of columns. A place is a word of a column; places are numbered through the columns, so that those of
two columns are far apart. A match of a phrase is a place where its words stand one after the other.
-/

def firstPlace (column : Nat) : Nat := column * 4294967296

abbrev Row := List Strings

def Term.accepts (t : Term) (key : String) : Bool := if t.leading then beginsWith t.key key else t.key == key

def standsAt : List Term → Strings → Bool
  | [], _ => true
  | _ :: _, [] => false
  | t :: ts, k :: ks => t.accepts k && standsAt ts ks

def placesFrom (ts : List Term) : Nat → Strings → List Nat
  | _, [] => []
  | n, k :: ks =>
    let rest := placesFrom ts (n + 1) ks
    if standsAt ts (k :: ks) then n :: rest else rest

def Phrase.placesIn (p : Phrase) (column : Nat) (keys : Strings) : List Nat :=
  let start := firstPlace column
  if p.terms.isEmpty then []
  else if p.first then (if standsAt p.terms keys then [start] else [])
  else placesFrom p.terms start keys

def Phrase.places (p : Phrase) (columns : Option (List Nat)) (row : Row) : List Nat :=
  row.zipIdx.flatMap fun (keys, i) => if columns.all (·.contains i) then p.placesIn i keys else []

/-- The places of a phrase that are still ahead, and those that were kept, last first. -/
structure Track where
  size : Nat
  ahead : List Nat
  kept : List Nat := []

/-- Leaves out the places below some number; none when no place is left. -/
def Track.from? (t : Track) (least : Int) : Option Track :=
  match t.ahead.dropWhile fun (n : Nat) => decide ((n : Int) < least) with
  | [] => none
  | ahead => some { t with ahead }

def Track.here (t : Track) : Nat := t.ahead.headD 0

/-- Brings the tracks within reach of the greatest place, one after the other. The answer has the greatest place then,
and whether all were within reach before. -/
def reach (distance : Nat) : List Track → Nat → Option (List Track × Nat × Bool)
  | [], greatest => some ([], greatest, true)
  | t :: ts, greatest => do
    let least : Int := (greatest : Int) - t.size - distance
    let near := decide (least ≤ t.here) && decide (t.here ≤ greatest)
    let t ← t.from? least
    let (ts, greatest, all) ← reach distance ts (max greatest t.here)
    return (t :: ts, greatest, near && all)

/-- Moves the tracks until their places are within reach of each other. -/
def meet (distance : Nat) : Nat → List Track → Nat → Option (List Track)
  | 0, _, _ => none
  | n + 1, ts, greatest => do
    let (ts, greatest, all) ← reach distance ts greatest
    if all then some ts else meet distance n ts greatest

def Track.keep (t : Track) : Track := if t.kept.head? == some t.here then t else { t with kept := t.here :: t.kept }

def soonest (ts : List Track) : Nat :=
  let next := ts.map fun t => (t.ahead.drop 1).head?
  let before : Option Nat → Option Nat → Bool
    | some a, some b => a < b
    | some _, none => true
    | none, _ => false
  (next.zipIdx.foldl (fun best (x, i) => match best with
    | none => some (x, i)
    | some (y, j) => if before x y then some (x, i) else some (y, j)) none).elim 0 (·.2)

/-- Keeps the places of phrases that stand near each other. -/
def meetings (distance : Nat) : Nat → List Track → List Track
  | 0, ts => ts
  | n + 1, ts =>
    match meet distance (2 * n + 4) ts ((ts.head?.map Track.here).getD 0) with
    | none => ts
    | some ts =>
      let ts := ts.map Track.keep
      let i := soonest ts
      let moved := ts.zipIdx.map fun (t, j) => if i == j then { t with ahead := t.ahead.drop 1 } else t
      if moved.any (·.ahead.isEmpty) then moved else meetings distance n moved

/-- The places of phrases that all stand in a row, those near each other only. -/
def Near.kept (q : Near) (found : List (Phrase × List Nat)) : List (Phrase × List Nat) :=
  let total := found.foldl (fun n x => n + x.2.length) 0
  let ts := meetings q.distance (total + 1) (found.map fun (p, ns) => { size := p.terms.length, ahead := ns })
  if ts.any (·.kept.isEmpty) then [] else (found.zip ts).map fun (x, t) => (x.1, t.kept.reverse)

/-- The places of phrases in a row. When a phrase is missing those before it are told. -/
def Near.places (q : Near) (row : Row) : List (Phrase × List Nat) :=
  let found := q.phrases.map fun p => (p, p.places q.columns row)
  match found with
  | [one] => [one]
  | found => if found.any (·.2.isEmpty) then found.takeWhile (!·.2.isEmpty) else q.kept found

def Near.accepts (q : Near) (row : Row) : Bool :=
  let found := q.places row
  found.length == q.phrases.length && found.all (!·.2.isEmpty)

/-- Whether a search stops at a row, because it has all the words: in any column, and those that may go on in the
columns that are asked for. -/
def Near.stopsAt (q : Near) (row : Row) : Bool :=
  !q.isEmpty && q.phrases.all fun p => p.terms.all fun t => row.zipIdx.any fun (keys, i) =>
    (!t.leading || q.columns.all (·.contains i)) && keys.any t.accepts

namespace Query

def accepts (row : Row) : Query → Bool
  | near n => n.accepts row
  | both a b => a.accepts row && b.accepts row
  | either a b => a.accepts row || b.accepts row
  | without a b => a.accepts row && !b.accepts row

def stopsAt (row : Row) : Query → Bool
  | near n => n.stopsAt row
  | both a b => a.stopsAt row && b.stopsAt row
  | either a b => a.stopsAt row || b.stopsAt row
  | without a b => a.stopsAt row && !b.accepts row

/-- The places that are told of a row, by number: those of the parts whose search stands at it. What must be missing is
told at its first stop when a search for the rest stops nowhere. -/
def places (rows : List Row) (at_ : Nat) : Query → List (Phrase × List Nat)
  | near n => (rows[at_]?.filter n.stopsAt).elim [] n.places
  | both a b =>
    if rows[at_]?.any fun row => a.accepts row && b.accepts row then a.places rows at_ ++ b.places rows at_ else []
  | either a b => a.places rows at_ ++ b.places rows at_
  | without a b =>
    if rows[at_]?.any (without a b).stopsAt then a.places rows at_ ++ b.places rows at_
    else if rows.any (a.stopsAt ·) then []
    else a.places rows at_ ++ if rows.findIdx? (b.stopsAt ·) == some at_ then b.places rows at_ else []

end Query

structure Hit where
  phrase : Nat
  offset : Nat
  size : Nat

def hitsIn (column : Nat) (found : List (Phrase × List Nat)) : List Hit :=
  let all := found.zipIdx.flatMap fun ((p, ns), i) => ns.filterMap fun n =>
    if firstPlace column ≤ n && n < firstPlace (column + 1) then
      some (Hit.mk i (n - firstPlace column) p.terms.length) else none
  all.mergeSort fun a b => a.offset < b.offset ∨ (a.offset = b.offset ∧ a.phrase ≤ b.phrase)

def excerptWords : Nat := 10

def windowHits (hits : List Hit) (start : Nat) : List Hit :=
  hits.filter fun h => start ≤ h.offset && h.offset < start + excerptWords

/-- What a window from some word is worth: much for each phrase in it, little for each further place. -/
def worth (hits : List Hit) (start : Nat) : Nat :=
  let inside := windowHits hits start
  let phrases := (inside.map (·.phrase)).eraseDups.length
  phrases * 1000 + (inside.length - phrases)

/-- The window that has the places from some word in its middle. -/
def centred (size : Nat) (hits : List Hit) (start : Nat) : Nat :=
  let inside := windowHits hits start
  let first : Int := match inside.head? with
    | some h => h.offset
    | none => -1
  let last : Int := match inside.getLast? with
    | some h => h.offset + h.size
    | none => 0
  let moved := first - (excerptWords - (last - first)).tdiv 2
  let moved := if size < moved + excerptWords then (size : Int) - excerptWords else moved
  moved.toNat

/-- Whether blanks after a full stop or colon stand before a word. -/
def startsSentence (w : Word) : Bool :=
  let rest := w.gap.dropWhile fun c => c == ' ' || c == '\t' || c == '\n' || c == '\r'
  rest.length != w.gap.length && match rest with
    | c :: _ => c == '.' || c == ':'
    | [] => false

def sentenceStarts (words : List Word) : List Nat :=
  words.zipIdx.filterMap fun (w, i) => if i == 0 || startsSentence w then some i else none

/-- The start of the best window and its worth, looked for at a place. -/
def consider (size : Nat) (hits : List Hit) (starts : List Nat) (best : Nat × Nat) (h : Hit) : Nat × Nat :=
  let score := worth hits h.offset
  let best := if best.2 < score then (centred size hits h.offset, score) else best
  if starts.isEmpty || size ≤ excerptWords then best else
  let before := (starts.filter (· ≤ h.offset)).getLast?.getD (starts.headD 0)
  if before < h.offset then
    let score := worth hits before + (if before == 0 then 120 else 100)
    if best.2 < score then (before, score) else best
  else best

/-- Places that overlap become one: first and last word. -/
def merged : List Hit → List (Nat × Nat)
  | [] => []
  | h :: rest => go h.offset (h.offset + h.size - 1) rest
where
  go (first last : Nat) : List Hit → List (Nat × Nat)
    | [] => [(first, last)]
    | h :: rest =>
      if h.offset ≤ last then go first (max last (h.offset + h.size - 1)) rest
      else (first, last) :: go h.offset (h.offset + h.size - 1) rest

structure Writing where
  out : Chars := []
  /-- How far the text is written. -/
  written : Nat := 0
  isOpen : Bool := false
  spans : List (Nat × Nat)

variable (w : Writing)

def Writing.put (cs : Chars) : Writing := { w with out := w.out ++ cs.takeWhile (·.toNat != 0) }

def Writing.upTo (text : Chars) (stop : Nat) : Writing :=
  { w.put ((text.drop w.written).take (stop - w.written)) with written := stop }

def Writing.enter : Writing := { w.put ['['] with isOpen := true }

def Writing.leave : Writing := { w.put [']'] with isOpen := false }

/-- Writes a word of the window from `first` to `last`. -/
def Writing.word (text : Chars) (first last : Nat) (w : Writing) (item : Word × Nat) : Writing :=
  let (word, i) := item
  if i < first || last < i then w else
  let w := if first != 0 && i == first then { w with written := word.start } else w
  let atEnd := w.spans.head?.all fun s => i ≤ s.1
  let w := if w.isOpen && atEnd && w.written ≤ word.start then w.leave else w
  let w := if !w.isOpen && w.spans.head?.any (·.1 == i) then (w.upTo text word.start).enter else w
  let w := if w.spans.head?.any (·.2 == i) then
      let w := if w.isOpen then w else w.enter
      { w.upTo text word.stop with spans := w.spans.drop 1 }
    else w
  if i == last then
    let w := if w.isOpen then
        (if w.spans.head?.any (·.1 ≤ i) then w.upTo text word.stop else w).leave
      else w
    w.upTo text word.stop
  else w

def excerpt (column : Nat) (text : String) (found : List (Phrase × List Nat)) : String :=
  let words := wordsIn text
  let hits := hitsIn column found
  let (first, _) := hits.foldl (consider words.length hits (sentenceStarts words)) (0, 0)
  let last := first + excerptWords - 1
  let spans := (merged hits).dropWhile fun s => s.1 < first
  let text := text.toList
  let w : Writing := { out := if 0 < first then ['…'] else [], spans }
  let w := words.zipIdx.foldl (Writing.word text first last) w
  let w := if w.isOpen then w.leave else w
  let w := if words.length ≤ last + 1 then w.upTo text text.length else w.put ['…']
  String.ofList w.out

end PatchReview.Fulltext
