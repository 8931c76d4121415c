import Std.Data.HashMap
import PatchReview.Record
import PatchReview.Yaml.Compose

/-!
# Values of a document

The nodes of a document are made into values by their tags, level by level from the root down, so that the first error
is the one nearest to the root. A merge key brings in the pairs of other mappings.
-/

namespace PatchReview.Yaml

/-!
## Values of documents

What a document may hold beyond dynamic values: dates, and keys of any kind. The tags of bytes, sets and pairs are not
known here.
-/

inductive Value where
  | null
  | bool (b : Bool)
  | int (n : Int)
  | real (x : Float)
  | text (s : String)
  | date (s : String)
  | moment (s : String)
  | list (items : List Value)
  | map (items : List (Value × Value))

namespace Value

/-- The number of a key: a whole number by itself, any other real number beside none. -/
def number? : Value → Option (Option Int × Float)
  | bool b => some (some (if b then 1 else 0), 0.0)
  | int n => some (some n, 0.0)
  | real x =>
    match Number.truncate? x with
    | some n => some (if x == Number.ofWhole n then (some n, 0.0) else (none, x))
    | none => some (none, x)
  | _ => none

/-- Whether two keys are the same; whole and real numbers and truth values are compared by value. -/
def sameKey : Value → Value → Bool
  | null, null => true
  | text a, text b => a == b
  | date a, date b => a == b
  | moment a, moment b => a == b
  | a, b =>
    match a.number?, b.number? with
    | some (n, x), some (m, y) => n == m && (x == y || (x.isNaN && y.isNaN))
    | _, _ => false

def insert (k v : Value) : List (Value × Value) → List (Value × Value)
  | [] => [(k, v)]
  | (j, w) :: rest => if j.sameKey k then (j, v) :: rest else (j, w) :: insert k v rest

def kindName : Value → String
  | null => "NoneType"
  | bool _ => "bool"
  | int _ => "int"
  | real _ => "float"
  | text _ => "str"
  | date _ => "datetime.date"
  | moment _ => "datetime.datetime"
  | list _ => "list"
  | map _ => "dict"

def keyText : Value → String
  | null => "None"
  | bool b => if b then "True" else "False"
  | int n => toString n
  | real x => Number.renderReal Number.plainReal x
  | text s | date s | moment s => s
  | list _ | map _ => ""

mutual

def toJson : Value → Json
  | null => .null
  | bool b => b
  | int n => n
  | real x => x
  | text s | date s | moment s => s
  | list vs => .list (itemsToJson vs)
  | map ps => .object (membersToJson ps)

def itemsToJson : List Value → List Json
  | [] => []
  | v :: vs => v.toJson :: itemsToJson vs

def membersToJson : List (Value × Value) → Json.Object
  | [] => []
  | (k, v) :: ps => (k.keyText, v.toJson) :: membersToJson ps

end

end Value

/-!
## Records in documents

The values of documents as values that records are read from.
-/

namespace Value

def numberLike : Value → Json
  | null => .null
  | bool b => b
  | int n => n
  | real x => x
  | text s => s
  | _ => .null

def elements? : Value → Option (List Value)
  | list vs => some vs
  | map ps => some (ps.map (·.1))
  | text s => some (s.toList.map fun c => text (String.singleton c))
  | _ => none

def isKey : Value → Bool
  | list _ | map _ => false
  | _ => true

/-- The pairs of a mapping, or of items that hold two values each. -/
def entries? : Value → Option (List (Value × Value))
  | map ps => some ps
  | v => do
    let ps ← (← v.elements?).mapM fun w => do
      match ← w.elements? with
      | [k, x] => if k.isKey then some (k, x) else none
      | _ => none
    return ps.foldl (fun acc (k, x) => insert k x acc) []

end Value

instance : Record.Source Value where
  isNull
    | .null => true
    | _ => false
  text
    | .text s => .ok s
    | v@(.int _) | v@(.real _) | v@(.bool _) => .ok v.keyText
    | _ => Record.noText
  whole v := Record.Source.whole v.numberLike
  real v := Record.Source.real v.numberLike
  truth v := Record.Source.truth v.numberLike
  path
    | .text s => .ok s
    | _ => Record.refuse "value is not a valid path" "type_error.path"
  items?
    | .list vs => some vs
    | _ => none
  entries? := Value.entries?
  text?
    | .text s => some s
    | _ => none
  display := Value.keyText

open Number String

/-! ## Scalars -/

namespace Scalar

def refuse {α : Type} (reason : String) : Except Error α := .error (.value reason)

variable (s : String)

/-- The text without underscores, and whether a minus stands before it. -/
def unsigned : Except Error (Bool × String) :=
  match s.toList.filter (· != '_') with
  | [] => refuse "string index out of range"
  | '-' :: cs => .ok (true, ofList cs)
  | '+' :: cs => .ok (false, ofList cs)
  | cs => .ok (false, ofList cs)

def truth : Except Error Value :=
  let word := lowered s
  if ["yes", "true", "on"].contains word then .ok (.bool true)
  else if ["no", "false", "off"].contains word then .ok (.bool false)
  else refuse (quoted word)

def decimal : Except Error Int := (readInt s).mapError .value

def radix (base : Nat) (s : String) : Except Error Int :=
  match readRadix? base s with
  | none => refuse (notRadix base s)
  | some n => .ok n

def whole : Except Error Value := do
  let (minus, body) ← unsigned s
  let n ← if body == "0" then pure 0
    else if beginsWith "0b" body then radix 2 (dropChars 2 body)
    else if beginsWith "0x" body then radix 16 (dropChars 2 body)
    else match body.toList with
      | [] => refuse "string index out of range"
      | c :: _ =>
        if c == '0' then radix 8 body
        else if holds ":" body then do
          let parts ← (cutAt ":" body).mapM decimal
          pure (parts.foldl (fun n d => 60 * n + d) 0)
        else decimal body
  return .int (if minus then -n else n)

def plainReal : Except Error Float :=
  match readReal? s with
  | some x => .ok x
  | none => refuse (notReal s)

def real : Except Error Value := do
  let (minus, body) ← unsigned (lowered s)
  let signed (x : Float) : Float := if minus then -x else x
  if body == ".inf" then return .real (signed (1.0 / 0.0))
  else if body == ".nan" then return .real (0.0 / 0.0)
  else return .real (signed (← plainReal body))

def numberOf (ds : Chars) : Nat := ofDigits (ds.map fun c => c.toNat - 48)

def daysIn (year month : Nat) : Nat :=
  if month == 2 then if year % 4 == 0 && (year % 100 != 0 || year % 400 == 0) then 29 else 28
  else if [4, 6, 9, 11].contains month then 30 else 31

def padded (width n : Nat) : String := padLeft '0' width (toString n)

def offset : Option (Option (Bool × Chars × Chars)) → Except Error String
  | none => .ok ""
  | some none => .ok "+00:00"
  | some (some (minus, h, m)) =>
    let minutes := 60 * numberOf h + numberOf m
    if 1440 ≤ minutes then
      refuse "offset must be a timedelta strictly between -timedelta(hours=24) and timedelta(hours=24)"
    else
      let sign := if minus && minutes != 0 then "-" else "+"
      .ok (sign ++ padded 2 (minutes / 60) ++ ":" ++ padded 2 (minutes % 60))

def timestamp : Except Error Value := do
  match timestamp? (withoutFinalBreak s).toList with
  | none => refuse "'NoneType' object has no attribute 'groupdict'"
  | some t =>
    let year := numberOf t.year
    let month := numberOf t.month
    let day := numberOf t.day
    let zone ← if t.time.isSome then offset t.zone else pure ""
    if year == 0 then refuse s!"year {year} is out of range"
    if month == 0 || 12 < month then refuse "month must be in 1..12"
    if day == 0 || daysIn year month < day then refuse "day is out of range for month"
    let date := joinWith "-" [padded 4 year, padded 2 month, padded 2 day]
    match t.time with
    | none => return .date date
    | some (hour, minute, second) =>
      let hour := numberOf hour
      let minute := numberOf minute
      let second := numberOf second
      if 23 < hour then refuse "hour must be in 0..23"
      if 59 < minute then refuse "minute must be in 0..59"
      if 59 < second then refuse "second must be in 0..59"
      let places := (t.fraction.take 6)
      let micro := numberOf (places ++ List.replicate (6 - places.length) '0')
      let fraction := if micro == 0 then "" else "." ++ padded 6 micro
      return .moment (date ++ " " ++ joinWith ":" [padded 2 hour, padded 2 minute, padded 2 second] ++ fraction ++ zone)

end Scalar

/-! ## Nodes -/

inductive Shape where
  | leaf (v : Value)
  | list (items : List Nat)
  | map (items : List (Nat × Nat))
  | waiting

def Shape.isLeaf : Shape → Bool
  | leaf _ => true
  | _ => false

structure Builder where
  graph : Graph
  shapes : Std.HashMap Nat Shape := {}
  queue : Array Nat := #[]

abbrev Build := StateT Builder (Except Error)

namespace Graph

def get (g : Graph) (n : Nat) : Node := g.nodes[n]?.getD default

def tag (g : Graph) (n : Nat) : String := (g.get n).tag

/-- The text of a scalar. A mapping with a value mark has the text of that value. -/
def scalar (g : Graph) : Nat → Nat → Except Error String
  | 0, _ => .ok ""
  | fuel + 1, n =>
    let node := g.get n
    let refuse : Except Error String :=
      .error (.marked none none s!"expected a scalar node, but found {node.body.kind}" node.start)
    match node.body with
    | .scalar s => .ok s
    | .sequence _ => refuse
    | .mapping ps =>
      match ps.find? fun p => g.tag p.1 == standardTag "value" with
      | some p => g.scalar fuel p.2
      | none => refuse

def mappingContext := "while constructing a mapping"

/-- The pairs of a mapping with those that its merge keys bring in before them. A mapping that merges itself brings
in nothing more. -/
def flatten (g : Graph) : Nat → Nat → Except Error (List (Nat × Nat))
  | 0, n =>
    match (g.get n).body with
    | .mapping ps => .ok (ps.filter fun p => g.tag p.1 != standardTag "merge")
    | _ => .ok []
  | fuel + 1, n => do
    let node := g.get n
    let refuse (problem : String) (part : Nat) : Except Error Unit :=
      let other := g.get part
      .error (.marked (some mappingContext) (some node.start)
        s!"expected a mapping{problem} for merging, but found {other.body.kind}" other.start)
    match node.body with
    | .mapping ps =>
      let merged ← (ps.filter fun p => g.tag p.1 == standardTag "merge").mapM fun p => do
        match (g.get p.2).body with
        | .mapping _ => g.flatten fuel p.2
        | .sequence items =>
          let parts ← items.mapM fun i => do
            match (g.get i).body with
            | .mapping _ => g.flatten fuel i
            | _ =>
              refuse "" i
              pure []
          pure parts.reverse.flatten
        | .scalar _ =>
          refuse " or list of mappings" p.2
          pure []
      return merged.flatten ++ ps.filter fun p => g.tag p.1 != standardTag "merge"
    | _ => return []

end Graph

namespace Build

def fail {α : Type} (context : Option String) (start : Option Mark) (problem : String) (n : Nat) : Build α := do
  throw (.marked context start problem ((← get).graph.get n).start)

variable (n : Nat)

def note (shape : Shape) : Build Unit := modify fun b => { b with shapes := b.shapes.insert n shape }

def collectionTags : List String := ["seq", "map"].map standardTag

def make (tag : String) : Build Unit := do
  let b ← get
  if b.shapes.contains n then return
  let g := b.graph
  if collectionTags.contains tag then
    set { b with queue := b.queue.push n }
    note n .waiting
  else
    let scalar (read : String → Except Error Value) : Build Unit := do
      note n (.leaf (← read (← g.scalar (g.nodes.size + 1) n)))
    match standardName tag with
    | "null" => scalar fun _ => .ok .null
    | "bool" => scalar Scalar.truth
    | "int" => scalar Scalar.whole
    | "float" => scalar Scalar.real
    | "timestamp" => scalar Scalar.timestamp
    | "str" => scalar fun s => .ok (.text s)
    | _ => fail none none s!"could not determine a constructor for the tag {quoted tag}" n

def makeNode : Build Unit := do make n ((← get).graph.tag n)

def mapping : Build (List (Nat × Nat)) := do
  let g := (← get).graph
  let node := g.get n
  match node.body with
  | .mapping _ =>
    let ps ← g.flatten g.nodes.size n
    for (k, v) in ps do
      make k (if g.tag k == standardTag "value" then standardTag "str" else g.tag k)
      if !((← get).shapes.getD k .waiting).isLeaf then
        fail (some Graph.mappingContext) (some node.start) "found unhashable key" k
      makeNode v
    return ps
  | b => fail none none s!"expected a mapping node, but found {b.kind}" n

def fill : Build Unit := do
  let g := (← get).graph
  match standardName (g.tag n) with
  | "map" => note n (.map (← mapping n))
  | _ =>
    match (g.get n).body with
    | .sequence items =>
      for i in items do makeNode i
      note n (.list items)
    | b => fail none none s!"expected a sequence node, but found {b.kind}" n

def fillAll : Nat → Nat → Build Unit
  | 0, _ => return
  | fuel + 1, i => do
    match (← get).queue[i]? with
    | none => return
    | some n =>
      fill n
      fillAll fuel (i + 1)

end Build

variable (shapes : Std.HashMap Nat Shape) (keep : Bool) in
/-- The value of a node, `fuel` levels deep. Without `keep` no value is remembered. -/
def assemble : Nat → Nat → StateM (Std.HashMap Nat Value) Value
  | 0, n =>
    return match shapes[n]? with
      | some (.leaf v) => v
      | some (.list _) => .list []
      | some (.map _) => .map []
      | _ => .null
  | fuel + 1, n => do
    if let some v := (← get)[n]? then return v
    let both (p : Nat × Nat) : StateM (Std.HashMap Nat Value) (Value × Value) := do
      return (← assemble fuel p.1, ← assemble fuel p.2)
    let v ← match shapes[n]? with
      | some (.leaf v) => pure v
      | some (.list items) => do pure (.list (← items.mapM (assemble fuel)))
      | some (.map items) => do
        let ps ← items.mapM both
        pure (.map (ps.foldl (fun acc p => Value.insert p.1 p.2 acc) []))
      | _ => pure .null
    if keep then modify (·.insert n v)
    return v

def cyclicDepth : Nat := 6

def read (text : String) : Except Error Value := do
  match ← compose text with
  | none => return .null
  | some g =>
    let making : Build Unit := do
      Build.makeNode g.root
      Build.fillAll (g.nodes.size + 1) 0
    let (_, b) ← making.run { graph := g }
    let depth := if g.cyclic then cyclicDepth else g.nodes.size + 1
    return ((assemble b.shapes (!g.cyclic) depth g.root).run {}).1

end PatchReview.Yaml
