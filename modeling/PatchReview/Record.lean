import PatchReview.Json.Printer

/-!
# Reading records

A record is read from the fields of a value. A field that is missing has its default; one that must be there, or whose
value does not fit, is a problem at its location. All problems are collected. Records can be read from any kind of value
that says what it is as a text, a number, a list or a table.
-/

namespace PatchReview.Record

open Number

/-- Why a value is not read: problems with it or its parts, or a fault that ends all reading. -/
inductive Refusal where
  | problems (ps : List Problem)
  | fault (f : Fault)

abbrev Reading (α : Type) := Except Refusal α

def refuse {α : Type} (reason type : String) : Reading α := .error (.problems [⟨[], s!"{reason} (type={type})"⟩])

class Source (α : Type) where
  isNull : α → Bool
  text : α → Reading String
  whole : α → Reading Int
  real : α → Reading Float
  truth : α → Reading Bool
  path : α → Reading String
  items? : α → Option (List α)
  /-- The pairs of a table, or of a list of pairs. -/
  entries? : α → Option (List (α × α))
  text? : α → Option String
  display : α → String

/-- A step of reading a record: problems are collected. -/
abbrev Reader := StateT (List Problem) Result

/-- Takes the value of a reading, or notes its problems below a field. -/
def take {α : Type} (name : String) (fallback : α) : Reading α → Reader α
  | .ok a => pure a
  | .error (.problems ps) => do
    modify (· ++ ps.map (Problem.within name))
    return fallback
  | .error (.fault f) => throw f

def optional {α β : Type} (fields : List (String × α)) (name : String) (default : β) (read : α → Reading β) :
    Reader β :=
  match Fields.get? fields name with
  | none => pure default
  | some v => take name default (read v)

def required {α β : Type} (fields : List (String × α)) (name : String) (fallback : β) (read : α → Reading β) :
    Reader β :=
  match Fields.get? fields name with
  | none => take name fallback (refuse "field required" "value_error.missing")
  | some v => take name fallback (read v)

def run {α : Type} (r : Reader α) : Reading α :=
  match StateT.run r [] with
  | .ok (a, []) => .ok a
  | .ok (_, ps) => .error (.problems ps)
  | .error f => .error (.fault f)

def toExcept {α : Type} (record : String) : Reading α → Result α
  | .ok a => .ok a
  | .error (.problems ps) => .error (.rejected record ps)
  | .error (.fault f) => .error f

/-- A reading of a result: what is wrong with the value itself is a problem. -/
def ofExcept {α : Type} : Result α → Reading α
  | .ok a => .ok a
  | .error (.invalid reason) => refuse reason "value_error"
  | .error (.shape reason) => refuse reason "type_error"
  | .error f => .error (.fault f)

/-- A reading of a number from a result; any fault but an overflow is the same problem. -/
def ofNumber {α : Type} (reason type : String) : Result α → Reading α
  | .ok a => .ok a
  | .error (.overflow why) => .error (.fault (.overflow why))
  | .error _ => refuse reason type

section

variable {α : Type} [Source α]

variable {β : Type} (read : α → Reading β) (v : α)

def unlessNull (r : Reading β) : Reading β :=
  if Source.isNull v then refuse "none is not an allowed value" "type_error.none.not_allowed" else r

def text : Reading String := unlessNull v (Source.text v)

def whole : Reading Int := unlessNull v (Source.whole v)

def wholeFrom (least : Int) (v : α) : Reading Int := do
  let n ← whole v
  if least ≤ n then return n
  refuse s!"ensure this value is greater than or equal to {least}" s!"value_error.number.not_ge; limit_value={least}"

def real : Reading Float := unlessNull v (Source.real v)

def realBetween (lo hi : Float) (v : α) : Reading Float := do
  let x ← real v
  let low := renderReal plainReal lo
  let high := renderReal plainReal hi
  if !(lo ≤ x) then
    refuse s!"ensure this value is greater than or equal to {low}" s!"value_error.number.not_ge; limit_value={low}"
  else if !(x ≤ hi) then
    refuse s!"ensure this value is less than or equal to {high}" s!"value_error.number.not_le; limit_value={high}"
  else return x

/-- A truth value, or a word or number for one. -/
def truth : Reading Bool := unlessNull v (Source.truth v)

def path : Reading String := unlessNull v (Source.path v)

def orNull : Reading (Option β) := if Source.isNull v then .ok none else (read v).map some

/-- Puts readings in order together; the problems of refused ones are noted under their names. -/
def gather : List (String × Reading β) → Reading (List β)
  | readings => run do
    let kept ← readings.mapM fun (name, r) => take name none (r.map some)
    return kept.filterMap id

def listOf : Reading (List β) :=
  unlessNull v <| match Source.items? v with
    | some vs => gather (vs.zipIdx.map fun (w, i) => (toString i, read w))
    | none => refuse "value is not a valid list" "type_error.list"

def entries : Reading (List (α × α)) :=
  unlessNull v <| match Source.entries? v with
    | some ps => .ok ps
    | none => refuse "value is not a valid dict" "type_error.dict"

def tableOf : Reading (List (String × β)) := do
  let rows ← gather ((← entries v).map fun (k, w) =>
    match text k with
    | .ok name => (Source.display k, (read w).map fun b => (name, b))
    | .error e => ("__key__", .error e))
  return rows.foldl (fun acc (k, b) => Fields.insert acc k b) []

/-- The fields of a record inside another one; their names must be texts. -/
def fields : Reading (List (String × α)) := do
  match (← entries v).mapM fun (k, w) => (Source.text? k).map fun name => (name, w) with
  | some fs => return fs
  | none => refuse "keywords must be strings" "type_error"

def nested (read : List (String × α) → Reading β) (v : α) : Reading β := do read (← fields v)

end

/-! ## Dynamic values -/

def noText {α : Type} : Reading α := refuse "str type expected" "type_error.str"

def truthOfWord (s : String) : Reading Bool :=
  let w := lowered s
  if ["1", "on", "t", "true", "y", "yes"].contains w then .ok true
  else if ["0", "off", "f", "false", "n", "no"].contains w then .ok false
  else refuse "value could not be parsed to a boolean" "type_error.bool"

def setKey (k v : Json) : List (Json × Json) → List (Json × Json)
  | [] => [(k, v)]
  | (j, w) :: rest => if j.same k then (j, v) :: rest else (j, w) :: setKey k v rest

/-- The two values that an item of a list of pairs stands for. The first one is to be a key, so it is no collection. -/
def pair? (v : Json) : Option (Json × Json) :=
  let two? : Option (Json × Json) := match v with
    | .list [a, b] => some (a, b)
    | .object [(a, _), (b, _)] => some (a, b)
    | .text s =>
      match s.toList with
      | [a, b] => some ((String.singleton a), String.singleton b)
      | _ => none
    | _ => none
  two?.filter fun (k, _) => k.list?.isNone && k.object?.isNone

/-- The pairs of an object, or of a list of pairs. -/
def entriesOf? : Json → Option (List (Json × Json))
  | .object fs => some (fs.map fun (k, v) => (k, v))
  | .list vs => (vs.mapM pair?).map fun ps => ps.foldl (fun acc (k, v) => setKey k v acc) []
  | .text s => if s == "" then some [] else none
  | _ => none

instance : Source Json where
  isNull := Json.isNull
  text
    | .text s => .ok s
    | v@(.int _) | v@(.real _) | v@(.bool _) => .ok v.display
    | _ => noText
  whole v := ofNumber "value is not a valid integer" "type_error.integer" v.toInt
  real v := ofNumber "value is not a valid float" "type_error.float" v.toReal
  truth
    | .bool b => .ok b
    | .int n => truthOfWord (toString n)
    | .real x => truthOfWord (if x == 0.0 then "0" else if x == 1.0 then "1" else "")
    | .text s => truthOfWord s
    | _ => truthOfWord ""
  path
    | .text s => .ok s
    | _ => refuse "value is not a valid path" "type_error.path"
  items? := Json.list?
  entries? := entriesOf?
  text? := Json.text?
  display := Json.display

end PatchReview.Record
