/-!
# Dynamic values

Values as JSON has them. An object keeps its members in the order they were first set; whole numbers are
kept apart from reals.
-/

namespace PatchReview

inductive Json where
  | null
  | bool (b : Bool)
  | int (n : Int)
  | real (x : Float)
  | text (s : String)
  | list (items : List Json)
  | object (fields : List (String × Json))

abbrev Json.Object := List (String × Json)

instance : Coe Bool Json := ⟨.bool⟩

instance : Coe Int Json := ⟨.int⟩

instance : Coe Float Json := ⟨.real⟩

instance : Coe String Json := ⟨.text⟩

namespace Fields

variable {α : Type}

variable (fields : List (String × α)) (key : String)

/-- The value of the first member with this key. -/
def get? : Option α := fields.lookup key

/-- Sets a member: in its place when the key is there, else at the end. -/
def insert : List (String × α) → String → α → List (String × α)
  | [], key, v => [(key, v)]
  | (k, w) :: rest, key, v => if k == key then (k, v) :: rest else (k, w) :: insert rest key v

def erase : List (String × α) := fields.filter (·.1 != key)

def has : Bool := fields.any (·.1 == key)

/-- Sets every member of the second list in the first. -/
def merge (fields more : List (String × α)) : List (String × α) := more.foldl (fun acc (k, v) => insert acc k v) fields

/-- Applies a function to the value of a key, or to a default put at the end. -/
def modify (default : α) (f : α → α) : List (String × α) := insert fields key (f ((get? fields key).getD default))

end Fields

namespace Json

def get? : Json → String → Option Json
  | object fields, key => Fields.get? fields key
  | _, _ => none

def getD (v : Json) (key : String) : Json := (v.get? key).getD null

def fields : Json → List (String × Json)
  | object fs => fs
  | _ => []

def items : Json → List Json
  | list vs => vs
  | _ => []

def text? : Json → Option String
  | text s => some s
  | _ => none

def int? : Json → Option Int
  | int n => some n
  | _ => none

def list? : Json → Option (List Json)
  | list vs => some vs
  | _ => none

def object? : Json → Option (List (String × Json))
  | object fs => some fs
  | _ => none

def isNull : Json → Bool
  | null => true
  | _ => false

/-- Sets a member of an object; other values stay. -/
def set : Json → String → Json → Json
  | object fs, key, v => object (Fields.insert fs key v)
  | w, _, _ => w

/-- A value counts as true unless it is null, false, zero or empty. -/
def truthy : Json → Bool
  | null => false
  | bool b => b
  | int n => n != 0
  | real x => x != 0.0
  | text s => !s.isEmpty
  | list vs => !vs.isEmpty
  | object fs => !fs.isEmpty

def ofText? : Option String → Json
  | some s => s
  | none => null

def ofInt? : Option Int → Json
  | some n => n
  | none => null

def nat (n : Nat) : Json := int n

instance : Coe Nat Json := ⟨nat⟩

def texts (ws : List String) : Json := list (ws.map text)

end Json

end PatchReview
