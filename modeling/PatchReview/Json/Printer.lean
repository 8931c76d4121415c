import PatchReview.Fault

/-!
# Writing JSON text

A style says what stands between items and after keys, whether parts go on lines of their own, whether
characters beyond ASCII are escaped and whether keys are sorted. `display` is the other text of a value,
used in prose: single quotes, `True`, `None`.
-/

namespace PatchReview.Json

structure Style where
  comma : String
  colon : String
  indent : Option Nat
  ascii : Bool
  sorted : Bool

/-- One line with a blank after commas and colons; ASCII only. -/
def plain : Style := ⟨", ", ": ", none, true, false⟩

/-- As `plain`, with every character as it is. -/
def wide : Style := ⟨", ", ": ", none, false, false⟩

/-- As `pretty`, with every character as it is. -/
def prettyWide : Style := ⟨",", ": ", some 2, false, false⟩

/-- One line without blanks. -/
def compact : Style := ⟨",", ":", none, true, false⟩

def realStyle : Number.RealStyle := ⟨16, -4, "Infinity", "NaN"⟩

def unitEscape (n : Nat) : Chars := '\\' :: 'u' :: Text.hexDigits 4 n

variable (style : Style) (ascii : Bool) (level : Nat)

def charText (c : Char) : Chars :=
  let n := c.toNat
  (Text.shortEscape? '"' c).getD <| if n == 8 then ['\\', 'b']
  else if n == 12 then ['\\', 'f']
  else if n < 32 then unitEscape n
  else if !ascii || n < 127 then [c]
  else if n < 0x10000 then (if n == 127 then [c] else unitEscape n)
  else match Text.unpairedUnit? c with
    | some unit => unitEscape unit
    | none =>
      let m := n - 0x10000
      unitEscape (0xD800 + m / 0x400) ++ unitEscape (0xDC00 + m % 0x400)

def stringText (s : String) : String := String.ofList ('"' :: s.toList.flatMap (charText ascii) ++ ['"'])

def Style.newline : String :=
  match style.indent with
  | none => ""
  | some k => "\n" ++ String.ofList (List.replicate (k * level) ' ')

def Style.enclose (opening closing : String) (parts : Strings) : String :=
  if parts.isEmpty then opening ++ closing
  else
    opening ++ style.newline (level + 1)
      ++ String.intercalate (style.comma ++ style.newline (level + 1)) parts
      ++ style.newline level ++ closing

def Style.arrange (members : Pairs) : Pairs :=
  if style.sorted then members.mergeSort (fun a b => a.1 ≤ b.1) else members

mutual

def renderAt (style : Style) (level : Nat) : Json → String
  | null => "null"
  | bool b => if b then "true" else "false"
  | int n => toString n
  | real x => Number.renderReal realStyle x
  | text s => stringText style.ascii s
  | list vs => style.enclose level "[" "]" (renderItems style (level + 1) vs)
  | object fs =>
    style.enclose level "\x7b" "\x7d"
      ((style.arrange (renderMembers style (level + 1) fs)).map fun (k, v) =>
        stringText style.ascii k ++ style.colon ++ v)

def renderItems (style : Style) (level : Nat) : List Json → Strings
  | [] => []
  | v :: vs => renderAt style level v :: renderItems style level vs

def renderMembers (style : Style) (level : Nat) : List (String × Json) → Pairs
  | [] => []
  | (k, v) :: fs => (k, renderAt style level v) :: renderMembers style level fs

end

def render (v : Json) : String := renderAt style 0 v

mutual

/-- The text of a value in prose, strings in quotes. -/
def displayQuoted : Json → String
  | null => "None"
  | bool b => if b then "True" else "False"
  | int n => toString n
  | real x => Number.renderReal Number.plainReal x
  | text s => quoted s
  | list vs => "[" ++ joinWith ", " (displayItems vs) ++ "]"
  | object fs => "\x7b" ++ joinWith ", " (displayMembers fs) ++ "\x7d"

def displayItems : List Json → Strings
  | [] => []
  | v :: vs => displayQuoted v :: displayItems vs

def displayMembers : List (String × Json) → Strings
  | [] => []
  | (k, v) :: fs => (quoted k ++ ": " ++ displayQuoted v) :: displayMembers fs

end

/-- The text of a value in prose; a text stands for itself. -/
def display : Json → String
  | text s => s
  | v => displayQuoted v

def kindName : Json → String
  | null => "NoneType"
  | bool _ => "bool"
  | int _ => "int"
  | real _ => "float"
  | text _ => "str"
  | list _ => "list"
  | object _ => "dict"

open Number

/-!
## Numbers from values

Reading a value as a whole or a real number: numbers of the other kind, truth values and number texts are taken
too.
-/

/-- The value as a whole number; the part after the point is dropped. -/
def toInt : Json → Result Int
  | int n => .ok n
  | bool b => .ok (if b then 1 else 0)
  | real x =>
    match truncate? x with
    | some n => .ok n
    | none =>
      if x.isNaN then .error (.invalid "cannot convert float NaN to integer")
      else .error (.overflow "cannot convert float infinity to integer")
  | text s =>
    match readInt s with
    | .ok n => .ok n
    | .error reason => .error (.invalid reason)
  | v => .error (.shape ("int() argument must be a string, a bytes-like object or a real number, not "
      ++ s!"'{v.kindName}'"))

def toReal : Json → Result Float
  | real x => .ok x
  | int n =>
    let x := ofWhole n
    if x.isInf then .error (.overflow "int too large to convert to float") else .ok x
  | bool b => .ok (if b then 1.0 else 0.0)
  | text s =>
    match readReal? s with
    | some x => .ok x
    | none => .error (.invalid (notReal s))
  | v => .error (.shape s!"float() argument must be a string or a real number, not '{v.kindName}'")

mutual

/-- Whether two values are equal; whole and real numbers and truth values are compared by value, and objects
without regard to order. -/
def same : Json → Json → Bool
  | null, null => true
  | text a, text b => a == b
  | list as, list bs => sameItems as bs
  | object fs, object gs => fs.length == gs.length && sameFields fs gs
  | a, b =>
    match number? a, number? b with
    | some x, some y => x == y
    | _, _ => false

def sameItems : List Json → List Json → Bool
  | [], [] => true
  | a :: as, b :: bs => same a b && sameItems as bs
  | _, _ => false

/-- Whether every member of the first list is one of the second. -/
def sameFields : List (String × Json) → List (String × Json) → Bool
  | [], _ => true
  | (k, v) :: fs, gs =>
    (match Fields.get? gs k with
      | some w => same v w
      | none => false) && sameFields fs gs

def number? : Json → Option Float
  | int n => some (ofWhole n)
  | real x => some x
  | bool b => some (if b then 1.0 else 0.0)
  | _ => none

end

variable (v : Json) (key : String)

/-- The fault of a value of which something is asked that it has not. -/
def lacks (name : String) : Fault := .lacking s!"'{v.kindName}' object has no attribute '{name}'"

def member : Result (Option Json) :=
  match v with
  | object fs => .ok (Fields.get? fs key)
  | v => .error (v.lacks "get")

def memberOr (default : Json) : Result Json := do
  return (← member v key).getD default

def members : Json → Result (List (String × Json))
  | .object fs => .ok fs
  | v => .error (v.lacks "items")

/-- The things in a value that can be gone through. -/
def elements : Json → Result (List Json)
  | list vs => .ok vs
  | text s => .ok (s.toList.map fun c => String.singleton c)
  | object fs => .ok (fs.map fun f => f.1)
  | v => .error (.shape s!"object of type '{v.kindName}' has no len()")

end PatchReview.Json
