import PatchReview.Risk.Basic

/-!
# Texts about risks

Risks and analyses as they are told to a model, and the form its answer must have.
-/

namespace PatchReview

namespace Risk

def rangeText (r : Int × Int) : String := s!"({r.1}, {r.2})"

def workText (r : Risk) : String :=
  s!"File: {r.path}\nLine Number: {rangeText r.lines}\nConfidence: {(Json.real r.confidence).display}\n"
    ++ s!"Risk Type: {r.kind.member}\nDescription: {r.description}\n"

def workListText (risks : List Risk) : String := joinWith "\n" (risks.map workText)

def recordText (r : Risk) : String :=
  let fields := [("risk_type", s!"<{r.kind.member}: {quoted r.kind.name}>"), ("file_path", quoted r.path),
    ("line_number", rangeText r.lines),
    ("description", quoted r.description),
    ("confidence", (Json.real r.confidence).display),
    ("severity", quoted r.severity),
    ("suggestion", match r.suggestion with
      | some s => quoted s
      | none => "None")]
  "\x7b" ++ joinWith ", " (fields.map fun (k, v) => quoted k ++ ": " ++ v) ++ "\x7d"

/-- A range of lines, short: one number if it has one line. -/
def shortRange (r : Int × Int) : String := if r.1 == r.2 then toString r.1 else s!"{r.1}:{r.2}"

end Risk

def FileAnalysis.listText (a : FileAnalysis) : String :=
  s!"File: {a.path}\nIntent: {a.summary}\nPotential Risks: {a.risks.length}\n"

def FileAnalysis.listTexts (as : List FileAnalysis) : String := joinWith "\n" (as.map listText)

namespace Schema

def definitionMark := "#/$defs/"

/-- The definition a reference names; nothing when there is none. -/
def definition? (definitions : Json) : Json → Result (Option Json)
  | .text path =>
    if beginsWith definitionMark path then
      match (cutAt "/" path).getLast?, definitions with
      | some name, .object ds => .ok (Fields.get? ds name)
      | _, _ => .ok none
    else .ok none
  | v => .error (v.lacks "startswith")

mutual

/-- Puts definitions in the place of the references to them; a reference to nothing becomes null. The fuel bounds the
nesting. -/
def expand (definitions : Json) : Nat → Json → Result Json
  | 0, _ => .error .tooDeep
  | fuel + 1, .object fs =>
    match Fields.get? fs "$ref" with
    | some ref => do
      match ← definition? definitions ref with
      | some d => expand definitions fuel d
      | none => return .null
    | none => return .object (← expandMembers definitions fuel fs)
  | fuel + 1, .list vs => return .list (← expandItems definitions fuel vs)
  | _ + 1, v => .ok v

def expandMembers (definitions : Json) : Nat → Json.Object → Result Json.Object
  | _, [] => .ok []
  | 0, _ => .error .tooDeep
  | fuel + 1, (k, v) :: fs => do
    let v ← expand definitions fuel v
    return (k, v) :: (← expandMembers definitions (fuel + 1) fs)

def expandItems (definitions : Json) : Nat → List Json → Result (List Json)
  | _, [] => .ok []
  | 0, _ => .error .tooDeep
  | fuel + 1, v :: vs => do
    let v ← expand definitions fuel v
    return v :: (← expandItems definitions (fuel + 1) vs)

end

def depthLimit : Nat := 1000

def instructions (schema : Json) : Result String := do
  let definitions ← schema.memberOr "$defs" (.object [])
  let expanded ← expand definitions depthLimit schema
  let expanded ← match expanded with
    | .object fs => pure (Json.object (Fields.erase fs "$defs"))
    | .null => throw (.shape "argument of type 'NoneType' is not iterable")
    | v => pure v
  let form := expanded.render Json.prettyWide
  let kinds := joinWith ", " (Risk.Kind.all.map fun k => "\"" ++ k.name ++ "\"")
  return joinWith "\n" ["You must respond with a JSON object that matches the following schema:", "",
    "        " ++ form,
    "",
    "        Important notes:",
    "        - The \"risk_type\" field must be one of: " ++ kinds,
    "        - The \"line_number\" field must be a positive integer (1-indexed)",
    "        - The \"confidence\" field must be a float between 0.0 and 1.0",
    "        - The \"severity\" field must be one of: \"error\", \"warning\", \"info\"",
    "        - The \"suggestion\" field is optional (can be null or omitted)",
    "",
    "        Return only the JSON object, without any markdown code blocks or additional text."]

end Schema

end PatchReview
