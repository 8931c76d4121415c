import PatchReview.Record
import PatchReview.Diff.Excerpt

/-!
# Merging and choosing risks

Risks of one file and kind whose ranges are near each other and whose descriptions share most of their words are
merged: the range covers both, the descriptions are kept one below the other, the higher confidence and severity
prevail.
-/

namespace PatchReview.Risk

/-!
## Risks

A risk is a suspected fault at a range of lines of a file, of one of six kinds, with a confidence between 0 and 1 and
a severity, which is free text.
-/

inductive Kind where
  | robustness
  | concurrency
  | authorization
  | intent
  | lifecycle
  | syntaxError
  deriving DecidableEq

namespace Kind

def all : List Kind := [robustness, concurrency, authorization, intent, lifecycle, syntaxError]

def name : Kind → String
  | robustness => "Robustness_Boundary_Conditions"
  | concurrency => "Concurrency_Timing_Correctness"
  | authorization => "Authorization_Data_Exposure"
  | intent => "Intent_Semantic_Consistency"
  | lifecycle => "Lifecycle_State_Consistency"
  | syntaxError => "Syntax_Static_Errors"

/-- The name of a kind in capitals, as a member of its type. -/
def member (k : Kind) : String := "RiskType." ++ uppered k.name

def ofName? (s : String) : Option Kind := all.find? (·.name == s)

end Kind

/-- Reads a range of lines: two whole numbers from 1, in order. -/
def readLines (v : Json) : Result (Int × Int) :=
  let head := "line_number must be a list/tuple of "
  match v with
  | .list [a, b] => do
    let start ← a.toInt
    let stop ← b.toInt
    if start > stop then
      throw (.invalid s!"start_line ({start}) must be <= end_line ({stop})")
    if start < 1 then throw (.invalid s!"start_line ({start}) must be >= 1 (1-indexed)")
    return (start, stop)
  | .list vs =>
    .error (.invalid (head ++ s!"exactly 2 integers [start, end], got {vs.length} element(s): "
      ++ v.display))
  | .int _ | .bool _ =>
    .error (.invalid (head ++ "2 integers [start, end], not a single integer. "
      ++ s!"For single-line issues, use [line, line]. Got: {v.display}"))
  | _ => .error (.invalid (head ++ s!"2 integers [start, end], got {v.kindName}: {v.display}"))

end Risk

structure Risk where
  kind : Risk.Kind
  path : String
  lines : Int × Int
  description : String
  confidence : Float := 0.5
  severity : String := "warning"
  suggestion : Option String := none

namespace Risk

open Record

def readKind (v : Json) : Reading Kind :=
  unlessNull v <| match v.text?.bind Kind.ofName? with
    | some k => .ok k
    | none =>
      let permitted := joinWith ", " (Kind.all.map fun k => quoted k.name)
      let members := joinWith ", " (Kind.all.map fun k => s!"<{k.member}: {quoted k.name}>")
      refuse s!"value is not a valid enumeration member; permitted: {permitted}"
        s!"type_error.enum; enum_values=[{members}]"

def readFields (fs : Json.Object) : Reading Risk := run do
  let kind ← required fs "risk_type" .robustness readKind
  let path ← required fs "file_path" "" text
  let lines ← required fs "line_number" (1, 1) fun v => ofExcept (readLines v)
  let description ← required fs "description" "" text
  let confidence ← optional fs "confidence" 0.5 (realBetween 0.0 1.0)
  let severity ← optional fs "severity" "warning" text
  let suggestion ← optional fs "suggestion" none (orNull text)
  return { kind, path, lines, description, confidence, severity, suggestion }

def ofFields (fs : Json.Object) : Result Risk := toExcept "RiskItem" (readFields fs)

def linesJson (r : Int × Int) : Json := .list [r.1, r.2]

def toJson (r : Risk) : Json :=
  .object [("risk_type", r.kind.name), ("file_path", r.path), ("line_number", linesJson r.lines),
    ("description", r.description),
    ("confidence", r.confidence),
    ("severity", r.severity),
    ("suggestion", Json.ofText? r.suggestion)]

end Risk

structure FileAnalysis where
  path : String
  summary : String
  risks : List Risk := []
  complexity : Option Float := none

namespace FileAnalysis

open Record

def readFields (fs : Json.Object) : Reading FileAnalysis := run do
  let path ← required fs "file_path" "" text
  let summary ← required fs "intent_summary" "" text
  let risks ← optional fs "potential_risks" [] (listOf (nested Risk.readFields))
  let complexity ←
    optional fs "complexity_score" none (orNull (realBetween 0.0 100.0))
  return { path, summary, risks, complexity }

def ofFields (fs : Json.Object) : Result FileAnalysis := toExcept "FileAnalysis" (readFields fs)

def toJson (a : FileAnalysis) : Json :=
  .object [("file_path", a.path), ("intent_summary", a.summary), ("potential_risks", .list (a.risks.map Risk.toJson)),
    ("complexity_score", match a.complexity with
      | some x => x
      | none => .null)]

end FileAnalysis

end PatchReview

/-!
## Anchored risks

A risk is anchored when a line that was changed lies near its range.
-/

namespace PatchReview.Risk

/-- A path without blanks around it, one side mark and one leading slash. -/
def normalPath (path : String) : String :=
  let p := strip path
  let p := if beginsWith "a/" p || beginsWith "b/" p then dropChars 2 p else p
  if beginsWith "/" p then dropChars 1 p else p

/-- The first position in `[lo, hi)` of an ascending list that is not below a bound, by halving. -/
def lowerBound (ns : Array Int) (bound : Int) (lo hi : Nat) : Nat :=
  if lo < hi then
    let mid := (lo + hi) / 2
    if ns.getD mid 0 < bound then lowerBound ns bound (mid + 1) hi
    else lowerBound ns bound lo mid
  else lo
termination_by hi - lo

/-- Whether some changed line lies in a range widened by a window. -/
def anchored (changed : List Int) (range : Int × Int) (window : Int) : Bool :=
  let ns := changed.toArray
  match ns[lowerBound ns (max 1 (range.1 - window)) 0 ns.size]? with
  | some n => n ≤ range.2 + window
  | none => false

/-- The lines of each file that were added or modified, ascending. -/
def changedLines (files : List (String × Diff.ChangedFile)) : List (String × List Int) :=
  files.foldl (fun ls (path, f) =>
    Fields.insert ls (normalPath path) (f.added ++ f.modified).mergeSort.eraseReps) []

/-- Whether a risk counts as anchored; static errors always do. -/
def isAnchored (changed : List (String × List Int)) (window : Int) (r : Risk) : Bool :=
  r.kind == .syntaxError || anchored ((Fields.get? changed (normalPath r.path)).getD []) r.lines window

/-- What is done with risks that are not anchored. -/
inductive Unanchored where
  | drop
  /-- Their confidence is bounded. -/
  | bound (confidence : Float)

/-- Risks that are not near a changed line are dropped, or their confidence is bounded. -/
def anchor (changed : List (String × List Int)) (window : Int) (u : Unanchored) (risks : List Risk) : List Risk :=
  risks.filterMap fun r =>
    if isAnchored changed window r then some r
    else match u with
      | .drop => none
      | .bound c => some { r with confidence := if c < r.confidence then c else r.confidence, suggestion := none }

open Fields Number

def isTokenChar (c : Char) : Bool := c.isAlphanum || c == '_'

/-- The words of a description, in small letters, each once. -/
def tokens (s : String) : Strings :=
  (((Text.piecesAt (fun c => !isTokenChar c) (lowered s).toList).filter (!·.isEmpty)).map String.ofList).eraseDups

/-- The share of common words among all words of two lists without repetition. -/
def similarity (a b : Strings) : Float :=
  if a.isEmpty || b.isEmpty then 0.0
  else
    let common := (a.filter b.contains).length
    Float.ofNat common / Float.ofNat (a.length + b.length - common)

def severityRank (severity : String) : Nat :=
  let s := lowered (strip severity)
  if s == "error" then 3 else if s == "warning" then 2 else 1

variable (window : Int) (threshold : Float)

def nearDuplicate (a b : Risk) : Bool :=
  decide (((b.lines.1 - a.lines.2).natAbs : Int) ≤ window)
    && threshold ≤ similarity (tokens a.description) (tokens b.description)

/-- Merges a risk into another one; `descriptions` are those of all risks merged so far. -/
def absorb (a b : Risk) (descriptions : Strings) : Risk :=
  { kind := a.kind
    path := a.path
    lines := (min a.lines.1 b.lines.1, max a.lines.2 b.lines.2)
    description := joinWith "\n\n" descriptions
    confidence := if order a.confidence < order b.confidence then b.confidence else a.confidence
    severity := if severityRank b.severity ≤ severityRank a.severity then a.severity else b.severity
    suggestion := none }

/-- Merges neighbours in an ordered list, starting from a risk and the descriptions merged into it. -/
def mergeFrom (current : Risk) (descriptions : Strings) : List Risk → List Risk
  | [] => [current]
  | r :: rs =>
    if nearDuplicate window threshold current r then
      let descriptions := descriptions ++ [r.description]
      mergeFrom (absorb current r descriptions) descriptions rs
    else current :: mergeFrom r [r.description] rs

/-- Whether a risk comes before another one of its file: by range, then by confidence. -/
def precedes (a b : Risk) : Bool :=
  if a.lines.1 != b.lines.1 then a.lines.1 < b.lines.1
  else if a.lines.2 != b.lines.2 then a.lines.2 < b.lines.2
  else order b.confidence ≤ order a.confidence

def mergeGroup (group : List Risk) : List Risk :=
  match group.mergeSort precedes with
  | [] => []
  | r :: rs => mergeFrom window threshold r [r.description] rs

def merge (risks : List Risk) : List Risk :=
  (grouped (fun r => (r.path, r.kind)) risks).flatMap fun (_, group) => mergeGroup window threshold group

def groupByKind (risks : List Risk) : List (String × List Risk) := grouped (fun r => r.kind.name) risks

/-!
## Budgets

Only so many risks are looked into, of each file and of each kind. Risks are weighed by their confidence, kind and
severity, and taken from the heaviest on as long as there is room.
-/

structure Budget where
  total : Int
  perFile : Int
  perKind : List (String × Int) := []
  kindWeights : List (String × Float) := []
  severityWeights : List (String × Float) := []

def Budget.severityOf (r : Risk) : String := if r.severity == "" then "warning" else lowered r.severity

variable (b : Budget)

def Budget.weight (r : Risk) : Float :=
  r.confidence * (get? b.kindWeights r.kind.name).getD 1.0
    * (get? b.severityWeights (severityOf r)).getD 1.0

def rangeLe (a b : Int × Int) : Bool := if a.1 != b.1 then a.1 < b.1 else a.2 ≤ b.2

/-- Whether a risk is taken before another one: by weight, severity, path and range. -/
def Budget.precedes (r s : Risk) : Bool :=
  let wr := order (b.weight r)
  let ws := order (b.weight s)
  if wr != ws then ws < wr
  else if severityRank r.severity != severityRank s.severity then severityRank s.severity < severityRank r.severity
  else if r.path != s.path then r.path < s.path
  else rangeLe r.lines s.lines

def Budget.hasRoom (taken : List Risk) (r : Risk) : Bool :=
  decide ((taken.length : Int) < b.total)
    && decide (((taken.countP (·.path == r.path)) : Int) < b.perFile)
    && ((get? b.perKind r.kind.name).all fun cap =>
      decide (((taken.countP (·.kind == r.kind)) : Int) < cap))

def Budget.take (risks : List Risk) : List Risk :=
  risks.foldl (fun taken r => if b.hasRoom taken r then taken ++ [r] else taken) []

def Budget.choose (risks : List Risk) : List Risk := b.take (risks.mergeSort b.precedes)

end PatchReview.Risk
