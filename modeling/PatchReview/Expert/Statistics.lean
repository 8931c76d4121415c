import PatchReview.Chat.Client

/-!
# How much experts did

For each risk, how many tools were called and how many answers the model gave; and what that comes to for all risks.
-/

namespace PatchReview.Expert

open Number

def toolMessages (ms : List Chat.Message) : Nat := ms.countP (·.speaker == .tool)

def modelMessages (ms : List Chat.Message) : Nat := ms.countP (·.speaker == .ai)

structure Statistics where
  risks : Nat
  histogram : List (Int × Nat)
  averageCalls : Float
  mostCalls : Int
  averageRounds : Float
  mostRounds : Int

variable (v : Json) (ns : List Int)

def mean : Float :=
  let sum := totalWhole ns
  let size := nearest sum.natAbs (max 1 ns.length)
  if sum < 0 then -size else size

def largest : List Int → Int
  | [] => 0
  | n :: ns => ns.foldl max n

def histogramOf : List (Int × Nat) := ns.eraseDups.mergeSort.map fun n => (n, ns.count n)

def Statistics.ofRecords (records : List (Int × Int)) : Statistics :=
  let calls := records.map (·.1)
  let rounds := records.map (·.2)
  { risks := records.length
    histogram := histogramOf calls
    averageCalls := mean calls
    mostCalls := largest calls
    averageRounds := mean rounds
    mostRounds := largest rounds }

def recordParts (record : Json) : Result (Json × Json) := do
  match ← record.elements with
  | [a, b] => return (a, b)
  | _ :: _ :: _ => throw (.invalid "too many values to unpack (expected 2)")
  | vs => throw (.invalid s!"not enough values to unpack (expected 2, got {vs.length})")

/-- The statistics of records as values. The tool calls of all records are read before the answers. -/
def Statistics.read (records : Json) : Result Statistics := do
  let records ← records.elements
  let calls ← records.mapM fun r => do (← recordParts r).1.toInt
  let rounds ← records.mapM fun r => do (← recordParts r).2.toInt
  let s := Statistics.ofRecords (calls.zip rounds)
  if s.averageCalls.isInf || s.averageRounds.isInf then
    throw (.overflow "integer division result too large for a float")
  return s

def Statistics.toJson (s : Statistics) : Json :=
  .object [("total_risks", s.risks), ("tool_calls_hist", .object (s.histogram.map fun (n, k) => (toString n, k))),
    ("tool_calls_avg", s.averageCalls),
    ("tool_calls_max", s.mostCalls),
    ("ai_rounds_avg", s.averageRounds),
    ("ai_rounds_max", s.mostRounds)]

/-- The histogram as it is shown: its numbers are no texts. -/
def shownHistogram : String :=
  let rows := joinWith ", " (v.fields.map fun (n, k) => s!"{n}: {k.display}")
  "\x7b" ++ rows ++ "\x7d"

def shownStatistics : String :=
  let rows := joinWith ", " (v.fields.map fun (key, x) =>
    s!"{quoted key}: " ++ if key == "tool_calls_hist" then shownHistogram x else x.displayQuoted)
  "\x7b" ++ rows ++ "\x7d"

def wholeOrZero : Result Int := if v.truthy then v.toInt else .ok 0

def realOrZero : Result Float := if v.truthy then v.toReal else .ok 0.0

def histogramText : Result String :=
  match v with
  | .object (f :: fs) => do
    let rows ← (f :: fs).mapM fun (k, v) => do
      let n ← (Json.text k).toInt
      let count ← v.toInt
      return (n, count)
    return joinWith ", " ((rows.mergeSort fun a b => a.1 ≤ b.1).map
      fun (n, count) => s!"{n}次={count}个")
  | _ => .ok "<empty>"

def summary (stats : Json.Object) : Result String := do
  let field (key : String) := (Fields.get? stats key).getD .null
  let total ← wholeOrZero (field "total_risks")
  let average ← realOrZero (field "tool_calls_avg")
  let most ← wholeOrZero (field "tool_calls_max")
  let averageRounds ← realOrZero (field "ai_rounds_avg")
  let mostRounds ← wholeOrZero (field "ai_rounds_max")
  let shown := fixedPlaces 2 average
  let shownRounds := fixedPlaces 2 averageRounds
  let histogram ← histogramText (field "tool_calls_hist")
  return joinWith "\n" ["\n" ++ rule, "🧮 Expert tool-call stats", rule, s!"Total risks: {total}",
    s!"Tool calls: avg={shown}, max={most}",
    s!"AI rounds: avg={shownRounds}, max={mostRounds}",
    s!"Histogram: {histogram}",
    rule]

end PatchReview.Expert
