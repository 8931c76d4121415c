import PatchReview.Workbench.Review

/-!
# Chunks on the workbench
-/

namespace PatchReview.Workbench

open Json Review

def scoreJson (x : Float) : Json := Number.fixedPlaces 6 x

def entryOf (i : Json) : Chunk.Entry :=
  { path := textOr i "file_path" ""
    group := textOr i "group_key" ""
    diff := textOr i "diff_text" ""
    changed := intOr i "changed_lines" 0
    chars := intOr i "diff_chars" 0
    danger := intOr i "danger_hits" 0
    strong := flagOr i "strong_danger" false
    interface := intOr i "public_api_delta_hits" 0
    weight := realOr i "type_weight" }

def entryJson (e : Chunk.Entry) : Json :=
  .object [("file_path", e.path), ("group_key", e.group), ("changed_lines", e.changed),
    ("diff_chars", e.chars), ("danger_hits", e.danger), ("strong_danger", e.strong),
    ("public_api_delta_hits", e.interface), ("type_weight", e.weight), ("score", scoreJson e.score)]

def entriesOf (i : Json) : Action (List Chunk.Entry) := do
  match i.get? "entries" with
  | some v => return v.items.map entryOf
  | none => Chunk.entries (← needText i "diff") (textsOf (← need i "files_changed"))

def chunkJson (c : Chunk) : Json :=
  .object [("id", c.id), ("group", c.group), ("files", texts (c.files.map (·.path))),
    ("diff", c.diff), ("chars", c.diff.length), ("changed", c.changed), ("score", scoreJson c.score),
    ("must", c.must)]

def chunkOf (v : Json) : Chunk :=
  match v.items with
  | [id, score, changed, must] =>
    { id := id.text?.getD "", score := score.number?.getD 0.0, changed := changed.int?.getD 0, must := must.truthy }
  | _ => { id := "" }

def chunkNames (cs : List Chunk) : Json := texts (cs.map (·.id))

def sortedAnalyses (v : Json) : Json :=
  .list (Index.sortOn (textOr · "file_path" "") (Index.sortOn (textOr · "intent_summary" "") v.items))

def sortedUpdate (u : Update) : Json :=
  .object (u.map fun (k, v) => (k, if k == "file_analyses" then sortedAnalyses v else v))

def onChunks (op : String) (i : Json) (settings : Option Settings) : Action Json := do
  match op with
  | "env" =>
    let found ← (← need i "ask").items.mapM fun v => do
      let name := ((v.items[0]?).bind text?).getD ""
      let default := (v.items[1]?).getD .null
      let whole ← Environment.whole name (← default.toInt)
      let real ← Environment.real name (← default.toReal)
      return list [whole, scoreJson real, whole]
    return .list found
  | "group" => return texts ((textsOf (← need i "paths")).map Chunk.groupOf)
  | "weight" => return .list ((textsOf (← need i "paths")).map fun p => Chunk.kindWeight p)
  | "signals" =>
    let s ← needText i "text"
    return .list [Chunk.interfaceHits s, Chunk.dangerHits s, Chunk.isStrong s]
  | "entries" => return .list ((← entriesOf i).map entryJson)
  | "pack" =>
    let files ← entriesOf i
    let chunks := Chunk.pack ⟨intOr i "max_chunk" 0, intOr i "max_file" 0⟩ files
    let s ← Chunk.select (← chunkQuota) chunks
    return .object [("chunks", .list (chunks.map chunkJson)), ("selected", chunkNames s.selected),
      ("skipped", chunkNames s.skipped)]
  | "select" =>
    let s ← Chunk.select (← chunkQuota) ((← need i "chunks").items.map chunkOf)
    return .list [chunkNames s.selected, chunkNames s.skipped]
  | "parse" =>
    return match analysesIn? (← needText i "text") with
      | some as => .object [("file_analyses", .list (as.map FileAnalysis.toJson))]
      | none => .null
  | "node" =>
    modify fun w => { w with monotonic := (i.getD "mono").number?.getD w.monotonic }
    return sortedUpdate (← findIntentsInChunks (stateOf i settings))
  | _ => throw (.other op)

end PatchReview.Workbench
