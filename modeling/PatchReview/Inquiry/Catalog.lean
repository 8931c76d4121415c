import PatchReview.Import.Resolve

/-!
# Inquiries by name

The inquiries about an index with named arguments, which may be any values. A value is read where the inquiry first
needs it, so that what is wrong with it shows only then; and what an inquiry was given stands in its answer as it was.
-/

namespace PatchReview.Tool

/-!
## Arguments of tools

Named values, as a model gives them. A name that the tool does not know, or a missing one that it needs, is a fault.
-/

abbrev Arguments := Json.Object

namespace Arguments

variable (a : Arguments) (key : String)

def check (needed optional : Strings) : Result Unit :=
  if a.any fun (k, _) => !needed.contains k && !optional.contains k then
    .error (.shape "unexpected keyword argument")
  else if needed.any fun k => !Fields.has a k then .error (.shape "missing required argument")
  else .ok ()

def get (default : Json := .null) : Json := (Fields.get? a key).getD default

/-- A text, or how another value is shown. -/
def text : String :=
  match a.get key with
  | .text s => s
  | .null => ""
  | v => v.display

def int (default : Int) : Action Int := Action.ofExcept (a.get key default).toInt

def flag (default : Bool) : Bool := (a.get key default).truthy

end Arguments

end PatchReview.Tool

namespace PatchReview.Inquiry

open Tool (Arguments)

variable (ix : Index) (a : Arguments) (v given node : Json) (vs : List Json)

/-- The revision that a value names, which must be there, and the value; without one the newest. -/
def revisionOf : Result (String × Json) := do
  if v.truthy then
    match (← Cell.ofParameter 1 v).text?.filter ix.hasRevision with
    | some r => return (r, v)
    | none => throw (.invalid s!"Unknown rev: {v.display}")
  else
    let r ← ix.requireRevision none
    return (r, r)

def asked : Result (String × Json) := revisionOf ix (a.get "rev")

/-- Checks that values can be parameters of a statement. -/
def bindable : Result Unit := do
  let _ ← Cell.ofParameters vs

/-- The text of a value in a column of texts; none when it has none. -/
def columnText? : Option String :=
  match Cell.ofParameter 1 v with
  | .ok c => c.text?
  | .error _ => none

/-- The text that a column is compared with, when a value asks for that. -/
def wanted? : Option String := if v.truthy then columnText? v else none

def asking : List Json := vs.filter (·.truthy)

/-- A name that is looked for; what is no text is looked for as it is shown. -/
def nameOf : String := (columnText? v).getD v.display

def isKey : Json → Bool
  | .list _ => false
  | .object _ => false
  | _ => true

def requireKey : Result Unit := if isKey v then .ok () else .error (.shape s!"unhashable type: '{v.kindName}'")

/-- The texts that a column is compared with, given as a value that can be gone through; none when it asks for
nothing. -/
def choices : Result (List Json) := if v.truthy then v.elements else .ok []

/-- Twenty times a bound that was given: a text is repeated. -/
def twentyfold : Bound :=
  match v with
  | .text s => (Json.text (String.join (List.replicate 20 s))).toInt
  | .real x => (Json.real (x * 20.0)).toInt
  | v => v.toInt.map (· * 20)

def symbolSearchBy : Action Outcome :=
  guarded "symbol_search failed" do
    let (rev, given) ← asked ix a
    let name := a.get "query"
    let lang := a.get "lang"
    let file := a.get "file_path"
    let exact := a.flag "exact_name" true
    let limit ← a.int "limit" 50
    let names := if exact then [name] else [name, s!"%{name.display}%", name]
    bindable ([given] ++ asking [lang, file] ++ names ++ [.int limit])
    let o ← symbolSearch ix {
      name := nameOf name, part := name.display, rev := some rev, lang := wanted? lang, file := wanted? file
      limit := .ofInt limit, callSites := a.flag "include_callsites" true, exact
      callerLimit := twentyfold (a.get "limit" (.int 50)) }
    return o.echoing [("rev", given), ("query", name)]

def outlineBy : Action Outcome :=
  guarded "ast_index failed" do
    let (rev, given) ← asked ix a
    let lang := a.get "lang"
    let files := a.get "file_paths"
    let chosen ← choices files
    bindable ([given] ++ chosen ++ asking [lang])
    let o ← outline ix {
      rev := some rev, files := if files.truthy then some (chosen.filterMap columnText?) else none
      lang := wanted? lang, limit := (a.get "limit_per_file" (.int 500)).toInt
      definitions := a.flag "include_defs" true, calls := a.flag "include_calls" true
      imports := a.flag "include_imports" true }
    return o.echoing [("rev", given)]

/-- Whether a value looks like the id of a symbol; it must hold things. -/
def seemsId : Json → Result Bool
  | .text s => .ok (looksLikeId s)
  | .list vs => .ok (vs.any (·.same ":") && vs.any (·.same "-"))
  | .object fs => .ok (Fields.has fs ":" && Fields.has fs "-")
  | v => .error (.shape s!"argument of type '{v.kindName}' is not iterable")

def signaturesBy : Action Outcome :=
  guarded "get_signature failed" do
    let (rev, given) ← asked ix a
    let name := a.get "qualified_name"
    let lang := a.get "lang"
    if ← seemsId name then
      bindable [given, name]
      return (← signatures ix (nameOf name) (some rev) none 0).echoing [("rev", given)]
    let limit ← a.int "limit" 5
    bindable (name :: asking [lang] ++ [.int limit])
    let o ← signatures ix (nameOf name) (some rev) (wanted? lang) (.ofInt limit)
    return o.echoing [("rev", given), ("name", name), ("query", name), ("lang", lang)]

def summaryBy : Action Outcome :=
  guarded "cpg_summary failed" do
    let (rev, given) ← asked ix a
    let symbol := a.get "symbol"
    let isId ← seemsId symbol
    bindable (if isId then [given, symbol] else [symbol])
    return (← summary ix (nameOf symbol) (some rev)).echoing [("rev", given), ("symbol", symbol)]

def notPath : Fault := .shape s!"expected str, bytes or os.PathLike object, not {v.kindName}"

def pathOf? : Json → Result (Option String)
  | .text s => .ok (some s)
  | v => if v.truthy then .error (notPath v) else .ok none

/-- The name of a module; how it is no text shows by the language. -/
def moduleOf (lang : String) (hasRoot : Bool) : Json → Result String
  | .text s => .ok s
  | v =>
    if lang == "typescript" || (lang == "python" && hasRoot) then
      .error (v.lacks "strip")
    else if lang == "java" && hasRoot then .error (v.lacks "replace")
    else if lang == "java" then .ok ""
    else .error (notPath v)

/-- How deep modules are followed: a number that can be compared. -/
def depthOf : Bound :=
  match v.number? with
  | some x => (Json.real x.ceil).toInt
  | none => .error (.shape s!"'<=' not supported between instances of '{v.kindName}' and 'int'")

def resolveImportBy : Action Outcome :=
  guarded "resolve_import failed" do
    let (rev, given) ← asked ix a
    let lang := a.get "lang"
    requireKey lang
    match lang with
    | .text l =>
      if !Import.languages.contains l then return Import.unsupported lang
      let module := a.get "from_module"
      let name := a.get "name"
      let root ← pathOf? (a.get "repo_root_hint")
      let importer ← pathOf? (a.get "importer_file_path")
      let source ← moduleOf l (root.any (· != "")) module
      let o ← Import.resolve ix l source name.display (some rev) root importer (depthOf (a.get "max_depth" (.int 8)))
      return o.echoing [("rev", given), ("from_module", module), ("name", name)]
    | v => return Import.unsupported v

/-- The names of edge kinds that a walk follows. -/
def kindsOf : Result Strings := do
  match Fields.get? a "edge_kinds" with
  | none => return defaultKinds
  | some v =>
    let kinds ← choices v
    bindable ([given, node] ++ kinds)
    return kinds.filterMap columnText?

variable (starts : List Json) (direction : Index.Direction) (maxNodes maxSteps : Json)

/-- How a walk from some nodes goes. The bounds are read as far as the walk comes to them. -/
def walkOptions (goal : Option String) : Result WalkOptions := do
  starts.forM requireKey
  match starts with
  | [] => return { direction, goal }
  | start :: _ =>
    let o : WalkOptions := { direction, goal, maxNodes := ← maxNodes.toInt }
    if o.maxNodes ≤ (Index.once (starts.map nameOf)).length || goal == some (nameOf start) then return o
    let o := { o with maxSteps := ← maxSteps.toInt }
    if o.maxSteps ≤ 0 then return o
    bindable [given, start]
    return { o with kinds := ← kindsOf a given start }

def reachedBy : Action Outcome :=
  graphInquiry do
    let (rev, given) ← asked ix a
    let o ← walkOptions a given starts direction maxNodes maxSteps none
    return (← reachedNodes ix (some rev) o (starts.map nameOf)).echoing [("rev", given)]

def sliceBy : Action Outcome := do
  let direction := a.get "direction"
  requireKey direction
  let limit := a.get "max_nodes" (.int 200)
  let criteria := a.get "criteria_node_ids"
  let follow (d : Index.Direction) := do
    match criteria.elements with
    | .ok starts => reachedBy ix a starts d limit (.int 64)
    | .error _ => throw (.shape s!"'{criteria.kindName}' object is not iterable")
  match direction with
  | .text "forward" => follow .out
  | .text "backward" => follow .into
  | v => return .refused "invalid direction" [("direction", v)]

def queryBy (start : String) (direction : Index.Direction) : Action Outcome :=
  reachedBy ix a [a.get start] direction (a.get "max_visited" (.int 2000)) (a.get "max_steps" (.int 64))

def reachabilityBy : Action Outcome :=
  let start := a.get "src_node_id"
  let goal := a.get "dst_node_id"
  let maxSteps := a.get "max_steps" (.int 128)
  if goal.truthy then
    graphInquiry do
      let (rev, given) ← asked ix a
      let o ← walkOptions a given [start] .out pathNodes maxSteps (some (nameOf goal))
      return (← pathTo ix (some rev) o (nameOf start) (nameOf goal)).echoing [("rev", given)]
  else reachedBy ix a [start] .out pathNodes maxSteps

/-- The bound on the edges of a node, when edges are looked for at all. -/
def edgeBound (default : Int) : Result Int64 := do
  let limit ← (a.get "limit" default).toInt
  bindable [given, node, limit]
  return .ofInt limit

def callGraphBy : Action Outcome :=
  guarded "cpg_callgraph failed" do
    let (rev, given) ← asked ix a
    let node := a.get "node_or_symbol"
    let _ ← seemsId node
    requireKey node
    let depth ← a.int "depth" 2
    let direction := a.get "direction" "out"
    if 0 < depth then
      requireKey direction
      let _ ← Index.Direction.read direction.display
    let limit ← if 0 < depth then edgeBound a given node 200 else pure 0
    return (← callGraph ix (some rev) (nameOf node) direction.display depth limit).echoing [("rev", given)]

def flowRegionBy : Action Outcome :=
  guarded "cpg_cfg_region failed" do
    let (rev, given) ← asked ix a
    let node := a.get "root_node_id"
    requireKey node
    let depth ← a.int "depth" 2
    let limit ← if 0 < depth then edgeBound a given node 500 else pure 0
    return (← flowRegion ix (some rev) (nameOf node) depth limit).echoing [("rev", given)]

def run (name : String) (a : Arguments) : Action Outcome :=
  let ask (inquiry : Index → Arguments → Action Outcome) (needed optional : Strings) := do
    a.check needed ("rev" :: optional)
    inquiry ix a
  let walk (start : String) (direction : Index.Direction) : Action Outcome :=
    ask (queryBy · · start direction) [start] ["edge_kinds", "max_steps", "max_visited"]
  match name with
  | "symbol_search" => ask symbolSearchBy ["query"] ["lang", "file_path", "limit", "include_callsites", "exact_name"]
  | "ast_index" | "ts_index" =>
    ask outlineBy [] ["file_paths", "lang", "include_defs", "include_calls", "include_imports", "limit_per_file"]
  | "get_signature" => ask signaturesBy ["qualified_name"] ["lang", "limit"]
  | "resolve_import" =>
    ask resolveImportBy ["lang", "from_module", "name"] ["repo_root_hint", "importer_file_path", "max_depth"]
  | "cpg_slice" => ask sliceBy ["criteria_node_ids", "direction"] ["edge_kinds", "max_nodes"]
  | "cpg_query_forward" => walk "start_node_id" .out
  | "cpg_query_backward" => walk "sink_node_id" .into
  | "cpg_reachability" => ask reachabilityBy ["src_node_id", "dst_node_id"] ["edge_kinds", "max_steps"]
  | "cpg_callgraph" => ask callGraphBy ["node_or_symbol"] ["direction", "depth", "limit"]
  | "cpg_cfg_region" => ask flowRegionBy ["root_node_id"] ["depth", "limit"]
  | "cpg_summary" => ask summaryBy ["symbol"] []
  | _ => throw (.missingKey name)

end PatchReview.Inquiry
