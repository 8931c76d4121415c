import PatchReview.Index.Prepare

/-!
# Inquiries

A question about an index is answered with data or refused with a message. Faults on the way refuse it too.
-/

namespace PatchReview.Inquiry

inductive Outcome where
  | found (data : Json.Object)
  | refused (message : String) (details : Json.Object)

def Outcome.toJson : Outcome → Json
  | found data => .object [("ok", true), ("data", .object data)]
  | refused message details =>
    .object [("ok", false), ("data", .null), ("error", .object [("message", message), ("details", .object details)])]

/-- An outcome that gives some things back as they were given. -/
def Outcome.echoing (given : Json.Object) (o : Outcome) : Outcome :=
  let echo (fields : Json.Object) := fields.map fun (k, v) => (k, (Fields.get? given k).getD v)
  match o with
  | found data => .found (echo data)
  | refused message details => .refused message (echo details)

def guarded (message : String) (a : Action Outcome) : Action Outcome := do
  match ← Action.attempt a with
  | .ok o => return o
  | .error e => if e.isError then return .refused message [("error", e.message)] else throw e

/-- A bound as it was given: a number, or why it is none. It is read where it is needed. -/
abbrev Bound := Result Int

/-- A bound on the rows that are taken, which has to fit into a cell. -/
def Bound.rows (b : Bound) : Result Int64 := do
  let n ← b
  if Cell.holdsWhole n then return .ofInt n
  else throw Cell.tooLarge

def location (s : Graph.Span) : Json :=
  .object [("file_path", s.path), ("start_line", s.startLine), ("start_col", s.startColumn),
    ("end_line", s.endLine), ("end_col", s.endColumn)]

def attributes (s : String) : Json :=
  let v := Index.attrsValue s
  if v.truthy then v else .null

variable (path : String)

def symbolHit (s : Index.SymbolRow) : Json :=
  .object [("symbol_id", s.id), ("name", s.name), ("kind", s.kind), ("lang", s.lang),
    ("location", location (Index.spanAt path s.place)), ("attrs", attributes s.attrs)]

def plainSymbolHit (s : Index.SymbolRow) : Json :=
  .object [("symbol_id", s.id), ("name", s.name), ("kind", s.kind), ("lang", s.lang),
    ("location", location (Index.spanAt path s.place)), ("attrs", .null)]

def nodeHit (kind : String) (id : String) (s : Graph.Span) : Json :=
  .object [("node_id", id), ("kind", kind), ("location", location s), ("attrs", .null)]

def nodeHits (ix : Index) (kind : String) (ids : Strings) : Result (List Json) := do
  return (← ix.nodeSpans ids).map fun (id, place) => nodeHit kind id place

def importHit (path lang text : String) (place : Graph.Span) (resolved : Option String) : Json :=
  .object [("file_path", path), ("lang", lang), ("import_text", text),
    ("location", location place), ("resolved_path", .ofText? resolved), ("resolved_symbol_id", .null)]

def fileStart : Graph.Span := ⟨path, 1, 1, 1, 1⟩

/-!
## Walks over the graph of a revision

Breadth-first walks from some nodes along edges of some kinds: what is reached, a shortest path, and the
neighbourhood of a node layer by layer.
-/

def defaultKinds : Strings := ["DDG", "CFG", "CFG_BRANCH", "CALL", "CFG_IP_CALL", "CFG_IP_RET"]

structure WalkOptions where
  direction : Index.Direction := .out
  kinds : Strings := defaultKinds
  maxNodes : Int := 200
  maxSteps : Int := 64
  /-- Where the walk may stop. -/
  goal : Option String := none

/-- A node with the node and kind of edge it was reached by; a start has none. -/
abbrev Reached := List (String × Option (String × String))

def edgeLimit : Int64 := 500

variable (ix : Index) (rev : String) (o : WalkOptions)

/-- Takes the edges of a node: those to new nodes enter the reached ones and the queue. -/
def expand (node : String) (steps : Nat) (reached : Reached) : Reached × List (String × Nat) :=
  (ix.edgesAtRev rev o.direction o.kinds edgeLimit node).foldl (fun (reached, queue) e =>
    let far := o.direction.far e
    if Fields.has reached far then (reached, queue)
    else (reached ++ [(far, some (node, e.kind))], queue ++ [(far, steps + 1)])) (reached, [])

def walk : Nat → Reached → List (String × Nat) → Reached
  | 0, reached, _ => reached
  | _, reached, [] => reached
  | n + 1, reached, (node, steps) :: queue =>
    if o.maxNodes ≤ reached.length then reached
    else if o.goal == some node then reached
    else if o.maxSteps ≤ steps then walk n reached queue
    else
      let (reached, more) := expand ix rev o node steps reached
      walk n reached (queue ++ more)

/-- What is reached from some nodes, each with the edge it was reached by. -/
def reach (starts : Strings) : Reached :=
  walk ix rev o (starts.length + ix.edges.length + 1) ((Index.once starts).map (·, none))
    (starts.map (·, 0))

variable (rev : Option String) (o : WalkOptions) (start goal : String)

def wayBack (reached : Reached) : Nat → String → Strings × Strings
  | 0, node => ([node], [])
  | n + 1, node =>
    match Fields.get? reached node with
    | some (some (before, kind)) =>
      let (nodes, kinds) := wayBack reached n before
      (node :: nodes, if kind == "" then kinds else kind :: kinds)
    | _ => ([node], [])

def reachedNodes (starts : Strings) : Result Outcome := do
  let r ← ix.requireRevision rev
  let nodes ← nodeHits ix "node" ((reach ix r o starts).map (·.1))
  return .found [("rev", r), ("nodes", .list nodes), ("count", nodes.length)]

def pathTo : Result Outcome := do
  let r ← ix.requireRevision rev
  let reached := reach ix r { o with goal := some goal } [start]
  if !Fields.has reached goal then
    return .found [("rev", r), ("reachable", false), ("path", .null)]
  let (nodes, kinds) := wayBack reached reached.length goal
  let nodes := nodes.reverse
  return .found [("rev", r), ("reachable", true),
    ("path", .object [("node_ids", .texts nodes), ("edge_kinds", .texts kinds.reverse),
      ("locations", .list ((nodes.filterMap ix.nodeSpan?).map location))])]

def graphInquiry (a : Result Outcome) : Action Outcome := guarded "cpg graph query failed" (Action.ofExcept a)

def pathNodes : Int := 5000

/-- Whether one node reaches another, and how. An empty goal only walks. -/
def reachability (kinds : Strings) (maxSteps : Int) : Action Outcome :=
  let o : WalkOptions := { kinds, maxNodes := pathNodes, maxSteps }
  graphInquiry (if goal == "" then reachedNodes ix rev o [start] else pathTo ix rev o start goal)

structure Region where
  nodes : Strings
  edges : List Index.EdgeRow := []

/-- Takes an edge into a region; a new node belongs to the next layer. -/
def Region.add (dir : Index.Direction) (state : Region × Strings) (e : Index.EdgeRow) : Region × Strings :=
  let (region, layer) := state
  let region := { region with edges := region.edges ++ [e] }
  let far := dir.far e
  if region.nodes.contains far then (region, layer)
  else ({ region with nodes := region.nodes ++ [far] }, layer ++ [far])

def Region.grow (rev : String) (dir : Index.Direction) (kinds : Strings)
    (limit : Int64) : Nat → Strings → Region → Region
  | 0, _, region => region
  | _, [], region => region
  | depth + 1, layer, region =>
    let (region, next) := layer.foldl (fun state node =>
      (ix.edgesAtRev rev dir kinds limit node).foldl (Region.add dir) state) (region, [])
    Region.grow rev dir kinds limit depth next region

def Region.toOutcome (rev kind : String) (r : Region) : Result Outcome := do
  return .found [("rev", rev), ("nodes", .list (← nodeHits ix kind r.nodes)),
    ("edges", .list (r.edges.map fun e =>
      .object [("src", e.src), ("dst", e.dst), ("kind", e.kind)]))]

def callKinds : Strings := ["CALL", "CFG_IP_CALL", "CFG_IP_RET"]

def flowKinds : Strings := ["CFG", "CFG_BRANCH"]

def callGraph (start direction : String) (depth : Int) (limit : Int64) : Action Outcome :=
  guarded "cpg_callgraph failed" <| Action.ofExcept do
    let r ← ix.requireRevision rev
    if depth ≤ 0 then Region.toOutcome ix r "node" ⟨[start], []⟩
    else do
      let dir ← Index.Direction.read direction
      (Region.grow ix r dir callKinds limit depth.toNat [start] ⟨[start], []⟩).toOutcome ix r "node"

def flowRegion (root : String) (depth : Int) (limit : Int64) : Action Outcome :=
  guarded "cpg_cfg_region failed" <| Action.ofExcept do
    let r ← ix.requireRevision rev
    (Region.grow ix r .out flowKinds limit depth.toNat [root] ⟨[root], []⟩).toOutcome ix r "cfg_node"

/-!
## Symbols by name

Where symbols are defined and called, what their signatures are, and a short summary of one.
-/

open Index Repository

structure SymbolQuery where
  name : String
  part : String := name
  rev : Option String := none
  lang : Option String := none
  file : Option String := none
  limit : Int64 := 50
  callSites : Bool := true
  exact : Bool := true
  callerLimit : Bound := .ok (limit.toInt * 20)

variable (ix : Index) (s : LocatedSymbol) (rev : String) (q : SymbolQuery)

def SymbolQuery.takes (f : FileRow) : Bool :=
  q.lang.all (fun l => l == "" || f.lang == l) && q.file.all (fun p => p == "" || f.path == p)

def SymbolQuery.fileOf? (q : SymbolQuery) (ix : Index) (rev : String) (fileId : Int)
    (blob : String) : Option FileRow := do
  let f ← ix.fileOf? fileId
  if q.takes f && ix.visibleAt rev fileId blob then some f else none

def placeLe (a b : Place) : Bool :=
  a.startLine < b.startLine || (a.startLine == b.startLine && a.startColumn ≤ b.startColumn)

/-- The symbols of exactly a name, by place; ties by language. -/
def exactSymbols : List (String × SymbolRow) :=
  let rows := (sortOn (·.lang) (ix.symbols.filter (·.name == q.name))).filterMap fun s =>
    (q.fileOf? ix rev s.fileId s.blob).map fun f => (f.path, s)
  limited q.limit (rows.mergeSort fun a b => placeLe a.2.place b.2.place)

/-- The symbols whose names hold a text, those of exactly the name first, then by place; ties by file. -/
def similarSymbols : List (String × SymbolRow) :=
  let named := ix.symbols.filter fun s => s.name == q.name || like s!"%{q.part}%" s.name
  let rows := (named.mergeSort fun a b => a.fileId ≤ b.fileId).filterMap fun s =>
    (q.fileOf? ix rev s.fileId s.blob).map fun f => (f.path, s)
  let isExact (r : String × SymbolRow) := r.2.name == q.name
  limited q.limit (rows.mergeSort fun a b =>
    (isExact a && !isExact b) || (isExact a == isExact b && placeLe a.2.place b.2.place))

def callersOf (limit : Int64) (names : Strings) : Strings :=
  let rows := names.flatMap fun n =>
    (ix.calls.filter (·.name == n)).mergeSort fun a b => a.resolved ≤ b.resolved
  let rows := rows.filter fun c => (q.fileOf? ix rev c.fileId c.blob).isSome
  limited limit (once (rows.map (·.src)))

def symbolSearch : Action Outcome :=
  guarded "symbol_search failed" <| Action.ofExcept do
    let r ← ix.requireRevision q.rev
    let hits := if q.exact then exactSymbols ix r q else similarSymbols ix r q
    let hits := if q.exact && hits.isEmpty then similarSymbols ix r q else hits
    let callers ← if q.callSites && !hits.isEmpty then do
        pure (callersOf ix r q (← q.callerLimit.rows) (sortedOnce (hits.map (·.2.name))))
      else pure []
    return .found [("rev", r), ("query", q.name), ("symbols", .list (hits.map fun (path, s) => symbolHit path s)),
      ("callsites", .list (callers.filterMap fun id => (ix.nodeSpan? id).map (nodeHit "callsite" id)))]

def firstLine? (s : String) : Option String := (linesOf (strip s)).head?.map strip

/-- The text of a declaration's first line; none when there is no syntax for it. -/
def declaredSignature : Action String := do
  match ← Action.ofExcept (ix.blobContent s.row.blob) with
  | none => return ""
  | some source =>
    match ← Action.attempt (do
      let lang ← Action.ofExcept (Syntax.Language.normal s.file.lang)
      requireParser lang) with
    | .error _ => return ""
    | .ok _ =>
      let root ← treeOf source
      match root.atRange? s.row.place.startByte s.row.place.endByte with
      | none => return ""
      | some t =>
        match firstLine? (t.text source) with
        | some line => return line
        | none => throw (.outOfRange "list index out of range")

/-- The signature of a symbol: the one in its summary, else its first line. -/
def signature : Action String := do
  match ix.symbolSummaries.find? (·.id == s.row.id) with
  | some r => if r.signature != "" then return r.signature else declaredSignature ix s
  | none => declaredSignature ix s

def looksLikeId (s : String) : Bool := holds ":" s && holds "-" s

def symbolLocation : Json := location (spanAt s.file.path s.row.place)

def symbolFields : Json.Object :=
  [("symbol_id", s.row.id), ("name", s.row.name), ("kind", s.row.kind),
    ("lang", s.file.lang), ("file_path", s.file.path), ("location", symbolLocation s)]

def signatures (name : String) (rev lang : Option String) (limit : Int64) : Action Outcome :=
  guarded "get_signature failed" do
    let r ← Action.ofExcept (ix.requireRevision rev)
    if looksLikeId name then
      match ix.symbolAtRev? r name with
      | none => return .refused "symbol not found at rev" [("rev", r), ("symbol_id", name)]
      | some s =>
        return .found [("rev", r), ("symbol", s.row.id), ("file_path", s.file.path),
          ("location", symbolLocation s), ("signature", ← signature ix s)]
    let ids := ix.symbolIds name lang limit
    if ids.isEmpty then
      return .refused "no symbols found for name"
        [("rev", r), ("name", name), ("lang", .ofText? lang)]
    let results ← (ids.filterMap (ix.symbolAtRev? r)).mapM fun s => do
      return Json.object (symbolFields s ++ [("signature", .text (← signature ix s))])
    return .found [("rev", r), ("query", name), ("results", .list results)]

def occurs (pattern text : String) : Bool :=
  match Pattern.Regex.read pattern {} with
  | .ok r => r.found text
  | .error _ => false

/-- A summary drawn from the text of a declaration: its first line, and what its words hint at. -/
def heuristicSummary (snippet : String) : String × Json.Object :=
  let text := strip snippet
  let first := (firstLine? text).getD ""
  (first, [("first_line", first), ("has_return", occurs "\\breturn\\b" text),
    ("may_throw", occurs "\\braise\\b|\\bthrow\\b" text),
    ("has_side_effects", (occurs ("\\b(open|write|delete|remove|unlink|exec|eval|requests\\\\.|http|" ++
      "socket|connect|commit|rollback)\\\\b") (lowered text)))])

/-- The part of some bytes from one position to before another; a negative one counts from the end. -/
def part (source : Bytes) (first last : Int) : Bytes :=
  let place (n : Int) : Nat := (if n < 0 then n + source.length else n).toNat
  (source.take (place last)).drop (place first)

/-- The symbol that a summary is about: one with that id, else the first of that name. -/
def summarized (rev symbol : String) : Except Outcome LocatedSymbol :=
  let byId := if looksLikeId symbol then ix.symbolAtRev? rev symbol else none
  match byId with
  | some s => .ok s
  | none =>
    match ix.symbolIds symbol none 1 with
    | [] => .error (.refused "symbol not found" [("rev", rev), ("symbol", symbol)])
    | id :: _ =>
      match ix.symbolAtRev? rev id with
      | some s => .ok s
      | none => .error (.refused "symbol not found at rev" [("rev", rev), ("symbol", symbol)])

def summary (symbol : String) (rev : Option String) : Action Outcome :=
  guarded "cpg_summary failed" do
    let r ← Action.ofExcept (ix.requireRevision rev)
    match summarized ix r symbol with
    | .error o => return o
    | .ok s =>
      let fields := ("rev", .text r) :: symbolFields s
      match ix.symbolSummaries.find? (·.id == s.row.id) with
      | some stored =>
        return .found (fields ++ [("signature", .text stored.signature),
          ("summary_text", .text stored.text), ("summary_struct", attrsValue stored.struct),
          ("_meta", .object [("generator", stored.generator), ("llm_model", stored.model)])])
      | none =>
        let source? ← Action.ofExcept (ix.blobContent s.row.blob)
        let sig ← signature ix s
        match source? with
        | none =>
          return .found (fields ++ [("signature", .text sig), ("summary_text", .text ""),
            ("summary_struct", .object []),
            ("_meta", .object [("generator", "none"), ("note", .text
              "blob content not available; index_repository(..., store_blobs=True) recommended")])])
        | some source =>
          let snippet := Utf8.decodeDropping (part source s.row.place.startByte s.row.place.endByte)
          let (text, parts) := heuristicSummary snippet
          return .found (fields ++ [("signature", .text sig), ("summary_text", .text text),
            ("summary_struct", .object parts), ("_meta", .object [("generator", "heuristic")])])

/-!
## Outlines of files

What each file of a revision defines, calls and imports.
-/

structure OutlineQuery where
  rev : Option String := none
  files : Option Strings := none
  lang : Option String := none
  definitions : Bool := true
  calls : Bool := true
  imports : Bool := true
  limit : Bound := .ok 500

/-- The first items up to a limit; a negative limit leaves out that many at the end. -/
def firstOf {α : Type} (limit : Int) (items : List α) : List α :=
  if limit < 0 then items.take (items.length - (-limit).toNat) else items.take limit.toNat

variable (ix : Index) (q : OutlineQuery) (lang : String)

def importKinds : Strings :=
  if lang == "python" then ["import_statement", "import_from_statement"]
  else if lang == "typescript" then ["import_statement"]
  else if lang == "go" then ["import_declaration", "import_spec"]
  else if lang == "java" then ["import_declaration"]
  else []

def isRequire (line : String) : Bool := beginsWith "require " line || beginsWith "require_relative " line

def isImport (source : Bytes) (t : Syntax.Tree) : Bool :=
  if lang == "ruby" then
    (t.kind == "call" || t.kind == "method_call") && isRequire (strip (t.text source))
  else (importKinds lang).contains t.kind

/-- The imports in a Ruby text, line by line. -/
def requires (path text : String) : List Json :=
  (linesOf text).zipIdx.filterMap fun (line, i) =>
    let s := strip line
    if isRequire s then
      let column : Nat := (Text.position? s.toList line.toList).getD 0 + 1
      some (importHit path "ruby" s ⟨path, i + 1, column, i + 1, column + s.length⟩ none)
    else none

def importsOf (source : Bytes) : Action (List Json) := do
  match ← Action.attempt (do
    let lang ← Action.ofExcept (Syntax.Language.normal lang)
    requireParser lang) with
  | .error _ => return if lang == "ruby" then requires path (Utf8.decodeDropping source) else []
  | .ok _ =>
    let root ← treeOf source
    return (root.preorder.filter (isImport lang source)).map fun t =>
      importHit path lang (strip (t.text source)) (Graph.spanOf path source t) none

def callHit (c : Index.CallRow) : Option Json := do
  let place ← ix.nodeSpan? c.src
  return .object [("src_node_id", c.src), ("dst_name", c.name),
    ("dst_symbol_id", .ofText? (c.symbol.filter (· != ""))), ("resolved", c.resolved != 0),
    ("location", location place), ("attrs", attributes c.attrs)]

def outlineOf (f : Index.FileRow) (blob : String) : Action Json := do
  let definitions ← if q.definitions then do
      let rows := Index.limited (← Action.ofExcept q.limit.rows) (ix.symbolsOfBlob blob f.id)
      pure [("defs", Json.list (rows.map (symbolHit f.path)))]
    else pure []
  let calls ← if q.calls then do
      let rows := Index.limited (← Action.ofExcept q.limit.rows)
        (ix.calls.filter fun c => c.fileId == f.id && c.blob == blob)
      pure [("calls", Json.list (rows.filterMap (callHit ix)))]
    else pure []
  let imports ← if q.imports then do
      match ← Action.ofExcept (ix.blobContent blob) with
      | none => pure [("imports_error", Json.text
          "blob content not available; index_repository(..., store_blobs=True) recommended")]
      | some source =>
        let hits ← importsOf f.path f.lang source
        pure [("imports", Json.list (firstOf (← Action.ofExcept q.limit) hits))]
    else pure []
  return .object ([("path", .text f.path), ("lang", .text f.lang)] ++ definitions ++ calls ++ imports)

def outline : Action Outcome :=
  guarded "ast_index failed" do
    let r ← Action.ofExcept (ix.requireRevision q.rev)
    let rows := (ix.versions.filter (·.rev == r)).filterMap fun v => do
      let f ← ix.fileOf? v.fileId
      let chosen := q.files.all (·.contains f.path)
        && q.lang.all (fun l => l == "" || f.lang == l)
      if chosen then some (f, v.blob) else none
    let files ← (Index.sortOn (·.1.path) rows).mapM fun (f, blob) => outlineOf ix q f blob
    return .found [("rev", r), ("files", .list files)]

end PatchReview.Inquiry
