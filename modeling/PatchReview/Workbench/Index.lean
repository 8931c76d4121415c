import PatchReview.Snapshot
import PatchReview.Tool.Catalog

/-!
# Indexes on the workbench

Commands that fill an index, show its tables and ask it.
-/

namespace PatchReview.Workbench

/-!
## Requests to a workbench

A workbench runs commands on parts of the library. A command comes as a record of its arguments; these are the ways to
read one.
-/

variable (i : Json) (key : String)

def fieldOf : Result Json :=
  match i.get? key with
  | some v => .ok v
  | none => .error (.missingKey key)

def need : Action Json := Action.ofExcept (fieldOf i key)

def textAt (key default : String) : Action String :=
  match (i.get? key).getD default with
  | .text s => pure s
  | _ => throw (.shape s!"{key} is no text")

def needText : Action String := do
  let _ ← need i key
  textAt i key ""

/-- A text, where anything empty stands for the empty one. -/
def textLike : Json → Result String
  | .text s => .ok s
  | v => if v.truthy then .error (v.lacks "strip") else .ok ""

def textOpt : Option String := (i.getD key).text?

def textOr (key default : String) : String := (textOpt i key).getD default

def intOr (default : Int) : Int := (i.getD key).int?.getD default

def realOr : Float := (i.getD key).number?.getD 0.0

def flagOr (default : Bool) : Bool := ((i.get? key).getD default).truthy

def textsOf (v : Json) : Strings := v.items.filterMap Json.text?

def pairs {α : Type} (f : α → Json) (vs : List (String × α)) : Json := .list (vs.map fun (k, v) => .list [k, f v])

def depositFiles (s : Json) : Action Unit := modify fun w => Snapshot.placeAll w (s.getD "files")

def base : Action Path := return FileTree.pathOf (← get).cwd

/-- What a command answers that has nothing to show. -/
def quiet (a : Action Unit) : Action Json := do
  a
  return .null

/-!
## Rows of an index from records

The values of a record become the cells of a row. A column that must have a value refuses to go without one, but a node
without one is left out.
-/

abbrev RowReader := ReaderT String (StateT (List Cell) Result)

namespace RowReader

def cell : RowReader Cell := modifyGet fun cells => (cells.headD .null, cells.tail)

def text (column : String) : RowReader String := do (← cell).requireText s!"{← read}.{column}"

def whole (column : String) : RowReader Int := do
  match ← (← cell).requireWhole s!"{← read}.{column}" with
  | .whole n => return n
  | c => c.toJson.toInt

def real (column : String) : RowReader Float := do
  match ← cell with
  | .real bits => return Float.ofBits bits
  | _ => throw (.constraint s!"NOT NULL constraint failed: {← read}.{column}")

def place : RowReader Index.Place :=
  return ⟨← whole "start_byte", ← whole "end_byte", ← whole "start_line", ← whole "start_col", ← whole "end_line",
    ← whole "end_col"⟩

def row {α : Type} (table : String) (values : List Json) (r : RowReader α) : Result α := do
  (r.run table).run' (← Cell.ofParameters values)

end RowReader

open RowReader

variable (v s : Json)

def itemOf (n : Nat) : Result Json :=
  match v.items[n]? with
  | some x => .ok x
  | none => .error (.outOfRange "list index out of range")

def rangeItems : Result (List Json) := do
  let items ← (← fieldOf v "span").elements
  if items.length < 4 then throw (.outOfRange "tuple index out of range")
  return items.take 4

def attrsRendered : String := v.render { Json.compact with ascii := false }

structure Owner where
  file : Json
  blob : Json
  lang : Json

def nodeValues (o : Owner) (n : Json) : Result (List Json) := do
  let id ← fieldOf n "id"
  let kind ← fieldOf n "kind"
  let place ← rangeItems n
  let attrs := (n.get? "attrs").getD (.object [])
  let first ← (← attrs.memberOr "start_byte" "0").toInt
  let last ← (← attrs.memberOr "end_byte" "0").toInt
  return [id, o.blob, o.file, o.lang, kind, first, last] ++ place ++ [.text (attrsRendered attrs)]

def nodeRow? (values : List Json) : Result (Option Index.NodeRow) :=
  row "nodes" values do
    if (← get).any (· == .null) then return none
    return some ⟨← text "node_id", ← text "blob_hash", ← whole "file_id", ← text "lang", ← text "kind", ← place,
      ← text "attrs"⟩

def edgeRow (o : Owner) (e : Json) : Result Index.EdgeRow := do
  let values := [o.blob, o.file, ← itemOf e 0, ← itemOf e 1, ← itemOf e 2,
    .text (attrsRendered (e.items[3]?.getD (.object [])))]
  row "edges" values do
    return ⟨← text "blob_hash", ← whole "file_id", ← text "src", ← text "dst", ← text "kind", ← text "attrs"⟩

def symbolRow? (o : Owner) (y : Json) : Result (Option Index.SymbolRow) := do
  let id ← fieldOf y "id"
  let (first, last) := Index.rangeOfId (id.text?.getD "")
  let values := [id, o.blob, o.file, (y.get? "lang").getD o.lang, ← fieldOf y "kind", ← fieldOf y "name",
    .int first, last] ++ (← rangeItems y)
  row "symbols" values do
    let id ← cell
    let row : Index.SymbolRow := ⟨id.text?.getD "", ← text "blob_hash", ← whole "file_id", ← text "lang",
      ← text "kind", ← text "name", ← place, "\x7b\x7d"⟩
    return if id == .null then none else some row

def callRow (o : Owner) (c : Json) : Result Index.CallRow := do
  let values := [o.blob, o.file, ← itemOf c 0, ← itemOf c 1, ← itemOf c 2, ← (← itemOf c 3).toInt,
    .text (attrsRendered (c.items[4]?.getD (.object [])))]
  row "calls" values do
    return ⟨← text "blob_hash", ← whole "file_id", ← text "src_node", ← text "dst_name", (← cell).text?,
      ← whole "resolved", ← text "attrs"⟩

def contentRows : Result Index.ContentRows := do
  let o : Owner := ⟨← fieldOf s "file_id", ← fieldOf s "blob", ← fieldOf s "lang"⟩
  let nodes ← (s.getD "nodes").items.mapM (nodeValues o)
  let nodes ← nodes.mapM nodeRow?
  let edges ← (s.getD "edges").items.mapM (edgeRow o)
  let symbols ← (s.getD "symbols").items.mapM (symbolRow? o)
  let calls ← (s.getD "calls").items.mapM (callRow o)
  let words (v : Json) := match Cell.ofParameter 1 v with
    | .ok c => c.text?.getD ""
    | .error _ => ""
  let documents : List Index.DocumentRow := match s.getD "text" with
    | .null => []
    | text => [⟨words ((s.get? "path").getD "p"), words o.lang, words text, words o.blob⟩]
  return { nodes := nodes.filterMap id, edges, symbols := symbols.filterMap id, calls, documents }

/-- A command takes its own arguments only, and all of them. -/
def takesExactly (names : Strings) : Result Unit :=
  let given := s.fields.filter fun (k, _) => k != "do"
  if given.all (fun (k, _) => names.contains k) && names.all (Fields.has given) then .ok ()
  else .error (.shape "unexpected or missing keyword argument")

def summaryRow : Result Index.SummaryRow := do
  let blob ← fieldOf s "blob"
  let digest ← fieldOf s "hash"
  let given := ["path", "lang", "generator", "llm_model", "file_summary"]
  takesExactly s (["blob", "hash", "file_id"] ++ given)
  let file ← (s.getD "file_id").toInt
  row "repomap_files" ([blob, file] ++ given.map s.getD ++ [digest]) do
    return ⟨← text "blob_hash", ← whole "file_id", ← text "path", ← text "lang", ← text "generator", ← text "llm_model",
      ← text "file_summary", ← text "hash"⟩

def symbolSummaryColumns : Strings :=
  ["blob_hash", "file_id", "lang", "kind", "name", "start_line", "start_col", "end_line", "end_col", "signature",
    "summary_struct", "summary_text", "hash", "generator", "llm_model"]

/-- The row of a symbol's summary from its sixteen values; none when it has no id. -/
def symbolSummaryRow? : Result (Option Index.SymbolSummaryRow) := do
  let values ← match v with
    | .list vs => pure vs
    | .text s => pure (s.toList.map fun c => String.singleton c)
    | _ => throw (.binding "parameters are of unsupported type")
  let count := values.length
  if count != 16 then
    throw (.binding ("Incorrect number of bindings supplied. The current statement uses 16, and there are "
      ++ s!"{count} supplied."))
  row "repomap_symbols" values do
    let id ← cell
    if let some (_, column) := ((← get).zip symbolSummaryColumns).find? (·.1 == .null) then
      throw (.constraint s!"NOT NULL constraint failed: repomap_symbols.{column}")
    let row : Index.SymbolSummaryRow := ⟨id.text?.getD "", ← text "", ← whole "", ← text "", ← text "", ← text "",
      ← whole "", ← whole "", ← whole "", ← whole "", ← text "", ← text "", ← text "", ← text "", ← text "", ← text ""⟩
    return if id == .null then none else some row

def packageValues : Result (List Json) := do
  let items ← v.elements
  if items.length < 5 then throw (.invalid s!"not enough values to unpack (expected 5, got {items.length})")
  return items

def packageRow (rev : Json) (values : List Json) : Result Index.PackageRow := do
  row "repomap_packages" (rev :: values) do
    return ⟨← text "rev", ← text "package_path", ← text "summary", ← text "hash", ← text "generator", ← text "llm_model"⟩

def summariserArguments : Strings :=
  ["rev", "duration_s", "generator", "llm_model", "llm_requests", "prompt_tokens", "completion_tokens",
    "total_tokens", "llm_time_s"]

def runRow (now : Float) : Result Index.RunRow := do
  let duration ← (s.getD "duration_s").toReal
  let counts ← ["llm_requests", "prompt_tokens", "completion_tokens", "total_tokens"].mapM fun k =>
    return Json.int (← (s.getD k).toInt)
  let time ← (s.getD "llm_time_s").toReal
  let values := [s.getD "rev", now, duration, s.getD "generator", s.getD "llm_model"] ++ counts ++ [.real time]
  row "repomap_runs" values do
    return ⟨← text "rev", ← real "created_at", ← real "duration_s", ← text "generator", ← text "llm_model",
      ← whole "llm_requests", ← whole "prompt_tokens", ← whole "completion_tokens", ← whole "total_tokens",
      ← real "llm_time_s"⟩

/-!
## Graphs on the workbench

Commands that build a graph, add to it and ask it.
-/

open Graph Json Repository Snapshot

def spanJson (withFile : Bool) (s : Span) : Json :=
  .list ((if withFile then [.text s.path] else [])
    ++ [.int s.startLine, .int s.startColumn, .int s.endLine, .int s.endColumn])

def attrsJson (attrs : Pairs) : Json := .object (attrs.map fun (k, v) => (k, v))

variable (e : Edge)

def edgeJson : Json := .list [e.src, e.dst, e.kind, attrsJson e.attrs]

def flowJson : Json := .list [e.src, e.dst, attrsJson e.attrs]

def namesOf : NamesByLanguage := v.fields.map fun (k, vs) => (k, textsOf vs)

def policyOf : Policy :=
  match v with
  | .object _ => ⟨namesOf (v.getD "sources"), namesOf (v.getD "sinks"), namesOf (v.getD "sanitizers")⟩
  | _ => Policy.standard

def scanOptions : Repository.ScanOptions :=
  let standard : Repository.ScanOptions := {}
  { languages := textsOf (s.getD "include_langs")
    excludes := ((s.get? "exclude_dirs").map textsOf).getD standard.excludes
    maxBytes := intOr s "max_file_bytes" standard.maxBytes }

def graphJson (g : Graph) : Json :=
  .object [("nodes", .list (g.nodes.map fun (_, n) => .list [n.id, n.kind, spanJson true n.span,
      ofText? n.text, ofText? n.lang, attrsJson n.attrs])),
    ("edges", .list (g.edges.map edgeJson)),
    ("symbols", .list (g.symbols.map fun (k, s) => .list [k, s.name, s.kind, spanJson true s.span, s.lang, s.file])),
    ("calls", .list (g.calls.map edgeJson))]

def parsedOf (f : Json) : ParsedFile :=
  let source := bytes (f.getD "source")
  { path := textOr f "path" "", lang := textOr f "lang" "", source
    blob := ((textOpt f "hash").filter (· != "")).getD (Sha256.hexDigest source)
    root := match f.get? "tree" with
      | some t => tree treeDepth t
      | none => .node "module" 0 source.length [] }

structure GraphState where
  graph : Graph := {}
  files : List ParsedFile := []
  index : SymbolIndex := {}

def parsedJson (root : Path) (f : ParsedFile) : Json :=
  let path := ((Path.ofString f.path).below? root).getD (Path.ofString f.path)
  .list [path.toString, f.lang, f.blob]

def graphStep (st : GraphState) (step : String) (s : Json) : Action (Json × GraphState) := do
  let criteria := textsOf (s.getD "criteria")
  let limit := intOr s "max_nodes" 200
  let root ← base
  match step with
  | "build" =>
    let files := (s.getD "files").items.map parsedOf
    let g := build (policyOf (s.getD "config")) (s.getD "interprocedural").truthy files
    return (graphJson g, { st with graph := g, files })
  | "parse_repo" =>
    let files ← parseAll root (scanOptions s)
    let sorted := files.mergeSort fun a b => a.path ≤ b.path
    return (.list (sorted.map (parsedJson root)), { st with files })
  | "parse_files" =>
    let files ← parseFiles (textOr s "lang" "")
      ((textsOf (s.getD "paths")).map fun (p : String) => root / p)
    return (.list (files.map (parsedJson root)), { st with files })
  | "build_repo" =>
    let files ← parseAll root (scanOptions s)
    let g := build Policy.standard true files
    return (texts (g.nodes.map (·.1)).mergeSort, { st with graph := g, files })
  | "def_use" =>
    match st.files[(intOr s "file" 0).toNat]? with
    | some f =>
      let edges := defUse f.blob f.source f.root
      return (.list (edges.map flowJson), { st with graph := st.graph.addEdges edges })
    | none => throw (.outOfRange "list index out of range")
  | "add_node" =>
    let g := st.graph.addNode ⟨textOr s "id" "", textOr s "kind" "", ⟨"p", 1, 1, 1, 1⟩, none, none, []⟩
    return (texts (g.nodes.map (·.1)), { st with graph := g })
  | "add_edge" =>
    let g := st.graph.addEdge (textOr s "src" "") (textOr s "dst" "") (textOr s "kind" "")
    return (g.edges.length, { st with graph := g })
  | "add_call" =>
    let g := st.graph.addCall ⟨textOr s "src" "", textOr s "dst" "", "CALL", []⟩
    return (g.calls.length, { st with graph := g })
  | "forward" => return (texts (st.graph.forwardSlice criteria limit), st)
  | "backward" => return (texts (st.graph.backwardSlice criteria limit), st)
  | "taint" =>
    let sinks := textsOf (s.getD "sinks")
    let paths := st.graph.taintPaths (textsOf (s.getD "sources")) sinks.contains (intOr s "max_steps" 64)
    return (.list (paths.map texts), st)
  | "index_add" =>
    let ix := st.index.add ⟨textOr s "id" "", textOr s "name" "", "function", ⟨"p", 1, 1, 1, 1⟩,
      textOr s "lang" "", "p"⟩
    return (.object (ix.byName.map fun (k, ids) => (k, texts ids)), { st with index := ix })
  | "resolve" => return (texts (st.index.resolve (textOr s "name" "") (textOpt s "lang")), st)
  | _ => throw (.other step)

open Index Inquiry Json RowReader

open Inquiry (bindable columnText? asking wanted? choices location requireKey)

def placeJson (p : Place) : List Json :=
  [p.startByte, p.endByte, p.startLine, p.startColumn, p.endLine, p.endColumn]

variable (ix : Index) (s : Json) (step : String) (dir : Direction) (key : String) (default : Int)

def rowsJson (table : String) : List Json :=
  match table with
  | "meta" => ((ix.facts.mergeSort fun a b => a.1 ≤ b.1).map fun (k, v) => texts [k, v])
  | "revisions" => ix.revisions.map fun r => .list [ofText? r.rev, ofText? r.base]
  | "files" => ix.files.map fun f => .list [f.id, f.path, f.lang]
  | "file_versions" =>
    (ix.versions.mergeSort fun a b => a.rev < b.rev ∨ (a.rev = b.rev ∧ a.fileId ≤ b.fileId)).map
      fun v => .list [v.rev, v.fileId, v.blob, v.size]
  | "blobs" => ix.blobs.map fun b => .list [b.blob, .int (if b.compressed then 1 else 0)]
  | "nodes" => ix.nodes.map fun n =>
      .list ([.text n.id, .int n.fileId, .text n.lang, .text n.kind] ++ placeJson n.place ++ [.text n.attrs])
  | "edges" => ix.edges.map fun e => .list [e.fileId, e.src, e.dst, e.kind, e.attrs]
  | "symbols" => ix.symbols.map fun y =>
      .list ([.text y.id, .int y.fileId, .text y.lang, .text y.kind, .text y.name] ++ placeJson y.place
        ++ [.text y.attrs])
  | "calls" => ix.calls.map fun c =>
      .list [c.fileId, c.src, c.name, ofText? c.symbol, c.resolved, c.attrs]
  | _ => []

def spoiled (table column : String) (v : String) : Index × Nat :=
  let all {α : Type} (rows : List α) (put : List α → Index) (set : α → α) : Index × Nat :=
    (put (rows.map set), rows.length)
  match table with
  | "nodes" => all ix.nodes ({ ix with nodes := · }) fun r =>
    if column == "kind" then { r with kind := v } else { r with attrs := v }
  | "edges" => all ix.edges ({ ix with edges := · }) fun r =>
    if column == "kind" then { r with kind := v } else { r with attrs := v }
  | "symbols" => all ix.symbols ({ ix with symbols := · }) fun r => match column with
    | "kind" => { r with kind := v }
    | "name" => { r with name := v }
    | _ => { r with attrs := v }
  | "calls" => all ix.calls ({ ix with calls := · }) fun r =>
    if column == "dst_name" then { r with name := v } else { r with attrs := v }
  | "blobs" => all ix.blobs ({ ix with blobs := · }) ({ · with content := .text v })
  | "files" => all ix.files ({ ix with files := · }) ({ · with lang := v })
  | "repomap_files" => all ix.summaries ({ ix with summaries := · }) ({ · with summary := v })
  | "repomap_symbols" => all ix.symbolSummaries ({ ix with symbolSummaries := · }) fun r => match column with
    | "signature" => { r with signature := v }
    | "summary_text" => { r with text := v }
    | _ => { r with struct := v }
  | _ => (ix, 0)

def locationJson (p : Option Graph.Span) : Json := (p.map location).getD .null

def callTool (c : Tool.Context) (name : String) (a : Tool.Arguments) : Action Json :=
  match (Tool.catalog c).lookup name with
  | some f => f a
  | none => throw (.missingKey name)

def orderedNodes (fields : Object) : Object :=
  fields.map fun (k, v) => match k, v with
    | "nodes", .list vs => (k, .list (sortOn (fun n => (n.getD "node_id").display) vs))
    | _, _ => (k, v)

/-- An answer whose nodes, or those of its data, are ordered by id. -/
def ordered : Json :=
  match v with
  | .object fs => .object ((orderedNodes fs).map fun (k, v) => match k, v with
      | "data", .object inner => (k, .object (orderedNodes inner))
      | _, _ => (k, v))
  | v => v

def rowBound : Inquiry.Bound := ((s.get? key).getD default).toInt

def directionOf : Result Direction := do
  let v := (s.get? "direction").getD "out"
  requireKey v
  Direction.read v.display

def kindsOr (default : Strings) : Result (List Json) :=
  match s.get? "edge_kinds" with
  | none => .ok (default.map text)
  | some v => v.elements

/-- A slice from the nodes of a command. Its bounds are read where they are needed. -/
def sliceOf (s : Json) : Result Strings := do
  let criteria ← (← fieldOf s "criteria").elements
  criteria.forM requireKey
  let d : SliceOptions := {}
  match criteria with
  | [] => return []
  | first :: _ =>
    let maxNodes := intOr s "max_nodes" d.maxNodes
    if maxNodes ≤ 0 then return []
    let kinds ← kindsOr s d.kinds
    let perNode ← if kinds.isEmpty then pure 0 else rowBound s "per_node_limit" 200
    bindable (first :: kinds ++ [.int perNode])
    return ix.slice dir (criteria.map nameOf) ⟨kinds.filterMap columnText?, maxNodes, .ofInt perNode⟩

/-- Taint paths of a command. Its bounds are read where they are needed. -/
def taintOf (s : Json) : Result (List Strings) := do
  let lang ← fieldOf s "lang"
  requireKey lang
  let lang := lang.display
  let policy := policyOf (s.getD "config")
  let sources := ix.sitesOf lang policy.sources
  let sinks := ix.sitesOf lang policy.sinks
  let (starts, ends) := match dir with
    | .out => (sources, sinks)
    | .into => (sinks, sources)
  let d : TaintOptions := {}
  if starts.isEmpty then return []
  let maxPaths := intOr s "max_paths" d.maxPaths
  let unended := starts.filter (!ends.contains ·)
  if maxPaths ≤ 0 || unended.isEmpty then return ix.taint dir lang policy { d with maxPaths }
  let maxSteps := intOr s "max_steps" d.maxSteps
  let stops := ix.sitesOf lang policy.sanitizers
  if maxSteps ≤ 1 || unended.all stops.contains then return ix.taint dir lang policy { d with maxPaths, maxSteps }
  let kinds ← kindsOr s d.kinds
  let perNode ← if kinds.isEmpty then pure 0 else rowBound s "per_node_limit" 200
  bindable (kinds ++ [.int perNode])
  return ix.taint dir lang policy ⟨kinds.filterMap columnText?, maxSteps, maxPaths, .ofInt perNode⟩

def indexWrite? (s : Json) : Option (Action (Index × Json)) :=
  let change (f : Result Index) : Option (Action (Index × Json)) := some do return (← f, .null)
  match step with
  | "begin" => some do
    let rev ← need s "rev"
    let now ← Action.now
    match ← Cell.ofParameters [rev, s.getD "base_rev"] with
    | [rev, base] =>
      return (match rev.text? with
        | some r => ix.beginRevision r base.text? now
        | none => ix.beginNameless base.text? now, .null)
    | _ => return (ix, .null)
  | "file" => some do
    let (path, lang) ← row "files" [← need s "path", ← need s "lang"]
      (return (← text "path", ← text "lang"))
    let (ix, id) := ix.upsertFile path lang
    return (ix, id)
  | "version" => change do
    let values := [← fieldOf s "rev", ← fieldOf s "file_id", ← fieldOf s "blob"]
    let size ← ((s.get? "size").getD (.int 0)).toInt
    row "file_versions" (values ++ [.int size]) do
      ix.upsertVersion (← text "rev") (← whole "file_id") (← text "blob_hash")
        (← whole "size")
  | "blob" => change do
    let blob ← fieldOf s "blob"
    let bytes := Snapshot.bytes (← fieldOf s "data")
    match (← Cell.ofParameter 1 blob).text? with
    | some b => return ix.upsertBlob b bytes ((s.get? "compress").all truthy)
    | none => return ix
  | "put" => change do ix.putRows (← contentRows s)
  | "resolve_calls" => change do
    bindable (asking [s.getD "lang"])
    return ix.resolveCalls (wanted? (s.getD "lang"))
  | "spoil" => some do
    let table := textOr s "table" ""
    let column := textOr s "column" "attrs"
    let v ← Cell.ofParameter 1 (s.getD "value")
    let (changed, count) := spoiled ix table column (v.text?.getD "")
    if v == .null && count != 0 then throw (.constraint s!"NOT NULL constraint failed: {table}.{column}")
    return (changed, count)
  | "put_repomap" => change do ix.putSummary (← summaryRow s)
  | "put_repomap_symbols" => change do
    (← (← fieldOf s "rows").elements).foldlM (fun ix v => do
      match ← symbolSummaryRow? v with
      | some r => ix.putSymbolSummaries [r]
      | none => return ix) ix
  | "put_packages" => change do
    let rev ← fieldOf s "rev"
    let packages ← (← (← fieldOf s "packages").elements).mapM packageValues
    packages.foldlM (fun ix values => do ix.putPackages [← packageRow rev values]) ix
  | "put_run" => some do
    takesExactly s summariserArguments
    let now ← Action.now
    return (← do ix.putRun (← runRow s now), .null)
  | _ => none

/-- A value that is looked up in a column of texts, with what is found; nothing when it has no text. -/
def lookedUp {α : Type} (v : Json) (missing : α) (f : String → α) : Result α := do
  match (← Cell.ofParameter 1 v).text? with
  | some t => return f t
  | none => return missing

/-- What commands that only look at a table show; none when there is no such command. -/
def indexTable? (s : Json) : Option (Result Json) :=
  match step with
  | "has_artifacts" => some do return ← lookedUp (← fieldOf s "blob") false ix.hasArtifacts
  | "counts" => some do
    lookedUp (← fieldOf s "blob") (.list [.nat 0, .nat 0]) fun blob =>
      .list [.nat (ix.symbols.filter (·.blob == blob)).length, .nat (ix.calls.filter (·.blob == blob)).length]
  | "symbols_for_blob" => some do
    let blob ← fieldOf s "blob"
    let file ← (← fieldOf s "file_id").toInt
    let path := (← fieldOf s "path").display
    bindable [blob, file]
    lookedUp blob (.list []) fun blob => .list ((ix.symbolsOfBlob blob file).map fun y =>
      .object [("id", y.id), ("name", y.name), ("kind", y.kind), ("lang", y.lang), ("file",
        .text path), ("span", spanJson true (spanAt path y.place)), ("calls", .list []), ("refs", .list [])])
  | "stats" => some do return .object (ix.stats.map fun (k, n) => (k, n))
  | "rows" => some do return .list (rowsJson ix (← fieldOf s "table").display)
  | "has_repomap" => some do
    let blob ← fieldOf s "blob"
    let file ← (← fieldOf s "file_id").toInt
    bindable [blob, file]
    let missing := list [false, .null]
    lookedUp blob missing fun blob => match ix.summaryOf? blob file with
      | some r => .list [true, .object [("generator", r.generator), ("llm_model", r.model), ("hash", r.digest)]]
      | none => missing
  | "repomap_files" => some do
    lookedUp (← fieldOf s "rev") (.list []) fun rev => .list ((ix.summariesAt rev).map fun (f, r) =>
      texts [f.path, f.lang, r.blob, r.generator, r.model, r.summary])
  | "repomap_run" => some do
    lookedUp (← fieldOf s "rev") .null fun rev => match ix.runAt? rev with
      | none => .null
      | some r => .object [("created_at", r.createdAt), ("duration_s", r.duration),
          ("generator", r.generator), ("llm_model", r.model), ("llm_requests", r.requests),
          ("prompt_tokens", r.promptTokens), ("completion_tokens", r.completionTokens),
          ("total_tokens", r.totalTokens), ("llm_time_s", r.modelTime)]
  | "repomap_file" => some do
    return (← (← lookedUp (← fieldOf s "path") (.ok none) ix.fileSummary)).getD .null
  | "repomap_symbols" => some do
    match (← lookedUp (← fieldOf s "path") none ix.fileAt?) with
    | none => return .list []
    | some f => return .list (← ix.symbolSummaryRecords f.path (← (rowBound s "limit" 200).rows))
  | "latest_rev" => some do return ofText? ix.latestRevision?
  | "require_rev" => some do return (← revisionOf ix (s.getD "rev")).2
  | "file_id" => some do
    return ofInt? (← lookedUp (← fieldOf s "path") none fun p => (ix.fileAt? p).map (·.id))
  | "file_blob" | "exists" => some do
    let rev ← fieldOf s "rev"
    let path ← fieldOf s "path"
    bindable (if step == "exists" then [rev, path] else [path, rev])
    let found := do ix.versionOf? (← columnText? rev) (← columnText? path)
    if step == "exists" then return found.isSome
    match found with
    | some (id, b, lang) => return .list [id, b, lang]
    | none => return .null
  | "ending" => some do
    let rev ← fieldOf s "rev"
    let ending := (← fieldOf s "suffix").display
    let limit ← rowBound s "limit" 50
    bindable [rev, "%" ++ ending, limit]
    lookedUp rev (.list []) fun rev => texts (ix.pathsEndingWith rev ending (.ofInt limit))
  | "blob_content" => some do
    match ← (← lookedUp (← fieldOf s "blob") (.ok none) ix.blobContent) with
    | some b => return Utf8.decodeReplacing b
    | none => return .null
  | "node_loc" => some do return locationJson (← lookedUp (← fieldOf s "node") none ix.nodeSpan?)
  | "node_locs" => some do
    let nodes ← choices (← fieldOf s "nodes")
    bindable nodes
    return .list (nodes.map fun n => locationJson (n.text?.bind ix.nodeSpan?))
  | "symbol_loc" => some do
    match ← lookedUp (← fieldOf s "symbol") none ix.symbolPlace? with
    | some (lang, p, attrs) => return .list [lang, location p, attrs]
    | none => return .null
  | "symbol_row" => some do
    let rev ← fieldOf s "rev"
    let symbol ← fieldOf s "symbol"
    bindable [rev, symbol]
    match do ix.symbolAtRev? (← columnText? rev) (← columnText? symbol) with
    | some y => return .object [("file_path", y.file.path), ("lang", y.file.lang),
        ("blob_hash", y.row.blob), ("symbol_id", y.row.id), ("kind", y.row.kind),
        ("name", y.row.name), ("start_byte", y.row.place.startByte),
        ("end_byte", y.row.place.endByte), ("location", symbolLocation y),
        ("attrs", attrsValue y.row.attrs)]
    | none => return .null
  | _ => none

/-- What commands that ask an index show; none when there is no such command. -/
def indexAsk? (s : Json) : Option (Result Json) :=
  match step with
  | "resolve_symbols" => some do
    let name ← fieldOf s "name"
    let lang := s.getD "lang"
    let limit ← rowBound s "limit" 20
    bindable (name :: asking [lang] ++ [.int limit])
    lookedUp name (.list []) fun name => texts (ix.symbolIds name (wanted? lang) (.ofInt limit))
  | "neighbors" => some do
    let node ← fieldOf s "node"
    let dir ← directionOf s
    let kind := s.getD "kind"
    let limit ← rowBound s "limit" 100
    bindable (node :: asking [kind] ++ [.int limit])
    lookedUp node (.list []) fun node => texts (ix.neighbors dir node (wanted? kind) (.ofInt limit))
  | "neighbors_multi" => some do
    let node ← fieldOf s "node"
    let given ← fieldOf s "kinds"
    let dir ← directionOf s
    let kinds ← choices given
    if kinds.isEmpty then return .list []
    let limit ← rowBound s "limit" 200
    bindable (node :: kinds ++ [.int limit])
    lookedUp node (.list []) fun node => texts (ix.neighborsAlong dir (kinds.filterMap columnText?) (.ofInt limit) node)
  | "call_sites" => some do
    let names ← choices (← fieldOf s "names")
    if names.isEmpty then return .list []
    let lang := s.getD "lang"
    let limit ← rowBound s "limit" 10000
    bindable (asking [lang] ++ names ++ [.int limit])
    return texts (ix.callSites (names.filterMap columnText?) (wanted? lang) (.ofInt limit))
  | "search" => some do
    let query ← fieldOf s "query"
    let lang := s.getD "lang"
    let limit ← rowBound s "limit" 20
    bindable (query :: asking [lang] ++ [.int limit])
    let lang := wanted? lang
    let found := match query with
      | .text q => ix.search q lang (.ofInt limit)
      | v => ix.searchFor (columnText? v) v.display lang (.ofInt limit)
    return .list (found.map fun (p, x) => texts [p, x])
  | "forward" => some do return texts (← sliceOf ix .out s)
  | "backward" => some do return texts (← sliceOf ix .into s)
  | "taint" => some do return .list ((← taintOf ix .out s).map texts)
  | "taint_back" => some do return .list ((← taintOf ix .into s).map texts)
  | "edges_for" => some do
    let rev ← fieldOf s "rev"
    let node ← fieldOf s "node"
    let _ ← fieldOf s "direction"
    let dir ← directionOf s
    let kinds ← choices (s.getD "kinds")
    let limit ← rowBound s "limit" 500
    bindable ([rev, node] ++ kinds ++ [.int limit])
    let names := kinds.filterMap columnText?
    if names.isEmpty && !kinds.isEmpty then return .list []
    let found := do some (ix.edgesAtRev (← columnText? rev) dir names (.ofInt limit) (← columnText? node))
    return .list ((found.getD []).map fun e => texts [e.src, e.dst, e.kind])
  | _ => none

def indexStep (storePath : Path) (step : String) (s : Json) : Action Json := do
  let root ← base
  match step with
  | "write" => quiet (depositFiles s)
  | "remove" => quiet do Files.remove (root / (← needText s "path"))
  | "index" =>
    let o : BuildOptions :=
      { scan := scanOptions (s.getD "scan"), policy := policyOf (s.getD "config")
        keepBytes := (s.getD "store_blobs").truthy
        paths := (s.getD "paths").list?.map fun ps => (ps.filterMap text?).map fun (p : String) => root / p }
    changeAt storePath fun ix => do
      let ix ← ix.addRepository root (← needText s "rev") (textOpt s "base_rev") o
      return (ix, .object (ix.stats.map fun (k, n) => (k, n)))
  | "tool" =>
    let name ← need s "name"
    let outcome ← run (← openAt storePath) name.display (← need s "args").fields
    return ordered outcome.toJson
  | "lc" =>
    let name ← need s "name"
    return ordered (← callTool {} name.display (← need s "args").fields)
  | _ =>
    let ix ← openAt storePath
    match indexTable? ix step s <|> indexAsk? ix step s with
    | some answer => answer
    | none =>
      match indexWrite? ix step s with
      | some change => changeAt storePath fun _ => change
      | none => throw (.other step)

end PatchReview.Workbench
