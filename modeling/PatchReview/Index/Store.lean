import PatchReview.Graph.Flow
import PatchReview.Json.Printer

/-!
# The index of a repository

Tables of files, their versions at revisions, and what their contents hold: nodes, edges, symbols and calls. What
belongs to a file's content is stored under the content's digest, so that revisions share it. Rows stand in the
order they were added.
-/

namespace PatchReview.Index

structure Revision where
  rev : Option String
  base : Option String
  createdAt : Float

structure FileRow where
  id : Int
  path : String
  lang : String
  deriving DecidableEq

structure VersionRow where
  rev : String
  fileId : Int
  blob : String
  size : Int

inductive BlobContent where
  | bytes (b : Bytes)
  | text (s : String)
  deriving DecidableEq

structure BlobRow where
  blob : String
  compressed : Bool
  content : BlobContent
  deriving DecidableEq

structure Place where
  startByte : Int
  endByte : Int
  startLine : Int
  startColumn : Int
  endLine : Int
  endColumn : Int
  deriving DecidableEq

structure NodeRow where
  id : String
  blob : String
  fileId : Int
  lang : String
  kind : String
  place : Place
  attrs : String

structure EdgeRow where
  blob : String
  fileId : Int
  src : String
  dst : String
  kind : String
  attrs : String
  deriving DecidableEq

structure SymbolRow where
  id : String
  blob : String
  fileId : Int
  lang : String
  kind : String
  name : String
  place : Place
  attrs : String
  deriving DecidableEq

structure CallRow where
  blob : String
  fileId : Int
  src : String
  name : String
  symbol : Option String
  resolved : Int
  attrs : String
  deriving DecidableEq

structure SummaryRow where
  blob : String
  fileId : Int
  path : String
  lang : String
  generator : String
  model : String
  summary : String
  digest : String

structure SymbolSummaryRow where
  id : String
  blob : String
  fileId : Int
  lang : String
  kind : String
  name : String
  startLine : Int
  startColumn : Int
  endLine : Int
  endColumn : Int
  signature : String
  struct : String
  text : String
  digest : String
  generator : String
  model : String

structure PackageRow where
  rev : String
  package : String
  summary : String
  digest : String
  generator : String
  model : String

structure RunRow where
  rev : String
  createdAt : Float
  duration : Float
  generator : String
  model : String
  requests : Int
  promptTokens : Int
  completionTokens : Int
  totalTokens : Int
  modelTime : Float

structure DocumentRow where
  path : String
  lang : String
  content : String
  blob : String

end Index

structure Index where
  facts : Pairs := [("schema_version", "1")]
  revisions : List Index.Revision := []
  files : List Index.FileRow := []
  lastFileId : Int := 0
  versions : List Index.VersionRow := []
  blobs : List Index.BlobRow := []
  nodes : List Index.NodeRow := []
  edges : List Index.EdgeRow := []
  symbols : List Index.SymbolRow := []
  calls : List Index.CallRow := []
  summaries : List Index.SummaryRow := []
  symbolSummaries : List Index.SymbolSummaryRow := []
  packages : List Index.PackageRow := []
  runs : List Index.RunRow := []
  documents : List Index.DocumentRow := []

end PatchReview

/-!
## Writing an index

Rows are added under the tables' rules: a file path occurs once, a row refers to a file and a revision that are
there, a replaced row moves to the end, and replacing a revision removes what hangs on it.
-/

namespace PatchReview.Index

def danglingRow : Fault := .constraint "FOREIGN KEY constraint failed"

variable (ix : Index) (blob : String) (lang : Option String) (fileId : Int) (attrs : Pairs)
  (rev : String) (base : Option String) (calls : List CallRow) (now : Float)

def hasRevision : Bool := ix.revisions.any (·.rev == some rev)

/-- Starts a revision anew: an old one of that name goes, with its versions, packages and runs. -/
def beginRevision : Index :=
  if ix.hasRevision rev then
    { ix with
      revisions := ix.revisions.filter (·.rev != some rev) ++ [⟨some rev, base, now⟩]
      versions := ix.versions.filter (·.rev != rev)
      packages := ix.packages.filter (·.rev != rev)
      runs := ix.runs.filter (·.rev != rev) }
  else { ix with revisions := ix.revisions ++ [⟨some rev, base, now⟩] }

/-- Starts a revision without a name; nothing can hang on it. -/
def beginNameless : Index := { ix with revisions := ix.revisions ++ [⟨none, base, now⟩] }

def fileAt? (path : String) : Option FileRow := ix.files.find? (·.path == path)

/-- Enters a file, or sets the language of the one with that path; the answer is its id. An id is used up
either way. -/
def upsertFile (path lang : String) : Index × Int :=
  let id := ix.lastFileId + 1
  match ix.fileAt? path with
  | some f =>
    ({ ix with
        lastFileId := id
        files := ix.files.map fun g => if g.path == path then { g with lang } else g }, f.id)
  | none => ({ ix with lastFileId := id, files := ix.files ++ [⟨id, path, lang⟩] }, id)

def hasFile : Bool := ix.files.any (·.id == fileId)

def upsertVersion (fileId : Int) (blob : String) (size : Int) : Result Index :=
  if ix.hasRevision rev && ix.hasFile fileId then
    .ok { ix with
      versions := ix.versions.filter (fun v => !(v.rev == rev && v.fileId == fileId))
        ++ [⟨rev, fileId, blob, size⟩] }
  else .error danglingRow

/-- Keeps the bytes of a content; a content that is there stays. -/
def upsertBlob (content : Bytes) (compressed : Bool) : Index :=
  if ix.blobs.any (·.blob == blob) then ix
  else { ix with blobs := ix.blobs ++ [⟨blob, compressed, .bytes content⟩] }

def hasArtifacts : Bool := ix.nodes.any (·.blob == blob)

def attrsText : String :=
  (Json.object (attrs.map fun (k, v) => (k, v))).render { Json.compact with ascii := false }

/-- The byte range in an id of the form `prefix:start-end`, zeros when it has none. -/
def rangeOfId (id : String) : Int × Int :=
  match cutOnce? ":" id with
  | none => (0, 0)
  | some (_, rest) =>
    match cutOnce? "-" rest with
    | none => (0, 0)
    | some (a, b) =>
      match Number.readInt? a, Number.readInt? b with
      | some m, some n => (m, n)
      | _, _ => (0, 0)

/-- A whole number kept as text in attributes; 0 when there is none. -/
def numberAttr (key : String) : Result Int :=
  let s := (Fields.get? attrs key).getD "0"
  (Number.readInt s).mapError .invalid

def nodeRow (lang : String) (n : Graph.Node) : Result NodeRow := do
  let a ← numberAttr n.attrs "start_byte"
  let b ← numberAttr n.attrs "end_byte"
  let s := n.span
  return ⟨n.id, blob, fileId, lang, n.kind,
    ⟨a, b, s.startLine, s.startColumn, s.endLine, s.endColumn⟩, attrsText n.attrs⟩

def symbolRow (s : Graph.Symbol) : SymbolRow :=
  let (a, b) := rangeOfId s.id
  let p := s.span
  ⟨s.id, blob, fileId, s.lang, s.kind, s.name, ⟨a, b, p.startLine, p.startColumn, p.endLine, p.endColumn⟩, "\x7b\x7d"⟩

def addNodeRow (r : NodeRow) : Result Index :=
  if ix.nodes.any (·.id == r.id) then .ok ix
  else if ix.hasFile r.fileId then .ok { ix with nodes := ix.nodes ++ [r] }
  else .error danglingRow

def addSymbolRow (r : SymbolRow) : Index := { ix with symbols := ix.symbols.filter (·.id != r.id) ++ [r] }

structure CallSite where
  src : String
  name : String
  symbol : Option String
  resolved : Int
  attrs : Pairs

structure Artifacts where
  nodes : List Graph.Node := []
  edges : List Graph.Edge := []
  symbols : List Graph.Symbol := []
  calls : List CallSite := []
  document : Option (String × String) := none

structure ContentRows where
  nodes : List NodeRow := []
  edges : List EdgeRow := []
  symbols : List SymbolRow := []
  calls : List CallRow := []
  documents : List DocumentRow := []

def Artifacts.rows (a : Artifacts) (fileId : Int) (blob lang : String) : Result ContentRows := do
  let nodes ← a.nodes.mapM (nodeRow blob fileId lang)
  return {
    nodes
    edges := a.edges.map fun e => ⟨blob, fileId, e.src, e.dst, e.kind, attrsText e.attrs⟩
    symbols := a.symbols.map (symbolRow blob fileId)
    calls := a.calls.map fun c => ⟨blob, fileId, c.src, c.name, c.symbol, c.resolved, attrsText c.attrs⟩
    documents := a.document.toList.map fun (path, content) => ⟨path, lang, content, blob⟩ }

/-- Adds rows of a content; each must belong to a file. -/
def putRows (rows : ContentRows) : Result Index := do
  let ix ← rows.nodes.foldlM addNodeRow ix
  let owners := rows.edges.map (·.fileId) ++ rows.symbols.map (·.fileId) ++ rows.calls.map (·.fileId)
  if !owners.all ix.hasFile then throw danglingRow
  let ix := { ix with edges := ix.edges ++ rows.edges }
  let ix := rows.symbols.foldl addSymbolRow ix
  return { ix with calls := ix.calls ++ rows.calls, documents := ix.documents ++ rows.documents }

def putArtifacts (blob lang : String) (a : Artifacts) : Result Index := do
  ix.putRows (← a.rows fileId blob lang)

def least? (ws : Strings) : Option String :=
  ws.foldl (fun m w => match m with
    | none => some w
    | some v => if w < v then some w else some v) none

def symbolNamed? (name : String) : Option String :=
  least? ((ix.symbols.filter fun s => s.name == name && lang.all (· == s.lang)).map (·.id))

/-- Matches a call that is not resolved yet by its name. -/
def resolveCall (c : CallRow) : CallRow :=
  if c.resolved == 0 then
    let found := ix.symbolNamed? lang c.name
    { c with symbol := found, resolved := if found.isSome then 1 else 0 }
  else c

def derivedKinds : Strings := ["CFG_IP_CALL", "CFG_IP_RET", "CALL"]

/-- The pairs of call node and symbol over the resolved calls, with where they belong. -/
def resolvedPairs : List (CallRow × String) :=
  calls.filterMap fun c => if c.resolved == 1 then c.symbol.map ((c, ·)) else none

/-- The edges made from calls: into the callees, back from them, and the calls themselves. -/
def derivedEdges : List EdgeRow :=
  let pairs := resolvedPairs calls
  let none := "\x7b\x7d"
  pairs.map (fun (c, s) => ⟨c.blob, c.fileId, c.src, s, "CFG_IP_CALL", none⟩)
    ++ pairs.map (fun (c, s) => ⟨c.blob, c.fileId, s, c.src, "CFG_IP_RET", none⟩)
    ++ pairs.map (fun (c, s) => ⟨c.blob, c.fileId, c.src, s, "CALL", none⟩)

/-- Resolves calls by name, and makes the edges that follow from calls anew. -/
def resolveCalls : Index :=
  let calls := ix.calls.map (ix.resolveCall lang)
  { ix with
    calls
    edges := ix.edges.filter (fun e => !derivedKinds.contains e.kind) ++ derivedEdges calls }

def putSummary (r : SummaryRow) : Result Index :=
  if ix.hasFile r.fileId then
    .ok { ix with
      summaries := ix.summaries.filter (fun s => !(s.blob == r.blob && s.fileId == r.fileId)) ++ [r] }
  else .error danglingRow

def putSymbolSummaries (rows : List SymbolSummaryRow) : Result Index :=
  rows.foldlM (fun ix r =>
    if ix.hasFile r.fileId then
      .ok { ix with symbolSummaries := ix.symbolSummaries.filter (·.id != r.id) ++ [r] }
    else .error danglingRow) ix

def putPackages (rows : List PackageRow) : Result Index :=
  rows.foldlM (fun ix r =>
    if ix.hasRevision r.rev then
      .ok { ix with
        packages := ix.packages.filter (fun p => !(p.rev == r.rev && p.package == r.package)) ++ [r] }
    else .error danglingRow) ix

def putRun (r : RunRow) : Result Index :=
  if ix.hasRevision r.rev then
    .ok { ix with
      runs := ix.runs.filter (fun s =>
        !(s.rev == r.rev && s.generator == r.generator && s.model == r.model)) ++ [r] }
  else .error danglingRow

def setFact (key value : String) : Index := { ix with facts := ix.facts.filter (·.1 != key) ++ [(key, value)] }

end PatchReview.Index
