import PatchReview.Fulltext.Excerpt
import PatchReview.Index.Store

/-!
# Asking an index

Rows, documents that match a query, and what can be reached over stored edges: slices and paths of taint.
-/

namespace PatchReview.Index

/-!
## Wildcard patterns in look-ups

In a pattern a percent sign stands for any run of characters and an underscore for any one character. Letters match
in either case, ASCII letters only. A null character ends a text and a pattern.
-/

def foldAscii (c : Char) : Char := if 65 ≤ c.toNat ∧ c.toNat ≤ 90 then Char.ofNat (c.toNat + 32) else c

def anyTail (p : Chars → Bool) : Chars → Bool
  | [] => p []
  | c :: s => p (c :: s) || anyTail p s

def likeChars : Chars → Chars → Bool
  | [], s => s.isEmpty
  | '%' :: ps, s => anyTail (likeChars ps) s
  | '_' :: ps, s =>
    match s with
    | [] => false
    | _ :: s => likeChars ps s
  | p :: ps, s =>
    match s with
    | [] => false
    | c :: s => foldAscii p == foldAscii c && likeChars ps s

def beforeNull (s : String) : Chars := s.toList.takeWhile (·.toNat != 0)

def like (pattern s : String) : Bool := likeChars (beforeNull pattern) (beforeNull s)

/-!
## Rows

Rows come in the order of the tables' keys: edges of a node by kind, symbols of a name by language, call sites by
name; ties stand in the order they were added. What belongs to a revision is what its file versions name. A limit is a
parameter of a statement, so it is a number of 64 bits.
-/

/-- At most `limit` items; a negative limit takes all. -/
def limited {α : Type} (limit : Int64) (items : List α) : List α :=
  if limit.toInt < 0 then items else items.take limit.toInt.toNat

def sortOn {α : Type} (key : α → String) (items : List α) : List α := items.mergeSort fun a b => key a ≤ key b

def sortedOnce (ws : Strings) : Strings := ws.mergeSort.eraseReps

inductive Direction where
  | out
  | into

/-- The end an edge is followed from. -/
def Direction.near : Direction → EdgeRow → String
  | .out, e => e.src
  | .into, e => e.dst

/-- The end an edge is followed to. -/
def Direction.far : Direction → EdgeRow → String
  | .out, e => e.dst
  | .into, e => e.src

def Direction.read (s : String) : Result Direction :=
  if s == "out" then .ok .out
  else if s == "in" then .ok .into
  else .error (.invalid "direction must be 'out' or 'in'")

variable (ix : Index) (path rev : String) (dir : Direction) (blob : String) (fileId : Int) (id : String)
  (kinds : Strings) (limit : Int64) (node text : String) (lang : Option String)

def edgesAt : List EdgeRow := sortOn (·.kind) (ix.edges.filter fun e => dir.near e == node)

def neighbors (kind : Option String) (limit : Int64) : Strings :=
  let edges := ix.edgesAt dir node
  let edges := match kind with
    | some k => if k == "" then edges else edges.filter (·.kind == k)
    | none => edges
  (limited limit edges).map dir.far

def neighborsAlong : Strings :=
  (limited limit ((ix.edgesAt dir node).filter fun e => kinds.contains e.kind)).map dir.far

/-- Whether a row's file has the row's content at a revision. -/
def visibleAt (blob : String) : Bool := ix.versions.any fun v => v.rev == rev && v.fileId == fileId && v.blob == blob

def edgesAtRev : List EdgeRow :=
  limited limit ((ix.edgesAt dir node).filter fun e =>
    (kinds.isEmpty || kinds.contains e.kind) && ix.visibleAt rev e.fileId e.blob)

def callSites (names : Strings) (lang : Option String) (limit : Int64) : Strings :=
  let inLang (c : CallRow) := match lang with
    | some l => l == "" || ix.files.any fun f => f.id == c.fileId && f.lang == l
    | none => true
  let rows := (sortedOnce names).flatMap fun n =>
    (ix.calls.filter (·.name == n)).mergeSort fun a b => a.resolved ≤ b.resolved
  (limited limit (rows.filter inLang)).map (·.src)

/-- The ids of the symbols of a name, by language. -/
def symbolIds (name : String) (lang : Option String) (limit : Int64) : Strings :=
  let rows := ix.symbols.filter (·.name == name)
  let rows := match lang with
    | some l => if l == "" then sortOn (·.lang) rows else rows.filter (·.lang == l)
    | none => sortOn (·.lang) rows
  (limited limit rows).map (·.id)

def stats : List (String × Nat) :=
  [("files", ix.files.length), ("file_versions", ix.versions.length), ("blobs", ix.blobs.length), ("nodes",
    ix.nodes.length), ("edges", ix.edges.length), ("symbols", ix.symbols.length), ("calls", ix.calls.length)]

/-- The name of the newest revision; of two of one time the one added first. -/
def latestRevision? : Option String :=
  (ix.revisions.foldl (fun best r => match best with
    | none => some r
    | some b => if b.createdAt < r.createdAt then some r else some b) none).bind (·.rev)

/-- A revision that must be there: the named one, else the newest. -/
def requireRevision (rev : Option String) : Result String :=
  match rev with
  | some r =>
    if r == "" then newest
    else if ix.hasRevision r then .ok r else .error (.invalid s!"Unknown rev: {r}")
  | none => newest
where
  newest : Result String :=
    match ix.latestRevision? with
    | some r =>
      if r == "" then .error (.invalid "No revisions found. Run index_repository(...) first.")
      else .ok r
    | none => .error (.invalid "No revisions found. Run index_repository(...) first.")

def fileOf? (id : Int) : Option FileRow := ix.files.find? (·.id == id)

def versionOf? (rev path : String) : Option (Int × String × String) := do
  let f ← ix.fileAt? path
  let v ← ix.versions.find? fun v => v.rev == rev && v.fileId == f.id
  return (f.id, v.blob, f.lang)

def filesAt : List FileRow :=
  (ix.files.filter fun f => ix.versions.any fun v => v.rev == rev && v.fileId == f.id).mergeSort
    fun a b => decide (a.id ≤ b.id)

/-- The paths of a revision that match a wildcard pattern ending with a suffix. -/
def pathsEndingWith (rev suffix : String) (limit : Int64) : Strings :=
  limited limit (((ix.filesAt rev).filter fun f => like ("%" ++ suffix) f.path).map (·.path))

def BlobRow.bytes (r : BlobRow) : Result Bytes :=
  match r.content with
  | .bytes b => .ok b
  | .text _ =>
    if r.compressed then .error (.shape "a bytes-like object is required, not 'str'")
    else .error (.lacking "'str' object has no attribute 'decode'")

def blobContent : Result (Option Bytes) :=
  match ix.blobs.find? (·.blob == blob) with
  | none => .ok none
  | some r => r.bytes.map some

def spanAt (p : Place) : Graph.Span := ⟨path, p.startLine, p.startColumn, p.endLine, p.endColumn⟩

def nodeSpan? : Option Graph.Span := do
  let n ← ix.nodes.find? (·.id == id)
  let f ← ix.fileOf? n.fileId
  return spanAt f.path n.place

/-- The most parameters that a statement may have. -/
def mostParameters : Nat := 32766

/-- The nodes among some that have a place, with it. All of them are parameters of one statement. -/
def nodeSpans (ids : Strings) : Result (List (String × Graph.Span)) :=
  if mostParameters < ids.length then .error (.operation "too many SQL variables")
  else .ok (ids.filterMap fun id => (ix.nodeSpan? id).map (id, ·))

/-- Attributes as a value; none when the text is empty or cannot be read. -/
def attrsValue (s : String) : Json :=
  if s == "" then .object []
  else match Json.read s with
    | .ok v => v
    | .error _ => .object []

def symbolAt? : Option SymbolRow := ix.symbols.find? (·.id == id)

def symbolPlace? : Option (String × Graph.Span × Json) := do
  let s ← ix.symbolAt? id
  let f ← ix.fileOf? s.fileId
  return (s.lang, spanAt f.path s.place, attrsValue s.attrs)

structure LocatedSymbol where
  file : FileRow
  row : SymbolRow

def symbolAtRev? : Option LocatedSymbol := do
  let s ← ix.symbolAt? id
  let f ← ix.fileOf? s.fileId
  if ix.visibleAt rev s.fileId s.blob then some ⟨f, s⟩ else none

def symbolsOfBlob : List SymbolRow :=
  (ix.symbols.filter fun s => s.blob == blob && s.fileId == fileId).mergeSort fun a b =>
    decide (a.place.startLine < b.place.startLine ∨
      (a.place.startLine = b.place.startLine ∧ a.place.startColumn ≤ b.place.startColumn))

def summaryOf? : Option SummaryRow := ix.summaries.find? fun s => s.blob == blob && s.fileId == fileId

def summariesAt : List (FileRow × SummaryRow) :=
  let rows := (ix.versions.filter (·.rev == rev)).filterMap fun v => do
    let f ← ix.fileOf? v.fileId
    let s ← ix.summaryOf? v.blob v.fileId
    return (f, s)
  sortOn (·.1.path) rows

def runAt? : Option RunRow :=
  (ix.runs.filter (·.rev == rev)).foldl (fun best r => match best with
    | none => some r
    | some b => if b.createdAt < r.createdAt then some r else some b) none

/-- The summary of a path under its greatest content digest. -/
def summaryOfPath? : Option SummaryRow :=
  (ix.summaries.filter (·.path == path)).foldl (fun best r => match best with
    | none => some r
    | some b => if b.blob < r.blob then some r else some b) none

def symbolSummariesOf : List SymbolSummaryRow :=
  match ix.fileAt? path with
  | none => []
  | some f =>
    limited limit ((ix.symbolSummaries.filter (·.fileId == f.id)).mergeSort fun a b =>
      decide (a.startLine < b.startLine ∨ (a.startLine = b.startLine ∧ a.startColumn ≤ b.startColumn)))

/-!
## Stored summaries

The summaries of files and symbols as records.
-/

def fileSummary : Result (Option Json) :=
  match ix.summaryOfPath? path with
  | none => .ok none
  | some r =>
    let origin := Json.object [("generator", r.generator), ("llm_model", r.model)]
    match Json.read r.summary with
    | .error e => .error (.malformed e)
    | .ok (.object fs) => .ok (some (.object (Fields.insert fs "_meta" origin)))
    | .ok _ => .error (.shape "object does not support item assignment")

def symbolSummaryRecords : Result (List Json) :=
  (ix.symbolSummariesOf path limit).mapM fun r =>
    match Json.read r.struct with
    | .error e => .error (.malformed e)
    | .ok v => .ok (.object [("name", r.name), ("kind", r.kind), ("signature", r.signature),
        ("summary_text", r.text), ("summary_struct", v)])

/-!
## Searching

Documents that match a query, with an excerpt. A text that is no query is looked for in the paths.
-/

def DocumentRow.words (d : DocumentRow) : Fulltext.Row := [d.path, d.lang, d.content].map Fulltext.keysIn

def matchingDocuments (q : Fulltext.Query) : List (DocumentRow × String) :=
  let rows := ix.documents.map (·.words)
  (ix.documents.zip rows).zipIdx.filterMap fun ((d, row), i) =>
    if q.accepts row then some (d, Fulltext.excerpt 2 d.content (q.places rows i)) else none

/-- The files whose paths hold a text: those of a language as they were added, or all by path. -/
def searchPaths (limit : Int64) : Pairs :=
  let rows : List FileRow := match lang with
    | some l => ix.files.filter (·.lang == l)
    | none => sortOn (·.path) ix.files
  limited limit ((rows.filter fun f => like s!"%{text}%" f.path).map fun f => (f.path, ""))

/-- Searches the documents for a query: paths with excerpts. What is no query is looked for in paths as it is
shown. -/
def searchFor (query : Option String) (shown : String) (lang : Option String) (limit : Int64) : Pairs :=
  match query.bind Fulltext.Query.ofText? with
  | none => ix.searchPaths shown lang limit
  | some q =>
    let rows := (ix.matchingDocuments q).filter fun (d, _) => lang.all (· == d.lang)
    limited limit (rows.map fun (d, excerpt) => (d.path, excerpt))

def search (limit : Int64) : Pairs := ix.searchFor (some text) text (lang.filter (· != "")) limit

/-!
## Slices of an index

Breadth-first reachability over stored edges of some kinds.
-/

structure SliceOptions where
  kinds : Strings := ["DDG", "CFG", "CFG_BRANCH", "CFG_IP_CALL", "CFG_IP_RET", "CALL"]
  maxNodes : Int := 500
  perNode : Int64 := 200

def once (ws : Strings) : Strings := ws.foldl (fun acc w => if acc.contains w then acc else acc ++ [w]) []

variable (ix : Index) (dir : Direction) (lang : String)

/-- The nodes reachable from the criteria in a direction, nearest first. -/
def slice (criteria : Strings) (o : SliceOptions) : Strings :=
  let start := once criteria
  Graph.spread (ix.neighborsAlong dir o.kinds o.perNode) o.maxNodes.toNat start start

/-!
## Taint in an index

Paths along stored edges from call sites of sources to call sites of sinks, and backwards. A search goes depth
first, visits a node once, ends a path at a sink and does not pass a sanitizer.
-/

structure TaintOptions where
  kinds : Strings := ["DDG", "CFG_IP_CALL", "CALL"]
  maxSteps : Int := 80
  maxPaths : Int := 50
  perNode : Int64 := 200

/-- What a taint search needs: where edges lead, and which nodes end or stop a path. -/
structure TaintSearch where
  next : String → Strings
  sinks : Strings
  sanitizers : Strings
  maxSteps : Int
  maxPaths : Int

/-- Puts the neighbours of a path's end that were not visited yet on the stack, the last one on top. -/
def TaintSearch.push (s : TaintSearch) (n : String) (path : Strings)
    (state : List Strings × Strings) : List Strings × Strings :=
  (s.next n).foldl (fun (stack, visited) m =>
    if visited.contains m then (stack, visited)
    else ((m :: path) :: stack, m :: visited)) state

/-- One search over a stack of paths, each with its last node first. The fuel bounds the nodes taken off the
stack. -/
def TaintSearch.run (s : TaintSearch) : Nat → List Strings → Strings → List Strings → List Strings
  | 0, _, _, found => found
  | _ + 1, [], _, found => found
  | fuel + 1, path :: stack, visited, found =>
    if s.maxPaths ≤ found.length then found
    else match path with
      | [] => s.run fuel stack visited found
      | n :: _ =>
        if s.sinks.contains n then s.run fuel stack visited (found ++ [path.reverse])
        else if s.maxSteps ≤ path.length then s.run fuel stack visited found
        else if s.sanitizers.contains n then s.run fuel stack visited found
        else
          let (stack, visited) := s.push n path (stack, visited)
          s.run fuel stack visited found

def TaintSearch.paths (s : TaintSearch) (fuel : Nat) (starts : Strings) : List Strings :=
  starts.foldl (fun found n =>
    if s.maxPaths ≤ found.length then found else s.run fuel [[n]] [n] found) []

def callSiteLimit : Int64 := 10000

def sitesOf (table : Graph.NamesByLanguage) : Strings :=
  let names := Graph.Policy.namesIn table lang
  ix.callSites names (some lang) callSiteLimit

def taint (p : Graph.Policy) (o : TaintOptions) : List Strings :=
  let (starts, sinks) := match dir with
    | .out => (ix.sitesOf lang p.sources, ix.sitesOf lang p.sinks)
    | .into => (ix.sitesOf lang p.sinks, ix.sitesOf lang p.sources)
  let s : TaintSearch :=
    { next := ix.neighborsAlong dir o.kinds o.perNode
      sinks
      sanitizers := ix.sitesOf lang p.sanitizers
      maxSteps := o.maxSteps
      maxPaths := o.maxPaths }
  s.paths (ix.edges.length + 2) starts

end PatchReview.Index
