import PatchReview.Inquiry.Catalog
import PatchReview.Search

/-!
# Searching for an expert

A model that asks for a search makes common mistakes: it gives a list as a text, an ending without a star, or an
expression without saying so. The tool takes what is meant.
-/

namespace PatchReview.Tool

open Fields Inquiry Json

def filled? (ss : Strings) : Option Strings :=
  match ss.filter (· != "") with
  | [] => none
  | ws => some ws

/-- A list of texts that may be given as a list, as the text of one, or with commas between. -/
def textList? (v : Json) : Option Strings :=
  match v with
  | .list vs => some ((vs.map display).filter (· != ""))
  | .text raw =>
    let s := strip raw
    if s == "" then none
    else match (if beginsWith "[" s then read s else .ok .null) with
      | .ok (.list vs) => filled? (vs.map display)
      | _ => if holds "," s then filled? ((cutAt "," s).map strip) else some [s]
  | _ => none

/-- Globs with a star in front of a bare ending; all files when nothing is left. -/
def mendedGlobs (globs : Strings) : Strings :=
  let mended := ((globs.map strip).filter (· != "")).map fun s =>
    if beginsWith "." s && !holds "*" s && !holds "/" s && !holds "\\" s then "*" ++ s else s
  if mended.isEmpty then ["*"] else mended

def escapeMarks : Strings :=
  ["\\.", "\\(", "\\)", "\\[", "\\]", "\\+", "\\*", "\\?", "\\|", "\\^", "\\$"]

def operatorMarks : Strings :=
  [".*", ".+", ".?", "|", "^", "$", "(", ")", "[", "]", "\x7b", "\x7d"]

def looksLikeRegex (s : String) : Bool :=
  escapeMarks.any (holds · s) || operatorMarks.any (holds · s)

def meantQuery (pattern : String) (isRegex caseSensitive : Bool) (wanted unwanted : Json)
    (context most : Int) : Search.Query :=
  { pattern
    isRegex := isRegex || looksLikeRegex pattern
    caseSensitive
    wanted := mendedGlobs ((textList? wanted).getD ["*"])
    unwanted := (textList? unwanted).getD []
    context
    mostMatches := most }

def search (root : Option Path) (q : Search.Query) : Action String := do
  match root with
  | some r => Search.run r.toString q
  | none => Search.run (← Search.defaultRoot) q

/-!
## Asking the code index as an expert

The inquiries about the index that the environment names, with answers cut to a size that fits a conversation. An
answer says what was cut and how long it is.
-/

def indexVariable := "LITE_CPG_DB_PATH"

/-- The variable with the revision that is meant when none is given. -/
def revisionVariable := "LITE_CPG_DEFAULT_REV"

def mostItems : Int := 120

def mostChars : Nat := 6000

def noIndex : String :=
  "Lite-CPG DB not available. Please run CodeReview main flow to build per-diff index first " ++
    "(LITE_CPG_DB_PATH is not set)."

variable (a : Arguments) (key : String)

def meantRevision : Action Json := do
  let rev := a.get "rev"
  if rev.truthy then return rev
  return (← Action.envVar? revisionVariable).getD "head"

/-- A list cut to a limit, and what to say about it. -/
def trimmed (limit : Int) (v : Json) : Json × Object :=
  match v with
  | .list items =>
    let total := items.length
    let whole := decide (total ≤ limit)
    (if whole then v else .list (firstOf limit items), [(key ++ "_total", total),
      (key ++ "_returned", if whole then total else limit), (key ++ "_truncated", !whole)])
  | v => (v, [])

/-- A text cut to a limit, and what to say about it. -/
def trimmedText (v : Json) : Json × Object :=
  match v with
  | .text s =>
    let total := s.length
    let note := [(key ++ "_chars", nat total), (key ++ "_truncated", .bool (mostChars < total))]
    if total ≤ mostChars then (v, note)
    else ((takeChars mostChars s ++ "\n...[truncated]..."), note)
  | v => (v, [])

/-- Cuts a field of an answer, and adds to what is said about cuts. -/
def trimField (cut : Json → Json × Object) (key : String)
    (state : Object × Object) :
    Object × Object :=
  let (data, notes) := state
  match get? data key with
  | none => state
  | some v =>
    let (v, more) := cut v
    (insert data key v, merge notes more)

mutual

def withoutAttributes : Json → Json
  | .object fs => .object (fieldsWithoutAttributes fs)
  | .list vs => .list (allWithoutAttributes vs)
  | v => v

def fieldsWithoutAttributes : List (String × Json) → List (String × Json)
  | [] => []
  | (k, v) :: fs =>
    if k == "attrs" then fieldsWithoutAttributes fs
    else (k, withoutAttributes v) :: fieldsWithoutAttributes fs

def allWithoutAttributes : List Json → List Json
  | [] => []
  | v :: vs => withoutAttributes v :: allWithoutAttributes vs

end

def payload (out : Object) : Json :=
  let s := (object out).render { compact with ascii := false }
  .object [("approx_chars", s.length), ("approx_bytes_utf8", s.utf8ByteSize),
    ("keys", .texts ((Index.sortOn id (out.map (·.1))).take 50))]

/-- An answer with what was cut and how long it is. -/
def measured (data notes : Object) : Object :=
  let out := merge data [("_budget", .object notes), ("error", .null)]
  merge out [("_payload", payload out)]

/-- An inquiry by its name, with the arguments that are handed on to it where they are given. -/
structure Question where
  inquiry : String
  handed : Strings

/-- Asks a question. Without an index the answer is `empty` with an error, and when it is refused `refused` with
one. -/
def askOr (empty refused : Object) (q : Question) (shown : Object → Action Object) : Action Json := do
  let rev ← meantRevision a
  let bare (fields : Object) (error : String) : Json :=
    .object (("rev", rev) :: merge fields [("error", error)])
  match (← Action.envVar? indexVariable).filter (· != "") with
  | none => return bare empty noIndex
  | some path =>
    let ix ← Index.openAt (Path.ofString path)
    match ← run ix q.inquiry (("rev", rev) :: a.filter fun (k, _) => q.handed.contains k) with
    | .found data => return .object (← shown data)
    | .refused message _ => return bare refused message

/-- Checks arguments, and asks the inquiry with them. The answer is `empty` with an error when there is none. -/
def ask (inquiry : String) (needed optional : Strings) (empty : Object)
    (shown : Object → Action Object) (a : Arguments) : Action Json := do
  a.check needed ("rev" :: optional)
  askOr a empty empty ⟨inquiry, needed ++ optional⟩ shown

/-- Shows an answer with lists cut to the usual number of items. -/
def showLists (keys : Strings) (limit : Int) (data : Object) : Action Object := do
  let (data, notes) := keys.foldl (fun state key => trimField (trimmed key limit) key state) (data, [])
  return measured data notes

def nothingFound : String :=
  "No matches in current Lite-CPG DB (often diff/scoped). Call cpg_ast_index() to see indexed files; " ++
    "if the target file isn't indexed, fall back to run_grep with narrow include_patterns " ++
    "(e.g., a specific file path)."

def symbolSearch : Action Json := do
  let shown (data : Object) := do
    let limit ← a.int "limit" 50
    let state := (fieldsWithoutAttributes data, [("attrs_dropped", bool true)])
    let state := trimField (trimmed "symbols" (min limit mostItems)) "symbols" state
    let (data, notes) := trimField (trimmed "callsites" mostItems) "callsites" state
    let out := measured data notes
    let isEmpty (key : String) := !((get? out key).getD .null).truthy
    return if isEmpty "symbols" && isEmpty "callsites" then
      merge out [("_hint", nothingFound)] else out
  ask "symbol_search" ["query"] ["lang", "file_path", "limit", "include_callsites", "exact_name"]
    [("query", a.get "query"), ("symbols", .list []), ("callsites", .list [])] shown a

/-- A field of an entry, and a line of its place. -/
def entryLine (entry : Json) : Json := ((entry.getD "location").get? key).getD .null

def shortEntries (limit : Inquiry.Bound) (short : Json → Object) (file : Json) : Result Object := do
  match file.get? key with
  | some (.list items) =>
    return [(key ++ "_total", items.length), (key, .list ((firstOf (← limit) items).map fun v => .object (short v)))]
  | _ => return []

def shortOutline (limit : Inquiry.Bound) (file : Json) : Result Json := do
  let entries (flag key : String) (short : Json → Object) : Result Object :=
    if a.flag flag true then shortEntries key limit short file else return []
  let definitions ← entries "include_defs" "defs" fun d =>
    [("name", d.getD "name"), ("kind", d.getD "kind"), ("start_line", entryLine "start_line" d),
      ("end_line", entryLine "end_line" d)]
  let calls ← entries "include_calls" "calls" fun c =>
    [("dst_name", c.getD "dst_name"), ("resolved", c.getD "resolved"), ("line", entryLine "start_line" c)]
  let imports ← entries "include_imports" "imports" fun i =>
    [("import_text", i.getD "import_text"), ("line", entryLine "start_line" i)]
  let error := match file.get? "imports_error" with
    | some e => [("imports_error", e)]
    | none => []
  return .object ([("path", file.getD "path"), ("lang", file.getD "lang")] ++ definitions ++ calls ++ imports ++ error)

/-- Shows outlines: only the list of files when no files were asked for, else short ones unless all is
wanted. -/
def showOutline (limit : Inquiry.Bound) (listOnly : Bool) (data : Object) : Action Object := do
  let data := fieldsWithoutAttributes data
  let notes := [("attrs_dropped", bool true), ("summary_only", listOnly)]
  let (data, notes) := trimField (trimmed "files" mostItems) "files" (data, notes)
  let files := ((get? data "files").getD .null).items
  if listOnly then
    let short := files.map fun f => object [("path", f.getD "path"), ("lang", f.getD "lang")]
    return measured (insert data "files" (.list short)) (merge notes [("note", .text
      "file_paths not provided; returning files list only. Pass file_paths for defs/calls/imports.")])
  else if a.flag "compact" true then
    let short ← files.mapM (shortOutline a limit ·)
    return measured (insert data "files" (.list short)) (merge notes [("compact", true)])
  else return measured data notes

def outline : Action Json := do
  let flags := ["include_defs", "include_calls", "include_imports"]
  a.check [] (["file_paths", "rev", "lang", "limit_per_file", "compact"] ++ flags)
  let limit := a.get "limit_per_file" (.int 120)
  let files := match textList? (a.get "file_paths") with
    | some [] => none
    | files => files
  let handed : Arguments := match files with
    | some ps => [("file_paths", .texts ps), ("limit_per_file", limit)]
    | none => [("file_paths", .null), ("limit_per_file", limit)] ++ flags.map fun k => (k, .bool false)
  let empty := [("files", list [])]
  askOr (merge a handed) empty empty ⟨"ast_index", ["file_paths", "lang", "limit_per_file"] ++ flags⟩
    (showOutline a limit.toInt files.isNone)

def resolveImport : Action Json := do
  let needed := ["lang", "from_module", "name"]
  ask "resolve_import" needed ["repo_root_hint", "importer_file_path", "max_depth"]
    (needed.map (fun k => (k, a.get k .null)) ++ [("matches", .list [])]) (showLists ["matches"] mostItems) a

def noNodes : Object := [("count", .int 0), ("nodes", .list [])]

def query (inquiry start : String) : Arguments → Action Json :=
  ask inquiry [start] ["max_steps", "max_visited"] noNodes (showLists ["nodes"] mostItems)

def slice : Action Json :=
  ask "cpg_slice" ["criteria_node_ids", "direction"] ["max_nodes"] noNodes (fun data => do
    showLists ["nodes"] (min (← a.int "max_nodes" 200) mostItems) data) a

def showPath (data : Object) : Action Object := do
  match get? data "path" with
  | some (.object path) =>
    let state := trimField (trimmed "path_node_ids" mostItems) "node_ids" (path, [])
    let (path, notes) := trimField (trimmed "path_locations" mostItems) "locations" state
    return measured (insert data "path" (.object path)) notes
  | _ => return measured data []

def reachability : Arguments → Action Json :=
  ask "cpg_reachability" ["src_node_id", "dst_node_id"] ["max_steps"] [("reachable", false), ("path", .null)]
    showPath

def noRegion : Object := [("nodes", .list []), ("edges", .list [])]

def callGraph : Arguments → Action Json :=
  ask "cpg_callgraph" ["node_or_symbol"] ["direction", "depth", "limit"] noRegion
    (showLists ["nodes", "edges"] mostItems)

def flowRegion : Arguments → Action Json :=
  ask "cpg_cfg_region" ["root_node_id"] ["depth", "limit"] noRegion (showLists ["nodes", "edges"] mostItems)

def summary : Action Json := do
  a.check ["symbol"] ["rev"]
  askOr a [] [("symbol", a.get "symbol")] ⟨"cpg_summary", ["symbol"]⟩ fun data => do
    let (data, notes) := trimField (trimmedText "summary_text") "summary_text" (data, [])
    return measured data notes

end PatchReview.Tool
