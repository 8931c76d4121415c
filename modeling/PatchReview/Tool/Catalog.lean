import PatchReview.Encoding.Named
import PatchReview.Tool.Code
import PatchReview.Repository.Map

/-!
# The tools of an expert

What an expert can call, by name, in the order in which the tools are offered.
-/

namespace PatchReview.Tool

/-!
## Reading files for an expert

A tool that reads answers in any case: with the text, or with what went wrong. A snippet is a window of numbered lines
around a range, no longer than asked for.
-/

open Action Files String

/-- The text of a file, in an encoding. Line ends become line feeds. -/
def encodedText (p : Path) (encoding : Json) : Action String := do
  let b ← readBytes p
  return unified (← Encoding.decode encoding b)

def encodedLines (p : Path) (encoding : Json) : Action Strings := do
  let b ← readBytes p
  return feedsOf (unified (← Encoding.decodeByLines encoding b))

variable (root : Option Path) (file : String) (encoding : Json) (path : String)

def placed : Action Path := do
  let p := Path.ofString file
  if p.isAbsolute then return p
  let base := root.getD (FileTree.pathOf (← get).cwd)
  return base / p

structure FileText where
  content : String
  path : String
  lineCount : Nat
  encoding : Json
  error : Option String

def FileText.toJson (f : FileText) : Json :=
  .object [("content", f.content), ("file_path", f.path),
    ("line_count", f.lineCount), ("encoding", f.encoding), ("error", Json.ofText? f.error)]

def FileText.failed (encoding : Json) (error : String) : FileText := ⟨"", path, 0, encoding, some error⟩

/-- The first lines, a negative number counting from the end. -/
def leading (most : Int) (lines : Strings) : Strings :=
  if most < 0 then lines.take (lines.length - most.natAbs) else lines.take most.toNat

/-- Reads a file that must be there; `encoding` is told when it cannot be read. -/
def reading (read : Path → Action FileText) : Action FileText := do
  let found ← attempt do
    let p ← placed root file
    let shown := p.toString
    if !(← present p) then return .failed shown encoding s!"File not found: {shown}"
    read p
  match found with
  | .ok f => return f
  | .error e => return .failed file encoding s!"Error reading file: {e.message}"

def readLines (most : Option Int) : Action FileText :=
  reading root file "utf-8" fun p => do
    let lines ← encodedLines p encoding
    let count := lines.length
    let content := match most with
      | some m =>
        if m != 0 && m < count then
          let more := (count : Int) - m
          join (leading m lines) ++ s!"\n... (truncated, {more} more lines)"
        else join lines
      | none => join lines
    return ⟨content, p.toString, count, encoding, none⟩

def readWhole : Action FileText :=
  reading root file encoding fun p => do
    let content ← encodedText p encoding
    return ⟨content, p.toString, (linesOf content).length, encoding, none⟩

structure Snippet where
  text : String
  path : String
  first : Int
  last : Int
  lineCount : Nat
  encoding : Json
  error : Option String

def Snippet.toJson (s : Snippet) : Json :=
  .object [("snippet", s.text), ("file_path", s.path), ("range", .list [s.first, s.last]),
    ("line_count", s.lineCount), ("encoding", s.encoding), ("error", Json.ofText? s.error)]

def Snippet.failed (encoding : Json) (error : String) : Snippet := ⟨"", path, 0, 0, 0, encoding, some error⟩

/-- The window of a file of `total` lines around the lines from `start` to `stop`: with `context` lines on either
side, and when that is more than `most` lines, `most` lines around the middle. -/
def window (total start stop context most : Int) : Int × Int :=
  let lo := max 1 (start - context)
  let hi := min total (stop + context)
  if most < hi - lo + 1 then
    let lo := max 1 ((start + stop).fdiv 2 - most.fdiv 2)
    let hi := min total (lo + most - 1)
    (max 1 (hi - most + 1), hi)
  else (lo, hi)

def numbered (lines : Strings) (lo hi : Int) : Strings :=
  ((lines.zipIdx 1).filter fun (_, n) => lo ≤ (n : Int) && (n : Int) ≤ hi).map
    fun (l, n) => s!"{n}: {l}"

/-- The fewest lines a window may be limited to. -/
def leastWindow : Int := 20

/-- Reads a snippet of a file. Numbers may be given as text. -/
def readSnippet (start stop context most encoding : Json) : Action Snippet := do
  let read : Action Snippet := do
    let p ← placed root file
    let shown := p.toString
    if !(← present p) then return .failed shown encoding s!"File not found: {shown}"
    let start ← start.toInt
    let stop ← stop.toInt
    let start := max 1 start
    let stop := max start stop
    let context ← context.toInt
    let most ← most.toInt
    let lines := linesOf (← encodedText p encoding)
    let (lo, hi) := window lines.length start stop (max 0 context) (max leastWindow most)
    return ⟨joinWith "\n" (numbered lines lo hi), shown, lo, hi, lines.length, encoding, none⟩
  match ← attempt read with
  | .ok s => return s
  | .error e => return .failed file encoding s!"Error reading file snippet: {e.message}"

structure Context where
  root : Option Path := none
  map : Option String := none

variable (c : Context) (a : Arguments)

def repositoryMap : Action Json := do
  a.check [] []
  Repository.fetchMap Repository.toolIndent c.map

def wholeFile : Action Json := do
  a.check ["file_path"] ["encoding"]
  return (← readWhole c.root (a.text "file_path") (a.get "encoding" "utf-8")).toJson

def partOfFile : Action Json := do
  a.check ["file_path", "start_line", "end_line"] ["context_lines", "max_lines", "encoding"]
  return (← readSnippet c.root (a.text "file_path") (a.get "start_line") (a.get "end_line")
    (a.get "context_lines" (.int 20)) (a.get "max_lines" (.int 240))
    (a.get "encoding" "utf-8")).toJson

def textSearch : Action Json := do
  a.check ["pattern"]
    ["is_regex", "case_sensitive", "include_patterns", "exclude_patterns", "context_lines", "max_results"]
  let q := meantQuery (a.text "pattern") (a.flag "is_regex" false) (a.flag "case_sensitive" true)
    (a.get "include_patterns") (a.get "exclude_patterns") (← a.int "context_lines" 30)
    (← a.int "max_results" 10)
  return ← search c.root q

def catalog : List (String × (Arguments → Action Json)) := [("fetch_repo_map", repositoryMap c),
  ("read_file", wholeFile c),
  ("read_file_snippet", partOfFile c),
  ("run_grep", textSearch c),
  ("cpg_symbol_search", symbolSearch),
  ("cpg_ast_index", outline),
  ("cpg_resolve_import", resolveImport),
  ("cpg_query_forward", query "cpg_query_forward" "start_node_id"),
  ("cpg_query_backward", query "cpg_query_backward" "sink_node_id"),
  ("cpg_slice", slice),
  ("cpg_reachability", reachability),
  ("cpg_callgraph", callGraph),
  ("cpg_cfg_region", flowRegion),
  ("cpg_summary", summary)]

end PatchReview.Tool
