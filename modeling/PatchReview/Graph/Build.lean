import PatchReview.Graph.Flow

/-!
# Building a graph

Symbols of all files are collected first, so that calls can be matched across files. Then each file adds its
nodes, its syntax and control flow edges and its calls, and symbols named by the policy are tagged.
-/

namespace PatchReview

structure ParsedFile where
  path : String
  lang : String
  source : Bytes
  blob : String
  root : Syntax.Tree

namespace Graph

structure Draft where
  graph : Graph := {}
  index : SymbolIndex := {}

namespace Draft

def addSymbol (d : Draft) (s : Symbol) : Draft := ⟨d.graph.addSymbol s, d.index.add s⟩

def collect (d : Draft) (f : ParsedFile) : Draft := (symbolsOf f.path f.lang f.blob f.source f.root).foldl addSymbol d

/-- Adds a declaration as a function unless its id is a symbol already. -/
def declare (f : ParsedFile) (d : Draft) (decl : String × String × Syntax.Tree) : Draft :=
  let (id, name, t) := decl
  if Fields.has d.graph.symbols id then d
  else d.addSymbol ⟨id, name, "function", spanOf f.path f.source t, f.lang, f.path⟩

/-- Matches a call to the first symbol of its name in the file's language. -/
def resolveCall (d : Draft) (lang : String) (e : Edge) : Edge :=
  match d.index.resolve e.dst (some lang) with
  | [] => e
  | id :: _ => { e with dst := id, attrs := Fields.erase e.attrs "unresolved" }

/-- Adds a call, and for a matched one the flow into the callee and back. -/
def addCall (interprocedural : Bool) (lang : String) (d : Draft) (e : Edge) : Draft :=
  let e := d.resolveCall lang e
  let g := d.graph.addCall e
  let g := if interprocedural && !e.unresolved then
    (g.addEdge e.src e.dst "CFG_IP_CALL").addEdge e.dst e.src "CFG_IP_RET" else g
  { d with graph := g }

end Draft

variable (policy : Policy) (interprocedural : Bool)

/-- Symbols of a language that the policy names become sources or sinks; a sink wins. -/
def tag (lang : String) (g : Graph) : Graph :=
  { g with symbols := g.symbols.map fun (id, s) =>
      if s.lang != lang then (id, s)
      else if policy.isSink lang s.name then (id, { s with kind := "sink" })
      else if policy.isSource lang s.name then (id, { s with kind := "source" })
      else (id, s) }

def Draft.addFile (d : Draft) (f : ParsedFile) : Draft :=
  let o : Origin := ⟨f.path, f.lang, f.source, f.blob⟩
  let g := (flatNodes o f.root).foldl addNode d.graph
  let g := g.addEdges (flatEdges o f.root)
  let g := g.addEdges (flow f.blob f.root)
  let sites := callSites f.blob f.source f.root
  let d : Draft := { d with graph := g }
  let d := sites.declarations.foldl (Draft.declare f) d
  let d := sites.calls.foldl (Draft.addCall interprocedural f.lang) d
  { d with graph := tag policy f.lang d.graph }

def build (files : List ParsedFile) : Graph :=
  let d := files.foldl Draft.collect {}
  (files.foldl (Draft.addFile policy interprocedural) d).graph

def withDefUse (g : Graph) (f : ParsedFile) : Graph := g.addEdges (defUse f.blob f.source f.root)

end Graph

end PatchReview
