import PatchReview.Json.Basic
import PatchReview.Syntax.Tree

/-!
# Code graphs

Nodes are syntax nodes under ids made of a prefix and a byte range. Edges say how nodes hang together: syntax,
control flow, data flow and calls. A call edge that was not matched to a declaration carries the mark
`unresolved`.
-/

namespace PatchReview.Graph

/-- A range in a file, lines and columns from 1. -/
structure Span where
  path : String
  startLine : Int
  startColumn : Int
  endLine : Int
  endColumn : Int
  deriving Inhabited

structure Node where
  id : String
  kind : String
  span : Span
  text : Option String
  lang : Option String
  attrs : Pairs

structure Edge where
  src : String
  dst : String
  kind : String
  attrs : Pairs

structure Symbol where
  id : String
  name : String
  kind : String
  span : Span
  lang : String
  file : String

end Graph

/-- A code graph. Nodes and symbols are keyed by id, in the order the ids were first added. -/
structure Graph where
  nodes : List (String × Graph.Node) := []
  edges : List Graph.Edge := []
  symbols : List (String × Graph.Symbol) := []
  calls : List Graph.Edge := []

namespace Graph

def addNode (g : Graph) (n : Node) : Graph := { g with nodes := Fields.insert g.nodes n.id n }

def addEdge (g : Graph) (src dst kind : String) : Graph := { g with edges := g.edges ++ [⟨src, dst, kind, []⟩] }

def addEdges (g : Graph) (es : List Edge) : Graph := { g with edges := g.edges ++ es }

def addSymbol (g : Graph) (s : Symbol) : Graph := { g with symbols := Fields.insert g.symbols s.id s }

def addCall (g : Graph) (e : Edge) : Graph := { g with calls := g.calls ++ [e] }

def unresolvedMark : String × String := ("unresolved", "true")

def Edge.unresolved (e : Edge) : Bool :=
  match Fields.get? e.attrs "unresolved" with
  | some v => v != ""
  | none => false

def blockId (leading : String) (t : Syntax.Tree) : String := s!"{leading}:{t.start}-{t.stop}"

def spanOf (path : String) (source : Bytes) (t : Syntax.Tree) : Span :=
  let a := Syntax.pointOf source t.start
  let b := Syntax.pointOf source t.stop
  ⟨path, a.line + 1, a.column + 1, b.line + 1, b.column + 1⟩

end Graph

end PatchReview

/-!
## Syntax nodes as graph nodes

Every node of a tree becomes a graph node, parents first, and every child an edge from its parent.
-/

namespace PatchReview.Graph

structure Origin where
  path : String
  lang : String
  source : Bytes
  /-- The prefix of the ids; an empty one gives way to the path. -/
  leading : String

def Origin.idLead (o : Origin) : String := if o.leading.isEmpty then o.path else o.leading

def nodeOf (o : Origin) (t : Syntax.Tree) : Node :=
  { id := blockId o.idLead t
    kind := t.kind
    span := spanOf o.path o.source t
    text := some (t.text o.source)
    lang := some o.lang
    attrs := [("path", o.path), ("start_byte", toString t.start), ("end_byte", toString t.stop)] }

def syntaxEdge (parent child : String) : Edge := ⟨parent, child, "AST", []⟩

mutual

def flatNodes (o : Origin) : Syntax.Tree → List Node
  | t@(.node _ _ _ cs) => nodeOf o t :: flatNodesAll o cs

def flatNodesAll (o : Origin) : List Syntax.Tree → List Node
  | [] => []
  | t :: ts => flatNodes o t ++ flatNodesAll o ts

end

mutual

def flatEdges (o : Origin) : Syntax.Tree → List Edge
  | t@(.node _ _ _ cs) => flatEdgesAll o (blockId o.idLead t) cs

def flatEdgesAll (o : Origin) (parent : String) : List Syntax.Tree → List Edge
  | [] => []
  | t :: ts => syntaxEdge parent (blockId o.idLead t) :: flatEdges o t ++ flatEdgesAll o parent ts

end

end PatchReview.Graph

/-!
## Taint policy

Which names bring untrusted data in, which are dangerous to reach with it, and which clean it, per language.
-/

namespace PatchReview.Graph

abbrev NamesByLanguage := List (String × Strings)

structure Policy where
  sources : NamesByLanguage := []
  sinks : NamesByLanguage := []
  sanitizers : NamesByLanguage := []

namespace Policy

def namesIn (table : NamesByLanguage) (lang : String) : Strings := (Fields.get? table lang).getD []

variable (p : Policy) (lang name : String)

def isSource : Bool := (namesIn p.sources lang).contains name

def isSink : Bool := (namesIn p.sinks lang).contains name

def isSanitizer : Bool := (namesIn p.sanitizers lang).contains name

def standard : Policy where
  sources := [("python", ["input", "sys.stdin", "flask.request.args", "flask.request.form"]),
    ("typescript", ["window.location", "document.cookie", "process.env"]),
    ("java", ["System.in", "HttpServletRequest.getParameter"]),
    ("go", ["os.Args", "http.Request.Form", "http.Request.Body"]),
    ("ruby", ["ARGV", "STDIN", "params"])]
  sinks := [("python", ["subprocess.Popen", "os.system", "eval", "exec", "cursor.execute"]),
    ("typescript", ["eval", "Function", "document.write", "innerHTML"]),
    ("java", ["Runtime.exec", "ProcessBuilder.start", "Statement.execute"]),
    ("go", ["exec.Command", "db.Exec", "template.Execute"]),
    ("ruby", ["eval", "system", "exec", "Kernel.send"])]
  sanitizers := [("python", ["html.escape", "markupsafe.escape"]), ("typescript", ["DOMPurify.sanitize"]),
    ("java", ["ESAPI.encoder().encodeForHTML"]),
    ("go", ["template.HTMLEscapeString"]),
    ("ruby", ["ERB::Util.html_escape"])]

end Policy

/-!
## Calls and declarations

A call node gives an edge to the name it calls; a declaration node gives a name for its id. A member access
counts as a whole before any plain identifier.
-/

open Fields Syntax

def callKinds : Strings :=
  ["call_expression", "function_call", "method_invocation", "constructor_invocation", "call"]

def declarationKinds : Strings :=
  ["function_declaration", "method_declaration", "function_definition", "function_item",
    "method_definition", "variable_declarator", "method"]

def memberKinds : Strings :=
  ["attribute", "member_expression", "field_expression", "selector_expression", "scoped_identifier"]

variable (path lang leading : String) (source : Bytes) (t : Tree) (kind : String)

def isIdentifierKind : Bool := holds "identifier" kind

/-- The name a call or declaration node carries: its first member access, else its first identifier,
else the empty text. -/
def calledName : String :=
  match t.children.find? fun c => memberKinds.contains c.kind with
  | some c => c.text source
  | none =>
    match t.children.find? fun c => isIdentifierKind c.kind with
    | some c => c.text source
    | none => ""

structure CallSites where
  calls : List Edge := []
  declarations : List (String × String × Tree) := []

def CallSites.visit (found : CallSites) (t : Tree) : CallSites :=
  let id := blockId leading t
  let name := calledName source t
  let found := if declarationKinds.contains t.kind && name != "" then
    { found with declarations := insert found.declarations id (name, t) } else found
  if callKinds.contains t.kind && name != "" then
    { found with calls := found.calls ++ [⟨id, name, "CALL", [unresolvedMark]⟩] }
  else found

def callSites (root : Tree) : CallSites :=
  (Tree.walk [root]).foldl (CallSites.visit leading source) {}

/-!
## Symbols

The declarations of a file under their names, and an index of symbols by name.
-/

def symbolKinds : Strings :=
  ["function_declaration", "function_definition", "method_declaration", "method_definition",
    "function_item", "class_declaration", "class_definition", "type_declaration", "type_spec",
    "type_identifier", "method", "class", "def"]

/-- The name of a symbol node: its first child that is an identifier or a constant. -/
def declaredName : String :=
  match t.children.find? fun c => isIdentifierKind c.kind || c.kind == "constant" with
  | some c => c.text source
  | none => ""

def hasFunctionValue : Bool :=
  t.children.any fun c => ["arrow_function", "function", "function_expression"].contains c.kind

/-- Functions and methods are functions; all else is a type. -/
def symbolKindOf : String := if holds "function" kind || holds "method" kind then "function" else "type"

def symbolOf? : Option Symbol :=
  let name := declaredName source t
  let make (kind : String) := ⟨blockId leading t, name, kind, spanOf path source t, lang, path⟩
  if symbolKinds.contains t.kind then
    if name != "" then some (make (symbolKindOf t.kind)) else none
  else if lang == "typescript" && t.kind == "variable_declarator" then
    if name != "" && hasFunctionValue t then some (make "function") else none
  else none

def symbolsOf (root : Tree) : List Symbol := (Tree.walk [root]).filterMap (symbolOf? path lang leading source)

structure SymbolIndex where
  symbols : List (String × Symbol) := []
  byName : List (String × Strings) := []

/-- Adds a symbol. Its id is listed under its name each time it is added. -/
def SymbolIndex.add (ix : SymbolIndex) (s : Symbol) : SymbolIndex :=
  { symbols := insert ix.symbols s.id s
    byName := modify ix.byName s.name [] (· ++ [s.id]) }

/-- The ids of a name, in one language when one is given. -/
def SymbolIndex.resolve (ix : SymbolIndex) (name : String) (lang : Option String) : Strings :=
  let ids := (get? ix.byName name).getD []
  match lang with
  | none => ids
  | some l => ids.filter fun id => (get? ix.symbols id).any (·.lang == l)

/-!
## Control flow

Statements follow one another in the order they stand in the source; a branching statement also leads to those of
its children that are statements or clauses.
-/

def branchKinds : Strings :=
  ["if_statement", "for_statement", "while_statement", "do_statement", "switch_statement", "case_statement",
    "else_clause", "try_statement", "except_clause", "catch_clause", "finally_clause"]

variable (leading : String) (t : Tree) (source : Bytes) (root : Tree)

def isStatement : Bool := finishesWith "_statement" t.kind

def isBranchTarget : Bool := isStatement t || finishesWith "_clause" t.kind

mutual

def statements : Tree → List Tree
  | t@(.node _ _ _ cs) => if isStatement t then t :: statementsAll cs else statementsAll cs

def statementsAll : List Tree → List Tree
  | [] => []
  | t :: ts => statements t ++ statementsAll ts

end

def branchEdges : List Edge :=
  if branchKinds.contains t.kind then
    (t.children.filter isBranchTarget).map fun c => ⟨blockId leading t, blockId leading c, "CFG_BRANCH", []⟩
  else []

/-- The edges of statements in order: each to the next one, then its branches. -/
def flowFrom : List Tree → List Edge
  | [] => []
  | [t] => branchEdges leading t
  | t :: u :: rest =>
    ⟨blockId leading t, blockId leading u, "CFG", []⟩ :: branchEdges leading t
      ++ flowFrom (u :: rest)

/-- The edges of control flow of a file. -/
def flow : List Edge := flowFrom leading (statements root)

/-!
## Definitions and uses

An assignment defines the first identifier below it, and later identifiers and calls take their value from the last
definition that a walk over the tree has met.
-/

def isAssignment : Bool := t.kind == "variable_declarator" || holds "assignment" t.kind

def variableKinds : Strings := ["identifier", "property_identifier", "field_identifier"]

def variablesBelow : List Tree := (Tree.walk [t]).filter fun n => variableKinds.contains n.kind

/-- The variable an assignment defines; empty when it has none. -/
def definedVariable (t : Tree) : String :=
  match (variablesBelow t).head? with
  | some n => n.text source
  | none => ""

def firstCall? : Option Tree := (Tree.walk [t]).find? fun n => callKinds.contains n.kind

structure DefUse where
  last : Pairs := []
  edges : List Edge := []

def DefUse.visit (d : DefUse) (t : Tree) : DefUse :=
  let id := blockId leading t
  if isAssignment t then
    let v := definedVariable source t
    if v == "" then d
    else
      let edges := match firstCall? t with
        | some c => d.edges ++ [⟨blockId leading c, id, "DDG", [("var", v), ("via", "rhs_call")]⟩]
        | none => d.edges
      ⟨Fields.insert d.last v id, edges⟩
  else if variableKinds.contains t.kind then
    let v := t.text source
    match Fields.get? d.last v with
    | some definition => { d with edges := d.edges ++ [⟨definition, id, "DDG", [("var", v)]⟩] }
    | none => d
  else if callKinds.contains t.kind then
    let uses := (variablesBelow t).filterMap fun n =>
      let v := n.text source
      (Fields.get? d.last v).map fun definition => (⟨definition, id, "DDG", [("var", v), ("via", "arg")]⟩ : Edge)
    { d with edges := d.edges ++ uses }
  else d

/-- The edges from definitions to the uses that they reach. -/
def defUse : List Edge := ((Tree.walk [root]).foldl (DefUse.visit leading source) {}).edges

/-!
## Slices of a graph

A slice is what can be reached from some nodes along all edges and calls, breadth first, up to a number of
nodes.
-/

variable (g : Graph) (id : String) (criteria : Strings) (limit : Int)

def allEdges : List Edge := g.edges ++ g.calls

def successors : Strings := (g.allEdges.filter (·.src == id)).map (·.dst)

def predecessors : Strings := (g.allEdges.filter (·.dst == id)).map (·.src)

/-- Adds to a queue, and to what was seen, those of some nodes that were not seen yet. -/
def discover (state : Strings × Strings) (next : Strings) : Strings × Strings :=
  next.foldl (fun (queue, seen) n =>
    if seen.contains n then (queue, seen) else (queue ++ [n], n :: seen)) state

/-- Takes up to `limit` nodes off a queue in order, adding what each leads to. -/
def spread (next : String → Strings) : Nat → Strings → Strings → Strings
  | 0, _, _ => []
  | _ + 1, [], _ => []
  | limit + 1, n :: queue, seen =>
    let (queue, seen) := discover (queue, seen) (next n)
    n :: spread next limit queue seen

/-- The nodes reachable from the criteria. A criterion given twice is listed twice. -/
def reach (next : String → Strings) (criteria : Strings) (limit : Int) : Strings :=
  spread next limit.toNat criteria criteria

def forwardSlice : Strings := reach g.successors criteria limit

def backwardSlice : Strings := reach g.predecessors criteria limit

/-!
## Taint in a graph

Paths along data flow and calls from given sources to sinks, depth first; a node is visited once per source.
-/

/-- Where taint goes from a node: along data flow, then along calls. -/
def taintedBy : Strings :=
  ((g.edges.filter fun e => e.kind == "DDG" && e.src == id) ++ g.calls.filter (·.src == id)).map
    (·.dst)

variable (next : String → Strings) (isSink : String → Bool) (maxSteps : Int) (cap : Nat) in
/-- One search: the stack of paths (each with its last node first), the nodes visited and the paths found. The
fuel bounds the nodes taken off the stack. -/
def searchTaint : Nat → List Strings → Strings → List Strings → List Strings
  | 0, _, _, found => found
  | _ + 1, [], _, found => found
  | fuel + 1, path :: stack, visited, found =>
    if cap ≤ found.length then found
    else match path with
      | [] => searchTaint fuel stack visited found
      | n :: _ =>
        if isSink n then searchTaint fuel stack visited (found ++ [path.reverse])
        else if maxSteps < path.length then searchTaint fuel stack visited found
        else
          let (stack, visited) := (next n).foldl (fun (stack, visited) m =>
            if visited.contains m then (stack, visited)
            else ((m :: path) :: stack, m :: visited)) (stack, visited)
          searchTaint fuel stack visited found

def taintCap : Nat := 1000

/-- The paths of taint from each source to the sinks that it reaches. -/
def taintPaths (sources : Strings) (isSink : String → Bool) (maxSteps : Int) : List Strings :=
  let fuel := g.edges.length + g.calls.length + 2
  sources.foldl (fun found s =>
    searchTaint g.taintedBy isSink maxSteps taintCap fuel [[s]] [s] found) []

end PatchReview.Graph
