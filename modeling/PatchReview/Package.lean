import PatchReview.Fault

/-!
# What packages give out

A package gives out names that its parts define. Asking for a name tells the part and the name that is defined
there.
-/

namespace PatchReview.Package

def exports : List (String × List (String × Strings)) := [("lite_cpg.core", [
    ("cpg", ["LiteCPG", "Node", "Edge", "Symbol", "Span"]),
    ("builder", ["LiteCPGBuilder", "ParsedFile"]),
    ("ast_utils", ["flatten_ts", "span_for"]),
    ("cfg", ["build_cfg"]),
    ("calls", ["extract_calls"]),
    ("dataflow", ["build_def_use", "propagate_taint"]),
    ("languages", ["create_parser", "normalize_lang"]),
    ("symbol_index", ["SymbolIndex", "collect_symbols"])]),
  ("lite_cpg.analysis", [("slicer", ["backward_slice", "forward_slice"]),
    ("taint", ["forward_taint_paths_store", "backward_taint_paths_store", "TaintOptions"]),
    ("source_sink", ["SourceSinkConfig", "DEFAULT_SOURCE_SINK_CONFIG"])]),
  ("lite_cpg.store", [("base", ["LiteCPGStore"]),
    ("backends.sqlite", ["index_repository", "default_store_paths", "StorePaths"])])]

def typeOf (name : String) : String := if name == "DEFAULT_SOURCE_SINK_CONFIG" then "SourceSinkConfig" else name

/-- The part that defines a name of a package, and the name there. -/
def find (package name : String) : Result (String × String) :=
  match (exports.lookup package).bind fun parts => parts.find? (·.2.contains name) with
  | some (part, _) => .ok (s!"{package}.{part}", typeOf name)
  | none => .error (.lacking s!"module '{package}' has no attribute '{name}'")

def demonstration : Fault := .noModule "lite_cpg.llm"

end PatchReview.Package
