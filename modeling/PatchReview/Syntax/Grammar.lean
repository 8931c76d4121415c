import PatchReview.Fault

/-!
# Finding a grammar

A parser is made from the first grammar that can be had: a module of its own for the language, a library in a file, or
a collection of parsers. When none can, the reasons are told together.
-/

namespace PatchReview.Syntax.Grammar

def providers : Pairs := [
  ("python", "tree_sitter_python"), ("go", "tree_sitter_go"), ("java", "tree_sitter_java"),
  ("ruby", "tree_sitter_ruby"), ("typescript", "tree_sitter_javascript")]

structure Library where
  path : String
  hasSymbol : Bool
  pointer : Json

structure Surroundings where
  installed : Bool
  /-- What the module of the language gives: none when it cannot be loaded, null when it gives nothing. -/
  provider : Option Json
  library : Option Library
  /-- The collection of parsers: an error unless it says ok. -/
  collection : Option String
  pointers : Bool
  /-- Why no grammar is accepted. -/
  grammarError : Option String
  hasSetter : Bool

structure Made where
  how : String
  basis : List Json

structure Complaint where
  kind : String
  reason : String

def Complaint.show (c : Complaint) : String := s!"{c.kind}({quoted c.reason})"

variable (s : Surroundings) (given : List Json)

def grammar : Except Complaint (List Json) :=
  match given with
  | .int _ :: _ => if !s.pointers then .error ⟨"TypeError", "pointer"⟩ else rest
  | _ => rest
where
  rest : Except Complaint (List Json) :=
    match s.grammarError with
    | some e => .error ⟨"ValueError", e⟩
    | none => .ok given

def parser : Made := ⟨if s.hasSetter then "set_language" else "language", given⟩

/-- The way over the module of the language: none when it gives nothing. -/
def fromProvider (module : String) : Except Complaint (Option Made) :=
  match s.provider with
  | none => .error ⟨"ModuleNotFoundError", s!"No module named '{module}'"⟩
  | some .null => .ok none
  | some v => do return some (parser s (← grammar s [v]))

/-- The way over a library. A pointer that is not accepted gives way to the path and the name. -/
def fromLibrary (l : Library) (lang : String) : Except Complaint Made := do
  let byName : List Json := [l.path, if lang == "typescript" then "javascript" else lang]
  match providers.lookup lang with
  | none => return parser s (← grammar s byName)
  | some symbol =>
    if !l.hasSymbol then throw ⟨"RuntimeError", s!"Grammar library missing symbol: {symbol}"⟩
    if !l.pointer.truthy then
      throw ⟨"RuntimeError", s!"Failed to obtain TSLanguage* from {symbol}"⟩
    match grammar s [l.pointer] with
    | .ok g => return parser s g
    | .error _ => return parser s (← grammar s byName)

def fromCollection (answer lang : String) : Except Complaint Made :=
  if answer == "ok" then .ok ⟨"prebuilt", [lang]⟩ else .error ⟨"ValueError", answer⟩

abbrev Way := Option (Except String Made)

def firstWay (lang : String) : List Way → Strings → Result Made
  | [], complaints =>
    let details := if complaints.isEmpty then "no detailed error captured"
      else joinWith "; " complaints
    .error (.failed s!"No parser available for language: {lang}. Details: {details}")
  | none :: ways, complaints => firstWay lang ways complaints
  | some (.ok m) :: _, _ => .ok m
  | some (.error c) :: ways, complaints => firstWay lang ways (complaints ++ [c])

def resolve (lang : String) : Result Made :=
  if !s.installed then .error (.failed "tree_sitter is not installed")
  else
    let provider : Way := match providers.lookup lang with
      | none => none
      | some module =>
        match fromProvider s module with
        | .ok none => none
        | .ok (some m) => some (.ok m)
        | .error c => some (.error s!"provider_module({module}) failed: {c.show}")
    let library : Way := s.library.map fun l =>
      match fromLibrary s l lang with
      | .ok m => .ok m
      | .error c => .error s!"local_so({l.path}) failed: {c.show}"
    let collection : Way := s.collection.map fun answer =>
      match fromCollection answer lang with
      | .ok m => .ok m
      | .error c => .error s!"tree_sitter_languages.get_parser({lang}) failed: {c.show}"
    firstWay lang [provider, library, collection] []

end PatchReview.Syntax.Grammar
