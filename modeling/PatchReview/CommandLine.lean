import PatchReview.Json.Extract

/-!
# The command line

A command line has options with a value each. An option may be shortened as long as it stays unambiguous, and its
value may follow it or stand behind an equals sign.
-/

namespace PatchReview.CommandLine

open Fields

structure Arguments where
  repo : String
  base : String
  head : String
  output : String

inductive Ending where
  | help
  | mistake (reason : String)
  deriving DecidableEq

inductive Switch where
  | help
  | value (name : String)

def switches : List (String × Switch) := [
  ("-h", .help), ("--help", .help), ("--repo", .value "repo"), ("--base", .value "base"), ("--head", .value "head"),
  ("--output", .value "output")]

inductive Word where
  /-- A plain word, which may be a value. -/
  | plain (text : String)
  | switch (word : String) (s : Switch) (value : Option String)
  | unknown (text : String)
  /-- The mark after which all words are plain. -/
  | mark

variable (word : String)

/-- The word and the value around an equals sign. -/
def splitValue : String × Option String :=
  match cutOnce? "=" word with
  | some (name, value) => (name, some value)
  | none => (word, none)

/-- The options a word with a single hyphen may stand for. -/
def shortMeanings : List (String × Switch × Option String) :=
  switches.filterMap fun (name, s) =>
    if name == takeChars 2 word then some (name, s, some (dropChars 2 word))
    else if beginsWith word name then some (name, s, none) else none

def meanings : List (String × Switch × Option String) :=
  if beginsWith "--" word then
    let (lead, value) := splitValue word
    (switches.filter fun (name, _) => beginsWith lead name).map fun (name, s) => (name, s, value)
  else shortMeanings word

def allDigits (s : Chars) : Bool := !s.isEmpty && s.all Text.isDecimal

def isNegative : Bool :=
  match word.toList with
  | '-' :: rest =>
    allDigits rest || (match Text.breakOn? ['.'] rest with
      | some (whole, part) => whole.all Text.isDecimal && allDigits part
      | none => false)
  | _ => false

def ambiguity (names : Strings) : String := s!"ambiguous option: {word} could match " ++ joinWith ", " names

def wordOf : Except Ending Word :=
  if !beginsWith "-" word then .ok (.plain word)
  else match switches.lookup word with
    | some s => .ok (.switch word s none)
    | none =>
      let (name, value) := splitValue word
      if word.length == 1 then .ok (.plain word)
      else match value, switches.lookup name with
        | some _, some s => .ok (.switch name s value)
        | _, _ =>
          match meanings word with
          | [(name, s, value)] => .ok (.switch name s value)
          | [] => .ok (if isNegative word || holds " " word then .plain word else .unknown word)
          | several => .error (.mistake (ambiguity word (several.map (·.1))))

def wordsOf : Strings → Except Ending (List Word)
  | [] => .ok []
  | w :: ws =>
    if w == "--" then .ok (.mark :: ws.map .plain)
    else do
      let word ← wordOf w
      return word :: (← wordsOf ws)

structure Reading where
  values : Pairs := []
  extras : Strings := []

def ignored (value : String) : String := s!"argument -h/--help: ignored explicit argument {quoted value}"

/-- Whether letters after a short option for help ask for help as well. -/
def moreHelp : Chars → Bool
  | [] => false
  | cs => cs.all (· == 'h')

def readWords : Reading → List Word → Except Ending Reading
  | r, [] => .ok r
  | r, .plain w :: rest => readWords { r with extras := r.extras ++ [w] } rest
  | r, .unknown w :: rest => readWords { r with extras := r.extras ++ [w] } rest
  | r, .mark :: rest => readWords { r with extras := r.extras ++ ["--"] } rest
  | _, .switch word .help value :: _ =>
    match value with
    | none => .error .help
    | some v => if !beginsWith "--" word && moreHelp v.toList then .error .help else .error (.mistake (ignored v))
  | r, .switch _ (.value name) (some v) :: rest => readWords { r with values := insert r.values name v } rest
  | r, .switch _ (.value name) none :: .plain v :: rest => readWords { r with values := insert r.values name v } rest
  | _, .switch _ (.value name) none :: _ => .error (.mistake s!"argument --{name}: expected one argument")

def required : Strings := ["repo", "base", "head"]

def defaultOutput := "review_results.json"

def parse (words : Strings) : Except Ending Arguments := do
  let r ← readWords {} (← wordsOf words)
  let value (name : String) := (get? r.values name).getD ""
  let missing := required.filter fun name => !has r.values name
  if !missing.isEmpty then
    let names := joinWith ", " (missing.map ("--" ++ ·))
    throw (.mistake s!"the following arguments are required: {names}")
  if !r.extras.isEmpty then
    let extras := joinWith " " r.extras
    throw (.mistake s!"unrecognized arguments: {extras}")
  return ⟨value "repo", value "base", value "head", (get? r.values "output").getD defaultOutput⟩

def usage := "usage: main.py [-h] --repo REPO --base BASE --head HEAD [--output OUTPUT]\n"

def helpText : String := usage ++ joinWith "\n" ["", "AI Code Review Agent - Analyze Git PR diffs using LLM agents", "",
  "options:",
  "  -h, --help       show this help message and exit",
  "  --repo REPO      Path to the repository to review (required)",
  "  --base BASE      Target branch for Git diff (e.g., 'main', 'master')",
  "  --head HEAD      Source branch or commit for Git diff (e.g., 'feature-x',",
  "                   'HEAD')",
  "  --output OUTPUT  Path to save the review results JSON file (default:",
  "                   review_results.json)",
  "",
  "        Examples:",
  "        # Compare feature-x branch with main",
  "        python main.py --repo ./project --base main --head feature-x",
  "        ",
  "        # Compare current HEAD with main",
  "        python main.py --repo ./project --base main --head HEAD",
  "                ",
  ""]

def mistakeText (reason : String) : String := usage ++ s!"main.py: error: {reason}\n"

def Ending.code : Ending → Int
  | .help => 0
  | .mistake _ => 2

end PatchReview.CommandLine
