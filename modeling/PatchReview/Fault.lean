import PatchReview.Json.Extract
import PatchReview.Encoding.Utf8
import PatchReview.Python.Token

/-!
# Faults

Why an operation did not end normally. The causes carry what their messages need.
-/

namespace PatchReview

inductive SystemCause where
  | noEntry
  | alreadyThere
  | notDirectory
  | isDirectory
  | notEmpty
  | tooManyLinks
  | nameTooLong
  | permission
  | sameFile

def SystemCause.code : SystemCause → Nat
  | noEntry => 2
  | permission => 13
  | alreadyThere => 17
  | notDirectory => 20
  | isDirectory => 21
  | nameTooLong => 36
  | notEmpty => 39
  | tooManyLinks => 40
  | sameFile => 0

def SystemCause.reason : SystemCause → String
  | noEntry => "No such file or directory"
  | permission => "Permission denied"
  | alreadyThere => "File exists"
  | notDirectory => "Not a directory"
  | isDirectory => "Is a directory"
  | nameTooLong => "File name too long"
  | notEmpty => "Directory not empty"
  | tooManyLinks => "Too many levels of symbolic links"
  | sameFile => "Same file"

/-- What is wrong with a part of a record: where it is, and the reason with its type. -/
structure Problem where
  location : Strings
  reason : String

namespace Problem

def within (name : String) (p : Problem) : Problem := { p with location := name :: p.location }

def display (p : Problem) : String := joinWith " -> " p.location ++ "\n  " ++ p.reason

/-- The locations of problems, in order and each once. -/
def locations (ps : List Problem) : Strings :=
  (ps.map fun p => joinWith "." p.location).mergeSort.eraseReps

def summary (record : String) (ps : List Problem) : String :=
  let many := if ps.length == 1 then "" else "s"
  joinWith "\n" (s!"{ps.length} validation error{many} for {record}" :: ps.map display)

end Problem

inductive Fault where
  | invalid (reason : String)
  | shape (reason : String)
  | lacking (reason : String)
  | missingKey (key : String)
  | outOfRange (reason : String)
  | overflow (reason : String)
  | system (cause : SystemCause) (path : String)
  /-- A file that is not there, under a message of its own. -/
  | notFound (reason : String)
  /-- A failed read or write under a message of its own. -/
  | unreadable (reason : String)
  | malformed (error : Json.ReadError)
  | undecodable (error : Utf8.DecodeError)
  | unknownEncoding (name : String)
  | pattern (reason : String)
  | constraint (reason : String)
  | operation (reason : String)
  | binding (reason : String)
  | notDatabase
  | failed (reason : String)
  | other (reason : String)
  /-- A record whose fields do not have the declared types. -/
  | rejected (record : String) (problems : List Problem)
  | exit (code : Int)
  | command (words : Strings) (code : Int)
  /-- A value that a document format cannot hold. -/
  | unrepresentable
  | noModule (name : String)
  | status (code : Int)
  | address (reason : String)
  | broken (reason : String)
  | unparsable (error : Python.SyntaxError)
  | unencodable (reason : String)
  | tooDeep

/-- What a step without effects gives: a value, or why there is none. -/
abbrev Result := Except Fault

def Fault.message : Fault → String
  | invalid reason | shape reason | lacking reason | outOfRange reason | overflow reason
  | notFound reason | unreadable reason | pattern reason | constraint reason | operation reason | failed reason
  | other reason | binding reason | broken reason | unencodable reason | address reason => reason
  | missingKey key => quoted key
  | system cause path => s!"[Errno {cause.code}] {cause.reason}: {quoted path}"
  | malformed e => e.message
  | undecodable e => e.message
  | unknownEncoding name => s!"unknown encoding: {name}"
  | notDatabase => "file is not a database"
  | rejected record problems => Problem.summary record problems
  | exit code => toString code
  | command words code => s!"Command '{quotedList words}' returned non-zero exit status {code}."
  | unrepresentable => "cannot represent an object"
  | noModule name => s!"No module named {quoted name}"
  | status code => s!"HTTP status {code}"
  | unparsable e => e.message
  | tooDeep => "maximum recursion depth exceeded"

/-- Whether a fault can be handled where it happens; leaving the program cannot. -/
def Fault.isError : Fault → Bool
  | exit _ => false
  | _ => true

end PatchReview
