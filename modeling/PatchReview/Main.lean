import PatchReview.CommandLine
import PatchReview.Review.Run
import PatchReview.Snapshot

/-!
# The program

The command line says which change to review. What the run works on is read from the standard input as one document:
files, environment, and the replies of commands and of the model. What the run prints goes to the standard output.
-/

namespace PatchReview

def recordedHome : Trail := ["workspace"]

def runRecorded (a : CommandLine.Arguments) (document : Json) : UInt32 × String :=
  let home := FileTree.pathOf recordedHome
  let order : Review.Order := { home, repo := Path.ofString a.repo, base := a.base, head := a.head }
  let (r, w) := order.run.run (Snapshot.read recordedHome document)
  match r with
  | .ok code => (code.toNat.toUInt32, w.printed)
  | .error (.exit code) => (code.toNat.toUInt32, w.printed)
  | .error e => (1, w.printed ++ e.message ++ "\n")

partial def readAll (input : IO.FS.Stream) (text : String) : IO String := do
  let line ← input.getLine
  if line.isEmpty then return text else readAll input (text ++ line)

end PatchReview

open PatchReview CommandLine in
def main (words : List String) : IO UInt32 := do
  match parse words with
  | .error .help =>
    IO.print helpText
    return 0
  | .error (.mistake reason) =>
    IO.eprint (mistakeText reason)
    return 2
  | .ok a =>
    match Json.read (← readAll (← IO.getStdin) "") with
    | .error e =>
      IO.eprintln e.message
      return 1
    | .ok document =>
      let (code, printed) := runRecorded a document
      IO.print printed
      return code
