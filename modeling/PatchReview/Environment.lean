import PatchReview.Workspace

/-!
# Numbers in the environment

Variables that bound a run. One that is not set, or is no number, counts as its default.
-/

namespace PatchReview.Environment

variable (name : String)

def text : Action String := return strip ((← Action.envVar? name).getD "")

def whole (default : Int) : Action Int := return (Number.readInt? (← text name)).getD default

def real (default : Float) : Action Float := return (Number.readReal? (← text name)).getD default

end PatchReview.Environment

namespace PatchReview.Console

/-!
## Notes for whoever watches a run

A run is quiet unless the environment asks for notes.
-/

def verbose : Action Bool := do
  return isYes ((← Action.envVar? "CR_VERBOSE").getD "")

def note (s : String) : Action Unit := do
  if ← verbose then Action.say s

end PatchReview.Console
