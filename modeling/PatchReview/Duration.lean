import PatchReview.Json.Printer

/-!
# Durations

Seconds written with hours and minutes where there are any, and the time since a run started.
-/

namespace PatchReview.Duration

open Fields Number

variable (x : Float)

/-- The remainder of a nonnegative number by 60, exact. -/
def modSixty : Float :=
  match Number.Binary.ofFloat? x with
  | none => 0.0 / 0.0
  | some b =>
    let (num, den) :=
      if 0 ≤ b.exponent then (b.mantissa * twoTo b.exponent.toNat, 0)
      else (b.mantissa, (-b.exponent).toNat)
    Float.scaleB (Float.ofNat (num % (60 * twoTo den))) (-(den : Int))

def divSixty : Float × Float :=
  let r := modSixty x
  let q := (x - r) / 60.0
  let f := q.floor
  (if q - f > 0.5 then f + 1.0 else f, r)

def twoDigits (n : Int) : String := padLeft '0' 2 (toString n)

def paddedSeconds : String := padLeft '0' 5 (fixedPlaces 2 x)

def render (seconds : Float) : String :=
  let seconds := if 0.0 < seconds then seconds else 0.0
  let (m, s) := divSixty seconds
  let (h, m) := divSixty m
  let whole (x : Float) : Int := (truncate? x).getD 0
  if h ≥ 1.0 then s!"{whole h}h{twoDigits (whole m)}m{paddedSeconds s}s"
  else if m ≥ 1.0 then s!"{whole m}m{paddedSeconds s}s"
  else s!"{Number.fixedPlaces 2 s}s"

variable (facts : Json.Object) (now : Float)

/-- The seconds since the start noted in a run's facts, 0 when none is noted. -/
def elapsed : Float :=
  match get? facts "run_started_at" with
  | none | some .null => 0.0
  | some v =>
    match v.toReal with
    | .ok started => let d := now - started; if 0.0 < d then d else 0.0
    | .error _ => 0.0

def tag : String := "t+" ++ render (elapsed facts now)

def noteStart : Json.Object :=
  if has facts "run_started_at" then facts
  else insert facts "run_started_at" now

end PatchReview.Duration
